import Mathlib.Tactic

/-!
# Lib — programs over an operation signature

`Free Op α` is a program that performs operations of a signature `Op` one at a time and
returns an `α`. It fixes *which* operations a piece of code performs and in *which order*
and leaves open what they do, so that one program text can be run against several
semantics (a plain store, a store that fails, two clients interleaved).

* `Free.run h` — the sequential semantics: a handler `h` says what one operation does to
  a state, and `run` threads the state through;
* `run_pure` / `run_bind` / `run_perform` — the `simp` set that executes a program
  symbolically, one operation at a time;
* `Free.runUntil h n` — the same semantics stopped after `n` operations, by an operation that
  fails or by a crash: the result is `none` when the program was not done;
* `Free.Reads h n p q s` — from `s`, the program `p` performs `n` operations that leave the
  state alone and goes on as `q`. Following a program up to its first write this way serves
  the whole run (`Reads.run_eq`) and every stopped one (`Reads.runUntil_eq`).
-/

/-- A program over the operations `Op`. -/
inductive Free (Op : Type → Type) (α : Type) : Type 1
  | done (a : α)
  | call {β : Type} (op : Op β) (k : β → Free Op α)

namespace Free

variable {Op : Type → Type} {α β σ : Type}

/-- Sequencing: what follows `done` is the continuation itself. -/
def bind : Free Op α → (α → Free Op β) → Free Op β
  | done a, f => f a
  | call op k, f => call op (fun b => (k b).bind f)

instance : Monad (Free Op) where
  pure := done
  bind := bind

/-- Perform a single operation and return its result. -/
def perform (op : Op β) : Free Op β := call op done

/-- The sequential semantics: `h` is what one operation returns and does to the state. -/
def run (h : ∀ {β : Type}, Op β → σ → β × σ) : Free Op α → σ → α × σ
  | done a, s => (a, s)
  | call op k, s => (k (h op s).1).run h (h op s).2

section Run

variable (h : ∀ {β : Type}, Op β → σ → β × σ)

@[simp] theorem run_pure (a : α) (s : σ) : run h (pure a : Free Op α) s = (a, s) := rfl

@[simp] theorem run_perform (op : Op β) (s : σ) : run h (perform op) s = h op s := rfl

/-- Running a sequence runs the first part, then the second from the state it left.
Induction on the first program. -/
@[simp] theorem run_bind (p : Free Op α) (f : α → Free Op β) (s : σ) :
    run h (p >>= f) s = run h (f (run h p s).1) (run h p s).2 := by
  induction p generalizing s with
  | done a => rfl
  | call op k ih => exact ih (h op s).1 (h op s).2

/-- States that no operation tells apart are not told apart by a program. Induction on the
program. -/
theorem run_congr {R : σ → σ → Prop}
    (hop : ∀ {β : Type} (op : Op β) {s t : σ}, R s t → (h op s).1 = (h op t).1 ∧ R (h op s).2 (h op t).2)
    (p : Free Op α) {s t : σ} (hst : R s t) :
    (run h p s).1 = (run h p t).1 ∧ R (run h p s).2 (run h p t).2 := by
  induction p generalizing s t with
  | done a => exact ⟨rfl, hst⟩
  | call op k ih =>
    obtain ⟨hres, hnext⟩ := hop op hst
    show (run h (k (h op s).1) (h op s).2).1 = (run h (k (h op t).1) (h op t).2).1
      ∧ R (run h (k (h op s).1) (h op s).2).2 (run h (k (h op t).1) (h op t).2).2
    rw [hres]
    exact ih _ hnext

end Run

/-! ## Stopped runs -/

/-- Perform at most `n` operations. A program that would need more has no result. -/
def runUntil (h : ∀ {β : Type}, Op β → σ → β × σ) : Free Op α → Nat → σ → Option α × σ
  | done a, _, s => (some a, s)
  | call _ _, 0, s => (none, s)
  | call op k, n + 1, s => runUntil h (k (h op s).1) n (h op s).2

section RunUntil

variable (h : ∀ {β : Type}, Op β → σ → β × σ)

@[simp] theorem runUntil_pure (a : α) (n : Nat) (s : σ) :
    runUntil h (pure a : Free Op α) n s = (some a, s) := by
  cases n <;> rfl

@[simp] theorem runUntil_perform_zero (op : Op β) (f : β → Free Op α) (s : σ) :
    runUntil h (perform op >>= f) 0 s = (none, s) := rfl

@[simp] theorem runUntil_perform_succ (op : Op β) (f : β → Free Op α) (n : Nat) (s : σ) :
    runUntil h (perform op >>= f) (n + 1) s = runUntil h (f (h op s).1) n (h op s).2 := rfl

/-- From `s`, the program `p` performs `n` operations that do not change the state, and goes
on as `q`. -/
inductive Reads : Nat → Free Op α → Free Op α → σ → Prop
  | refl (p : Free Op α) (s : σ) : Reads 0 p p s
  | step {γ : Type} {n : Nat} {op : Op γ} {f : γ → Free Op α} {q : Free Op α} {s : σ}
      (hop : (h op s).2 = s) (hf : Reads n (f (h op s).1) q s) : Reads (n + 1) (call op f) q s

namespace Reads

variable {h} {n : Nat} {p q : Free Op α} {s : σ}

/-- Reading is not disturbed by what comes after. Induction on the reads. -/
theorem bind (hr : Reads h n p q s) (f : α → Free Op β) : Reads h n (p >>= f) (q >>= f) s := by
  induction hr with
  | refl p s => exact .refl _ _
  | step hop hf ih => exact .step hop ih

/-- The whole run is the run of the rest. Induction on the reads. -/
theorem run_eq (hr : Reads h n p q s) : run h p s = run h q s := by
  induction hr with
  | refl p s => rfl
  | @step γ n op f q s hop hf ih =>
    show run h (f (h op s).1) (h op s).2 = _
    rw [hop]
    exact ih

/-- A stopped run is over before the rest begins, or is a stopped run of the rest. -/
theorem runUntil_eq (hr : Reads h n p q s) (m : Nat) :
    runUntil h p m s = if m < n then (none, s) else runUntil h q (m - n) s := by
  induction hr generalizing m with
  | refl p s => rfl
  | @step γ n op f q s hop hf ih =>
    cases m with
    | zero => rfl
    | succ m =>
      show runUntil h (f (h op s).1) m (h op s).2 = _
      rw [hop, ih]
      simp only [Nat.add_lt_add_iff_right, Nat.add_sub_add_right]

end Reads

end RunUntil

end Free

import Mathlib.Tactic

/-!
# Lib — triples for stateful programs that can fail

Programs here live in `EStateM ε σ`: a state `σ` that survives an error of type `ε`.
`Triple P m Q E` is the usual judgement with two postconditions, one for each way out:
from a state where `P` holds, `m` either returns with `Q` or fails with `E`.

The rule set has two levels:

* `Triple.*` — one rule per program former (`pure`, `bind`, `throw`, `get`, `modify`,
  loops), for the places where an argument follows the program;
* `Keeps I E m` — the invariant form: `m` keeps `I` whichever way it ends, and fails only
  if `E`. Most programs are shown to keep an invariant by `Keeps.*` alone, and taking
  `E := False` makes the same lemma say that the program does not fail.

`Triple` is a structure, so that comparing two judgements compares the programs and never
runs them.
-/

variable {ε σ α β : Type}

/-- From `P`, the program returns with `Q` or fails with `E`. -/
structure Triple (P : σ → Prop) (m : EStateM ε σ α) (Q : α → σ → Prop) (E : ε → σ → Prop) :
    Prop where
  run : ∀ s, P s → match m s with
    | .ok a s' => Q a s'
    | .error e s' => E e s'

namespace Triple

variable {P P' : σ → Prop} {Q Q' : α → σ → Prop} {E E' : ε → σ → Prop}

/-- Returning a value. -/
theorem pure {a : α} (h : ∀ s, P s → Q a s) : Triple P (Pure.pure a : EStateM ε σ α) Q E :=
  ⟨fun s hs => h s hs⟩

/-- Failing. -/
theorem throw {e : ε} (h : ∀ s, P s → E e s) :
    Triple P (MonadExcept.throw e : EStateM ε σ α) Q E :=
  ⟨fun s hs => h s hs⟩

/-- Reading the state. -/
theorem get {Q : σ → σ → Prop} (h : ∀ s, P s → Q s s) :
    Triple P (MonadState.get : EStateM ε σ σ) Q E :=
  ⟨fun s hs => h s hs⟩

/-- Changing the state. -/
theorem modify {f : σ → σ} {Q : PUnit → σ → Prop} (h : ∀ s, P s → Q ⟨⟩ (f s)) :
    Triple P (modifyThe σ f : EStateM ε σ PUnit) Q E :=
  ⟨fun s hs => h s hs⟩

/-- Changing the state and returning something. -/
theorem modifyGet {f : σ → α × σ} (h : ∀ s, P s → Q (f s).1 (f s).2) :
    Triple P (MonadStateOf.modifyGet f : EStateM ε σ α) Q E :=
  ⟨fun s hs => h s hs⟩

/-- The rule of sequencing: the intermediate assertion is the first postcondition. -/
theorem bind {m : EStateM ε σ β} {f : β → EStateM ε σ α} {R : β → σ → Prop}
    (hm : Triple P m R E) (hf : ∀ b, Triple (R b) (f b) Q E) : Triple P (m >>= f) Q E := by
  refine ⟨fun s hs => ?_⟩
  have hms := hm.run s hs
  show match EStateM.bind m f s with
    | .ok a s' => Q a s'
    | .error e s' => E e s'
  unfold EStateM.bind
  cases h : m s with
  | ok b s' =>
    rw [h] at hms
    exact (hf b).run s' hms
  | error e s' =>
    rw [h] at hms
    exact hms

/-- After `get`, the state is the one that was read. -/
theorem get_bind {f : σ → EStateM ε σ α} (hf : ∀ s, P s → Triple (· = s) (f s) Q E) :
    Triple P (MonadState.get >>= f) Q E :=
  ⟨fun s hs => (hf s hs).run s rfl⟩

/-- Strengthen the precondition, weaken the postconditions. -/
theorem imp {m : EStateM ε σ α} (h : Triple P m Q E) (hP : ∀ s, P' s → P s)
    (hQ : ∀ a s, Q a s → Q' a s) (hE : ∀ e s, E e s → E' e s) : Triple P' m Q' E' := by
  refine ⟨fun s hs => ?_⟩
  have hms := h.run s (hP s hs)
  cases hm : m s with
  | ok a s' =>
    rw [hm] at hms
    exact hQ a s' hms
  | error e s' =>
    rw [hm] at hms
    exact hE e s' hms

/-- Both branches, each with what its condition says. -/
theorem ite {c : Prop} [Decidable c] {m n : EStateM ε σ α} (hm : c → Triple P m Q E)
    (hn : ¬c → Triple P n Q E) : Triple P (if c then m else n) Q E := by
  split
  · next h => exact hm h
  · next h => exact hn h

/-- A fact that does not mention the state may be used from the precondition. -/
theorem of_fact {A : Prop} {m : EStateM ε σ α} (h : A → Triple P m Q E) :
    Triple (fun s => A ∧ P s) m Q E :=
  ⟨fun s hs => (h hs.1).run s hs.2⟩

end Triple

/-! ## Invariants -/

/-- `m` keeps `I` on both ways out, and fails only if `E`. -/
def Keeps (I : σ → Prop) (E : Prop) (m : EStateM ε σ α) : Prop :=
  Triple I m (fun _ s => I s) (fun _ s => I s ∧ E)

namespace Keeps

variable {I : σ → Prop} {E : Prop}

/-- Returning keeps every invariant. -/
theorem pure {a : α} : Keeps I E (Pure.pure a : EStateM ε σ α) := Triple.pure fun _ hs => hs

/-- Failing too, if it is allowed. -/
theorem throw {e : ε} (h : E) : Keeps I E (MonadExcept.throw e : EStateM ε σ α) :=
  Triple.throw fun _ hs => ⟨hs, h⟩

/-- And reading. -/
theorem get : Keeps I E (MonadState.get : EStateM ε σ σ) := Triple.get fun _ hs => hs

/-- A change that keeps the invariant. -/
theorem modify {f : σ → σ} (h : ∀ s, I s → I (f s)) :
    Keeps I E (modifyThe σ f : EStateM ε σ PUnit) :=
  Triple.modify h

/-- The same with a value. -/
theorem modifyGet {f : σ → α × σ} (h : ∀ s, I s → I (f s).2) :
    Keeps I E (MonadStateOf.modifyGet f : EStateM ε σ α) :=
  Triple.modifyGet h

/-- One program after the other. -/
theorem bind {m : EStateM ε σ β} {f : β → EStateM ε σ α} (hm : Keeps I E m)
    (hf : ∀ b, Keeps I E (f b)) : Keeps I E (m >>= f) :=
  Triple.bind hm hf

/-- The state that is read satisfies the invariant. -/
theorem get_bind {f : σ → EStateM ε σ α} (hf : ∀ s, I s → Keeps I E (f s)) :
    Keeps I E (MonadState.get >>= f) :=
  ⟨fun s hs => (hf s hs).run s hs⟩

/-- Both branches. -/
theorem ite {c : Prop} [Decidable c] {m n : EStateM ε σ α} (hm : c → Keeps I E m)
    (hn : ¬c → Keeps I E n) : Keeps I E (if c then m else n) :=
  Triple.ite hm hn

/-- A loop keeps what its body keeps. Induction on the list. -/
theorem forM {l : List β} {f : β → EStateM ε σ PUnit} (hf : ∀ b ∈ l, Keeps I E (f b)) :
    Keeps I E (ForM.forM l f) := by
  induction l with
  | nil => exact Keeps.pure
  | cons b l ih =>
    rw [List.forM_cons]
    refine Keeps.bind (hf b (by simp)) (fun _ => ih ?_)
    intro c hc
    exact hf c (by simp [hc])

/-- The state after a program that keeps `I`, whichever way it ended. -/
theorem state {m : EStateM ε σ α} (h : Keeps I E m) {s : σ} (hs : I s) :
    match m s with
    | .ok _ s' => I s'
    | .error _ s' => I s' := by
  have hms := h.run s hs
  cases hm : m s with
  | ok a s' =>
    rw [hm] at hms
    exact hms
  | error e s' =>
    rw [hm] at hms
    exact hms.1

/-- A program that fails only if `False` returns. -/
theorem returns {m : EStateM ε σ α} (h : Keeps I False m) {s : σ} (hs : I s) :
    ∃ a s', m s = .ok a s' := by
  have hms := h.run s hs
  cases hm : m s with
  | ok a s' => exact ⟨a, s', rfl⟩
  | error e s' =>
    rw [hm] at hms
    exact absurd hms.2 not_false

end Keeps

/-! ## Running a program

Equations for following one run, where the exact state matters. -/

section

variable {m : EStateM ε σ β} {f : β → EStateM ε σ α} {s s' : σ}

/-- What reading gives. -/
theorem run_get : (get : EStateM ε σ σ) s = .ok s s := rfl

/-- What a change leaves. -/
theorem run_modify (f : σ → σ) : (modify f : EStateM ε σ PUnit) s = .ok ⟨⟩ (f s) := rfl

/-- After a program that returned. -/
theorem run_bind_of_ok {b : β} (h : m s = .ok b s') : (m >>= f) s = f b s' := by
  show EStateM.bind m f s = _
  rw [EStateM.bind, h]

/-- After one that failed nothing is run. -/
theorem run_bind_of_error {e : ε} (h : m s = .error e s') : (m >>= f) s = .error e s' := by
  show EStateM.bind m f s = _
  rw [EStateM.bind, h]

/-- The state a run ends in, whichever way it ends. -/
def finalState : EStateM.Result ε σ α → σ
  | .ok _ s => s
  | .error _ s => s

/-- Dropping the result leaves the state. -/
theorem finalState_discard (m : EStateM ε σ α) (s : σ) :
    finalState ((do let _ ← m : EStateM ε σ PUnit) s) = finalState (m s) := by
  cases hrun : m s with
  | ok a s' => exact congrArg finalState (run_bind_of_ok hrun)
  | error e s' => exact congrArg finalState (run_bind_of_error hrun)

/-- The run returned. -/
def succeeded : EStateM.Result ε σ α → Bool
  | .ok _ _ => true
  | .error _ _ => false

/-- A run that is seen to succeed. -/
theorem eq_ok_of_succeeded {r : EStateM.Result ε σ PUnit} (h : succeeded r = true) :
    r = .ok ⟨⟩ (finalState r) := by
  cases r with
  | ok u s => rfl
  | error e s => cases h

/-- An invariant holds at the end, whichever way the run ends. -/
theorem Keeps.finalState {I : σ → Prop} {E : Prop} {m : EStateM ε σ α} (h : Keeps I E m) {s : σ}
    (hs : I s) : I (finalState (m s)) := by
  have hstate := h.state hs
  cases hrun : m s with
  | ok a s' =>
    rw [hrun] at hstate
    exact hstate
  | error e s' =>
    rw [hrun] at hstate
    exact hstate

end

import Mathlib.Tactic

/-!
# Lib — the latest entry that counts

A flag that some entries of a log raise, some lower and most leave alone is up exactly if the
latest entry that moves it raises it.

* `latest` — the latest element with a property;
* `SwitchedOn` — the flag, read off the log;
* `foldl_iff_switchedOn` — a flag that is kept entry by entry is that one.
-/

namespace Latest

variable {α : Type}

/-- The latest element with a property. -/
def latest (p : α → Bool) (l : List α) : Option α := l.reverse.find? p

theorem latest_concat (p : α → Bool) (l : List α) (a : α) :
    latest p (l ++ [a]) = if p a then some a else latest p l := by
  unfold latest
  rw [List.reverse_append, List.reverse_singleton, List.singleton_append, List.find?_cons]
  cases p a with
  | true => rfl
  | false => rfl

/-- The latest element that switches on or off switches on. -/
def SwitchedOn (on off : α → Bool) (l : List α) : Prop :=
  ∃ a, latest (fun a => on a || off a) l = some a ∧ on a = true

variable {on off : α → Bool}

/-- One more entry. -/
theorem switchedOn_concat {l : List α} {a : α} :
    SwitchedOn on off (l ++ [a]) ↔ on a = true ∨ off a = false ∧ SwitchedOn on off l := by
  unfold SwitchedOn
  rw [latest_concat]
  cases hon : on a with
  | true => simp [hon]
  | false =>
    cases hoff : off a with
    | true => simp [hon]
    | false => simp

/-- **The flag follows the log.** A flag that is down at the start, and is up after an entry if the
entry switches on, or if it does not switch off and the flag was up. Induction from the end. -/
theorem foldl_iff_switchedOn {σ : Type} {act : σ → α → σ} (flag : σ → Prop) {s : σ} {l : List α}
    (hstart : ¬ flag s)
    (hstep : ∀ a ∈ l, ∀ s, flag (act s a) ↔ on a = true ∨ off a = false ∧ flag s) :
    flag (l.foldl act s) ↔ SwitchedOn on off l := by
  induction l using List.reverseRecOn with
  | nil =>
    refine iff_of_false hstart ?_
    rintro ⟨a, ha, -⟩
    cases ha
  | append_singleton l a ih =>
    have hl := ih fun b hb => hstep b (List.mem_append_left _ hb)
    rw [List.foldl_append, List.foldl_cons, List.foldl_nil,
      hstep a (List.mem_append_right _ (List.mem_singleton_self a)), hl, switchedOn_concat]

end Latest

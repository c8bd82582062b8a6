import Mathlib.Data.List.DropRight

/-!
# Lib — the most recent entries of a history

A history grows at its end, and a window keeps the last `n` entries of it. What is in the window is
what was entered last less than `n` entries ago.

* `rtake_rtake_append` — the window of the longer history is made from the window;
* `mem_rtake_iff` — what is in the window.
-/

namespace Recent

variable {α : Type}

/-- The latest entry of `a` is among the last `n` entries. -/
def LatestWithin (n : Nat) (a : α) (history : List α) : Prop :=
  ∃ before after, history = before ++ a :: after ∧ a ∉ after ∧ after.length < n

theorem length_rtake (history : List α) (n : Nat) :
    (history.rtake n).length = min history.length n := by
  rw [List.rtake, List.length_drop]
  omega

theorem rtake_of_length_le {history : List α} {n : Nat} (h : history.length ≤ n) :
    history.rtake n = history := by
  rw [List.rtake, Nat.sub_eq_zero_of_le h, List.drop_zero]

theorem rtake_cons {a : α} {history : List α} {n : Nat} (h : n ≤ history.length) :
    (a :: history).rtake n = history.rtake n := by
  rw [List.rtake, List.rtake, List.length_cons, Nat.succ_sub h, List.drop_succ_cons]

/-- Cutting down to the window again changes nothing. -/
theorem rtake_rtake (history : List α) (n : Nat) : (history.rtake n).rtake n = history.rtake n := by
  refine rtake_of_length_le ?_
  rw [length_rtake]
  omega

theorem rtake_rtake_append (history : List α) (n : Nat) (a : α) :
    (history.rtake n ++ [a]).rtake n = (history ++ [a]).rtake n := by
  cases n with
  | zero => rw [List.rtake_zero, List.rtake_zero]
  | succ n =>
    rw [List.rtake_concat_succ, List.rtake_concat_succ]
    -- the last n of the last n + 1 are the last n
    rw [List.rtake_eq_reverse_take_reverse, List.rtake_eq_reverse_take_reverse,
      List.rtake_eq_reverse_take_reverse, List.reverse_reverse, List.take_take,
      Nat.min_eq_left (Nat.le_succ n)]

/-- **What is in the window.** -/
theorem mem_rtake_iff {a : α} {history : List α} {n : Nat} :
    a ∈ history.rtake n ↔ LatestWithin n a history := by
  constructor
  · intro h
    obtain ⟨before, after, hsplit, hlast⟩ := List.eq_append_cons_of_mem (List.mem_reverse.mpr h)
    have hwindow : history.rtake n = after.reverse ++ a :: before.reverse := by
      rw [← List.reverse_reverse (history.rtake n), hsplit]
      simp
    refine ⟨history.take (history.length - n) ++ after.reverse, before.reverse, ?_, ?_, ?_⟩
    · calc history = history.take (history.length - n) ++ history.rtake n :=
            (List.take_append_drop _ _).symm
        _ = _ := by rw [hwindow, List.append_assoc]
    · rwa [List.mem_reverse]
    · have hlength := congrArg List.length hwindow
      rw [length_rtake, List.length_append, List.length_cons] at hlength
      omega
  · rintro ⟨before, after, rfl, -, hshort⟩
    rw [List.rtake, List.length_append, List.length_cons, List.drop_append]
    refine List.mem_append_right _ ?_
    rw [show before.length + (after.length + 1) - n - before.length = 0 by omega]
    exact List.mem_cons_self

end Recent

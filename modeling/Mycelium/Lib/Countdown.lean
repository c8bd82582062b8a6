import Mathlib.Tactic

/-!
# Lib — exchanges that run out

A system takes steps, and each step puts out some labels. A countdown is a family of stages: at
stage `k + 1` there is a step, every step leads to a lower stage, and what it puts out is taken
from what the stage may still put out. So a run has at most as many steps as its stage, puts out
nothing but what the stage allows, in that order, and can be continued to stage `0`.
-/

namespace Countdown

variable {σ κ : Type}

/-- `Run step s out n t` — from `s`, `n` steps that put out `out` lead to `t`. -/
inductive Run (step : σ → List κ → σ → Prop) : σ → List κ → Nat → σ → Prop
  | nil (s : σ) : Run step s [] 0 s
  | cons {s t u : σ} {out out' : List κ} {n : Nat} :
      step s out t → Run step t out' n u → Run step s (out ++ out') (n + 1) u

/-- The stages of a system, and what each may still put out. -/
structure Stages (step : σ → List κ → σ → Prop) (Due : Nat → σ → Prop) (rest : Nat → List κ) :
    Prop where
  fires : ∀ {k s}, Due (k + 1) s → ∃ out t, step s out t
  down : ∀ {k s out t}, Due k s → step s out t → ∃ j < k, Due j t ∧ (out ++ rest j).Sublist (rest k)

variable {step : σ → List κ → σ → Prop} {Due : Nat → σ → Prop} {rest : Nat → List κ}

/-- A run goes down by at least one stage at each step. Induction on the run. -/
theorem Stages.run (h : Stages step Due rest) {s t : σ} {out : List κ} {n : Nat}
    (hrun : Run step s out n t) :
    ∀ {k : Nat}, Due k s → ∃ j, n + j ≤ k ∧ Due j t ∧ (out ++ rest j).Sublist (rest k) := by
  induction hrun with
  | nil s =>
    intro k hk
    exact ⟨k, by omega, hk, List.Sublist.refl _⟩
  | cons hstep _ ih =>
    intro k hk
    obtain ⟨i, hik, hi, hout⟩ := h.down hk hstep
    obtain ⟨j, hji, hj, hout'⟩ := ih hi
    refine ⟨j, by omega, hj, ?_⟩
    rw [List.append_assoc]
    exact (hout'.append_left _).trans hout

/-- Every stage can be run down to the last one. Strong induction on the stage. -/
theorem Stages.ends (h : Stages step Due rest) {k : Nat} :
    ∀ {s : σ}, Due k s → ∃ out n t, Run step s out n t ∧ Due 0 t := by
  induction k using Nat.strong_induction_on with
  | _ k ih =>
    intro s hs
    cases k with
    | zero => exact ⟨[], 0, s, .nil s, hs⟩
    | succ k =>
      obtain ⟨out, t, hstep⟩ := h.fires hs
      obtain ⟨j, hjk, hj, -⟩ := h.down hs hstep
      obtain ⟨out', n, u, hrun, hu⟩ := ih j hjk hj
      exact ⟨out ++ out', n + 1, u, .cons hstep hrun, hu⟩

end Countdown

import Mathlib.Tactic

/-!
# Lib — loops that have to be shown to end

`loop body fuel s` runs `body` from `s` until it answers with a result, at most `fuel` times. It
is the meaning of a `while` with early returns: `.inl` goes round again, `.inr` leaves.

* `loop_ends` — an invariant with a measure that every round decreases: the loop has a result,
  the same for every amount of fuel above the measure, and the result meets the postcondition.
-/

namespace Mycelium

variable {σ ρ : Type}

/-- The result of the loop, or `none` when the fuel runs out. -/
def loop (body : σ → σ ⊕ ρ) : Nat → σ → Option ρ
  | 0, _ => none
  | fuel + 1, s =>
    match body s with
    | .inl s' => loop body fuel s'
    | .inr r => some r

theorem loop_continue {body : σ → σ ⊕ ρ} {s s' : σ} (h : body s = .inl s') (fuel : Nat) :
    loop body (fuel + 1) s = loop body fuel s' := by
  rw [loop, h]

theorem loop_exit {body : σ → σ ⊕ ρ} {s : σ} {r : ρ} (h : body s = .inr r) (fuel : Nat) :
    loop body (fuel + 1) s = some r := by
  rw [loop, h]

/-- **A loop with a variant ends.** Strong induction on the measure. -/
theorem loop_ends (body : σ → σ ⊕ ρ) (Inv : σ → Prop) (Post : ρ → Prop) (μ : σ → Nat)
    (hround : ∀ s s', Inv s → body s = .inl s' → Inv s' ∧ μ s' < μ s)
    (hexit : ∀ s r, Inv s → body s = .inr r → Post r) {s : σ} (hs : Inv s) :
    ∃ r, Post r ∧ ∀ fuel, μ s < fuel → loop body fuel s = some r := by
  generalize hμ : μ s = m
  induction m using Nat.strongRecOn generalizing s with
  | ind m ih =>
    subst hμ
    cases hbody : body s with
    | inl s' =>
      obtain ⟨hs', hdec⟩ := hround s s' hs hbody
      obtain ⟨r, hr, hloop⟩ := ih (μ s') hdec hs' rfl
      refine ⟨r, hr, fun fuel hfuel => ?_⟩
      obtain ⟨fuel, rfl⟩ := Nat.exists_eq_add_one_of_ne_zero (show fuel ≠ 0 by omega)
      rw [loop_continue hbody]
      exact hloop fuel (by omega)
    | inr r =>
      refine ⟨r, hexit s r hs hbody, fun fuel hfuel => ?_⟩
      obtain ⟨fuel, rfl⟩ := Nat.exists_eq_add_one_of_ne_zero (show fuel ≠ 0 by omega)
      exact loop_exit hbody fuel

end Mycelium

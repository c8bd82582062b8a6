import Mathlib.Logic.Hydra
import Mathlib.Tactic.Abel

/-!
# Lib — processes of tokens

A token is used up and leaves others behind: `next t` is what handling `t` creates. The state of
the process is the multiset of tokens that are still to be handled, and any of them may be next.

* `Fires next M M'` — one token of `M` is handled;
* `acc_fires_iff` — the process ends in every order exactly when every single token has only
  finite chains of descendants;
* `acc_iff_no_cycle` — over a finite type, exactly when no token is its own descendant.
-/

variable {τ : Type*}

/-- One of the tokens is handled and replaced by those it creates. -/
def Fires (next : τ → Multiset τ) (M M' : Multiset τ) : Prop :=
  ∃ t rest, M = t ::ₘ rest ∧ M' = next t + rest

/-- `t` creates `t'`. -/
def Creates (next : τ → Multiset τ) (t t' : τ) : Prop := t' ∈ next t

theorem Acc.not_self {r : τ → τ → Prop} {t : τ} (h : Acc r t) : ¬ r t t := by
  induction h with
  | intro t _ ih =>
    intro hself
    exact ih t hself hself

section

variable {next : τ → Multiset τ}

/-- Tokens whose own chains are finite make up a finite process. Where a token is accessible it
does not create itself, so one firing is a move of the hydra game. -/
theorem acc_fires_of_forall {M : Multiset τ}
    (h : ∀ t ∈ M, Acc (Function.swap (Creates next)) t) : Acc (Function.swap (Fires next)) M := by
  let r : τ → τ → Prop := fun t' t => Creates next t t' ∧ Acc (Function.swap (Creates next)) t
  have hsub : ∀ {t' t}, r t' t → Function.swap (Creates next) t' t := fun hr => hr.1
  have hirrefl : Std.Irrefl r := ⟨fun t hr => hr.2.not_self hr.1⟩
  have hgame : Acc (Relation.CutExpand r) M :=
    Relation.acc_of_singleton fun t ht => (Subrelation.accessible hsub (h t ht)).cutExpand
  induction hgame with
  | intro M _ ih =>
    refine Acc.intro _ fun M' hfires => ?_
    obtain ⟨t, rest, rfl, rfl⟩ := hfires
    have ht := h t (Multiset.mem_cons_self t rest)
    refine ih _ ⟨next t, t, fun t' ht' => ⟨ht', ht⟩, ?_⟩ fun t' ht' => ?_
    · rw [← Multiset.singleton_add]
      abel
    · rcases Multiset.mem_add.mp ht' with hnew | hold
      · exact ht.inv hnew
      · exact h t' (Multiset.mem_cons_of_mem hold)

/-- Along a finite process every chain of a token ends. Induction on the process: handle the
token first. -/
theorem forall_acc_of_fires {M : Multiset τ} (h : Acc (Function.swap (Fires next)) M) :
    ∀ t ∈ M, Acc (Function.swap (Creates next)) t := by
  induction h with
  | intro M _ ih =>
    intro t ht
    obtain ⟨rest, rfl⟩ := Multiset.exists_cons_of_mem ht
    refine Acc.intro _ fun t' ht' => ?_
    exact ih (next t + rest) ⟨t, rest, rfl, rfl⟩ t' (Multiset.mem_add.mpr (.inl ht'))

/-- **The process ends in every order** exactly when each token has only finite chains. -/
theorem acc_fires_iff {M : Multiset τ} :
    Acc (Function.swap (Fires next)) M ↔ ∀ t ∈ M, Acc (Function.swap (Creates next)) t :=
  ⟨forall_acc_of_fires, acc_fires_of_forall⟩

end

/-- Over a finite type, the chains from `t` on are finite exactly when none of them comes back
to where it was. -/
theorem acc_iff_no_cycle [Finite τ] {r : τ → τ → Prop} {t : τ} :
    Acc (Function.swap r) t
      ↔ ¬ ∃ t', Relation.ReflTransGen r t t' ∧ Relation.TransGen r t' t' := by
  constructor
  · rintro hacc ⟨t', hreach, hcycle⟩
    have hacc' : Acc (Function.swap r) t' := by
      clear hcycle
      induction hreach with
      | refl => exact hacc
      | tail _ hstep ih => exact ih.inv hstep
    exact hacc'.transGen.not_self (Relation.transGen_swap.mpr hcycle)
  · intro hno
    -- descendants of `t`, ordered by descent: a strict order on a finite type
    let D := { t' // Relation.ReflTransGen r t t' }
    let below : D → D → Prop := fun d' d => Relation.TransGen r d.1 d'.1
    have htrans : IsTrans D below := ⟨fun _ _ _ h h' => h'.trans h⟩
    have hirrefl : Std.Irrefl below := ⟨fun d hself => hno ⟨d.1, d.2, hself⟩⟩
    have hwf : WellFounded below := Finite.wellFounded_of_trans_of_irrefl below
    have hall : ∀ d : D, Acc (Function.swap r) d.1 := by
      intro d
      induction d using hwf.induction with
      | _ d ih =>
        refine Acc.intro _ fun t' hstep => ?_
        exact ih ⟨t', d.2.tail hstep⟩ (.single hstep)
    exact hall ⟨t, .refl⟩

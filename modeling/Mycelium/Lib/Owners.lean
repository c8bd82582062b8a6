import Mathlib.Data.Finset.Image
import Mathlib.Tactic

/-!
# Lib — things and their owners

A set of things, each with an owner: connections and the peers at their other ends. `owners` is
the set of those who own at least one. Taking a thing away takes its owner away with it exactly if
it was the owner's last.
-/

namespace Owners

variable {ι α : Type} [DecidableEq α]

/-- Those who own something. -/
def owners (things : Finset (ι × α)) : Finset α := things.image Prod.snd

variable {things : Finset (ι × α)} {i j : ι} {a : α}

theorem mem_owners : a ∈ owners things ↔ ∃ i, (i, a) ∈ things := by
  unfold owners
  rw [Finset.mem_image]
  refine ⟨?_, fun ⟨i, h⟩ => ⟨(i, a), h, rfl⟩⟩
  rintro ⟨⟨i, a'⟩, h, rfl⟩
  exact ⟨i, h⟩

variable [DecidableEq ι]

theorem owners_insert (things : Finset (ι × α)) (i : ι) (a : α) :
    owners (insert (i, a) things) = insert a (owners things) :=
  Finset.image_insert Prod.snd (i, a) things

/-- With the last thing its owner goes. -/
theorem owners_erase_last (hlast : ∀ j, (j, a) ∈ things → j = i) :
    owners (things.erase (i, a)) = (owners things).erase a := by
  ext b
  rw [Finset.mem_erase, mem_owners, mem_owners]
  refine ⟨?_, ?_⟩
  · rintro ⟨j, h⟩
    obtain ⟨hne, hmem⟩ := Finset.mem_erase.mp h
    refine ⟨?_, j, hmem⟩
    intro hb
    subst hb
    exact hne (by rw [hlast j hmem])
  · rintro ⟨hb, j, hmem⟩
    refine ⟨j, Finset.mem_erase.mpr ⟨?_, hmem⟩⟩
    intro heq
    exact hb (congrArg Prod.snd heq)

/-- With another one left the owner stays. -/
theorem owners_erase_other (hmem : (j, a) ∈ things) (hne : j ≠ i) :
    owners (things.erase (i, a)) = owners things := by
  ext b
  rw [mem_owners, mem_owners]
  refine ⟨fun ⟨k, h⟩ => ⟨k, (Finset.mem_erase.mp h).2⟩, ?_⟩
  rintro ⟨k, h⟩
  by_cases hb : b = a
  · subst hb
    refine ⟨j, Finset.mem_erase.mpr ⟨?_, hmem⟩⟩
    intro heq
    exact hne (congrArg Prod.fst heq)
  · refine ⟨k, Finset.mem_erase.mpr ⟨?_, h⟩⟩
    intro heq
    exact hb (congrArg Prod.snd heq)

end Owners

import Mathlib.Data.Nat.Bitwise
import Mathlib.Tactic

/-!
# Lib — sets of numbers as words of bits

A vector of 64-bit words stands for the set of the numbers whose bit is set: number `b` is bit
`b % 64` of word `b / 64`. Setting a bit adds one number, testing it is membership, and the set
determines the words.
-/

namespace Bits

/-! ## One word -/

theorem toNat_mask {i : Nat} (hi : i < 64) : ((1 : UInt64) <<< UInt64.ofNat i).toNat = 2 ^ i := by
  have hlt : 2 ^ i < 2 ^ 64 := Nat.pow_lt_pow_right (by decide) hi
  have hofNat : (UInt64.ofNat i).toNat = i := UInt64.toNat_ofNat_of_lt' (hi.trans (by decide))
  rw [UInt64.toNat_shiftLeft, hofNat, Nat.mod_eq_of_lt hi, Nat.shiftLeft_eq]
  show 1 * 2 ^ i % 2 ^ 64 = 2 ^ i
  rw [Nat.one_mul, Nat.mod_eq_of_lt hlt]

theorem and_mask_ne_zero_iff (w : UInt64) {i : Nat} (hi : i < 64) :
    (w &&& ((1 : UInt64) <<< UInt64.ofNat i) != 0) = true ↔ w.toNat.testBit i = true := by
  rw [bne_iff_ne, ne_eq, ← UInt64.toNat_inj, UInt64.toNat_and, toNat_mask hi, Nat.and_two_pow,
    UInt64.toNat_zero]
  cases w.toNat.testBit i <;> simp

theorem testBit_or_mask (w : UInt64) {i : Nat} (hi : i < 64) (j : Nat) :
    (w ||| ((1 : UInt64) <<< UInt64.ofNat i)).toNat.testBit j = true
      ↔ j = i ∨ w.toNat.testBit j = true := by
  rw [UInt64.toNat_or, toNat_mask hi, Nat.testBit_or, Nat.testBit_two_pow, Bool.or_eq_true,
    decide_eq_true_eq, or_comm, eq_comm]

/-- A word is determined by its 64 bits. -/
theorem word_ext {w w' : UInt64}
    (h : ∀ i < 64, w.toNat.testBit i = true ↔ w'.toNat.testBit i = true) : w = w' := by
  apply UInt64.toNat_inj.mp
  apply Nat.eq_of_testBit_eq
  intro i
  by_cases hi : i < 64
  · exact Bool.eq_iff_iff.mpr (h i hi)
  · have hpow : 2 ^ 64 ≤ 2 ^ i := Nat.pow_le_pow_right (by decide) (by omega)
    rw [Nat.testBit_lt_two_pow (w.toNat_lt.trans_le hpow),
      Nat.testBit_lt_two_pow (w'.toNat_lt.trans_le hpow)]

/-! ## A vector of words -/

variable {n : Nat}

/-- The number is in the set. -/
def Has (v : Vector UInt64 n) (bit : Nat) : Prop :=
  ∃ h : bit / 64 < n, (v.get ⟨bit / 64, h⟩).toNat.testBit (bit % 64) = true

theorem not_has_replicate (bit : Nat) : ¬ Has (Vector.replicate n 0) bit := by
  rintro ⟨h, hbit⟩
  simp [Vector.get] at hbit

theorem has_iff_test (v : Vector UInt64 n) {bit : Nat} (h : bit / 64 < n) :
    (v.get ⟨bit / 64, h⟩ &&& ((1 : UInt64) <<< UInt64.ofNat (bit % 64)) != 0) = true ↔ Has v bit := by
  rw [and_mask_ne_zero_iff _ (Nat.mod_lt _ (by decide))]
  exact ⟨fun hbit => ⟨h, hbit⟩, fun ⟨_, hbit⟩ => hbit⟩

/-- Setting a bit adds its number. -/
theorem has_set_iff (v : Vector UInt64 n) {bit : Nat} (h : bit / 64 < n) (bit' : Nat) :
    Has (v.set (bit / 64)
        (v.get ⟨bit / 64, h⟩ ||| ((1 : UInt64) <<< UInt64.ofNat (bit % 64))) h) bit'
      ↔ bit' = bit ∨ Has v bit' := by
  have hmod : bit % 64 < 64 := Nat.mod_lt _ (by decide)
  -- in the written word the mask decides, every other word is as it was
  by_cases hword : bit' / 64 = bit / 64
  · have hsame : bit' % 64 = bit % 64 ↔ bit' = bit := by omega
    have hword' : bit' / 64 < n := hword ▸ h
    have hget : ∀ w, (v.set (bit / 64) w h).get ⟨bit' / 64, hword'⟩ = w := by
      intro w
      show (v.set (bit / 64) w h)[bit' / 64] = w
      simp [hword]
    have hold : Has v bit' ↔ (v.get ⟨bit / 64, h⟩).toNat.testBit (bit' % 64) = true := by
      refine ⟨?_, fun hbit => ⟨hword', ?_⟩⟩
      · rintro ⟨_, hbit⟩
        simpa only [hword] using hbit
      · simpa only [hword] using hbit
    rw [hold, ← hsame, ← testBit_or_mask _ hmod]
    refine ⟨?_, fun hbit => ⟨hword', ?_⟩⟩
    · rintro ⟨_, hbit⟩
      rwa [hget] at hbit
    · rwa [hget]
  · have hne : bit' ≠ bit := fun heq => hword (by rw [heq])
    have hget : ∀ w (h' : bit' / 64 < n),
        (v.set (bit / 64) w h).get ⟨bit' / 64, h'⟩ = v.get ⟨bit' / 64, h'⟩ := by
      intro w h'
      exact Vector.getElem_set_ne h h' (Ne.symm hword)
    unfold Has
    simp only [hget, hne, false_or]

/-- The set determines the words. -/
theorem ext {v v' : Vector UInt64 n} (h : ∀ bit, Has v bit ↔ Has v' bit) : v = v' := by
  apply Vector.ext
  intro k hk
  apply word_ext
  intro i hi
  have hdiv : (64 * k + i) / 64 = k := by omega
  have hmod : (64 * k + i) % 64 = i := by omega
  have hread : ∀ u : Vector UInt64 n, Has u (64 * k + i) ↔ u[k].toNat.testBit i = true := by
    intro u
    unfold Has
    simp only [hdiv, hmod]
    exact ⟨fun ⟨_, hbit⟩ => hbit, fun hbit => ⟨hk, hbit⟩⟩
  rw [← hread, ← hread]
  exact h _

end Bits

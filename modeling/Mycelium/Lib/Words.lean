import Mathlib.Tactic

/-!
# Lib — saturating and checked machine words

Rust's `u64` arithmetic has three faces: the plain operators (which wrap in a release
build and panic in a debug build), the `saturating_*` family, and the `checked_*` family.
Lean's `UInt64` operators are the wrapping ones; this module adds the other two and
reduces every one of them to `Nat`:

* `satAdd` / `satSub` — clamp at `2 ^ 64 - 1` and at `0`;
* `checkedAdd` — `none` on overflow;
* `toNat_satAdd`, `toNat_satSub`, `checkedAdd_eq_some_iff` — the `Nat` reading of each;
* `toNat_add_of_lt`, `toNat_sub_of_le` — when a plain operator is exact.

The comparison lemmas `lt_iff` / `le_iff` finish the reduction, so that a goal about
words is closed by `omega` once its `toNat`s are exposed.

`leBytes w n` is the `w`-byte little-endian encoding (`to_le_bytes`); it has width `w` and
determines every `n < 256 ^ w`.
-/

/-! ## Little-endian bytes -/

/-- The `w` low bytes of `n`, least significant first. -/
def leBytes : Nat → Nat → List UInt8
  | 0, _ => []
  | w + 1, n => UInt8.ofNat n :: leBytes w (n / 256)

@[simp] theorem length_leBytes (w n : Nat) : (leBytes w n).length = w := by
  induction w generalizing n with
  | zero => rfl
  | succ w ih => rw [leBytes, List.length_cons, ih]

/-- The encoding determines every number that fits in its width. Induction on the width:
the head byte is the remainder modulo `256`, the tail the quotient. -/
theorem leBytes_inj {w n m : Nat} (hn : n < 256 ^ w) (hm : m < 256 ^ w)
    (h : leBytes w n = leBytes w m) : n = m := by
  induction w generalizing n m with
  | zero => rw [pow_zero] at hn hm; omega
  | succ w ih =>
    rw [leBytes, leBytes, List.cons.injEq] at h
    obtain ⟨hhead, htail⟩ := h
    have hmod : n % 256 = m % 256 := by
      have := congrArg UInt8.toNat hhead
      simpa using this
    have hdiv : n / 256 = m / 256 := by
      refine ih ?_ ?_ htail
      · exact Nat.div_lt_of_lt_mul (by rw [pow_succ'] at hn; exact hn)
      · exact Nat.div_lt_of_lt_mul (by rw [pow_succ'] at hm; exact hm)
    omega

namespace U64

/-- `u64::MAX`. -/
def max : UInt64 := 18446744073709551615

/-- `u64::saturating_add`. -/
def satAdd (a b : UInt64) : UInt64 :=
  if a.toNat + b.toNat < 2 ^ 64 then a + b else max

/-- `u64::saturating_sub`. -/
def satSub (a b : UInt64) : UInt64 :=
  if b ≤ a then a - b else 0

/-- `u64::checked_add`. -/
def checkedAdd (a b : UInt64) : Option UInt64 :=
  if a.toNat + b.toNat < 2 ^ 64 then some (a + b) else none

/-! ## The `Nat` reading of the operators -/

theorem toNat_lt (a : UInt64) : a.toNat < 2 ^ 64 := UInt64.toNat_lt a

theorem le_iff {a b : UInt64} : a ≤ b ↔ a.toNat ≤ b.toNat := UInt64.le_iff_toNat_le

theorem lt_iff {a b : UInt64} : a < b ↔ a.toNat < b.toNat := UInt64.lt_iff_toNat_lt

theorem toNat_min (a b : UInt64) : (min a b).toNat = min a.toNat b.toNat := by
  show (if a ≤ b then a else b).toNat = _
  split
  · next h => rw [Nat.min_eq_left (le_iff.mp h)]
  · next h =>
    rw [le_iff] at h
    rw [Nat.min_eq_right (by omega)]

/-- A plain `+` is exact as long as the sum fits. -/
theorem toNat_add_of_lt {a b : UInt64} (h : a.toNat + b.toNat < 2 ^ 64) :
    (a + b).toNat = a.toNat + b.toNat := by
  rw [UInt64.toNat_add]
  exact Nat.mod_eq_of_lt h

/-- A plain `-` is exact as long as it does not go below zero. -/
theorem toNat_sub_of_le {a b : UInt64} (h : b.toNat ≤ a.toNat) :
    (a - b).toNat = a.toNat - b.toNat :=
  UInt64.toNat_sub_of_le _ _ (le_iff.mpr h)

@[simp] theorem toNat_max : max.toNat = 2 ^ 64 - 1 := rfl

theorem toNat_satAdd (a b : UInt64) :
    (satAdd a b).toNat = min (a.toNat + b.toNat) (2 ^ 64 - 1) := by
  unfold satAdd
  split
  · next h => rw [toNat_add_of_lt h]; omega
  · next h => rw [toNat_max]; omega

@[simp] theorem toNat_satSub (a b : UInt64) : (satSub a b).toNat = a.toNat - b.toNat := by
  unfold satSub
  split
  · next h => exact toNat_sub_of_le (le_iff.mp h)
  · next h =>
    have hlt : a.toNat < b.toNat := by
      rw [le_iff] at h
      omega
    rw [show (0 : UInt64).toNat = 0 from rfl]
    omega

/-- `checked_add` returns the exact sum, or nothing. -/
theorem checkedAdd_eq_some_iff {a b c : UInt64} :
    checkedAdd a b = some c ↔ c.toNat = a.toNat + b.toNat := by
  unfold checkedAdd
  constructor
  · intro h
    split at h
    · next hlt =>
      rw [← Option.some.inj h]
      exact toNat_add_of_lt hlt
    · exact absurd h (by simp)
  · intro h
    have hlt : a.toNat + b.toNat < 2 ^ 64 := h ▸ toNat_lt c
    rw [if_pos hlt, Option.some.injEq]
    apply UInt64.toNat_inj.mp
    rw [toNat_add_of_lt hlt, h]

end U64

namespace U8

/-- `u8::saturating_add`. -/
def satAdd (a b : UInt8) : UInt8 :=
  if a.toNat + b.toNat < 2 ^ 8 then a + b else 255

/-- Incrementing a byte that is strictly below another one cannot saturate. -/
theorem toNat_satAdd_one_of_lt {a b : UInt8} (h : a < b) :
    (satAdd a 1).toNat = a.toNat + 1 := by
  have hlt : a.toNat < b.toNat := UInt8.lt_iff_toNat_lt.mp h
  have hb : b.toNat < 2 ^ 8 := UInt8.toNat_lt b
  have h1 : (1 : UInt8).toNat = 1 := rfl
  unfold satAdd
  rw [if_pos (by omega), UInt8.toNat_add, h1]
  omega

end U8

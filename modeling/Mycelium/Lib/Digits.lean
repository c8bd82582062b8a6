import Mathlib.Data.List.Lex
import Mycelium.Lib.Words

/-!
# Lib — numbers with leading zeros

Keys that begin with a number are written with all its digits, so that comparing them as text
compares the numbers. This is so in every base, and whatever follows the digits.

* `padDigits` — the digits of a number, in a fixed width;
* `padDigits_append_lt` — the smaller number comes first;
* `replicate_append_toDigits`, `reverse_leBytes` — the decimal text and the big-endian bytes.
-/

/-- The last `w` digits of `n` in base `b`, most significant first. -/
def padDigits (b : Nat) : Nat → Nat → List Nat
  | 0, _ => []
  | w + 1, n => padDigits b w (n / b) ++ [n % b]

theorem length_padDigits (b w n : Nat) : (padDigits b w n).length = w := by
  induction w generalizing n with
  | zero => rfl
  | succ w ih => rw [padDigits, List.length_append, ih, List.length_singleton]

theorem padDigits_zero (b w : Nat) : padDigits b w 0 = List.replicate w 0 := by
  induction w with
  | zero => rfl
  | succ w ih => rw [padDigits, Nat.zero_div, Nat.zero_mod, ih, List.replicate_succ']

theorem lt_of_mem_padDigits {b w n d : Nat} (hb : 0 < b) (h : d ∈ padDigits b w n) : d < b := by
  induction w generalizing n with
  | zero => cases h
  | succ w ih =>
    rcases List.mem_append.mp h with h | h
    · exact ih h
    · rw [List.mem_singleton.mp h]
      exact Nat.mod_lt _ hb

/-- **The smaller number comes first**, whatever the digits are written as and whatever follows
them. Induction on the width: the last digits decide only if the others are the same. -/
theorem padDigits_append_lt {b w n m : Nat} (hm : m < b ^ w) (h : n < m) {f : Nat → Nat}
    (hf : ∀ d < b, ∀ d' < b, d < d' → f d < f d') (s t : List Nat) :
    (padDigits b w n).map f ++ s < (padDigits b w m).map f ++ t := by
  induction w generalizing n m s t with
  | zero =>
    rw [pow_zero] at hm
    omega
  | succ w ih =>
    have hb : 0 < b := by
      by_contra hzero
      have hb : b = 0 := by omega
      rw [hb, pow_succ, Nat.mul_zero] at hm
      omega
    have hdiv : m / b < b ^ w := Nat.div_lt_of_lt_mul (by rwa [pow_succ'] at hm)
    rw [padDigits, padDigits, List.map_append, List.map_append, List.append_assoc, List.append_assoc]
    -- the leading digits decide, or they agree and the last one does
    rcases Nat.lt_or_ge (n / b) (m / b) with hlt | hge
    · exact ih hdiv hlt _ _
    · have hsame : n / b = m / b := Nat.le_antisymm (Nat.div_le_div_right h.le) hge
      have hlast : n % b < m % b := by
        have hn := Nat.div_add_mod n b
        have hm' := Nat.div_add_mod m b
        rw [hsame] at hn
        omega
      rw [hsame]
      apply List.Lex.append_left
      exact List.Lex.rel (hf _ (Nat.mod_lt _ hb) _ (Nat.mod_lt _ hb) hlast)

/-- The decimal text of a number, with leading zeros. Induction on the width. -/
theorem replicate_append_toDigits {w n : Nat} (hw : 0 < w) (hn : n < 10 ^ w) :
    List.replicate (w - (Nat.toDigits 10 n).length) '0' ++ Nat.toDigits 10 n
      = (padDigits 10 w n).map Nat.digitChar := by
  induction w generalizing n with
  | zero => omega
  | succ w ih =>
    rw [padDigits, List.map_append]
    by_cases hlt : n < 10
    · have hdiv : n / 10 = 0 := Nat.div_eq_of_lt hlt
      rw [Nat.toDigits_of_lt_base hlt, hdiv, padDigits_zero, List.map_replicate,
        Nat.mod_eq_of_lt hlt]
      rfl
    · have hw : 0 < w := by
        by_contra hzero
        have hw : w = 0 := by omega
        rw [hw] at hn
        omega
      have hdiv : n / 10 < 10 ^ w := Nat.div_lt_of_lt_mul (by rwa [pow_succ'] at hn)
      have hlength : w + 1 - ((Nat.toDigits 10 (n / 10)).length + 1)
          = w - (Nat.toDigits 10 (n / 10)).length := by omega
      rw [Nat.toDigits_of_base_le (by decide) (by omega), List.length_append,
        List.length_singleton, hlength, ← List.append_assoc, ih hw hdiv]
      rfl

/-- The big-endian bytes of a number. -/
theorem reverse_leBytes (w n : Nat) :
    (leBytes w n).reverse = (padDigits 256 w n).map UInt8.ofNat := by
  induction w generalizing n with
  | zero => rfl
  | succ w ih =>
    have hbyte : UInt8.ofNat n = UInt8.ofNat (n % 256) := by
      apply UInt8.toNat_inj.mp
      rw [UInt8.toNat_ofNat', UInt8.toNat_ofNat', Nat.mod_mod]
    rw [leBytes, List.reverse_cons, ih, padDigits, List.map_append, hbyte]
    rfl

import Mathlib.Data.List.Basic

/-!
# Fields joined by a separator

A text is made by joining fields with a separator and read back by splitting at it. The
number of pieces tells whether any field held the separator itself: if there are as many
pieces as fields, the pieces *are* the fields (`splitOn_intercalate_of_length`), whatever the
fields were.

Also the first and the last occurrence of a separator (`splitOnce`, `rsplitOnce`) and decimal numbers
(`parseUnsigned`, read back by `parseUnsigned_repr`).
-/

namespace Mycelium

section

variable {α : Type} [DecidableEq α]

theorem splitOn_intercalate_eq_flatMap (c : α) {fields : List (List α)} (hne : fields ≠ []) :
    ([c].intercalate fields).splitOn c = fields.flatMap (List.splitOn c) := by
  induction fields with
  | nil => exact absurd rfl hne
  | cons field fields ih =>
    match fields with
    | [] => simp
    | next :: rest =>
      have htail := ih (List.cons_ne_nil next rest)
      rw [List.intercalate_cons_cons, List.append_assoc, List.singleton_append,
        List.splitOn_append_cons_self, htail]
      exact List.flatMap_cons.symm

-- every field gives at least one piece, so none is left for a second one
theorem length_le_length_flatMap_splitOn (c : α) (fields : List (List α)) :
    fields.length ≤ (fields.flatMap (List.splitOn c)).length := by
  induction fields with
  | nil => exact Nat.le_refl _
  | cons field fields ih =>
    have hpos : 0 < (field.splitOn c).length := List.length_pos_iff.mpr (List.splitOn_ne_nil c field)
    rw [List.flatMap_cons, List.length_append, List.length_cons]
    omega

theorem flatMap_splitOn_of_length (c : α) {fields : List (List α)}
    (hlen : (fields.flatMap (List.splitOn c)).length = fields.length) :
    fields.flatMap (List.splitOn c) = fields := by
  induction fields with
  | nil => rfl
  | cons field fields ih =>
    have hpos : 0 < (field.splitOn c).length := List.length_pos_iff.mpr (List.splitOn_ne_nil c field)
    have hrest := length_le_length_flatMap_splitOn c fields
    rw [List.flatMap_cons, List.length_append, List.length_cons] at hlen
    -- a field in one piece is that piece
    obtain ⟨piece, hpiece⟩ := List.length_eq_one_iff.mp (show (field.splitOn c).length = 1 by omega)
    have hjoin : [c].intercalate (field.splitOn c) = field := List.intercalate_splitOn c
    rw [hpiece] at hjoin
    have hfield : piece = field := by simpa using hjoin
    rw [List.flatMap_cons, hpiece, hfield, ih (by omega)]
    rfl

/-- **As many pieces as fields, and the pieces are the fields.** -/
theorem splitOn_intercalate_of_length (c : α) {fields : List (List α)} (hne : fields ≠ [])
    (hlen : (([c].intercalate fields).splitOn c).length = fields.length) :
    ([c].intercalate fields).splitOn c = fields := by
  rw [splitOn_intercalate_eq_flatMap c hne] at hlen ⊢
  exact flatMap_splitOn_of_length c hlen

/-- `str::split_once`: what stands before and after the first `c`. -/
def splitOnce (c : α) : List α → Option (List α × List α)
  | [] => none
  | x :: xs =>
    if x = c then some ([], xs)
    else (splitOnce c xs).map fun split => (x :: split.1, split.2)

/-- Before the first separator stands what holds none. -/
theorem splitOnce_append {c : α} {xs : List α} (h : c ∉ xs) (ys : List α) :
    splitOnce c (xs ++ c :: ys) = some (xs, ys) := by
  induction xs with
  | nil => exact if_pos rfl
  | cons x xs ih =>
    rw [List.mem_cons, not_or] at h
    rw [List.cons_append, splitOnce, if_neg (Ne.symm h.1), ih h.2]
    rfl

/-- `str::rsplit_once`: what stands before and after the last `c`. -/
def rsplitOnce (c : α) : List α → Option (List α × List α)
  | [] => none
  | x :: xs =>
    match rsplitOnce c xs with
    | some (before, after) => some (x :: before, after)
    | none => if x = c then some ([], xs) else none

theorem rsplitOnce_eq_none {c : α} {xs : List α} (h : c ∉ xs) : rsplitOnce c xs = none := by
  induction xs with
  | nil => rfl
  | cons x xs ih =>
    rw [List.mem_cons, not_or] at h
    rw [rsplitOnce, ih h.2]
    exact if_neg (Ne.symm h.1)

/-- Behind the last separator stands what holds none. -/
theorem rsplitOnce_append {c : α} (xs : List α) {ys : List α} (h : c ∉ ys) :
    rsplitOnce c (xs ++ c :: ys) = some (xs, ys) := by
  induction xs with
  | nil =>
    show rsplitOnce c (c :: ys) = _
    rw [rsplitOnce, rsplitOnce_eq_none h]
    exact if_pos rfl
  | cons x xs ih =>
    show rsplitOnce c (x :: (xs ++ c :: ys)) = _
    rw [rsplitOnce, ih]

end

/-! ## Decimal numbers -/

/-- `str::parse` for an unsigned type with values below `bound`: an optional `+`, then at
least one digit. -/
def parseUnsigned (bound : Nat) (s : List Char) : Option Nat :=
  let digits := match s with
    | '+' :: rest => rest
    | _ => s
  if digits ≠ [] ∧ digits.all Char.isDigit ∧ Nat.ofDigitChars 10 digits 0 < bound then
    some (Nat.ofDigitChars 10 digits 0)
  else none

/-- What a number prints as is read back. -/
theorem parseUnsigned_repr {bound n : Nat} (h : n < bound) :
    parseUnsigned bound n.repr.toList = some n := by
  have htext : n.repr.toList = Nat.toDigits 10 n := by
    rw [Nat.repr_eq_ofList_toDigits, String.toList_ofList]
  have hdigits : ∀ c ∈ Nat.toDigits 10 n, c.isDigit = true := fun c hc =>
    Nat.isDigit_of_mem_toDigits (by omega) (by omega) hc
  have hne : Nat.toDigits 10 n ≠ [] := by
    intro hnil
    have hpos : 0 < (Nat.toDigits 10 n).length := Nat.length_toDigits_pos
    rw [hnil] at hpos
    exact absurd hpos (Nat.lt_irrefl 0)
  have hvalue : Nat.ofDigitChars 10 (Nat.toDigits 10 n) 0 = n := Nat.ofDigitChars_ten_toDigits
  rw [htext]
  unfold parseUnsigned
  have hstrip : (match Nat.toDigits 10 n with
      | '+' :: rest => rest
      | _ => Nat.toDigits 10 n) = Nat.toDigits 10 n := by
    split
    · next rest heq =>
      -- a printed number does not begin with a sign
      have hplus := hdigits '+' (by rw [heq]; exact List.mem_cons_self)
      exact absurd hplus (by decide)
    · rfl
  simp only [hstrip]
  rw [if_pos ⟨hne, List.all_eq_true.mpr hdigits, by rw [hvalue]; exact h⟩, hvalue]

end Mycelium

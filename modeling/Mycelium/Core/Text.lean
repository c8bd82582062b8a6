import Mycelium.Core.Hex
import Mycelium.Lib.Fields
import Mathlib.Data.List.DropRight

/-!
# Mycelium — reading text

What the parsers of payment links, invites, dial addresses and scopes need to know of the `str`
functions: `trim`, `strip_prefix` and `strip_suffix` on text that was put together from known
pieces, the text of a number and the text of a peer id. And the bytes of a text, `as_bytes`.
-/

namespace Mycelium

/-! ## `strip_prefix` and `starts_with` -/

/-- A prefix that is there is taken off. -/
theorem stripPrefix_append (pre s : String) : stripPrefix (pre ++ s) pre = some s := by
  unfold stripPrefix
  rw [String.toList_append, if_pos (by simp), List.drop_left, String.ofList_toList]

/-- One that is not there is not. -/
theorem stripPrefix_eq_none {s pre : String} (h : startsWith s pre = false) :
    stripPrefix s pre = none := by
  unfold stripPrefix
  unfold startsWith at h
  rw [if_neg (by simp [h])]

/-- The first character decides. -/
theorem stripPrefix_other {s pre : String} {c d : Char} {rest rest' : List Char}
    (hs : s.toList = c :: rest) (hpre : pre.toList = d :: rest') (hne : d ≠ c) :
    stripPrefix s pre = none := by
  refine stripPrefix_eq_none ?_
  unfold startsWith
  rw [hs, hpre, List.isPrefixOf_cons_cons, beq_false_of_ne hne, Bool.false_and]

/-- A prefix of the text is one of its characters. -/
theorem startsWith_iff {s pre : String} : startsWith s pre = true ↔ pre.toList <+: s.toList :=
  List.isPrefixOf_iff_prefix

/-- What follows the prefix. -/
theorem startsWith_iff_exists {s pre : String} :
    startsWith s pre = true ↔ ∃ rest, s.toList = pre.toList ++ rest := by
  rw [startsWith_iff]
  exact ⟨fun ⟨rest, h⟩ => ⟨rest, h.symm⟩, fun ⟨rest, h⟩ => ⟨rest, h.symm⟩⟩

/-! ## `strip_suffix` -/

/-- Stripping a suffix is undoing `++`. -/
theorem stripSuffix_eq_some_iff {s suffix pre : String} :
    stripSuffix s suffix = some pre ↔ s = pre ++ suffix := by
  unfold stripSuffix
  constructor
  · intro h
    split at h
    · next hsuffix =>
      obtain ⟨rest, hrest⟩ := List.isSuffixOf_iff_suffix.mp hsuffix
      obtain rfl := Option.some.inj h
      apply String.toList_inj.mp
      rw [String.toList_append, String.toList_ofList, ← hrest, List.length_append,
        Nat.add_sub_cancel, List.take_left' rfl]
    · cases h
  · rintro rfl
    have hsuffix : suffix.toList.isSuffixOf (pre ++ suffix).toList = true := by
      rw [List.isSuffixOf_iff_suffix, String.toList_append]
      exact List.suffix_append _ _
    rw [if_pos hsuffix, String.toList_append, List.length_append, Nat.add_sub_cancel,
      List.take_left' rfl, String.ofList_toList]

/-- A suffix that is not there. -/
theorem stripSuffix_eq_none_iff {s suffix : String} :
    stripSuffix s suffix = none ↔ ∀ pre, s ≠ pre ++ suffix := by
  constructor
  · intro h pre hs
    rw [stripSuffix_eq_some_iff.mpr hs] at h
    cases h
  · intro h
    cases hstrip : stripSuffix s suffix with
    | none => rfl
    | some pre => exact absurd (stripSuffix_eq_some_iff.mp hstrip) (h pre)

/-! ## `trim` -/

/-- Text that begins and ends without white space is left alone. -/
theorem trim_of_ends {s : String} {c d : Char} {rest before : List Char}
    (hfirst : s.toList = c :: rest) (hlast : s.toList = before ++ [d])
    (hc : isWhitespace c = false) (hd : isWhitespace d = false) : trim s = s := by
  have hleft : s.toList.dropWhile isWhitespace = s.toList := by
    rw [hfirst, List.dropWhile_cons_of_neg (by simp [hc])]
  unfold trim
  rw [hleft, hlast, List.reverse_append, List.reverse_singleton, List.singleton_append,
    List.dropWhile_cons_of_neg (by simp [hd]), List.reverse_cons, List.reverse_reverse, ← hlast,
    String.ofList_toList]

/-- Trimming leaves a first character that is no white space. -/
theorem trim_cons {s : String} {c : Char} {rest : List Char} (h : s.toList = c :: rest)
    (hc : isWhitespace c = false) : ∃ rest', (trim s).toList = c :: rest' := by
  have hleft : s.toList.dropWhile isWhitespace = c :: rest := by
    rw [h, List.dropWhile_cons_of_neg (by simp [hc])]
  unfold trim
  rw [hleft, String.toList_ofList]
  show ∃ rest', (c :: rest).rdropWhile isWhitespace = c :: rest'
  clear h hleft
  induction rest using List.reverseRecOn with
  | nil => exact ⟨[], by rw [List.rdropWhile_singleton, hc]; rfl⟩
  | append_singleton rest d ih =>
    rw [← List.cons_append, List.rdropWhile_concat]
    split
    · exact ih
    · exact ⟨rest ++ [d], rfl⟩

/-- Trimmed text ends in a character that is no white space. -/
theorem exists_last_of_trim {s : String} (h : trim s = s) (hne : s ≠ "") :
    ∃ before d, s.toList = before ++ [d] ∧ isWhitespace d = false := by
  have hlist : (s.toList.dropWhile isWhitespace).rdropWhile isWhitespace = s.toList := by
    have := congrArg String.toList h
    unfold trim at this
    rw [String.toList_ofList] at this
    exact this
  have hnil : s.toList ≠ [] := fun hnil => hne (String.toList_inj.mp hnil)
  have hlast := List.rdropWhile_last_not isWhitespace (s.toList.dropWhile isWhitespace)
    (by rw [hlist]; exact hnil)
  refine ⟨s.toList.dropLast, s.toList.getLast hnil, (List.dropLast_concat_getLast hnil).symm, ?_⟩
  simpa only [hlist, Bool.not_eq_true] using hlast

/-- Trimmed text keeps its end behind a prefix that begins without white space. -/
theorem trim_append {pre s : String} {c : Char} {rest : List Char} (hpre : pre.toList = c :: rest)
    (hc : isWhitespace c = false) (hs : trim s = s) (hne : s ≠ "") :
    trim (pre ++ s) = pre ++ s := by
  obtain ⟨before, d, hlast, hd⟩ := exists_last_of_trim hs hne
  have hfirst : (pre ++ s).toList = c :: (rest ++ s.toList) := by
    rw [String.toList_append, hpre, List.cons_append]
  have hend : (pre ++ s).toList = (pre.toList ++ before) ++ [d] := by
    rw [String.toList_append, hlast, List.append_assoc]
  exact trim_of_ends hfirst hend hc hd

/-! ## Numbers -/

/-- A number is written in digits. -/
theorem isDigit_of_mem_repr {n : Nat} {c : Char} (h : c ∈ n.repr.toList) : c.isDigit = true := by
  rw [Nat.repr_eq_ofList_toDigits, String.toList_ofList] at h
  exact Nat.isDigit_of_mem_toDigits (by omega) (by omega) h

/-- So other characters do not occur in it. -/
theorem not_mem_repr {n : Nat} {c : Char} (hc : c.isDigit = false) : c ∉ n.repr.toList := by
  intro hmem
  rw [isDigit_of_mem_repr hmem] at hc
  cases hc

/-! ## Bytes -/

/-- The bytes of a text in two parts. -/
theorem asBytes_append (s t : String) : asBytes (s ++ t) = asBytes s ++ asBytes t := by
  simp [asBytes]

/-! ## Peer ids -/

/-- The text of a peer id: base58 characters, so letters and digits. -/
structure IsPeerIdText (p : String) : Prop where
  nonempty : p ≠ ""
  alphanum : ∀ c ∈ p.toList, c.isAlphanum = true

/-- Letters and digits are no blanks. -/
theorem isWhitespace_of_isAlphanum {c : Char} (h : c.isAlphanum = true) :
    isWhitespace c = false := by
  have hbound : c.toNat < 128 ∧ 48 ≤ c.toNat := by
    delta Char.isAlphanum Char.isAlpha Char.isUpper Char.isLower Char.isDigit at h
    simp only [Bool.or_eq_true, Bool.and_eq_true, decide_eq_true_eq] at h
    have hnat : c.toNat = c.val.toNat := rfl
    simp only [UInt32.le_iff_toNat_le] at h
    simp at h
    omega
  unfold isWhitespace
  simp
  omega

namespace IsPeerIdText

variable {p : String}

/-- A peer id has letters and digits only. -/
theorem not_mem (h : IsPeerIdText p) {c : Char} (hc : c.isAlphanum = false) : c ∉ p.toList := by
  intro hmem
  rw [h.alphanum c hmem] at hc
  cases hc

/-- So there is nothing to trim. -/
theorem trim_eq (h : IsPeerIdText p) : trim p = p :=
  trim_eq_self fun c hc => isWhitespace_of_isAlphanum (h.alphanum c hc)

end IsPeerIdText

end Mycelium

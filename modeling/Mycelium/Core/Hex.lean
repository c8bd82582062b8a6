import Mycelium.Core.Prims

/-!
# Mycelium — text helpers of the standard library and of the `hex` crate

`hex::encode` / `hex::decode`, `str::trim`, `str::strip_prefix` and `str::strip_suffix`, as
the crates use them. They are stated on character lists so that they evaluate.
-/

namespace Mycelium

/-! ## `hex` -/

/-- `hex::encode`: two lower-case digits per byte. -/
def hexEncode (bytes : Bytes) : String :=
  String.ofList (bytes.flatMap fun b =>
    [Nat.digitChar (b.toNat / 16), Nat.digitChar (b.toNat % 16)])

/-- The value of one hex digit, either case. -/
def hexVal (c : Char) : Option Nat :=
  if '0' ≤ c ∧ c ≤ '9' then some (c.toNat - '0'.toNat)
  else if 'a' ≤ c ∧ c ≤ 'f' then some (c.toNat - 'a'.toNat + 10)
  else if 'A' ≤ c ∧ c ≤ 'F' then some (c.toNat - 'A'.toNat + 10)
  else none

/-- `hex::decode` on the characters: pairs of digits, an odd length is an error. -/
def hexDecodeChars : List Char → Option Bytes
  | [] => some []
  | [_] => none
  | c :: d :: rest => do
    let hi ← hexVal c
    let lo ← hexVal d
    let bytes ← hexDecodeChars rest
    return UInt8.ofNat (16 * hi + lo) :: bytes

/-- `hex::decode`. -/
def hexDecode (s : String) : Option Bytes := hexDecodeChars s.toList

theorem hexVal_digitChar {n : Nat} (h : n < 16) : hexVal (Nat.digitChar n) = some n := by
  revert n
  decide

/-- What `hex::encode` writes, `hex::decode` reads back. Induction on the bytes. -/
theorem hexDecode_hexEncode (bytes : Bytes) : hexDecode (hexEncode bytes) = some bytes := by
  unfold hexDecode hexEncode
  rw [String.toList_ofList]
  induction bytes with
  | nil => rfl
  | cons b rest ih =>
    have hb : b.toNat < 256 := b.toNat_lt
    have hbyte : UInt8.ofNat (16 * (b.toNat / 16) + b.toNat % 16) = b := by
      rw [Nat.div_add_mod, UInt8.ofNat_toNat]
    simp only [List.flatMap_cons, List.cons_append, List.nil_append, hexDecodeChars]
    rw [hexVal_digitChar (by omega), hexVal_digitChar (by omega), ih]
    simp only [Option.bind_eq_bind, Option.bind_some, hbyte]
    rfl

/-- Every character of it is a hex digit. -/
theorem mem_hexEncode {bytes : Bytes} {c : Char} (h : c ∈ (hexEncode bytes).toList) :
    ∃ n, n < 16 ∧ c = Nat.digitChar n := by
  unfold hexEncode at h
  rw [String.toList_ofList, List.mem_flatMap] at h
  obtain ⟨b, -, hb⟩ := h
  have hlt : b.toNat < 256 := b.toNat_lt
  rcases List.mem_cons.mp hb with rfl | hb
  · exact ⟨b.toNat / 16, by omega, rfl⟩
  · exact ⟨b.toNat % 16, by omega, List.mem_singleton.mp hb⟩

/-! ## `str` -/

/-- `char::is_whitespace`: the Unicode `White_Space` property. -/
def isWhitespace (c : Char) : Bool :=
  let n := c.toNat
  (0x9 ≤ n && n ≤ 0xD) || n == 0x20 || n == 0x85 || n == 0xA0 || n == 0x1680
    || (0x2000 ≤ n && n ≤ 0x200A) || n == 0x2028 || n == 0x2029 || n == 0x202F
    || n == 0x205F || n == 0x3000

/-- `str::trim`. -/
def trim (s : String) : String :=
  String.ofList (((s.toList.dropWhile isWhitespace).reverse.dropWhile isWhitespace).reverse)

/-- Text without white space at its ends is left alone. -/
theorem trim_eq_self {s : String} (h : ∀ c ∈ s.toList, isWhitespace c = false) : trim s = s := by
  have hdrop : ∀ l : List Char, (∀ c ∈ l, isWhitespace c = false) → l.dropWhile isWhitespace = l := by
    intro l hl
    cases l with
    | nil => rfl
    | cons c l => rw [List.dropWhile_cons_of_neg (by simp [hl c (by simp)])]
  unfold trim
  rw [hdrop _ h, hdrop _ (by simpa using h), List.reverse_reverse, String.ofList_toList]

theorem trim_hexEncode (bytes : Bytes) : trim (hexEncode bytes) = hexEncode bytes := by
  have hdigit : ∀ n, n < 16 → isWhitespace (Nat.digitChar n) = false := by decide
  refine trim_eq_self fun c hc => ?_
  obtain ⟨n, hn, rfl⟩ := mem_hexEncode hc
  exact hdigit n hn

/-- `str::strip_suffix` for a fixed suffix. -/
def stripSuffix (s suffix : String) : Option String :=
  if suffix.toList.isSuffixOf s.toList then
    some (String.ofList (s.toList.take (s.toList.length - suffix.toList.length)))
  else none

/-- `str::strip_prefix` for a fixed prefix. -/
def stripPrefix (s pre : String) : Option String :=
  if pre.toList.isPrefixOf s.toList then some (String.ofList (s.toList.drop pre.toList.length))
  else none

/-- `str::starts_with` for a string pattern. -/
def startsWith (s pre : String) : Bool := pre.toList.isPrefixOf s.toList

end Mycelium

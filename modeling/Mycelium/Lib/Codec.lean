import Mycelium.Lib.Words

/-!
# Lib — prefix codecs

A codec writes a value as bytes and reads one back from the front of a byte string. Two laws tie
the directions together: what is written is read back, whatever follows it, and what is read is
exactly what is written for the value, so that nothing is skipped. Only values that fit the format
(a length within its length field) need to be read back.

* `prod`, `option`, `partialMap` — codecs from codecs;
* `byte`, `word`, `blob` — the codecs to begin with: a byte, a little-endian number, and bytes
  behind their length;
* `list` — values one behind the other, behind their number;
* `isSome_decode_blob_prod` — what is read if there are enough bytes for it;
* `block_flatMap`, `flatMap_blocks` — values written in blocks of one width.
-/

structure Codec (α : Type) where
  encode : α → List UInt8
  decode : List UInt8 → Option (α × List UInt8)
  Fits : α → Prop
  decode_encode : ∀ {a}, Fits a → ∀ rest, decode (encode a ++ rest) = some (a, rest)
  encode_of_decode : ∀ {bytes a rest}, decode bytes = some (a, rest) → bytes = encode a ++ rest

namespace Codec

variable {α β : Type}

/-- One after the other. -/
def prod (c : Codec α) (d : Codec β) : Codec (α × β) where
  encode p := c.encode p.1 ++ d.encode p.2
  decode bytes := do
    let (a, bytes) ← c.decode bytes
    let (b, bytes) ← d.decode bytes
    some ((a, b), bytes)
  Fits p := c.Fits p.1 ∧ d.Fits p.2
  decode_encode := by
    intro p hp rest
    rw [List.append_assoc, c.decode_encode hp.1]
    simp [d.decode_encode hp.2]
  encode_of_decode := by
    intro bytes p rest h
    obtain ⟨⟨a, bytes'⟩, ha, h⟩ := Option.bind_eq_some_iff.mp h
    obtain ⟨⟨b, bytes''⟩, hb, h⟩ := Option.bind_eq_some_iff.mp h
    obtain ⟨rfl, rfl⟩ := Prod.mk.inj (Option.some.inj h)
    rw [c.encode_of_decode ha, d.encode_of_decode hb, List.append_assoc]

/-- The values that `f` reads off those of another codec, as `g` writes them there. -/
def partialMap (c : Codec α) (f : α → Option β) (g : β → α) (hg : ∀ b, f (g b) = some b)
    (hf : ∀ {a b}, f a = some b → a = g b) : Codec β where
  encode b := c.encode (g b)
  decode bytes := do
    let (a, bytes) ← c.decode bytes
    let b ← f a
    some (b, bytes)
  Fits b := c.Fits (g b)
  decode_encode := by
    intro b hb rest
    rw [c.decode_encode hb]
    simp [hg]
  encode_of_decode := by
    intro bytes b rest h
    obtain ⟨⟨a, bytes'⟩, ha, h⟩ := Option.bind_eq_some_iff.mp h
    obtain ⟨b', hb, h⟩ := Option.bind_eq_some_iff.mp h
    obtain ⟨rfl, rfl⟩ := Prod.mk.inj (Option.some.inj h)
    rw [c.encode_of_decode ha, hf hb]

/-- The same values under other names. -/
def iso (c : Codec α) (f : α → β) (g : β → α) (hg : ∀ b, f (g b) = b) (hf : ∀ a, g (f a) = a) :
    Codec β :=
  c.partialMap (fun a => some (f a)) g (fun b => congrArg some (hg b)) fun {a b} h => by
    rw [← Option.some.inj h, hf]

/-- A byte `0` for nothing, a byte `1` before something. -/
def option (c : Codec α) : Codec (Option α) where
  encode
    | none => [0]
    | some a => 1 :: c.encode a
  decode
    | 0 :: bytes => some (none, bytes)
    | 1 :: bytes => (c.decode bytes).map fun (a, rest) => (some a, rest)
    | _ => none
  Fits o := ∀ a ∈ o, c.Fits a
  decode_encode := by
    intro o ho rest
    cases o with
    | none => rfl
    | some a => simp [c.decode_encode (ho a rfl)]
  encode_of_decode := by
    intro bytes o rest h
    split at h
    · obtain ⟨rfl, rfl⟩ := Prod.mk.inj (Option.some.inj h)
      rfl
    · next bytes' =>
      obtain ⟨⟨a, rest'⟩, ha, heq⟩ := Option.map_eq_some_iff.mp h
      obtain ⟨rfl, rfl⟩ := Prod.mk.inj heq
      rw [c.encode_of_decode ha]
      rfl
    · cases h

def byte : Codec UInt8 where
  encode b := [b]
  decode
    | b :: rest => some (b, rest)
    | [] => none
  Fits _ := True
  decode_encode _ _ := rfl
  encode_of_decode := by
    intro bytes b rest h
    cases bytes with
    | nil => cases h
    | cons b' bytes =>
      obtain ⟨rfl, rfl⟩ := Prod.mk.inj (Option.some.inj h)
      rfl

/-- The number whose little-endian bytes these are. -/
def ofLeBytes : List UInt8 → Nat
  | [] => 0
  | b :: bytes => b.toNat + 256 * ofLeBytes bytes

/-- A number below the bound is read back. -/
theorem ofLeBytes_leBytes {w n : Nat} (hn : n < 256 ^ w) : ofLeBytes (leBytes w n) = n := by
  induction w generalizing n with
  | zero =>
    rw [pow_zero] at hn
    simp only [leBytes, ofLeBytes]
    omega
  | succ w ih =>
    have hdiv : n / 256 < 256 ^ w := Nat.div_lt_of_lt_mul (by rw [pow_succ'] at hn; exact hn)
    rw [leBytes, ofLeBytes, ih hdiv, UInt8.toNat_ofNat']
    omega

/-- The bytes of a number are determined by it. -/
theorem leBytes_ofLeBytes (bytes : List UInt8) : leBytes bytes.length (ofLeBytes bytes) = bytes := by
  induction bytes with
  | nil => rfl
  | cons b bytes ih =>
    have hlt : b.toNat < 256 := b.toNat_lt
    have hhead : UInt8.ofNat (b.toNat + 256 * ofLeBytes bytes) = b := by
      apply UInt8.toNat_inj.mp
      rw [UInt8.toNat_ofNat']
      omega
    have htail : (b.toNat + 256 * ofLeBytes bytes) / 256 = ofLeBytes bytes := by omega
    rw [List.length_cons, ofLeBytes, leBytes, hhead, htail, ih]

/-- A number of `w` bytes is below the bound. -/
theorem ofLeBytes_lt (bytes : List UInt8) : ofLeBytes bytes < 256 ^ bytes.length := by
  induction bytes with
  | nil => exact Nat.one_pos
  | cons b bytes ih =>
    have hlt : b.toNat < 256 := b.toNat_lt
    rw [List.length_cons, ofLeBytes, pow_succ]
    omega

/-- A number in `w` bytes, least significant first. -/
def word (w : Nat) : Codec Nat where
  encode n := leBytes w n
  decode bytes := if w ≤ bytes.length then some (ofLeBytes (bytes.take w), bytes.drop w) else none
  Fits n := n < 256 ^ w
  decode_encode := by
    intro n hn rest
    have hlength : (leBytes w n).length = w := length_leBytes w n
    rw [if_pos (by rw [List.length_append, hlength]; omega), List.take_left' hlength,
      List.drop_left' hlength, ofLeBytes_leBytes hn]
  encode_of_decode := by
    intro bytes n rest h
    split at h
    · next hw =>
      obtain ⟨rfl, rfl⟩ := Prod.mk.inj (Option.some.inj h)
      have hlength : (bytes.take w).length = w := List.length_take_of_le hw
      have hbytes := leBytes_ofLeBytes (bytes.take w)
      rw [hlength] at hbytes
      rw [hbytes, List.take_append_drop]
    · cases h

/-- Bytes behind their number, which stands in `w` bytes. -/
def blob (w : Nat) : Codec (List UInt8) where
  encode bs := leBytes w bs.length ++ bs
  decode bytes := do
    let (n, bytes) ← (word w).decode bytes
    if n ≤ bytes.length then some (bytes.take n, bytes.drop n) else none
  Fits bs := bs.length < 256 ^ w
  decode_encode := by
    intro bs hbs rest
    rw [List.append_assoc]
    have hword : (word w).decode (leBytes w bs.length ++ (bs ++ rest)) = some (bs.length, bs ++ rest) :=
      (word w).decode_encode hbs _
    rw [hword]
    simp
  encode_of_decode := by
    intro bytes bs rest h
    obtain ⟨⟨n, bytes'⟩, hn, h⟩ := Option.bind_eq_some_iff.mp h
    simp only at h
    split at h
    · next hle =>
      obtain ⟨rfl, rfl⟩ := Prod.mk.inj (Option.some.inj h)
      have hlength : (bytes'.take n).length = n := List.length_take_of_le hle
      have hsplit : bytes = leBytes w n ++ bytes' := (word w).encode_of_decode hn
      rw [hsplit, hlength, List.append_assoc, List.take_append_drop]
    · cases h

/-- A number of values, one behind the other. -/
def decodeMany (c : Codec α) : Nat → List UInt8 → Option (List α × List UInt8)
  | 0, bytes => some ([], bytes)
  | n + 1, bytes => do
    let (a, bytes) ← c.decode bytes
    let (l, bytes) ← decodeMany c n bytes
    some (a :: l, bytes)

/-- A known number of values is read back. Induction on the values. -/
theorem decodeMany_flatMap {c : Codec α} {l : List α} (h : ∀ a ∈ l, c.Fits a) (rest : List UInt8) :
    decodeMany c l.length (l.flatMap c.encode ++ rest) = some (l, rest) := by
  induction l with
  | nil => rfl
  | cons a l ih =>
    rw [List.length_cons, decodeMany, List.flatMap_cons, List.append_assoc,
      c.decode_encode (h a List.mem_cons_self)]
    simp [ih fun b hb => h b (List.mem_cons_of_mem a hb)]

/-- What is read in a row was written in a row. -/
theorem eq_of_decodeMany {c : Codec α} {n : Nat} {bytes rest : List UInt8} {l : List α}
    (h : decodeMany c n bytes = some (l, rest)) :
    l.length = n ∧ bytes = l.flatMap c.encode ++ rest := by
  induction n generalizing bytes l with
  | zero =>
    obtain ⟨rfl, rfl⟩ := Prod.mk.inj (Option.some.inj h)
    exact ⟨rfl, rfl⟩
  | succ n ih =>
    obtain ⟨⟨a, bytes'⟩, ha, h⟩ := Option.bind_eq_some_iff.mp h
    obtain ⟨⟨l', bytes''⟩, hl, h⟩ := Option.bind_eq_some_iff.mp h
    obtain ⟨rfl, rfl⟩ := Prod.mk.inj (Option.some.inj h)
    obtain ⟨hlength, hbytes⟩ := ih hl
    refine ⟨by rw [List.length_cons, hlength], ?_⟩
    rw [c.encode_of_decode ha, hbytes, List.flatMap_cons, List.append_assoc]

/-- Values behind their number, which stands in `w` bytes. -/
def list (w : Nat) (c : Codec α) : Codec (List α) where
  encode l := leBytes w l.length ++ l.flatMap c.encode
  decode bytes := do
    let (n, bytes) ← (word w).decode bytes
    decodeMany c n bytes
  Fits l := l.length < 256 ^ w ∧ ∀ a ∈ l, c.Fits a
  decode_encode := by
    intro l hl rest
    have hword : (word w).decode (leBytes w l.length ++ (l.flatMap c.encode ++ rest))
        = some (l.length, l.flatMap c.encode ++ rest) := (word w).decode_encode hl.1 _
    rw [List.append_assoc, hword]
    exact decodeMany_flatMap hl.2 rest
  encode_of_decode := by
    intro bytes l rest h
    obtain ⟨⟨n, bytes'⟩, hn, h⟩ := Option.bind_eq_some_iff.mp h
    obtain ⟨rfl, hbytes⟩ := eq_of_decodeMany h
    have hsplit : bytes = leBytes w l.length ++ bytes' := (word w).encode_of_decode hn
    rw [hsplit, hbytes, List.append_assoc]

/-! ## How much is read -/

/-- What is written is read back. -/
theorem map_fst_decode_encode (c : Codec α) {a : α} (ha : c.Fits a) :
    (c.decode (c.encode a)).map Prod.fst = some a := by
  have hdecode := c.decode_encode ha []
  rw [List.append_nil] at hdecode
  rw [hdecode, Option.map_some]

/-- An encoding ends where it says. -/
theorem eq_of_encode_append {c : Codec α} {a a' : α} {rest rest' : List UInt8} (ha : c.Fits a)
    (ha' : c.Fits a') (h : c.encode a ++ rest = c.encode a' ++ rest') : a = a' ∧ rest = rest' := by
  have hread := c.decode_encode ha rest
  rw [h, c.decode_encode ha'] at hread
  obtain ⟨rfl, rfl⟩ := Prod.mk.inj (Option.some.inj hread)
  exact ⟨rfl, rfl⟩

/-- What is read is not longer than what it is read from. -/
theorem le_of_isSome_decode {c : Codec α} {n : Nat} (hn : ∀ a, n ≤ (c.encode a).length)
    {bytes : List UInt8} (h : (c.decode bytes).isSome) : n ≤ bytes.length := by
  obtain ⟨⟨a, rest⟩, hread⟩ := Option.isSome_iff_exists.mp h
  have ha := hn a
  rw [c.encode_of_decode hread, List.length_append]
  omega

/-- Both parts are read, one after the other. -/
theorem isSome_decode_prod {c : Codec α} {d : Codec β} {bytes : List UInt8} :
    ((c.prod d).decode bytes).isSome
      ↔ ∃ a rest, c.decode bytes = some (a, rest) ∧ (d.decode rest).isSome := by
  constructor
  · intro h
    obtain ⟨p, hp⟩ := Option.isSome_iff_exists.mp h
    obtain ⟨⟨a, rest⟩, ha, hp⟩ := Option.bind_eq_some_iff.mp hp
    obtain ⟨⟨b, rest'⟩, hb, -⟩ := Option.bind_eq_some_iff.mp hp
    exact ⟨a, rest, ha, Option.isSome_of_eq_some hb⟩
  · rintro ⟨a, rest, ha, h⟩
    obtain ⟨⟨b, rest'⟩, hb⟩ := Option.isSome_iff_exists.mp h
    simp [prod, ha, hb]

/-- The first part being read, it depends on the second. -/
theorem isSome_decode_prod_of_eq {c : Codec α} {d : Codec β} {bytes rest : List UInt8} {a : α}
    (h : c.decode bytes = some (a, rest)) :
    ((c.prod d).decode bytes).isSome ↔ (d.decode rest).isSome := by
  rw [isSome_decode_prod, h]
  constructor
  · rintro ⟨a', rest', heq, hsome⟩
    obtain ⟨-, rfl⟩ := Prod.mk.inj (Option.some.inj heq)
    exact hsome
  · intro hsome
    exact ⟨a, rest, rfl, hsome⟩

/-- A partial map asks for a value it is defined on. -/
theorem isSome_decode_partialMap {c : Codec α} {f : α → Option β} {g : β → α}
    {hg : ∀ b, f (g b) = some b} {hf : ∀ {a b}, f a = some b → a = g b} {bytes : List UInt8} :
    ((c.partialMap f g hg @hf).decode bytes).isSome
      ↔ ∃ a rest, c.decode bytes = some (a, rest) ∧ (f a).isSome := by
  constructor
  · intro h
    obtain ⟨p, hp⟩ := Option.isSome_iff_exists.mp h
    obtain ⟨⟨a, rest⟩, ha, hp⟩ := Option.bind_eq_some_iff.mp hp
    obtain ⟨b, hb, -⟩ := Option.bind_eq_some_iff.mp hp
    exact ⟨a, rest, ha, Option.isSome_of_eq_some hb⟩
  · rintro ⟨a, rest, ha, h⟩
    obtain ⟨b, hb⟩ := Option.isSome_iff_exists.mp h
    simp [partialMap, ha, hb]

/-- A change of representation asks for nothing. -/
theorem isSome_decode_iso {c : Codec α} {f : α → β} {g : β → α} {hg : ∀ b, f (g b) = b}
    {hf : ∀ a, g (f a) = a} {bytes : List UInt8} :
    ((c.iso f g hg hf).decode bytes).isSome ↔ (c.decode bytes).isSome := by
  cases hread : c.decode bytes <;> simp [iso, partialMap, hread]

/-- A word needs its bytes, and any will do. -/
theorem isSome_decode_word {w : Nat} {bytes : List UInt8} :
    ((word w).decode bytes).isSome ↔ w ≤ bytes.length := by
  show (if w ≤ bytes.length then _ else none : Option (Nat × List UInt8)).isSome ↔ _
  split <;> simp_all

/-- What is read from `w` bytes fits in them. -/
theorem lt_of_decode_word {w n : Nat} {bytes rest : List UInt8}
    (h : (word w).decode bytes = some (n, rest)) : n < 256 ^ w := by
  have hread : (if w ≤ bytes.length then some (ofLeBytes (bytes.take w), bytes.drop w) else none)
      = some (n, rest) := h
  split at hread
  · next hw =>
    have hlt := ofLeBytes_lt (bytes.take w)
    rw [List.length_take_of_le hw] at hlt
    rw [← (Prod.mk.inj (Option.some.inj hread)).1]
    exact hlt
  · cases hread

/-- Bytes behind their number are read as soon as there are as many. -/
theorem decode_blob {w : Nat} {bytes : List UInt8} (hw : w ≤ bytes.length) :
    (blob w).decode bytes
      = if w + ofLeBytes (bytes.take w) ≤ bytes.length then
          some ((bytes.drop w).take (ofLeBytes (bytes.take w)),
            (bytes.drop w).drop (ofLeBytes (bytes.take w)))
        else none := by
  have hnumber : (word w).decode bytes = some (ofLeBytes (bytes.take w), bytes.drop w) := if_pos hw
  have hrest : (bytes.drop w).length = bytes.length - w := List.length_drop
  simp only [blob, hnumber, Option.bind_eq_bind, Option.bind_some, hrest]
  exact if_congr (by omega) rfl rfl

/-- Bytes behind their number, and then something of a fixed width. -/
theorem isSome_decode_blob_prod {w v : Nat} {c : Codec α} {bytes : List UInt8} (hw : w ≤ bytes.length)
    (hc : ∀ rest, (c.decode rest).isSome ↔ v ≤ rest.length) :
    (((blob w).prod c).decode bytes).isSome ↔ w + ofLeBytes (bytes.take w) + v ≤ bytes.length := by
  rw [isSome_decode_prod, decode_blob hw]
  split
  · next henough =>
    have hrest : ((bytes.drop w).drop (ofLeBytes (bytes.take w))).length
        = bytes.length - (w + ofLeBytes (bytes.take w)) := by
      rw [List.length_drop, List.length_drop, Nat.sub_sub]
    constructor
    · rintro ⟨bs, rest, hread, hsome⟩
      obtain ⟨rfl, rfl⟩ := Prod.mk.inj (Option.some.inj hread)
      rw [hc, hrest] at hsome
      omega
    · intro hlength
      exact ⟨_, _, rfl, (hc _).mpr (by rw [hrest]; omega)⟩
  · next hshort =>
    constructor
    · rintro ⟨_, _, hread, -⟩
      cases hread
    · intro hlength
      omega

/-! ## Blocks of one width -/

section

variable {w : Nat} {f : α → List UInt8} (hw : ∀ a, (f a).length = w)

include hw

/-- Records of one length. -/
theorem length_flatMap_const {l : List α} : (l.flatMap f).length = w * l.length := by
  induction l with
  | nil => rfl
  | cons a l ih =>
    rw [List.flatMap_cons, List.length_append, hw, ih, List.length_cons, Nat.mul_succ, Nat.add_comm]

/-- The `i`-th block is what was written for the `i`-th value. Induction on the values. -/
theorem block_flatMap {l : List α} {i : Nat} (hi : i < l.length) :
    ((l.flatMap f).drop (w * i)).take w = f l[i] := by
  induction l generalizing i with
  | nil => cases hi
  | cons a l ih =>
    rw [List.flatMap_cons]
    cases i with
    | zero => rw [Nat.mul_zero, List.drop_zero, List.take_left' (hw a), List.getElem_cons_zero]
    | succ i =>
      have hsplit : w * (i + 1) = (f a).length + w * i := by rw [hw, Nat.mul_succ, Nat.add_comm]
      rw [hsplit, ← List.drop_drop, List.drop_left, ih (Nat.lt_of_succ_lt_succ hi),
        List.getElem_cons_succ]

end

/-- The blocks of a byte string, one after the other. Induction on their number. -/
theorem flatMap_blocks (bytes : List UInt8) (w n : Nat) :
    ((List.range n).flatMap fun i => (bytes.drop (w * i)).take w) = bytes.take (w * n) := by
  induction n with
  | zero => simp
  | succ n ih =>
    rw [List.range_succ, List.flatMap_append, ih, List.flatMap_singleton, Nat.mul_succ, List.take_add]

end Codec

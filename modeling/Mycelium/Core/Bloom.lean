import Mycelium.Lib.Bits
import Mycelium.Lib.Codec
import Mycelium.Core.Sync

/-!
# Mycelium core — what a bloom filter remembers

A filter is the set of the bit numbers that its ids hash to, kept in 128 words. Inserting adds the
three numbers of an id, so the filter of a list is a union, whatever its order; and its bytes are
the words one after the other, each in eight bytes.

* `has_ofIds_iff` — which bits a filter has;
* `fromBytes_toBytes`, `toBytes_fromBytes` — the two directions of the codec;
* `bloom_filter_laws` — soundness, independence of the order, and the codec, for any hash.
-/

namespace Mycelium

namespace BloomFilter

section

variable [Prims]

/-! ## Bits -/

omit [Prims] in
theorem has_setBit_iff (b : BloomFilter) {bit : Nat} (h : bit / 64 < 128) (bit' : Nat) :
    Bits.Has (b.setBit bit h).bits bit' ↔ bit' = bit ∨ Bits.Has b.bits bit' :=
  Bits.has_set_iff b.bits h bit'

/-- Setting the bits of the hashes in a list. Induction on the list. -/
theorem has_foldl_setBit_iff (id : String) (is : List Nat) (b : BloomFilter) (bit : Nat) :
    Bits.Has (is.foldl (fun b i => b.setBit (bitIndex id i) (bitIndex_div_lt id i)) b).bits bit
      ↔ (∃ i ∈ is, bit = bitIndex id i) ∨ Bits.Has b.bits bit := by
  induction is generalizing b with
  | nil => simp
  | cons i is ih =>
    rw [List.foldl_cons, ih, has_setBit_iff]
    simp only [List.mem_cons, exists_eq_or_imp]
    exact or_left_comm.trans or_assoc.symm

theorem k_insert (b : BloomFilter) (id : String) : (b.insert id).k = b.k := by
  have hfold : ∀ (is : List Nat) (b : BloomFilter),
      (is.foldl (fun b i => b.setBit (bitIndex id i) (bitIndex_div_lt id i)) b).k = b.k := by
    intro is
    induction is with
    | nil => exact fun _ => rfl
    | cons i is ih => exact fun b => ih _
  exact hfold _ b

/-- An id adds the bits of its hashes. -/
theorem has_insert_iff (b : BloomFilter) (id : String) (bit : Nat) :
    Bits.Has (b.insert id).bits bit
      ↔ (∃ i < b.k.toNat, bit = bitIndex id i) ∨ Bits.Has b.bits bit := by
  unfold insert
  simp only [has_foldl_setBit_iff, List.mem_range]

/-- An id is contained if all the bits of its hashes are set. -/
theorem contains_iff (b : BloomFilter) (id : String) :
    b.contains id = true ↔ ∀ i < b.k.toNat, Bits.Has b.bits (bitIndex id i) := by
  unfold contains
  rw [List.all_eq_true]
  simp only [List.mem_range, Bits.has_iff_test]

/-! ## Filters of a list of ids -/

theorem k_ofIds (ids : List String) : (ofIds ids).k = 3 := by
  have hfold : ∀ (ids : List String) (b : BloomFilter), (ids.foldl insert b).k = b.k := by
    intro ids
    induction ids with
    | nil => exact fun _ => rfl
    | cons id ids ih => exact fun b => (ih _).trans (k_insert b id)
  exact hfold ids new

/-- **The bits of a filter** are those of its ids. Induction on the ids. -/
theorem has_ofIds_iff (ids : List String) (bit : Nat) :
    Bits.Has (ofIds ids).bits bit ↔ ∃ id ∈ ids, ∃ i < 3, bit = bitIndex id i := by
  have hfold : ∀ (ids : List String) (b : BloomFilter), b.k = 3 →
      (Bits.Has (ids.foldl insert b).bits bit
        ↔ (∃ id ∈ ids, ∃ i < 3, bit = bitIndex id i) ∨ Bits.Has b.bits bit) := by
    intro ids
    induction ids with
    | nil => exact fun _ _ => by simp
    | cons id ids ih =>
      intro b hk
      have hthree : b.k.toNat = 3 := congrArg UInt8.toNat hk
      rw [List.foldl_cons, ih _ ((k_insert b id).trans hk), has_insert_iff, hthree]
      simp only [List.mem_cons, exists_eq_or_imp]
      exact or_left_comm.trans or_assoc.symm
  have hnew : ¬ Bits.Has (new).bits bit := Bits.not_has_replicate bit
  rw [ofIds, hfold ids new rfl]
  simp only [hnew, or_false]

/-- No id is missed. -/
theorem contains_ofIds {ids : List String} {id : String} (hid : id ∈ ids) :
    (ofIds ids).contains id = true := by
  rw [contains_iff, k_ofIds]
  intro i hi
  exact (has_ofIds_iff ids _).mpr ⟨id, hid, i, hi, rfl⟩

/-- The order of insertion does not matter. -/
theorem ofIds_perm {ids ids' : List String} (h : ids.Perm ids') : ofIds ids = ofIds ids' := by
  have hbits : (ofIds ids).bits = (ofIds ids').bits := by
    apply Bits.ext
    intro bit
    rw [has_ofIds_iff, has_ofIds_iff]
    simp only [h.mem_iff]
  have hk : (ofIds ids).k = (ofIds ids').k := (k_ofIds ids).trans (k_ofIds ids').symm
  cases hf : ofIds ids
  cases hf' : ofIds ids'
  rw [hf, hf'] at hbits hk
  simp only at hbits hk
  rw [hbits, hk]

/-- The new filter contains nothing. -/
theorem not_contains_new (id : String) : new.contains id = false := by
  rw [← Bool.not_eq_true, contains_iff]
  intro h
  exact Bits.not_has_replicate _ (h 0 (by decide))

end

/-! ## The codec -/

theorem leNat_eq (bytes : Bytes) : leNat bytes = Codec.ofLeBytes bytes := by
  induction bytes with
  | nil => rfl
  | cons b bytes ih => rw [leNat, Codec.ofLeBytes, ih]

theorem length_toBytes (b : BloomFilter) : b.toBytes.length = 1024 := by
  unfold toBytes
  rw [Codec.length_flatMap_const fun _ => length_leBytes 8 _, Vector.length_toList]

/-- Every filter with three hash functions is read back from its bytes. -/
theorem fromBytes_toBytes {b : BloomFilter} (hk : b.k = 3) : fromBytes b.toBytes = some b := by
  have hbits : (Vector.ofFn fun i : Fin 128 =>
      UInt64.ofNat (leNat ((b.toBytes.drop (8 * i)).take 8))) = b.bits := by
    apply Vector.ext
    intro i hi
    have hword : (b.toBytes.drop (8 * i)).take 8 = leBytes 8 b.bits[i].toNat := by
      unfold toBytes
      rw [Codec.block_flatMap (fun _ => length_leBytes 8 _) (by rw [Vector.length_toList]; exact hi),
        Vector.getElem_toList]
    rw [Vector.getElem_ofFn, hword, leNat_eq, Codec.ofLeBytes_leBytes b.bits[i].toNat_lt]
    exact UInt64.ofNat_toNat
  unfold fromBytes
  rw [if_neg (not_not.mpr b.length_toBytes), hbits]
  cases b with
  | mk bits k =>
    obtain rfl : k = 3 := hk
    rfl

/-- What 1024 bytes are read as has these bytes. -/
theorem toBytes_fromBytes {bytes : Bytes} (hlength : bytes.length = 1024) :
    ∃ b, fromBytes bytes = some b ∧ b.toBytes = bytes := by
  unfold fromBytes
  rw [if_neg (not_not.mpr hlength)]
  refine ⟨_, rfl, ?_⟩
  -- each word is eight bytes, and eight bytes make one word
  have hwords : ∀ i < 128, leBytes 8 (UInt64.ofNat (leNat ((bytes.drop (8 * i)).take 8))).toNat
      = (bytes.drop (8 * i)).take 8 := by
    intro i hi
    have hblock : ((bytes.drop (8 * i)).take 8).length = 8 := by
      rw [List.length_take, List.length_drop]
      omega
    have hlt := Codec.ofLeBytes_lt ((bytes.drop (8 * i)).take 8)
    rw [hblock] at hlt
    rw [leNat_eq, UInt64.toNat_ofNat_of_lt' hlt]
    have hbytes := Codec.leBytes_ofLeBytes ((bytes.drop (8 * i)).take 8)
    rwa [hblock] at hbytes
  have hlist : (Vector.ofFn fun i : Fin 128 =>
      UInt64.ofNat (leNat ((bytes.drop (8 * i)).take 8))).toList
        = (List.range 128).map fun i => UInt64.ofNat (leNat ((bytes.drop (8 * i)).take 8)) := by
    apply List.ext_getElem
    · simp
    · intro i hi hi'
      simp
  unfold toBytes
  rw [hlist, List.flatMap_map]
  -- the 128 blocks in a row are the bytes
  have hblocks : ((List.range 128).flatMap fun i =>
      leBytes 8 (UInt64.ofNat (leNat ((bytes.drop (8 * i)).take 8))).toNat)
        = (List.range 128).flatMap fun i => (bytes.drop (8 * i)).take 8 :=
    List.flatMap_congr fun i hi => hwords i (List.mem_range.mp hi)
  refine hblocks.trans ((Codec.flatMap_blocks bytes 8 128).trans ?_)
  rw [List.take_of_length_le (by rw [hlength])]

/-- **The laws of the filter**, for any hash: no inserted id is missed, the order of insertion does
not matter, a filter that was made by inserting is read back from its bytes and then contains the
same ids, 1024 bytes are those of the filter they are read as and no other number of bytes is
read, and every bit is one of the 64 of one of the 128 words. -/
theorem bloom_filter_laws [Prims] :
    (∀ ids id, id ∈ ids → (ofIds ids).contains id = true
        ∧ ∃ b, fromBytes (ofIds ids).toBytes = some b ∧ b.contains id = true)
    ∧ (∀ ids ids' : List String, ids.Perm ids' → ofIds ids = ofIds ids')
    ∧ (∀ ids, fromBytes (ofIds ids).toBytes = some (ofIds ids))
    ∧ (∀ bytes : Bytes, bytes.length = 1024 → ∃ b, fromBytes bytes = some b ∧ b.toBytes = bytes)
    ∧ (∀ bytes : Bytes, bytes.length ≠ 1024 → fromBytes bytes = none)
    ∧ ∀ id i, bitIndex id i / 64 < 128 ∧ bitIndex id i % 64 < 64 := by
  refine ⟨?_, fun _ _ => ofIds_perm, fun ids => fromBytes_toBytes (k_ofIds ids),
    fun _ => toBytes_fromBytes, fun _ hlength => if_pos hlength, ?_⟩
  · intro ids id hid
    exact ⟨contains_ofIds hid, _, fromBytes_toBytes (k_ofIds ids), contains_ofIds hid⟩
  · intro id i
    exact ⟨bitIndex_div_lt id i, Nat.mod_lt _ (by decide)⟩

end BloomFilter

end Mycelium

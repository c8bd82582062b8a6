import Mycelium.Lib.Words
import Mycelium.Core.Prims

/-!
# Mycelium core — the bloom filter of anti-entropy

Translation of `mycelium-core/src/sync.rs`, and of the `f64` comparison with which the node
decides how to answer a filter. That comparison is on `u64`/`usize` values converted to
`f64` and multiplied by the literal `0.8`; it is modelled on the numerators, with the two
roundings to 53 significant bits the hardware performs (`f64Round`).
-/

namespace Mycelium

/-- 128 words of 64 bits, three hash functions. -/
structure BloomFilter where
  bits : Vector UInt64 128
  k : UInt8

namespace BloomFilter

def new : BloomFilter := { bits := Vector.replicate 128 0, k := 3 }

section

variable [Prims]

/-- The bit index of the `i`-th hash of an id. -/
def bitIndex (id : String) (i : Nat) : Nat := (Prims.defaultHash (UInt64.ofNat i) id).toNat % 8192

theorem bitIndex_div_lt (id : String) (i : Nat) : bitIndex id i / 64 < 128 := by
  unfold bitIndex
  omega

/-- Set one bit. -/
def setBit (b : BloomFilter) (bit : Nat) (h : bit / 64 < 128) : BloomFilter :=
  let word := b.bits.get ⟨bit / 64, h⟩ ||| ((1 : UInt64) <<< UInt64.ofNat (bit % 64))
  { b with bits := b.bits.set (bit / 64) word h }

/-- `insert`. -/
def insert (b : BloomFilter) (id : String) : BloomFilter :=
  (List.range b.k.toNat).foldl
    (fun b i => b.setBit (bitIndex id i) (bitIndex_div_lt id i)) b

/-- `contains`. -/
def contains (b : BloomFilter) (id : String) : Bool :=
  (List.range b.k.toNat).all fun i =>
    b.bits.get ⟨bitIndex id i / 64, bitIndex_div_lt id i⟩
      &&& ((1 : UInt64) <<< UInt64.ofNat (bitIndex id i % 64)) != 0

/-- A filter of all the ids. -/
def ofIds (ids : List String) : BloomFilter := ids.foldl insert new

end

/-- `to_bytes`. -/
def toBytes (b : BloomFilter) : Bytes := b.bits.toList.flatMap fun w => leBytes 8 w.toNat

/-- `u64::from_le_bytes`. -/
def leNat : Bytes → Nat
  | [] => 0
  | b :: rest => b.toNat + 256 * leNat rest

/-- `from_bytes`: 128 chunks of eight bytes. -/
def fromBytes (bytes : Bytes) : Option BloomFilter :=
  if bytes.length ≠ 1024 then none
  else some
    { bits := Vector.ofFn fun i => UInt64.ofNat (leNat ((bytes.drop (8 * i)).take 8))
      k := 3 }

end BloomFilter

/-! ## Comparing with `count as f64 * 0.8` -/

/-- Round a natural number to 53 significant bits, ties to even. -/
def f64Round (n : Nat) : Nat :=
  if n < 2 ^ 53 then n
  else
    let e := Nat.log2 n - 52
    let q := n / 2 ^ e
    let r := n % 2 ^ e
    let half := 2 ^ (e - 1)
    if half < r ∨ (r = half ∧ q % 2 = 1) then (q + 1) * 2 ^ e else q * 2 ^ e

/-- `2 ^ 53` times the `f64` nearest to `0.8`. -/
def f64Eight10ths : Nat := 7205759403792794

/-- `2 ^ 53` times `count as f64 * 0.8`. -/
def syncThreshold (count : UInt64) : Nat := f64Round (f64Round count.toNat * f64Eight10ths)

/-- `own as f64 > count as f64 * 0.8`. -/
def aboveSyncThreshold (own : Nat) (count : UInt64) : Bool :=
  syncThreshold count < f64Round own * 2 ^ 53

/-- `(own as f64) < count as f64 * 0.8`. -/
def belowSyncThreshold (own : Nat) (count : UInt64) : Bool :=
  f64Round own * 2 ^ 53 < syncThreshold count

example : aboveSyncThreshold 5 5 = true ∧ aboveSyncThreshold 4 5 = false
    ∧ belowSyncThreshold 4 5 = false ∧ belowSyncThreshold 3 5 = true := by decide

end Mycelium

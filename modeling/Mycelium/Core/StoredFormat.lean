import Mycelium.Lib.Codec
import Mycelium.Core.Crypto
import Mycelium.Core.Transport

/-!
# Mycelium core — messages as they are stored

The store writes a message with `bincode`, which encodes the fields of a struct in their order,
without names, and skips nothing but what follows the last one. `Bincode` has its codecs for the
types of the fields; `directMessageCodec` is what serde derives from the structs.

Records of older versions lack fields at the end of the envelope (`olderBytes`). The fields have
`#[serde(default)]`, but `bincode` never reports one as missing: it reads the bytes of the body in
its place.

* `directMessageCodec` — what is written now is read back;
* `deserialize_olderBytes_iff` — an older record is read as the message it was only if it lacks nothing.
-/

namespace Mycelium

/-- What `bincode` does with the types of the fields. -/
class Bincode where
  u8 : Codec UInt8
  u32 : Codec UInt32
  u64 : Codec UInt64
  string : Codec String
  bytes : Codec Bytes
  /-- A field-less enum, by the index of its variant. -/
  variant (n : Nat) : Codec (Fin n)
  option {α : Type} : Codec α → Codec (Option α)
  u8_fits : ∀ n, u8.Fits n
  u32_fits : ∀ n, u32.Fits n
  u64_fits : ∀ n, u64.Fits n
  variant_fits : ∀ i : Fin 3, (variant 3).Fits i
  /-- Lengths are `u64`. -/
  string_fits : ∀ s, (asBytes s).length < 2 ^ 64 → string.Fits s
  bytes_fits : ∀ bs : Bytes, bs.length < 2 ^ 64 → bytes.Fits bs
  option_fits : ∀ {α : Type} {c : Codec α} {o : Option α}, (∀ a ∈ o, c.Fits a) → (option c).Fits o
  option_ne_nil : ∀ {α : Type} (c : Codec α) (o : Option α), (option c).encode o ≠ []

/-- The variants of `Priority`, in their order. -/
def Priority.ofIndex : Fin 3 → Priority
  | 0 => .low
  | 1 => .normal
  | 2 => .high

def Priority.index : Priority → Fin 3
  | .low => 0
  | .normal => 1
  | .high => 2

section

variable [Bincode]

open Bincode

def priorityCodec : Codec Priority :=
  (variant 3).iso Priority.ofIndex Priority.index (by intro p; cases p <;> rfl) (by decide)

/-- The fields of an envelope, in their order. -/
abbrev EnvelopeFields := String × String × Option String × Bytes × UInt64 × UInt32 × Priority
  × Option Bytes × UInt8 × UInt8 × UInt8 × Option String

def Envelope.fields (e : Envelope) : EnvelopeFields :=
  (e.id, e.fromPeer, e.toPeer, e.payload, e.createdAtMs, e.ttlSecs, e.priority,
    e.signature, e.sigVersion, e.hopCount, e.maxHops, e.authorPeer)

def Envelope.ofFields : EnvelopeFields → Envelope
  | (id, fromPeer, toPeer, payload, createdAtMs, ttlSecs, priority, signature, sigVersion, hopCount,
      maxHops, authorPeer) =>
    { id, fromPeer, toPeer, payload, createdAtMs, ttlSecs, priority, signature, sigVersion, hopCount,
      maxHops, authorPeer }

def envelopeCodec : Codec Envelope :=
  (string.prod <| string.prod <| (option string).prod <| bytes.prod <| u64.prod <| u32.prod <|
    priorityCodec.prod <| (option bytes).prod <| u8.prod <| u8.prod <| u8.prod (option string)).iso
    Envelope.ofFields Envelope.fields (fun _ => rfl) (fun _ => rfl)

def directMessageCodec : Codec DirectMessage :=
  (envelopeCodec.prod string).iso (fun p => { envelope := p.1, body := p.2 })
    (fun m => (m.envelope, m.body)) (fun _ => rfl) (fun _ => rfl)

/-- `bincode::serialize`. -/
def serialize (m : DirectMessage) : Bytes := directMessageCodec.encode m

/-- `bincode::deserialize`: what follows the message is ignored. -/
def deserialize (bytes : Bytes) : Option DirectMessage :=
  (directMessageCodec.decode bytes).map Prod.fst

/-- The fields of the envelope, one by one. -/
def Envelope.fieldBytes (e : Envelope) : List Bytes :=
  [string.encode e.id, string.encode e.fromPeer, (option string).encode e.toPeer,
    bytes.encode e.payload, u64.encode e.createdAtMs, u32.encode e.ttlSecs,
    priorityCodec.encode e.priority, (option bytes).encode e.signature, u8.encode e.sigVersion,
    u8.encode e.hopCount, u8.encode e.maxHops, (option string).encode e.authorPeer]

/-- A record whose envelope lacks its last `k` fields. -/
def olderBytes (k : Nat) (m : DirectMessage) : Bytes :=
  (m.envelope.fieldBytes.take (12 - k)).flatten ++ string.encode m.body

/-- The message with the defaults of its last `k` fields. -/
def withDefaults (k : Nat) (m : DirectMessage) : DirectMessage :=
  { m with envelope := { m.envelope with
      signature := if 5 ≤ k then none else m.envelope.signature
      sigVersion := if 4 ≤ k then 0 else m.envelope.sigVersion
      hopCount := if 3 ≤ k then 0 else m.envelope.hopCount
      maxHops := if 2 ≤ k then defaultMaxHops else m.envelope.maxHops
      authorPeer := if 1 ≤ k then none else m.envelope.authorPeer } }

/-- Texts and byte strings whose length is a `u64`, as those of a running program are. -/
structure Storable (m : DirectMessage) : Prop where
  id : (asBytes m.envelope.id).length < 2 ^ 64
  fromPeer : (asBytes m.envelope.fromPeer).length < 2 ^ 64
  toPeer : ∀ peer ∈ m.envelope.toPeer, (asBytes peer).length < 2 ^ 64
  payload : m.envelope.payload.length < 2 ^ 64
  signature : ∀ sig ∈ m.envelope.signature, sig.length < 2 ^ 64
  authorPeer : ∀ peer ∈ m.envelope.authorPeer, (asBytes peer).length < 2 ^ 64
  body : (asBytes m.body).length < 2 ^ 64

theorem Storable.fits {m : DirectMessage} (h : Storable m) : directMessageCodec.Fits m :=
  ⟨⟨string_fits _ h.id, string_fits _ h.fromPeer,
    option_fits fun peer hpeer => string_fits _ (h.toPeer peer hpeer),
    bytes_fits _ h.payload, u64_fits _, u32_fits _, variant_fits _,
    option_fits fun sig hsig => bytes_fits _ (h.signature sig hsig), u8_fits _, u8_fits _, u8_fits _,
    option_fits fun peer hpeer => string_fits _ (h.authorPeer peer hpeer)⟩, string_fits _ h.body⟩

/-- What is written is read back. -/
theorem deserialize_serialize {m : DirectMessage} (h : Storable m) :
    deserialize (serialize m) = some m := by
  have hdecode := directMessageCodec.decode_encode h.fits []
  rw [List.append_nil] at hdecode
  rw [deserialize, serialize, hdecode]
  rfl

theorem serialize_eq (m : DirectMessage) :
    serialize m = m.envelope.fieldBytes.flatten ++ string.encode m.body := by
  show envelopeCodec.encode m.envelope ++ string.encode m.body = _
  have henvelope : envelopeCodec.encode m.envelope = m.envelope.fieldBytes.flatten := by
    simp [envelopeCodec, Codec.iso, Codec.partialMap, Codec.prod, Envelope.fields,
      Envelope.fieldBytes]
  rw [henvelope]

/-- The fields an older record has are those of the message with defaults. -/
theorem olderBytes_withDefaults {k : Nat} (hk : k ≤ 5) (m : DirectMessage) :
    olderBytes k (withDefaults k m) = olderBytes k m := by
  interval_cases k <;> rfl

/-- A record that lacks fields is shorter than one that has their defaults. -/
theorem length_olderBytes_lt {k : Nat} (hk : k ≠ 0) (m : DirectMessage) :
    (olderBytes k m).length < (serialize m).length := by
  obtain ⟨init, hinit, hlength⟩ : ∃ init, m.envelope.fieldBytes
      = init ++ [(option string).encode m.envelope.authorPeer] ∧ init.length = 11 :=
    ⟨m.envelope.fieldBytes.take 11, rfl, rfl⟩
  have hlast : (m.envelope.fieldBytes.drop (12 - k)).flatten
      = (init.drop (12 - k)).flatten ++ (option string).encode m.envelope.authorPeer := by
    rw [hinit, List.drop_append_of_le_length (by omega)]
    simp
  have hpos : 0 < ((option string).encode m.envelope.authorPeer).length :=
    List.length_pos_of_ne_nil (option_ne_nil _ _)
  rw [serialize_eq, olderBytes, ← List.take_append_drop (12 - k) m.envelope.fieldBytes,
    List.flatten_append, hlast, List.take_append_drop]
  simp only [List.length_append]
  omega

/-- **Which older records decode.** A record that lacks the last `k` of the five fields with
defaults is read as the message with these defaults exactly if `k` is zero: what stands in for the
missing bytes is taken from the body. -/
theorem deserialize_olderBytes_iff {m : DirectMessage} (hm : Storable m) {k : Nat} (hk : k ≤ 5) :
    deserialize (olderBytes k m) = some (withDefaults k m) ↔ k = 0 := by
  refine ⟨?_, ?_⟩
  · intro h
    by_contra hmissing
    obtain ⟨⟨m', rest⟩, hdecode, rfl⟩ := Option.map_eq_some_iff.mp h
    -- what is read is what is written now, and that is longer
    have hread : olderBytes k m = serialize (withDefaults k m) ++ rest :=
      directMessageCodec.encode_of_decode hdecode
    have hshorter := length_olderBytes_lt hmissing (withDefaults k m)
    rw [olderBytes_withDefaults hk, hread, List.length_append] at hshorter
    omega
  · rintro rfl
    have hfull : olderBytes 0 m = serialize m := by
      rw [serialize_eq]
      rfl
    rw [hfull, deserialize_serialize hm]
    rfl

end

/-! ## The format of `bincode` 1 -/

/-- Fixed-width little-endian numbers and `u64` lengths; a variant is a `u32`. -/
@[reducible] def fixint : Bincode where
  u8 := .byte
  u32 := (Codec.word 4).partialMap (fun n => if n < 2 ^ 32 then some (UInt32.ofNat n) else none)
    UInt32.toNat (fun n => by simp [n.toNat_lt]) (by
      intro n b h
      split at h
      · next hn => rw [← Option.some.inj h, UInt32.toNat_ofNat_of_lt' hn]
      · cases h)
  u64 := (Codec.word 8).partialMap (fun n => if n < 2 ^ 64 then some (UInt64.ofNat n) else none)
    UInt64.toNat (fun n => by simp [n.toNat_lt]) (by
      intro n b h
      split at h
      · next hn => rw [← Option.some.inj h, UInt64.toNat_ofNat_of_lt' hn]
      · cases h)
  string := (Codec.blob 8).partialMap fromUtf8 asBytes fromUtf8_asBytes
    fun h => (asBytes_of_fromUtf8 h).symm
  bytes := Codec.blob 8
  variant n := (Codec.word 4).partialMap (fun i => if h : i < n then some ⟨i, h⟩ else none)
    Fin.val (fun i => dif_pos i.isLt) (by
      intro i b h
      split at h
      · rw [← Option.some.inj h]
      · cases h)
  option := Codec.option
  u8_fits _ := trivial
  u32_fits n := n.toNat_lt
  u64_fits n := n.toNat_lt
  variant_fits i := by
    show i.val < 256 ^ 4
    omega
  string_fits _ h := h
  bytes_fits _ h := h
  option_fits h := h
  option_ne_nil c o := by cases o <;> exact List.cons_ne_nil _ _

section

attribute [local instance] fixint

/-- A message from before `author_peer`. -/
def earlierMessage : DirectMessage where
  envelope := { id := "id", fromPeer := "alice", toPeer := some "bob", payload := [1, 2], createdAtMs := 3,
                ttlSecs := 4, priority := .high, signature := some [5], sigVersion := 1 }
  body := "hi"

theorem earlierMessage_storable : Storable earlierMessage := by
  refine ⟨by decide, by decide, by decide, by decide, by decide, nofun, by decide⟩

/-- With no field missing, it is read back. -/
theorem deserialize_olderBytes_now :
    deserialize (olderBytes 0 earlierMessage) = some (withDefaults 0 earlierMessage) :=
  (deserialize_olderBytes_iff earlierMessage_storable (Nat.zero_le 5)).mpr rfl

/-- The record without `author_peer` does not decode: the length of the body is no tag. -/
theorem deserialize_before_authorPeer :
    deserialize (olderBytes 1 earlierMessage) = none
    ∧ ¬ ∀ m k, Storable m → k ≤ 5 → deserialize (olderBytes k m) = some (withDefaults k m) := by
  have hnone : deserialize (olderBytes 1 earlierMessage) = none := by decide +kernel
  refine ⟨hnone, ?_⟩
  intro h
  have hsome := h earlierMessage 1 earlierMessage_storable (by decide)
  rw [hnone] at hsome
  cases hsome

end

end Mycelium

import Mycelium.Node.DataFrames
import Mycelium.Node.GossipReplay
import Mycelium.Node.Symbolic

/-!
# Mycelium node — what a message id identifies

`Envelope::new` hashes the sender, the payload and the time, one after the other and without
lengths; the recipient is not among them. Ingest keeps messages apart by their ids alone.

* `EnvelopeParts.digestInput_inj` — what the hashed bytes determine;
* `message_ids_identify_iff` — when two envelopes have different ids, and when ingest keeps both;
* `copies_share_id` — two recipients in the same millisecond.
-/

namespace Mycelium

/-- What an envelope is made of: the arguments of `Envelope::new`, and the clock it reads. -/
structure EnvelopeParts where
  fromPeer : String
  toPeer : Option String
  payload : Bytes
  now : UInt64
deriving DecidableEq

namespace EnvelopeParts

def envelope [Prims] (p : EnvelopeParts) : Envelope :=
  Envelope.new p.now p.fromPeer p.toPeer p.payload

def digestInput (p : EnvelopeParts) : Bytes :=
  asBytes p.fromPeer ++ p.payload ++ leBytes 8 p.now.toNat

/-- What the hash keeps apart: the times, or the bytes of sender and payload put together. -/
def Distinguishable (p q : EnvelopeParts) : Prop :=
  p.now ≠ q.now ∨ asBytes p.fromPeer ++ p.payload ≠ asBytes q.fromPeer ++ q.payload

theorem digestInput_inj {p q : EnvelopeParts} :
    p.digestInput = q.digestInput ↔ ¬ p.Distinguishable q := by
  unfold digestInput Distinguishable
  rw [not_or, not_not, not_not]
  refine ⟨?_, ?_⟩
  · intro h
    -- the eight bytes of the time are the only ones with a fixed place
    obtain ⟨hbytes, htime⟩ := List.append_inj' h (by simp)
    have hnow : p.now.toNat = q.now.toNat :=
      leBytes_inj (UInt64.toNat_lt _) (UInt64.toNat_lt _) htime
    exact ⟨UInt64.toNat_inj.mp hnow, hbytes⟩
  · rintro ⟨hnow, hbytes⟩
    rw [hnow, hbytes]

/-- An id is the hash in hex. -/
theorem envelope_id_inj [Prims] {p q : EnvelopeParts} :
    p.envelope.id = q.envelope.id ↔ Prims.blake3 p.digestInput = Prims.blake3 q.digestInput := by
  have hid : ∀ r : EnvelopeParts,
      r.envelope.id = hexEncode (Prims.blake3 r.digestInput).toList := fun _ => rfl
  rw [hid, hid]
  refine ⟨?_, fun h => by rw [h]⟩
  intro h
  have hdec := congrArg hexDecode h
  rw [hexDecode_hexEncode, hexDecode_hexEncode] at hdec
  exact Vector.toList_inj.mp (Option.some.inj hdec)

end EnvelopeParts

namespace Node

section

variable [Prims] [World]

/-- After ingest took a message, its id is known, and no other that was not. -/
theorem knows_ingest {s : NodeRunner} {m : DirectMessage} {id : String}
    (hunexpired : m.isExpired (World.clock s.calls) = false)
    (hnew : s.knows m.envelope.id = false) (hid : s.knows id = false) :
    (finalState (ingest m false s)).knows id = true ↔ id = m.envelope.id := by
  have hstate : finalState (ingest m false s) = { s with
      seenCache := s.seenCache.insert m.envelope.id
      calls := s.calls + 2
      store := s.store.persist (World.clock (s.calls + 1)) m } := by
    rw [ingest_run, hunexpired, hnew]
    rfl
  rw [hstate]
  unfold NodeRunner.knows at hid ⊢
  rw [Bool.or_eq_false_iff] at hid
  simp only [Bool.or_eq_true]
  -- the two tables gain the message's own id and no other
  refine ⟨?_, ?_⟩
  · rintro (hseen | hstored)
    · refine (BasicSeenCache.contains_of_insert hseen).resolve_right ?_
      rw [hid.1]
      exact Bool.false_ne_true
    · by_contra hne
      simp only [SledMessageStore.contains, SledMessageStore.persist] at hstored hid
      rw [AList.lookup_insert_ne hne, hid.2] at hstored
      cases hstored
  · rintro rfl
    exact .inr (by simp [SledMessageStore.contains, SledMessageStore.persist])

end

/-- **When message ids identify messages.** Two envelopes that `Envelope::new` makes have different
ids, as long as `blake3` does not collide on them, exactly if they were made at different times or
the bytes of sender and payload, put together, differ; and then, and only then, a node that took a
message with the one takes a message with the other, whatever it stood at. -/
theorem message_ids_identify_iff [Prims] [World] (p q : EnvelopeParts)
    (hcollide : Prims.blake3 p.digestInput = Prims.blake3 q.digestInput →
      p.digestInput = q.digestInput) :
    (p.envelope.id ≠ q.envelope.id ↔ p.Distinguishable q)
    ∧ ∀ (s : NodeRunner) (m m' : DirectMessage), m.envelope.id = p.envelope.id →
        m'.envelope.id = q.envelope.id → m.isExpired (World.clock s.calls) = false →
        s.knows m.envelope.id = false → s.knows m'.envelope.id = false →
        let s' := finalState (ingest m false s)
        m'.isExpired (World.clock s'.calls) = false →
        ((∃ s'', ingest m' false s' = .ok true s'') ↔ p.Distinguishable q) := by
  -- the hash keeps the two digest inputs apart, and they differ where a part does
  have hids : p.envelope.id ≠ q.envelope.id ↔ p.Distinguishable q := by
    rw [Ne, EnvelopeParts.envelope_id_inj]
    have hbytes : Prims.blake3 p.digestInput = Prims.blake3 q.digestInput
        ↔ ¬ p.Distinguishable q :=
      ⟨fun h => EnvelopeParts.digestInput_inj.mp (hcollide h),
        fun h => congrArg Prims.blake3 (EnvelopeParts.digestInput_inj.mpr h)⟩
    rw [hbytes, not_not]
  refine ⟨hids, ?_⟩
  intro s m m' hm hm' hunexpired hnew hnew' s' hunexpired'
  have hknows := knows_ingest hunexpired hnew hnew'
  have htaken : (∃ s'', ingest m' false s' = .ok true s'') ↔ s'.knows m'.envelope.id = false := by
    rw [ingest_run, hunexpired', Bool.false_or]
    cases s'.knows m'.envelope.id with
    | true => simp
    | false => simp
  rw [htaken, ← hids, Ne, ← Bool.not_eq_true]
  refine not_congr (hknows.trans ?_)
  rw [hm, hm', eq_comm]

/-- A new message of the node is made of its own name and the clock. -/
theorem newMessage_id [Prims] [World] (toPeer : Option String) (body : String) (payload : Bytes)
    (s : NodeRunner) :
    ∃ m s', newMessage toPeer body payload s = .ok m s' ∧ m.envelope.id
      = (EnvelopeParts.mk s.localPeerId toPeer payload (World.clock s.calls)).envelope.id := by
  refine ⟨_, _, rfl, ?_⟩
  cases s.keypair with
  | none => rfl
  | some keypair =>
    show ((Envelope.new _ _ _ _).sign keypair).2.id = _
    unfold Envelope.sign
    simp only
    split
    · rfl
    · rfl

section

attribute [local instance] hashingPrims noCodec

@[reducible] def oneInstant : World := stillWorld 5000000

attribute [local instance] oneInstant

/-- What peer 1 writes to a peer. -/
abbrev writtenTo (b : UInt8) (payload : Bytes) : EnvelopeParts where
  fromPeer := symbolicPeer 1
  toPeer := some (symbolicPeer b)
  payload
  now := 5000000

/-- Two messages to one peer in the same millisecond. -/
theorem message_ids_identify_payloads :
    (writtenTo 2 [104, 105]).envelope.id ≠ (writtenTo 2 [104, 111]).envelope.id
      ∧ ∃ s, ingest ⟨(writtenTo 2 [104, 111]).envelope, "ho"⟩ false
          (finalState (ingest ⟨(writtenTo 2 [104, 105]).envelope, "hi"⟩ false
            (symbolicNode 1 2 5000000))) = .ok true s := by
  have hdiffer : (writtenTo 2 [104, 105]).Distinguishable (writtenTo 2 [104, 111]) :=
    .inr (by decide)
  obtain ⟨hids, htaken⟩ := message_ids_identify_iff (writtenTo 2 [104, 105]) (writtenTo 2 [104, 111])
    (by decide +kernel)
  refine ⟨hids.mpr hdiffer, (htaken (symbolicNode 1 2 5000000)
    ⟨(writtenTo 2 [104, 105]).envelope, "hi"⟩ ⟨(writtenTo 2 [104, 111]).envelope, "ho"⟩
    rfl rfl ?_ ?_ ?_ ?_).mpr hdiffer⟩
  · decide +kernel
  · decide +kernel
  · decide +kernel
  · decide +kernel

/-- The same message to two peers in the same millisecond has one id, and the node stores it once;
and the bytes of sender and payload can be put together in two ways. -/
theorem copies_share_id :
    writtenTo 2 [104, 105] ≠ writtenTo 3 [104, 105]
    ∧ (writtenTo 2 [104, 105]).envelope.id = (writtenTo 3 [104, 105]).envelope.id
    ∧ (finalState ((sendDirectInternal (symbolicPeer 2) "hi" [104, 105] >>= fun _ =>
        sendDirectInternal (symbolicPeer 3) "hi" [104, 105])
          (symbolicNode 1 2 5000000))).store.order.length
      = (symbolicNode 1 2 5000000).store.order.length + 1
    ∧ (EnvelopeParts.mk "ab" none [99] 5000000).envelope.id
        = (EnvelopeParts.mk "a" none [98, 99] 5000000).envelope.id := by
  refine ⟨by decide, EnvelopeParts.envelope_id_inj.mpr rfl, by decide +kernel,
    EnvelopeParts.envelope_id_inj.mpr (congrArg Prims.blake3 (by decide))⟩

end

end Node

end Mycelium

import Mycelium.Core.Transport
import Mycelium.Lib.Tree
import Mathlib.Data.List.Sort

/-!
# Mycelium node — network-layer security helpers

Translation of `mycelium-node/src/security.rs`: the signature gate every `Data` frame passes
(SD-030) and the choice of relay candidates (SD-031).

* `validateDataMessageSignature_ok_iff` — what the gate lets through.
-/

namespace Mycelium.Node

inductive Sd030DropReason where
  | noSignature
  | invalidSignature
  | unparseableAuthor
deriving DecidableEq, Repr

/-- `is_gossip_relay_body`: the two tags that bypass the signature gate. -/
def isGossipRelayBody (body : String) : Bool := body == "[mycelium:group]" || body == "[appstore]"

/-- `validate_data_message_signature`; the clock argument of the source is unused there. -/
def validateDataMessageSignature [Prims] (message : DirectMessage) : Except Sd030DropReason Unit :=
  if isGossipRelayBody message.body then .ok ()
  else
    match message.envelope.signature with
    | none => .error .noSignature
    | some _ =>
      match Prims.parsePeerId message.envelope.signatureAuthorPeer with
      | none => .error .unparseableAuthor
      | some authorId =>
        if message.envelope.verify authorId then .ok () else .error .invalidSignature

/-- The envelope carries a valid signature of its author. -/
def AuthorSigned [Prims] (envelope : Envelope) : Prop :=
  ∃ authorId, Prims.parsePeerId envelope.signatureAuthorPeer = some authorId
    ∧ envelope.verify authorId = true

/-- The gate passes gossip tags, and envelopes that verify for their claimed author. -/
theorem validateDataMessageSignature_ok_iff [Prims] {m : DirectMessage} :
    validateDataMessageSignature m = .ok ()
      ↔ isGossipRelayBody m.body = true ∨ AuthorSigned m.envelope := by
  unfold AuthorSigned
  unfold validateDataMessageSignature
  by_cases hbody : isGossipRelayBody m.body = true
  · simp [hbody]
  · rw [if_neg hbody]
    cases hsig : m.envelope.signature with
    | none =>
      have hno : ∀ p, m.envelope.verify p = false := by
        intro p
        unfold Envelope.verify
        rw [hsig]
      simp [hbody, hno]
    | some sig =>
      cases Prims.parsePeerId m.envelope.signatureAuthorPeer with
      | none => simp [hbody]
      | some authorId =>
        by_cases hv : m.envelope.verify authorId = true <;> simp [hbody, hv]

/-- `select_relay_candidates`: the peers other than the target, fewest strikes first (the
sort is stable), at most `maxFanout` of them. -/
def selectRelayCandidates (peers : List String) (toPeer : String)
    (peerStrikes : KvTree.Of String UInt8) (maxFanout : Nat) : List String :=
  let scored := (peers.filter (· != toPeer)).map fun p => (p, (peerStrikes.lookup p).getD 0)
  ((scored.insertionSort fun a b => a.2 ≤ b.2).take maxFanout).map Prod.fst

end Mycelium.Node

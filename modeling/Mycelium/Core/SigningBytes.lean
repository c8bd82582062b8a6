import Mycelium.Core.Data
import Mycelium.Core.Symbolic

/-!
# Mycelium core — what an envelope signature binds

`bytes_for_signing` concatenates `id`, `from_peer`, `to_peer` and `payload` without any
framing, and the unsigned `sig_version` selects a second layout without the id. So equal
signed bytes do not by themselves mean equal fields. This module determines exactly when
they do:

* `trailer_inj` — the fifteen bytes at the end have fixed widths and are always bound;
* `agrees_iff_sameFraming` — the rest is bound exactly when the two envelopes cut the
  signed bytes at the same places (`SameFraming`);
* `signature_binds_iff_sameFraming` — the same, for the envelopes a key really signed.
-/

namespace Mycelium

namespace Envelope

/-- The fields a signature is meant to bind. -/
structure Agrees (e s : Envelope) : Prop where
  id : e.id = s.id
  toPeer : e.toPeer = s.toPeer
  payload : e.payload = s.payload
  createdAtMs : e.createdAtMs = s.createdAtMs
  ttlSecs : e.ttlSecs = s.ttlSecs
  priority : e.priority = s.priority
  maxHops : e.maxHops = s.maxHops

/-- The envelopes cut their signed bytes at the same places: a recipient of the same
length in both or in neither, payloads of the same length, ids of the same length. Under
the legacy layout the id is outside the signed bytes, and has to be the same. -/
structure SameFraming (e s : Envelope) : Prop where
  toPeer : e.toPeer.isSome = s.toPeer.isSome ∧ e.toPeerBytes.length = s.toPeerBytes.length
  payload : e.payload.length = s.payload.length
  id : if e.sigVersion = 0 then e.id = s.id else (asBytes e.id).length = (asBytes s.id).length

/-! ## The fixed-width end -/

@[simp] theorem length_trailer (e : Envelope) : e.trailer.length = 15 := by
  simp [trailer]

/-- The trailer determines its fields. -/
theorem trailer_inj {e s : Envelope} (h : e.trailer = s.trailer) :
    e.createdAtMs = s.createdAtMs ∧ e.ttlSecs = s.ttlSecs ∧ e.priority = s.priority
      ∧ e.hopCount = s.hopCount ∧ e.maxHops = s.maxHops := by
  unfold trailer at h
  obtain ⟨hnums, hbytes⟩ := List.append_inj h (by simp)
  obtain ⟨hcreated, httl⟩ := List.append_inj hnums (by simp)
  simp only [List.cons.injEq, and_true] at hbytes
  obtain ⟨hprio, hhop, hmax⟩ := hbytes
  refine ⟨?_, ?_, Priority.asU8_injective hprio, hhop, hmax⟩
  · exact UInt64.toNat_inj.mp (leBytes_inj (UInt64.toNat_lt _) (UInt64.toNat_lt _) hcreated)
  · exact UInt32.toNat_inj.mp (leBytes_inj (UInt32.toNat_lt _) (UInt32.toNat_lt _) httl)

/-- Presence and bytes determine the recipient. -/
theorem toPeer_eq_of_bytes {e s : Envelope} (hsome : e.toPeer.isSome = s.toPeer.isSome)
    (hbytes : e.toPeerBytes = s.toPeerBytes) : e.toPeer = s.toPeer := by
  unfold toPeerBytes at hbytes
  cases he : e.toPeer with
  | none =>
    cases hs : s.toPeer with
    | none => rfl
    | some q => rw [he, hs] at hsome; exact absurd hsome (by simp)
  | some p =>
    cases hs : s.toPeer with
    | none => rw [he, hs] at hsome; exact absurd hsome (by simp)
    | some q =>
      rw [he, hs] at hbytes
      rw [asBytes_injective hbytes]

/-! ## Framing -/

theorem sameFraming_of_agrees {e s : Envelope} (h : Agrees e s) : SameFraming e s where
  toPeer := by
    unfold toPeerBytes
    rw [h.toPeer]
    exact ⟨rfl, rfl⟩
  payload := by rw [h.payload]
  id := by
    split
    · exact h.id
    · rw [h.id]

/-- Both layouts are a head that starts with the sender side, the recipient, the payload
and the trailer; `x` is the part before the recipient. -/
theorem parts_of_append {x y : Bytes} {e s : Envelope}
    (h : x ++ e.toPeerBytes ++ e.payload ++ e.trailer = y ++ s.toPeerBytes ++ s.payload ++ s.trailer)
    (hto : e.toPeerBytes.length = s.toPeerBytes.length)
    (hpayload : e.payload.length = s.payload.length) :
    x = y ∧ e.toPeerBytes = s.toPeerBytes ∧ e.payload = s.payload ∧ e.trailer = s.trailer := by
  obtain ⟨h, htrailer⟩ := List.append_inj' h (by simp)
  obtain ⟨h, hpay⟩ := List.append_inj' h hpayload
  obtain ⟨hx, htoBytes⟩ := List.append_inj' h hto
  exact ⟨hx, htoBytes, hpay, htrailer⟩

/-- **When equal signed bytes mean equal fields.** `s` is what was signed, `e` what is
verified. -/
theorem agrees_iff_sameFraming {e s : Envelope} (h : e.signedBytes = s.bytesForSigning) :
    Agrees e s ↔ SameFraming e s := by
  refine ⟨sameFraming_of_agrees, fun hf => ?_⟩
  unfold signedBytes bytesForSigning bytesForSigningV0 at h
  have hcut : ∃ x, x ++ e.toPeerBytes ++ e.payload ++ e.trailer
        = asBytes s.id ++ asBytes s.fromPeer ++ s.toPeerBytes ++ s.payload ++ s.trailer
      ∧ (e.sigVersion ≠ 0 → x = asBytes e.id ++ asBytes e.fromPeer) := by
    split at h
    · next hv => exact ⟨asBytes e.fromPeer, h, fun hne => absurd hv hne⟩
    · exact ⟨asBytes e.id ++ asBytes e.fromPeer, h, fun _ => rfl⟩
  obtain ⟨x, hx, hxv⟩ := hcut
  obtain ⟨hhead, hto, hpay, htrailer⟩ := parts_of_append hx hf.toPeer.2 hf.payload
  obtain ⟨hcreated, httl, hprio, -, hmax⟩ := trailer_inj htrailer
  have hid : e.id = s.id := by
    have hframe := hf.id
    split at hframe
    · exact hframe
    · next hv =>
      rw [hxv hv] at hhead
      exact asBytes_injective (List.append_inj hhead hframe).1
  exact ⟨hid, toPeer_eq_of_bytes hf.toPeer.1 hto, hpay, hcreated, httl, hprio, hmax⟩

end Envelope

/-! ## What a key really signed -/

/-- The key `pk` signs only through `Envelope::sign`, and only the envelopes of `signed`. -/
def SignsOnlyEnvelopes [Prims] (pk : PublicKey) (signed : Envelope → Prop) : Prop :=
  Prims.identity.SignsOnly pk fun m => ∃ s, signed s ∧ m = s.bytesForSigning

/-- **An accepted envelope carries the signed fields exactly when it is framed like the
signed one.** Whatever `verify` accepts for `a` has the bytes of an envelope `a` signed,
and that envelope agrees with it on the bound fields if and only if both cut these bytes at
the same places. -/
theorem signature_binds_iff_sameFraming [Prims] {a : PeerId} {pk : PublicKey}
    (hkey : a.publicKey = some pk) {signed : Envelope → Prop}
    (honly : SignsOnlyEnvelopes pk signed) (e : Envelope) (hacc : e.verify a = true) :
    (∃ s, signed s ∧ e.signedBytes = s.bytesForSigning)
    ∧ ∀ s, signed s → e.signedBytes = s.bytesForSigning →
        (Envelope.Agrees e s ↔ Envelope.SameFraming e s) := by
  constructor
  · obtain ⟨sig, pk', -, hpk', hv⟩ := Envelope.verify_iff.mp hacc
    have hsame : pk' = pk := Option.some.inj (hpk'.symm.trans hkey)
    rw [hsame] at hv
    exact honly _ _ hv
  · intro s _ hbytes
    exact Envelope.agrees_iff_sameFraming hbytes

section

/-- The peer id of the signer in the examples below. -/
def symbolicAuthor : PeerId := { code := 0, digest := (symbolicKey 1).secret.toList }

/-- The one envelope the author signed: `hi`, to `bob`. -/
def symbolicSigned : Envelope :=
  { id := "m1", fromPeer := hexEncode symbolicAuthor.digest, toPeer := some "bob"
    payload := asBytes "hi", createdAtMs := 1000, ttlSecs := 60, priority := .normal
    sigVersion := 1
    signature := some ((symbolicKey 1).secret.toList ++ Envelope.bytesForSigning
      { id := "m1", fromPeer := hexEncode symbolicAuthor.digest, toPeer := some "bob"
        payload := asBytes "hi", createdAtMs := 1000, ttlSecs := 60, priority := .normal }) }

/-- The same signature on `bobhi`, to nobody in particular. -/
def symbolicRecut : Envelope :=
  { symbolicSigned with toPeer := none, payload := asBytes "bobhi" }

@[reducible] def oneEnvelopePrims : Prims := symbolicPrimsSigning [symbolicSigned.bytesForSigning]

attribute [local instance] oneEnvelopePrims

theorem oneEnvelope_signsOnly :
    SignsOnlyEnvelopes ⟨symbolicAuthor.digest⟩ (· = symbolicSigned) := by
  intro m sig hv
  have hm := symbolicIdentitySigning_signsOnly _ _ m sig hv
  exact ⟨symbolicSigned, rfl, by simpa using hm⟩

/-- The genuine envelope is accepted, and its signature binds all of it. -/
theorem signature_binds_genuine :
    symbolicSigned.verify symbolicAuthor = true
    ∧ Envelope.Agrees symbolicSigned symbolicSigned := by
  have hacc : symbolicSigned.verify symbolicAuthor = true := by decide +kernel
  have h := signature_binds_iff_sameFraming (a := symbolicAuthor) rfl oneEnvelope_signsOnly
    symbolicSigned hacc
  exact ⟨hacc, (h.2 symbolicSigned rfl rfl).mpr
    ⟨⟨rfl, rfl⟩, rfl, by decide +kernel⟩⟩

/-- The claim that every accepted envelope carries the recipient and payload of a signed
one fails: the author signed only `hi` to `bob`, and `bobhi` to nobody is accepted. -/
theorem signature_does_not_bind :
    ¬ (SignsOnlyEnvelopes ⟨symbolicAuthor.digest⟩ (· = symbolicSigned) →
        ∀ e : Envelope, e.verify symbolicAuthor = true →
          ∃ s, s = symbolicSigned ∧ Envelope.Agrees e s) := by
  intro h
  obtain ⟨s, rfl, hagree⟩ := h oneEnvelope_signsOnly symbolicRecut (by decide +kernel)
  exact absurd hagree.toPeer (by decide)

end

end Mycelium

import Mycelium.Core.Symbolic
import Mycelium.Core.Transport

/-!
# Mycelium core — what the signature of an `EncryptedDirect` frame binds

`encrypted_direct_signing_bytes` puts a zero byte behind each of its two strings, the length in
four bytes before the payload, and the two hop bytes at the end. Reading from the front, every
field ends where its encoding says so.

* `HopFields` — the signed fields, and the frame that carries them;
* `HopFields.bytes_inj` — the bytes determine the fields;
* `encrypted_direct_binds` — so a frame that verifies carries the fields that were signed.
-/

namespace Mycelium

/-- What stands before the first delimiter is determined, and what follows it. What follows may
hold the delimiter again, so `List.append_cons_inj_of_notMem` does not apply. -/
theorem append_delimiter_inj {α : Type} {x : α} {a a' b b' : List α} (ha : x ∉ a) (ha' : x ∉ a')
    (h : a ++ x :: b = a' ++ x :: b') : a = a' ∧ b = b' := by
  rcases List.append_eq_append_iff.mp h with ⟨c, rfl, hc⟩ | ⟨c, rfl, hc⟩
  · cases c with
    | nil => exact ⟨(List.append_nil a).symm, (List.cons.inj hc).2⟩
    | cons y c =>
      obtain ⟨rfl, -⟩ := List.cons.inj hc
      exact absurd (List.mem_append_right a List.mem_cons_self) ha'
  · cases c with
    | nil => exact ⟨List.append_nil a', (List.cons.inj hc).2.symm⟩
    | cons y c =>
      obtain ⟨rfl, -⟩ := List.cons.inj hc
      exact absurd (List.mem_append_right a' List.mem_cons_self) ha

/-- The fields that the signature of an `EncryptedDirect` frame covers. -/
structure HopFields where
  toPeer : String
  senderEncPubkey : String
  encryptedPayload : Bytes
  hopCount : UInt8
  maxHops : UInt8

namespace HopFields

def bytes (f : HopFields) : Bytes :=
  encryptedDirectSigningBytes f.toPeer f.senderEncPubkey f.encryptedPayload f.hopCount f.maxHops

/-- The frame, signed or not. -/
def frame (f : HopFields) (sig : Option Bytes) : WireMessage :=
  .encryptedDirect f.toPeer f.senderEncPubkey f.encryptedPayload sig f.hopCount f.maxHops

/-- No zero byte in the strings, and a payload whose length fits in four bytes. -/
structure Framed (f : HopFields) : Prop where
  toPeer : 0 ∉ asBytes f.toPeer
  senderEncPubkey : 0 ∉ asBytes f.senderEncPubkey
  payload : f.encryptedPayload.length < 2 ^ 32

/-- The fields in the order in which they end. -/
theorem bytes_eq (f : HopFields) :
    f.bytes = asBytes "MYCEL/ENC_DIRECT/v1\x00" ++ (asBytes f.toPeer ++ 0 ::
      (asBytes f.senderEncPubkey ++ 0 :: (leBytes 4 f.encryptedPayload.length
        ++ (f.encryptedPayload ++ [f.hopCount, f.maxHops])))) := by
  simp [bytes, encryptedDirectSigningBytes]

/-- **The bytes determine the fields.** -/
theorem bytes_inj {f g : HopFields} (hf : f.Framed) (hg : g.Framed) (h : f.bytes = g.bytes) :
    f = g := by
  rw [bytes_eq, bytes_eq] at h
  have hfields := List.append_cancel_left h
  obtain ⟨hto, hrest⟩ := append_delimiter_inj hf.toPeer hg.toPeer hfields
  obtain ⟨hkey, hrest⟩ := append_delimiter_inj hf.senderEncPubkey hg.senderEncPubkey hrest
  obtain ⟨hlen, hrest⟩ := List.append_inj hrest (by simp)
  have hlength : f.encryptedPayload.length = g.encryptedPayload.length :=
    leBytes_inj (by simpa using hf.payload) (by simpa using hg.payload) hlen
  obtain ⟨hpayload, hhops⟩ := List.append_inj hrest hlength
  simp only [List.cons.injEq, and_true] at hhops
  obtain ⟨hhop, hmax⟩ := hhops
  have hto' : f.toPeer = g.toPeer := asBytes_injective hto
  have hkey' : f.senderEncPubkey = g.senderEncPubkey := asBytes_injective hkey
  obtain ⟨toPeer, senderEncPubkey, encryptedPayload, hopCount, maxHops⟩ := f
  simp_all

/-- Signing a frame succeeds with the signature of its bytes. -/
theorem signEncryptedDirect_frame [Prims] (f : HopFields) (old : Option Bytes) (kp : Keypair) :
    signEncryptedDirect (f.frame old) kp = match Prims.identity.sign kp f.bytes with
      | none => (.error "failed to sign EncryptedDirect", f.frame old)
      | some sig => (.ok (), f.frame (some sig)) := rfl

theorem sign_frame_iff [Prims] {f : HopFields} {old : Option Bytes} {kp : Keypair} {sig : Bytes} :
    signEncryptedDirect (f.frame old) kp = (.ok (), f.frame (some sig))
      ↔ Prims.identity.sign kp f.bytes = some sig := by
  rw [signEncryptedDirect_frame]
  unfold frame
  cases Prims.identity.sign kp f.bytes with
  | none => simp
  | some made => simp

end HopFields

/-- **What the signature binds.** The signed bytes determine the fields; so with ideal signatures a
frame that verifies for a peer was signed with the key of that peer, with these very fields and
with no others. -/
theorem encrypted_direct_binds [Prims] (hideal : Prims.identity.Ideal) :
    (∀ f g : HopFields, f.Framed → g.Framed → f.bytes = g.bytes → f = g)
    ∧ ∀ (f : HopFields) (sig : Bytes) (peer : PeerId), f.Framed →
      verifyEncryptedDirect (f.frame (some sig)) peer = true →
      (∃ kp, peer.publicKey = some (Prims.identity.pub kp)
        ∧ signEncryptedDirect (f.frame none) kp = (.ok (), f.frame (some sig)))
      ∧ ∀ kp g old, g.Framed → signEncryptedDirect (g.frame old) kp = (.ok (), g.frame (some sig)) →
        g = f ∧ peer.publicKey = some (Prims.identity.pub kp) := by
  refine ⟨fun f g hf hg => HopFields.bytes_inj hf hg, ?_⟩
  intro f sig peer hf hverify
  obtain ⟨pk, hpk, hverify⟩ := verifyEncryptedDirect_iff.mp hverify
  refine ⟨?_, ?_⟩
  · obtain ⟨kp, hpub, hsign⟩ := hideal.sound hverify
    exact ⟨kp, hpub ▸ hpk, HopFields.sign_frame_iff.mpr hsign⟩
  · intro kp g old hg hsign
    have hmade := HopFields.sign_frame_iff.mp hsign
    obtain ⟨hpub, hbytes⟩ := (hideal.verify_iff hmade pk f.bytes).mp hverify
    exact ⟨(HopFields.bytes_inj hf hg hbytes).symm, hpub ▸ hpk⟩

section

attribute [local instance] symbolicPrims

/-- A frame of peer 1, signed, and its peer id. -/
def signedHop : HopFields :=
  { toPeer := "b", senderEncPubkey := "k", encryptedPayload := [0, 1], hopCount := 0, maxHops := 8 }

def signedHopSignature : Bytes := (symbolicKey 1).secret.toList ++ signedHop.bytes

def signedHopPeer : PeerId := { code := 0, digest := (symbolicKey 1).secret.toList }

/-- The frame verifies, and its signature was made with the key of peer 1. -/
theorem encrypted_direct_binds_signed :
    verifyEncryptedDirect (signedHop.frame (some signedHopSignature)) signedHopPeer = true
    ∧ ∃ kp, signedHopPeer.publicKey = some (Prims.identity.pub kp)
      ∧ signEncryptedDirect (signedHop.frame none) kp
        = (.ok (), signedHop.frame (some signedHopSignature)) := by
  have hframed : signedHop.Framed := ⟨by decide +kernel, by decide +kernel, by decide⟩
  have hverify : verifyEncryptedDirect (signedHop.frame (some signedHopSignature)) signedHopPeer
      = true := by
    decide +kernel
  exact ⟨hverify, ((encrypted_direct_binds symbolicIdentity_ideal).2 signedHop signedHopSignature
    signedHopPeer hframed hverify).1⟩

end

end Mycelium

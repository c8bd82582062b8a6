import Mycelium.App.AppStore
import Mycelium.Core.Symbolic
import Mycelium.Core.Text

/-!
# Mycelium app — what a revocation signature binds

`RevocationGossip::signable_bytes` writes the app id and the reason one behind the other, then the
time and the curator. The time has a fixed width and the curator is the one whose key verifies, so
of what is before them the signature binds the bytes but not where the app id ends.

* `replays_iff` — which entries a signature is valid for;
* `appId_of_replays_iff` — the ids that a signed revocation can be turned to;
* `revocation_names_one_app_iff` — when that is only its own.
-/

namespace Mycelium.App.RevocationGossip

/-- The same app id and reason, cut elsewhere. -/
def recut (entry : RevocationGossip) (appId reason : String) : RevocationGossip :=
  { entry with appId, reason }

variable {entry entry' : RevocationGossip}

theorem signableBytes_eq (entry : RevocationGossip) :
    entry.signableBytes = asBytes (entry.appId ++ entry.reason)
      ++ leBytes 8 entry.revokedAtMs.toNat ++ asBytes entry.curatorPeerId := by
  unfold signableBytes
  rw [asBytes_append]

/-- **What the signed bytes determine**, under one curator: the time, and the id with the reason. -/
theorem signableBytes_inj (hcurator : entry'.curatorPeerId = entry.curatorPeerId) :
    entry'.signableBytes = entry.signableBytes
      ↔ entry'.appId ++ entry'.reason = entry.appId ++ entry.reason
        ∧ entry'.revokedAtMs = entry.revokedAtMs := by
  rw [signableBytes_eq, signableBytes_eq, hcurator]
  constructor
  · intro h
    obtain ⟨htext, htime⟩ := List.append_inj' (List.append_cancel_right h) (by simp)
    exact ⟨asBytes_injective htext, UInt64.toNat_inj.mp
      (leBytes_inj (UInt64.toNat_lt _) (UInt64.toNat_lt _) htime)⟩
  · rintro ⟨htext, htime⟩
    rw [htext, htime]

/-- Two ways to cut the same text are one if the first parts have the same length. -/
theorem appId_eq_iff_length
    (htext : entry'.appId ++ entry'.reason = entry.appId ++ entry.reason) :
    entry'.appId = entry.appId ↔ entry'.appId.utf8ByteSize = entry.appId.utf8ByteSize := by
  refine ⟨fun h => by rw [h], fun hlength => ?_⟩
  have hbytes := congrArg asBytes htext
  rw [asBytes_append, asBytes_append] at hbytes
  exact asBytes_injective (List.append_inj hbytes hlength).1

section

variable [Prims]

/-- `entry'` is a valid revocation that reuses the signature of `entry`. -/
structure Replays (entry entry' : RevocationGossip) : Prop where
  curator : entry'.curatorPeerId = entry.curatorPeerId
  signature : entry'.signature = entry.signature
  valid : entry'.verifySignature = .ok true

theorem verifySignature_ok_iff : entry.verifySignature = .ok true
    ↔ ∃ peerId pk, Prims.parsePeerId entry.curatorPeerId = some peerId
      ∧ peerId.publicKey = some pk
      ∧ Prims.identity.verify pk entry.signableBytes entry.signature = true := by
  unfold verifySignature
  cases hparse : Prims.parsePeerId entry.curatorPeerId with
  | none => simp
  | some peerId =>
    cases hkey : peerId.publicKey with
    | none => simp [hkey]
    | some pk => simp [hkey]

/-- **The entries that a signature is valid for.** -/
theorem replays_iff (hideal : Prims.identity.Ideal) (hvalid : entry.verifySignature = .ok true) :
    Replays entry entry' ↔ entry'.curatorPeerId = entry.curatorPeerId
      ∧ entry'.signature = entry.signature
      ∧ entry'.appId ++ entry'.reason = entry.appId ++ entry.reason
      ∧ entry'.revokedAtMs = entry.revokedAtMs := by
  obtain ⟨peerId, pk, hparse, hkey, hverify⟩ := verifySignature_ok_iff.mp hvalid
  constructor
  · rintro ⟨hcurator, hsignature, hvalid'⟩
    obtain ⟨peerId', pk', hparse', hkey', hverify'⟩ := verifySignature_ok_iff.mp hvalid'
    obtain rfl := Option.some.inj (hparse.symm.trans (hcurator ▸ hparse'))
    obtain rfl := Option.some.inj (hkey.symm.trans hkey')
    rw [hsignature] at hverify'
    -- one signature, so one signed text
    obtain ⟨sk, -, hsign⟩ := hideal.sound hverify
    have hbytes := ((hideal.verify_iff hsign pk _).mp hverify').2
    exact ⟨hcurator, hsignature, (signableBytes_inj hcurator).mp hbytes⟩
  · rintro ⟨hcurator, hsignature, htext⟩
    refine ⟨hcurator, hsignature, verifySignature_ok_iff.mpr ⟨peerId, pk, ?_, hkey, ?_⟩⟩
    · rw [hcurator, hparse]
    · rw [(signableBytes_inj hcurator).mpr htext, hsignature, hverify]

/-- **The ids that a signed revocation can be turned to** are the beginnings of its app id and
reason. -/
theorem appId_of_replays_iff (hideal : Prims.identity.Ideal)
    (hvalid : entry.verifySignature = .ok true) (appId : String) :
    (∃ entry', Replays entry entry' ∧ entry'.appId = appId)
      ↔ appId.toList <+: (entry.appId ++ entry.reason).toList := by
  constructor
  · rintro ⟨entry', hreplays, rfl⟩
    obtain ⟨-, -, htext, -⟩ := (replays_iff hideal hvalid).mp hreplays
    rw [← htext, String.toList_append]
    exact List.prefix_append _ _
  · rintro ⟨rest, hrest⟩
    refine ⟨entry.recut appId (String.ofList rest), (replays_iff hideal hvalid).mpr
      ⟨rfl, rfl, ?_, rfl⟩, rfl⟩
    rw [← String.toList_inj, String.toList_append]
    show appId.toList ++ (String.ofList rest).toList = _
    rw [String.toList_ofList, hrest]

/-- **When a revocation names one app.** Two valid revocations with one curator and one signature
name the same app exactly if their app ids have the same length; a valid revocation can be turned
to exactly the beginnings of its app id and reason, so to its own id alone only if both are
empty. -/
theorem revocation_names_one_app_iff (hideal : Prims.identity.Ideal) :
    (∀ entry entry' : RevocationGossip, entry.verifySignature = .ok true → Replays entry entry' →
      (entry'.appId = entry.appId
        ↔ entry'.appId.utf8ByteSize = entry.appId.utf8ByteSize))
    ∧ ∀ entry : RevocationGossip, entry.verifySignature = .ok true →
      (∀ appId, (∃ entry', Replays entry entry' ∧ entry'.appId = appId)
        ↔ appId.toList <+: (entry.appId ++ entry.reason).toList)
      ∧ ((∀ entry', Replays entry entry' → entry'.appId = entry.appId)
        ↔ entry.appId = "" ∧ entry.reason = "") := by
  refine ⟨fun entry entry' hvalid hreplays => ?_, fun entry hvalid =>
    ⟨appId_of_replays_iff hideal hvalid, ?_, ?_⟩⟩
  · obtain ⟨-, -, htext, -⟩ := (replays_iff hideal hvalid).mp hreplays
    exact appId_eq_iff_length htext
  · intro h
    -- the empty id and the whole text are beginnings of the text
    have hturned : ∀ appId : String, appId.toList <+: (entry.appId ++ entry.reason).toList →
        appId = entry.appId := by
      intro appId hbegins
      obtain ⟨entry', hreplays, rfl⟩ := (appId_of_replays_iff hideal hvalid appId).mpr hbegins
      exact h entry' hreplays
    have hempty := hturned "" List.nil_prefix
    have hwhole := hturned (entry.appId ++ entry.reason) (List.prefix_refl _)
    rw [← hempty, String.empty_append] at hwhole
    exact ⟨hempty.symm, hwhole⟩
  · rintro ⟨happId, hreason⟩ entry' hreplays
    obtain ⟨-, -, htext, -⟩ := (replays_iff hideal hvalid).mp hreplays
    rw [happId, hreason] at htext
    have hlist := congrArg String.toList htext
    rw [String.toList_append, String.toList_append] at hlist
    rw [happId, ← String.toList_inj]
    exact (List.append_eq_nil_iff.mp hlist).1

end

section

attribute [local instance] symbolicPrims

/-- A revocation of `com.app` that peer 3 signed. -/
def signedRevocation : RevocationGossip :=
  let entry : RevocationGossip :=
    { appId := "com.app", reason := ".x is malware", revokedAtMs := 9
      curatorPeerId := (symbolicKey 3).peerIdString, signature := [] }
  { entry with signature := (symbolicKey 3).secret.toList ++ entry.signableBytes }

/-- The signature also revokes another app. -/
theorem revocation_replayed :
    signedRevocation.verifySignature = .ok true
    ∧ Replays signedRevocation (signedRevocation.recut "com.app.x" " is malware")
    ∧ (signedRevocation.recut "com.app.x" " is malware").appId ≠ signedRevocation.appId :=
  ⟨by decide +kernel, ⟨rfl, rfl, by decide +kernel⟩, by decide⟩

theorem revocation_names_one_app_signed :
    ¬ ∀ entry', Replays signedRevocation entry' → entry'.appId = signedRevocation.appId := by
  rw [((revocation_names_one_app_iff symbolicIdentity_ideal).2 signedRevocation
    (by decide +kernel)).2]
  decide

end

end Mycelium.App.RevocationGossip

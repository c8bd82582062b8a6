import Mycelium.App.Proximity
import Mycelium.Node.IngestGuard

/-!
# Mycelium app — payloads on the proximity scope

Messages, signals and intents are broadcast on one scope, each as `bincode` writes its struct, and
nothing in the bytes names the struct. A receiver tries the decoders in turn, and a decoder ignores
what follows the fields it wants.

* `presenceCodec`, `proximityDirectCodec`, `matchIntentCodec` — what serde derives from the structs;
* `decode_direct_presence` — the signals that also decode as a message;
* `told_apart_iff` — all others, and every message and intent, are received as what they are;
* `length_presence` — the length of a signal, from the fields of its profile;
* `start_proximity_fits_iff` — the profiles whose signals pass the size limit of gossip.
-/

namespace Mycelium.App

open Mycelium.Bincode
open Node (NodeCommand IngestGuard maxGossipPayloadBytes)

/-! ## Constructors -/

/-- `Uuid::new_v4`: random bytes, but for the version and the variant. -/
def Uuid.newV4 (random : Vector UInt8 16) : Uuid :=
  ⟨(random.set 6 (random[6] &&& 0x0f ||| 0x40)).set 8 (random[8] &&& 0x3f ||| 0x80)⟩

/-- `PresenceProfile::validate`. -/
def PresenceProfile.validate (profile : PresenceProfile) : Except String Unit :=
  if profile.bio.any (120 < ·.toList.length) then .error "bio must be at most 120 characters"
  else if profile.photoBase64.any fun photo => 68000 < (asBytes photo).length then
    .error "photo_base64 exceeds 50KB limit"
  else .ok ()

/-- `PresenceSignal::new`; what `validate` finds is ignored. -/
def PresenceSignal.new (random : Vector UInt8 16) (now : UInt64) (encPubkeyHex : String)
    (profile : PresenceProfile) (ttlSecs : UInt32) : PresenceSignal :=
  { ephemeralId := .newV4 random, encPubkeyHex, profile, createdAtMs := now, ttlSecs }

section

attribute [local instance] fixint

/-! ## Formats -/

/-- The sixteen bytes of an id, which are written like a byte string. -/
def uuidCodec : Codec Uuid :=
  bytes.partialMap (fun bs => if h : bs.length = 16 then some ⟨⟨bs.toArray, h⟩⟩ else none)
    (fun id => id.bytes.toList)
    (by
      rintro ⟨⟨bs, h⟩⟩
      exact dif_pos h)
    (by
      intro bs id h
      split at h
      · rw [← Option.some.inj h]
        simp [Vector.toList]
      · cases h)

/-- The fields of a profile, in their order. -/
def PresenceProfile.fields (profile : PresenceProfile) :
    Option String × Option String × Option UInt8 × Option String × Option String × List String
      × Option String :=
  (profile.displayName, profile.bio, profile.age, profile.gender, profile.lookingFor,
    profile.interests, profile.photoBase64)

def profileCodec : Codec PresenceProfile :=
  ((option string).prod <| (option string).prod <| (option u8).prod <| (option string).prod <|
    (option string).prod <| (Codec.list 8 string).prod (option string)).iso
    (fun (displayName, bio, age, gender, lookingFor, interests, photoBase64) =>
      { displayName, bio, age, gender, lookingFor, interests, photoBase64 })
    PresenceProfile.fields (fun _ => rfl) (fun _ => rfl)

def presenceCodec : Codec PresenceSignal :=
  (uuidCodec.prod <| string.prod <| profileCodec.prod <| u64.prod u32).iso
    (fun (ephemeralId, encPubkeyHex, profile, createdAtMs, ttlSecs) =>
      { ephemeralId, encPubkeyHex, profile, createdAtMs, ttlSecs })
    (fun s => (s.ephemeralId, s.encPubkeyHex, s.profile, s.createdAtMs, s.ttlSecs))
    (fun _ => rfl) (fun _ => rfl)

def proximityDirectCodec : Codec ProximityDirectMessage :=
  (string.prod <| string.prod <| bytes.prod u64).iso
    (fun (targetEncPubkeyHex, senderEncPubkeyHex, encryptedPayload, createdAtMs) =>
      { targetEncPubkeyHex, senderEncPubkeyHex, encryptedPayload, createdAtMs })
    (fun m => (m.targetEncPubkeyHex, m.senderEncPubkeyHex, m.encryptedPayload, m.createdAtMs))
    (fun _ => rfl) (fun _ => rfl)

def matchIntentCodec : Codec ProximityMatchIntent :=
  (string.prod <| u64.prod u32).iso
    (fun (fromEncPubkeyHex, createdAtMs, ttlSecs) => { fromEncPubkeyHex, createdAtMs, ttlSecs })
    (fun i => (i.fromEncPubkeyHex, i.createdAtMs, i.ttlSecs)) (fun _ => rfl) (fun _ => rfl)

/-- `ProximityDirectMessage::decode`: what follows the message is ignored. -/
def ProximityDirectMessage.decode (payload : Bytes) : Option ProximityDirectMessage :=
  (proximityDirectCodec.decode payload).map Prod.fst

/-- `PresenceSignal::decode`. -/
def PresenceSignal.decode (payload : Bytes) : Option PresenceSignal :=
  (presenceCodec.decode payload).map Prod.fst

/-- `ProximityMatchIntent::decode`. -/
def ProximityMatchIntent.decode (payload : Bytes) : Option ProximityMatchIntent :=
  (matchIntentCodec.decode payload).map Prod.fst

/-- The three encoders. -/
@[reducible] def bincodeEncoder : ProximityEncoder where
  encodeProximityDirect := proximityDirectCodec.encode
  encodePresence := presenceCodec.encode
  encodeMatchIntent := matchIntentCodec.encode

/-- The three decoders, among the others the app calls. -/
@[reducible] def bincodeProximity (codec : AppCodec) : AppCodec :=
  { codec with
    decodeProximityDirect := ProximityDirectMessage.decode
    decodePresence := PresenceSignal.decode
    decodeMatchIntent := ProximityMatchIntent.decode }

attribute [local instance] bincodeEncoder

/-- Every length is a `u64`, as those of a running program are. -/
def ProximityPayload.Fits : ProximityPayload → Prop
  | .direct m => proximityDirectCodec.Fits m
  | .presence signal => presenceCodec.Fits signal
  | .intent i => matchIntentCodec.Fits i

/-! ## Lengths -/

/-- A length in eight bytes, and the bytes. -/
theorem length_encode_bytes (bs : Bytes) : (bytes.encode bs).length = 8 + bs.length := by
  show (leBytes 8 _ ++ bs).length = _
  rw [List.length_append, length_leBytes]

/-- The same for a text. -/
theorem length_encode_string (s : String) : (string.encode s).length = 8 + (asBytes s).length :=
  length_encode_bytes (asBytes s)

/-- The timestamp and the lifetime at the end of a signal, and of an intent. -/
theorem length_encode_times (createdAtMs : UInt64) (ttlSecs : UInt32) :
    (u64.encode createdAtMs ++ u32.encode ttlSecs).length = 12 := by
  rw [List.length_append]
  exact congrArg₂ (· + ·) (length_leBytes 8 _) (length_leBytes 4 _)

/-- The bytes of a text that may be missing. -/
def textSize : Option String → Nat
  | none => 1
  | some s => 9 + (asBytes s).length

/-- A text that may be missing has a byte that says so. -/
theorem length_encode_text (o : Option String) : ((option string).encode o).length = textSize o := by
  cases o with
  | none => rfl
  | some s =>
    show (1 :: string.encode s).length = _
    rw [List.length_cons, length_encode_string, textSize]
    omega

/-- The bytes of a profile. -/
def PresenceProfile.size (profile : PresenceProfile) : Nat :=
  textSize profile.displayName + textSize profile.bio + (if profile.age.isSome then 2 else 1)
    + textSize profile.gender + textSize profile.lookingFor
    + (8 + (profile.interests.map fun interest => 8 + (asBytes interest).length).sum)
    + textSize profile.photoBase64

/-- A list of texts has its number in front. -/
theorem length_interests (interests : List String) :
    ((Codec.list 8 string).encode interests).length
      = 8 + (interests.map fun interest => 8 + (asBytes interest).length).sum := by
  show (leBytes 8 _ ++ interests.flatMap string.encode).length = _
  rw [List.length_append, length_leBytes, List.length_flatMap]
  simp only [length_encode_string]

/-- The fields of a profile, one after the other. -/
theorem profile_encode (profile : PresenceProfile) :
    profileCodec.encode profile = (option string).encode profile.displayName
      ++ ((option string).encode profile.bio ++ ((option u8).encode profile.age
      ++ ((option string).encode profile.gender ++ ((option string).encode profile.lookingFor
      ++ ((Codec.list 8 string).encode profile.interests
      ++ (option string).encode profile.photoBase64))))) := rfl

/-- So its size is the sum of theirs. -/
theorem length_profile (profile : PresenceProfile) :
    (profileCodec.encode profile).length = profile.size := by
  have hage : ((option u8).encode profile.age).length = if profile.age.isSome then 2 else 1 := by
    cases profile.age <;> rfl
  simp only [profile_encode, List.length_append, length_encode_text, length_interests, hage,
    PresenceProfile.size]
  omega

/-- The fields of a presence signal. -/
theorem presence_encode (s : PresenceSignal) :
    presenceCodec.encode s = bytes.encode s.ephemeralId.bytes.toList ++ (string.encode s.encPubkeyHex
      ++ (profileCodec.encode s.profile ++ (u64.encode s.createdAtMs ++ u32.encode s.ttlSecs))) := rfl

/-- The fields of an intent. -/
theorem intent_encode (i : ProximityMatchIntent) :
    matchIntentCodec.encode i = bytes.encode (asBytes i.fromEncPubkeyHex)
      ++ (u64.encode i.createdAtMs ++ u32.encode i.ttlSecs) := rfl

/-- A presence signal has 44 bytes beside its key and its profile. -/
theorem length_presence (s : PresenceSignal) :
    (presenceCodec.encode s).length = 44 + (asBytes s.encPubkeyHex).length + s.profile.size := by
  have hid : (bytes.encode s.ephemeralId.bytes.toList).length = 24 := by
    rw [length_encode_bytes]
    simp
  rw [presence_encode, List.length_append, List.length_append, List.length_append, hid,
    length_encode_string, length_profile, length_encode_times]
  omega

/-! ## Telling them apart -/

/-- Eight bytes are a number. -/
theorem isSome_decode_u64 (payload : Bytes) : (u64.decode payload).isSome ↔ 8 ≤ payload.length := by
  simp only [u64]
  rw [← Codec.isSome_decode_word, Codec.isSome_decode_partialMap]
  constructor
  · rintro ⟨n, rest, hword, -⟩
    exact Option.isSome_of_eq_some hword
  · intro h
    obtain ⟨⟨n, rest⟩, hword⟩ := Option.isSome_iff_exists.mp h
    have hlt : n < 2 ^ 64 := (Codec.lt_of_decode_word hword)
    exact ⟨n, rest, hword, by rw [if_pos hlt]; rfl⟩

/-- A text is read where a byte string stands if its bytes are one. -/
theorem decode_string_bytes {bs : Bytes} (hbs : bs.length < 2 ^ 64) (rest : Bytes) :
    string.decode (bytes.encode bs ++ rest) = (fromUtf8 bs).map fun s => (s, rest) := by
  have hblob : (Codec.blob 8).decode (bytes.encode bs ++ rest) = some (bs, rest) :=
    (Codec.blob 8).decode_encode hbs rest
  simp only [string, Codec.partialMap, hblob, Option.bind_eq_bind, Option.bind_some]
  cases fromUtf8 bs <;> rfl

/-- The first eight bytes of a profile, taken for the number of bytes behind them. -/
def PresenceProfile.lead (profile : PresenceProfile) : Nat :=
  Codec.ofLeBytes ((profileCodec.encode profile).take 8)

/-- The id is a text, and the profile has as many bytes behind its first eight as they say, but for
four: a decoder of messages takes the id for a key and the profile for the encrypted payload. -/
def PresenceSignal.ReadAsDirect (s : PresenceSignal) : Prop :=
  (fromUtf8 s.ephemeralId.bytes.toList).isSome ∧ s.profile.lead + 4 ≤ s.profile.size

/-- A profile has a byte for each of its fields, and more for its list. -/
theorem PresenceProfile.eight_le_size (profile : PresenceProfile) : 8 ≤ profile.size := by
  unfold PresenceProfile.size
  omega

/-- A profile with a name has a one there, and the length of the name. -/
theorem PresenceProfile.lead_named {profile : PresenceProfile} {name : String}
    (hname : profile.displayName = some name) (hlength : (asBytes name).length < 256 ^ 7) :
    profile.lead = 1 + 256 * (asBytes name).length := by
  obtain ⟨rest, hrest⟩ : ∃ rest, profileCodec.encode profile
      = 1 :: (leBytes 8 (asBytes name).length ++ rest) := by
    have hname' : (option string).encode (some name)
        = 1 :: (leBytes 8 (asBytes name).length ++ asBytes name) := rfl
    rw [profile_encode, hname, hname', List.cons_append, List.append_assoc]
    exact ⟨_, rfl⟩
  have htake : (profileCodec.encode profile).take 8 = 1 :: leBytes 7 (asBytes name).length := by
    rw [hrest]
    rfl
  rw [PresenceProfile.lead, htake, Codec.ofLeBytes, Codec.ofLeBytes_leBytes hlength]
  rfl

/-- **Which signals decode as a message.** -/
theorem decode_direct_presence {s : PresenceSignal} (hs : presenceCodec.Fits s) :
    (proximityDirectCodec.decode (presenceCodec.encode s)).isSome ↔ s.ReadAsDirect := by
  obtain ⟨hid, hkey, -, -, -⟩ := hs
  have hprofile : 8 ≤ (profileCodec.encode s.profile
      ++ (u64.encode s.createdAtMs ++ u32.encode s.ttlSecs)).length := by
    rw [List.length_append, length_profile]
    have := s.profile.eight_le_size
    omega
  have hlead : Codec.ofLeBytes ((profileCodec.encode s.profile
      ++ (u64.encode s.createdAtMs ++ u32.encode s.ttlSecs)).take 8) = s.profile.lead := by
    rw [List.take_append_of_le_length (by rw [length_profile]; exact s.profile.eight_le_size)]
    rfl
  -- behind the id and the key, the profile is what is left for the payload and the timestamp
  have hrest := Codec.isSome_decode_blob_prod hprofile isSome_decode_u64
  rw [hlead, List.length_append, length_encode_times, length_profile] at hrest
  unfold proximityDirectCodec
  rw [Codec.isSome_decode_iso, presence_encode]
  have hid' := decode_string_bytes hid (string.encode s.encPubkeyHex ++ (profileCodec.encode s.profile
    ++ (u64.encode s.createdAtMs ++ u32.encode s.ttlSecs)))
  unfold PresenceSignal.ReadAsDirect
  cases htext : fromUtf8 s.ephemeralId.bytes.toList with
  | none =>
    rw [htext, Option.map_none] at hid'
    rw [Codec.isSome_decode_prod, hid']
    simp
  | some text =>
    rw [htext, Option.map_some] at hid'
    rw [Codec.isSome_decode_prod_of_eq hid', Codec.isSome_decode_prod_of_eq (string.decode_encode hkey _)]
    refine hrest.trans ?_
    simp only [Option.isSome_some, true_and]
    omega

/-- A message has more behind its first key than an intent. -/
theorem decode_direct_intent {i : ProximityMatchIntent} (hi : matchIntentCodec.Fits i) :
    proximityDirectCodec.decode (matchIntentCodec.encode i) = none := by
  have hkey : string.Fits i.fromEncPubkeyHex := hi.1
  have hmin : ∀ p, 24 ≤ ((string.prod <| bytes.prod u64).encode p).length := by
    rintro ⟨sender, payload, createdAtMs⟩
    show 24 ≤ (string.encode sender ++ (bytes.encode payload ++ u64.encode createdAtMs)).length
    have hcreated : (u64.encode createdAtMs).length = 8 := length_leBytes _ _
    rw [List.length_append, List.length_append, length_encode_string, length_encode_bytes, hcreated]
    omega
  apply Option.not_isSome_iff_eq_none.mp
  unfold proximityDirectCodec
  rw [Codec.isSome_decode_iso]
  intro hsome
  have hrest := (Codec.isSome_decode_prod_of_eq (string.decode_encode hkey _)).mp hsome
  have hlength := Codec.le_of_isSome_decode hmin hrest
  have htimes := length_encode_times i.createdAtMs i.ttlSecs
  have hshort : 24 ≤ (u64.encode i.createdAtMs ++ u32.encode i.ttlSecs).length := hlength
  omega

/-- And a signal has more behind its id. -/
theorem decode_presence_intent {i : ProximityMatchIntent} (hi : matchIntentCodec.Fits i) :
    presenceCodec.decode (matchIntentCodec.encode i) = none := by
  have hkey : bytes.Fits (asBytes i.fromEncPubkeyHex) := hi.1
  have hmin : ∀ p, 16 ≤ ((string.prod <| profileCodec.prod <| u64.prod u32).encode p).length := by
    rintro ⟨key, profile, createdAtMs, ttlSecs⟩
    show 16 ≤ (string.encode key ++ (profileCodec.encode profile
      ++ (u64.encode createdAtMs ++ u32.encode ttlSecs))).length
    rw [List.length_append, List.length_append, length_encode_string, length_encode_times]
    omega
  apply Option.not_isSome_iff_eq_none.mp
  unfold presenceCodec
  rw [Codec.isSome_decode_iso, Codec.isSome_decode_prod]
  rintro ⟨id, rest, hid, hsome⟩
  -- the key is what stands where the id is expected
  have hrest : rest = u64.encode i.createdAtMs ++ u32.encode i.ttlSecs := by
    have hread := uuidCodec.encode_of_decode hid
    have hfits : bytes.Fits id.bytes.toList := by
      apply bytes_fits
      simp
    exact (Codec.eq_of_encode_append hfits hkey (hread.symm.trans (intent_encode i))).2
  have hlength := Codec.le_of_isSome_decode hmin hsome
  rw [hrest, length_encode_times] at hlength
  omega

/-! ## What is received -/

/-- Each payload is read as itself by its own decoder, and by none that is tried before. -/
def ProximityPayload.ToldApart : ProximityPayload → Prop
  | .direct m => ProximityDirectMessage.decode (ProximityPayload.encode (.direct m)) = some m
  | .presence s => ProximityDirectMessage.decode (ProximityPayload.encode (.presence s)) = none
      ∧ PresenceSignal.decode (ProximityPayload.encode (.presence s)) = some s
  | .intent i => ProximityDirectMessage.decode (ProximityPayload.encode (.intent i)) = none
      ∧ PresenceSignal.decode (ProximityPayload.encode (.intent i)) = none
      ∧ ProximityMatchIntent.decode (ProximityPayload.encode (.intent i)) = some i

/-- The branch of a payload. -/
def AppNode.handleProximity [Prims] (now : UInt64) : ProximityPayload → AppNode → AppNode
  | .direct m => handleProximityDirect now m
  | .presence s => handlePresence now s
  | .intent i => handleMatchIntent now i

/-- Only a signal is ever taken for something else. -/
def ProximityPayload.Misread : ProximityPayload → Prop
  | .presence s => s.ReadAsDirect
  | _ => False

/-- A payload is told apart exactly if no earlier format reads it as something else. -/
theorem toldApart_iff {x : ProximityPayload} (hx : x.Fits) : x.ToldApart ↔ ¬ x.Misread := by
  cases x with
  | direct m => exact iff_of_true (proximityDirectCodec.map_fst_decode_encode hx) not_false
  | presence s =>
    have hself : PresenceSignal.decode (presenceCodec.encode s) = some s :=
      presenceCodec.map_fst_decode_encode hx
    show ProximityDirectMessage.decode (presenceCodec.encode s) = none ∧ _ ↔ ¬ s.ReadAsDirect
    rw [← decode_direct_presence hx, Option.not_isSome_iff_eq_none, ProximityDirectMessage.decode,
      Option.map_eq_none_iff]
    exact and_iff_left hself
  | intent i =>
    refine iff_of_true ⟨?_, ?_, matchIntentCodec.map_fst_decode_encode hx⟩ not_false
    · exact Option.map_eq_none_iff.mpr (decode_direct_intent hx)
    · exact Option.map_eq_none_iff.mpr (decode_presence_intent hx)

section

variable [Prims] [AppCodec] {now : UInt64} {payload : Bytes} {app : AppNode}

/-- A direct message is tried first. -/
theorem handleProximityPayload_direct (hactive : app.proximityActive = true)
    {m : ProximityDirectMessage} (hdirect : AppCodec.decodeProximityDirect payload = some m) :
    app.handleProximityPayload now payload = app.handleProximityDirect now m := by
  unfold AppNode.handleProximityPayload
  rw [hactive, hdirect]
  rfl

/-- A presence signal is tried next. -/
theorem handleProximityPayload_presence (hactive : app.proximityActive = true) {s : PresenceSignal}
    (hdirect : AppCodec.decodeProximityDirect payload = none)
    (hpresence : AppCodec.decodePresence payload = some s) :
    app.handleProximityPayload now payload = app.handlePresence now s := by
  unfold AppNode.handleProximityPayload
  rw [hactive, hdirect, hpresence]
  rfl

/-- An intent is tried last. -/
theorem handleProximityPayload_intent (hactive : app.proximityActive = true)
    {i : ProximityMatchIntent} (hdirect : AppCodec.decodeProximityDirect payload = none)
    (hpresence : AppCodec.decodePresence payload = none)
    (hintent : AppCodec.decodeMatchIntent payload = some i) :
    app.handleProximityPayload now payload = app.handleMatchIntent now i := by
  unfold AppNode.handleProximityPayload
  rw [hactive, hdirect, hpresence, hintent]
  rfl

end

/-- **What is received on the proximity scope.** A payload is told apart and handled as what it is,
by every node whose proximity is active, exactly if it is no signal that also decodes as a message. -/
theorem told_apart_iff [Prims] (codec : AppCodec) {x : ProximityPayload} (hx : x.Fits) :
    (x.ToldApart ∧ ∀ now app, app.proximityActive = true →
      @AppNode.handleProximityPayload _ (bincodeProximity codec) now x.encode app
        = app.handleProximity now x)
      ↔ ¬ x.Misread := by
  rw [← toldApart_iff hx]
  refine and_iff_left_of_imp fun h now app hactive => ?_
  let := bincodeProximity codec
  cases x with
  | direct m => exact handleProximityPayload_direct hactive h
  | presence s => exact handleProximityPayload_presence hactive h.1 h.2
  | intent i => exact handleProximityPayload_intent hactive h.1 h.2.1 h.2.2

/-- A signal fits if its two texts do. -/
theorem fits_signal {s : PresenceSignal} (hkey : (asBytes s.encPubkeyHex).length < 2 ^ 64)
    (hprofile : profileCodec.Fits s.profile) : presenceCodec.Fits s := by
  have hid : bytes.Fits s.ephemeralId.bytes.toList := by
    apply bytes_fits
    simp
  exact ⟨hid, string_fits _ hkey, hprofile, u64_fits _, u32_fits _⟩

/-- Random bytes that make the id the text `aaaaaaAéaaaaaaa`. -/
def unluckyBytes : Vector UInt8 16 :=
  ⟨#[0x61, 0x61, 0x61, 0x61, 0x61, 0x61, 0x01, 0xc3, 0x29, 0x61, 0x61, 0x61, 0x61, 0x61, 0x61, 0x61],
    rfl⟩

def unluckySignal : PresenceSignal := .new unluckyBytes 1000 (nearbyKey 17) {} 300

/-- Under the same id, but with a name. -/
def namedSignal : PresenceSignal :=
  .new unluckyBytes 1000 (nearbyKey 17) { displayName := some "bob" } 300

/-- The signal with the name is received as what it is. -/
theorem told_apart_named :
    (ProximityPayload.presence namedSignal).ToldApart
      ∧ ∀ now app, app.proximityActive = true →
        @AppNode.handleProximityPayload symbolicPrims (bincodeProximity proximityCodec) now
            (ProximityPayload.encode (.presence namedSignal)) app
          = app.handlePresence now namedSignal := by
  have hfits : (ProximityPayload.presence namedSignal).Fits := by
    refine fits_signal (by decide +kernel) ⟨?_, nofun, nofun, nofun, nofun, ⟨by decide, nofun⟩, nofun⟩
    intro name hname
    rw [← Option.some.inj hname]
    exact string_fits _ (by decide +kernel)
  have hlead : namedSignal.profile.lead = 1 + 256 * (asBytes "bob").length :=
    PresenceProfile.lead_named rfl (by decide +kernel)
  refine (@told_apart_iff symbolicPrims proximityCodec _ hfits).mpr ?_
  rintro ⟨-, hsize⟩
  rw [hlead] at hsize
  exact absurd hsize (by decide +kernel)

/-- The signal without one decodes as a message, and a node whose proximity is active drops it as one
for somebody else, where it would have stored the signal. -/
theorem signal_taken_for_message :
    (asBytes unluckySignal.encPubkeyHex).length = 64
      ∧ (ProximityPayload.presence unluckySignal).Fits
      ∧ (ProximityDirectMessage.decode (ProximityPayload.encode (.presence unluckySignal))).map
          (·.targetEncPubkeyHex) = some "aaaaaaAéaaaaaaa"
      ∧ (@AppNode.handleProximityPayload symbolicPrims (bincodeProximity proximityCodec) 1000
          (ProximityPayload.encode (.presence unluckySignal))
          { threeApps 1 with proximityActive := true }).proximityStore.entries = []
      ∧ (AppNode.handlePresence 1000 unluckySignal
          { threeApps 1 with proximityActive := true }).proximityStore.entries.length = 1
      ∧ ¬ ∀ x : ProximityPayload, x.Fits → x.ToldApart := by
  have hfits : (ProximityPayload.presence unluckySignal).Fits := by
    refine fits_signal (by decide +kernel) ?_
    exact ⟨nofun, nofun, nofun, nofun, nofun, ⟨by decide, nofun⟩, nofun⟩
  have hread : (ProximityDirectMessage.decode (ProximityPayload.encode (.presence unluckySignal))).map
      (·.targetEncPubkeyHex) = some "aaaaaaAéaaaaaaa" := by
    decide +kernel
  refine ⟨by decide +kernel, hfits, hread, by decide +kernel, by decide +kernel, ?_⟩
  intro h
  rw [(h _ hfits).1] at hread
  cases hread

/-! ## Starting -/

namespace AppNode

/-- The broadcast of a signal. -/
def presenceBroadcast (random : Vector UInt8 16) (now : UInt64) (profile : PresenceProfile)
    (ttlSecs : UInt32) (app : AppNode) : NodeCommand :=
  .broadcastPayload proximityScope "[proximity]" (ProximityEncoder.encodePresence
    (.new random now app.localEncPubkeyHex profile ttlSecs))

/-- `start_proximity`, with the random bytes and the clock of the first signal. The task it spawns
repeats the broadcast every minute, under a new id and at a new time. -/
def startProximity (random : Vector UInt8 16) (now : UInt64) (profile : PresenceProfile)
    (ttlSecs : UInt32) (app : AppNode) : Except String (List NodeCommand) × AppNode :=
  match profile.validate with
  | .error e => (.error e, app)
  | .ok () =>
    (.ok [.subscribeScope proximityScope, app.presenceBroadcast random now profile ttlSecs],
      { app with proximityActive := true })

end AppNode

/-- The payloads that commands broadcast. -/
def broadcastPayloads (cmds : List NodeCommand) : List Bytes :=
  cmds.filterMap fun
    | .broadcastPayload _ _ payload => some payload
    | _ => none

/-- A receiver admits the payload for its size. -/
def FitsGossip (payload : Bytes) : Prop :=
  payload.length ≤ maxGossipPayloadBytes
    ∧ ∀ (g : IngestGuard) fromPeer now,
      (g.checkGossipPayload fromPeer payload.length now).1 ≠ .error .oversize

/-- What fits in gossip is a bound on the length. -/
theorem fitsGossip_iff {payload : Bytes} :
    FitsGossip payload ↔ payload.length ≤ maxGossipPayloadBytes := by
  refine and_iff_left_of_imp fun hlength g fromPeer now => ?_
  unfold IngestGuard.checkGossipPayload
  rw [if_neg (Nat.not_lt.mpr hlength)]
  -- what is left of the check is the rate limit
  dsimp only
  split <;> simp

/-- For a new signal it is a bound on the key and the profile. -/
theorem fitsGossip_new_iff (random : Vector UInt8 16) (now : UInt64) (encPubkeyHex : String)
    (profile : PresenceProfile) (ttlSecs : UInt32) :
    FitsGossip (presenceCodec.encode (.new random now encPubkeyHex profile ttlSecs))
      ↔ 44 + (asBytes encPubkeyHex).length + profile.size ≤ maxGossipPayloadBytes := by
  rw [fitsGossip_iff, length_presence]
  rfl

/-- The payloads of repeated broadcasts are the signals of their times. -/
theorem broadcastPayloads_presence (signals : List (Vector UInt8 16 × UInt64))
    (profile : PresenceProfile) (ttlSecs : UInt32) (app : AppNode) :
    broadcastPayloads (signals.map fun r => app.presenceBroadcast r.1 r.2 profile ttlSecs)
      = signals.map fun r => presenceCodec.encode
          (.new r.1 r.2 app.localEncPubkeyHex profile ttlSecs) := by
  induction signals with
  | nil => rfl
  | cons r signals ih => exact congrArg (List.cons _) ih

section

variable {random : Vector UInt8 16} {now : UInt64} {profile : PresenceProfile} {ttlSecs : UInt32}
  {app app' : AppNode} {cmds : List NodeCommand}

/-- What a node broadcasts after a start: the first signal, and the later ones. -/
theorem broadcastPayloads_start
    (hstart : app.startProximity random now profile ttlSecs = (.ok cmds, app'))
    (later : List (Vector UInt8 16 × UInt64)) :
    broadcastPayloads (cmds ++ later.map fun r => app.presenceBroadcast r.1 r.2 profile ttlSecs)
      = ((random, now) :: later).map fun r => presenceCodec.encode
          (.new r.1 r.2 app.localEncPubkeyHex profile ttlSecs) := by
  have hcmds : cmds = [.subscribeScope proximityScope,
      app.presenceBroadcast random now profile ttlSecs] := by
    unfold AppNode.startProximity at hstart
    split at hstart
    · cases hstart
    · exact (Except.ok.inj (Prod.mk.inj hstart).1).symm
  rw [hcmds, ← broadcastPayloads_presence]
  rfl

/-- **Which profiles pass the size limit of gossip.** The signals that a node broadcasts after a start,
the first and all later ones, are admitted by every receiver for their size exactly if the fields of
the profile leave room for the rest of the signal. -/
theorem start_proximity_fits_iff
    (hstart : app.startProximity random now profile ttlSecs = (.ok cmds, app'))
    (later : List (Vector UInt8 16 × UInt64)) :
    (∀ payload ∈ broadcastPayloads
        (cmds ++ later.map fun r => app.presenceBroadcast r.1 r.2 profile ttlSecs),
      FitsGossip payload)
      ↔ 44 + (asBytes app.localEncPubkeyHex).length + profile.size ≤ maxGossipPayloadBytes := by
  rw [broadcastPayloads_start hstart, List.forall_mem_map]
  -- the profile and the key are the same in all signals, and so is the length
  constructor
  · intro h
    exact (fitsGossip_new_iff ..).mp (h _ List.mem_cons_self)
  · intro h r _
    exact (fitsGossip_new_iff ..).mpr h

end

/-- A photo of a length. -/
def photoOfLength (n : Nat) : String := String.ofList (List.replicate n 'A')

/-- A photo of any length. -/
theorem length_photoOfLength (n : Nat) : (asBytes (photoOfLength n)).length = n := by
  have hbyte : (String.utf8EncodeChar 'A').length = 1 := by decide
  rw [photoOfLength, asBytes_ofList, List.length_flatMap, List.map_replicate, hbyte]
  simp

/-- A profile with nothing but the photo. -/
theorem size_photoProfile (n : Nat) :
    PresenceProfile.size { photoBase64 := some (photoOfLength n) } = 22 + n := by
  simp only [PresenceProfile.size, textSize, length_photoOfLength, Option.isSome_none,
    Bool.false_eq_true, if_false, List.map_nil, List.sum_nil]
  omega

/-- It starts: the limit of the app on photos is higher. -/
theorem startProximity_photo {n : Nat} (hn : n ≤ 68000) :
    ∃ cmds app', (threeApps 0).startProximity unluckyBytes 1000
      { photoBase64 := some (photoOfLength n) } 300 = (.ok cmds, app') := by
  have hvalid : PresenceProfile.validate { photoBase64 := some (photoOfLength n) } = .ok () := by
    simp only [PresenceProfile.validate, Option.any_none, Option.any_some, length_photoOfLength,
      Bool.false_eq_true, if_false, decide_eq_true_eq, if_neg (Nat.not_lt.mpr hn)]
  unfold AppNode.startProximity
  rw [hvalid]
  exact ⟨_, _, rfl⟩

/-- The signal of a profile with the largest photo that `validate` lets through is too long for every
receiver. -/
theorem large_photo_oversize :
    ∃ cmds app', (threeApps 0).startProximity unluckyBytes 1000
        { photoBase64 := some (photoOfLength 68000) } 300 = (.ok cmds, app')
      ∧ ¬ ∀ payload ∈ broadcastPayloads cmds, FitsGossip payload := by
  obtain ⟨cmds, app', hstart⟩ := startProximity_photo (Nat.le_refl 68000)
  refine ⟨cmds, app', hstart, ?_⟩
  intro h
  have hpayloads := broadcastPayloads_start hstart []
  rw [List.map_nil, List.append_nil] at hpayloads
  rw [hpayloads] at h
  have hfits := (fitsGossip_new_iff ..).mp (h _ List.mem_cons_self)
  rw [size_photoProfile] at hfits
  have hlarge : maxGossipPayloadBytes < 44 + (22 + 68000) := by decide
  omega

/-- The signals of a profile without anything in it are admitted. -/
theorem empty_profile_fits :
    ∃ cmds app', (threeApps 0).startProximity unluckyBytes 1000 {} 300 = (.ok cmds, app')
      ∧ ∀ payload ∈ broadcastPayloads
          (cmds ++ [(unluckyBytes, 61000)].map fun r => (threeApps 0).presenceBroadcast r.1 r.2 {} 300),
        FitsGossip payload :=
  ⟨_, _, rfl, (start_proximity_fits_iff rfl [(unluckyBytes, 61000)]).mpr (by decide +kernel)⟩

end

end Mycelium.App

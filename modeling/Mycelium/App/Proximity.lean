import Mycelium.App.Send
import Mycelium.Core.StoredFormat
import Mycelium.Node.Symbolic
import Mycelium.Lib.Trail

/-!
# Mycelium app — proximity matches

A node that is interested in a nearby profile notes the key of the profile and broadcasts an
intent. The intent names the node that sends it and not the profile it is about, so every node that
receives it notes an interest in itself.

* `expressProximityInterest` — what the node does, after `mycelium-app/src/node.rs`;
* `ProximityNet` — nodes, the payloads they broadcast, and the interests they expressed;
* `Received` — the interests a node notes, when every intent reaches a node it was meant for;
* `mutual_sound_of_meant` — a match is then mutual.
-/

namespace Mycelium.App

open Node (NodeCommand)
open Trail

/-- The `bincode` encoders of what is sent on the proximity scope. -/
class ProximityEncoder where
  encodeProximityDirect : ProximityDirectMessage → Bytes
  encodePresence : PresenceSignal → Bytes
  encodeMatchIntent : ProximityMatchIntent → Bytes

def proximityScope : String := "mycelium/proximity/v1"

namespace ProximityMatchState

def recordOutgoing (s : ProximityMatchState) (encPubkeyHex : String) : ProximityMatchState :=
  { s with outgoing :=
      if encPubkeyHex ∈ s.outgoing then s.outgoing else s.outgoing ++ [encPubkeyHex] }

theorem mem_recordOutgoing {s : ProximityMatchState} {k k' : String}
    (h : k' ∈ (s.recordOutgoing k).outgoing) : k' = k ∨ k' ∈ s.outgoing := by
  simp only [recordOutgoing] at h
  split at h
  · exact .inr h
  · rcases List.mem_append.mp h with hold | hnew
    · exact .inr hold
    · exact .inl (List.mem_singleton.mp hnew)

theorem mem_recordIncoming {s : ProximityMatchState} {k k' : String}
    (h : k' ∈ (s.recordIncoming k).incoming) : k' = k ∨ k' ∈ s.incoming := by
  simp only [recordIncoming] at h
  split at h
  · exact .inr h
  · rcases List.mem_append.mp h with hold | hnew
    · exact .inr hold
    · exact .inl (List.mem_singleton.mp hnew)

theorem mem_recordIncoming_self (s : ProximityMatchState) (k : String) :
    k ∈ (s.recordIncoming k).incoming := by
  simp only [recordIncoming]
  split
  · next hold => exact hold
  · exact List.mem_append_right _ (List.mem_singleton.mpr rfl)

theorem isMutual_iff {s : ProximityMatchState} {k : String} :
    s.isMutual k = true ↔ k ∈ s.outgoing ∧ k ∈ s.incoming := by
  unfold isMutual interestSent interestReceived
  rw [Bool.and_eq_true, List.contains_iff_mem, List.contains_iff_mem]

end ProximityMatchState

/-- `ProximityMatchIntent::new`. -/
def ProximityMatchIntent.new (fromEncPubkeyHex : String) (now : UInt64) : ProximityMatchIntent :=
  { fromEncPubkeyHex, createdAtMs := now, ttlSecs := 300 }

namespace AppNode

/-- `active_signals`, in the order of the table; the callers here do not read the order. -/
def activeSignals (app : AppNode) (now : UInt64) : List PresenceSignal :=
  (app.proximityStore.entries.map Sigma.snd).filter fun s => !s.isExpired now

/-- `express_proximity_interest`, with the clock at the search and at the intent. -/
def expressProximityInterest [ProximityEncoder] (now now' : UInt64) (encPubkeyHex : String)
    (app : AppNode) : Except String (Bool × NodeCommand) × AppNode :=
  if !(app.activeSignals now).any (·.encPubkeyHex == encPubkeyHex) then
    (.error "profile not currently nearby", app)
  else
    let app := { app with proximityMatches := app.proximityMatches.recordOutgoing encPubkeyHex }
    let intent := ProximityMatchIntent.new app.localEncPubkeyHex now'
    (.ok (app.proximityMatches.isMutual encPubkeyHex,
      .broadcastPayload proximityScope "[proximity]" (ProximityEncoder.encodeMatchIntent intent)),
      app)

end AppNode

/-! ## A network -/

/-- What is broadcast on the proximity scope. -/
inductive ProximityPayload where
  | direct (m : ProximityDirectMessage)
  | presence (signal : PresenceSignal)
  | intent (i : ProximityMatchIntent)

/-- Nodes, what was broadcast so far, and who expressed an interest in whom, by their keys. -/
structure ProximityNet (ι : Type) where
  app : ι → AppNode
  air : List ProximityPayload := []
  expressed : List (String × String) := []

/-- A node broadcasts its presence or a message, expresses an interest, or receives something that
was broadcast. What was broadcast can arrive late, more than once, or never. -/
inductive ProximityEvent (ι : Type) where
  | presence (signal : PresenceSignal)
  | message (m : ProximityDirectMessage)
  | express (node : ι) (encPubkeyHex : String) (now now' : UInt64)
  | deliver (node : ι) (sent : Nat) (now : UInt64)

namespace ProximityNet

variable {ι : Type}

/-- The key of a node. -/
def key (net : ProximityNet ι) (i : ι) : String := (net.app i).localEncPubkeyHex

/-- The nodes of the apps, without any matches, their proximity active. -/
def start (app : ι → AppNode) : ProximityNet ι where
  app i := { app i with proximityMatches := {}, proximityActive := true }

/-- A match is mutual: both nodes expressed an interest in the other. -/
def MutualSound (net : ProximityNet ι) : Prop :=
  ∀ i k, (net.app i).proximityMatches.isMutual k = true →
    (net.key i, k) ∈ net.expressed ∧ (k, net.key i) ∈ net.expressed

/-- An intent that arrives in time comes from the receiver itself, or from a node that expressed an
interest in the receiver. -/
def MeantFor (net : ProximityNet ι) (i : ι) (now : UInt64) : Option ProximityPayload → Prop
  | some (.intent intent) => intent.isExpired now = true ∨ intent.fromEncPubkeyHex = net.key i
      ∨ (intent.fromEncPubkeyHex, net.key i) ∈ net.expressed
  | _ => True

/-- What is delivered is meant for its receiver. -/
def Meant (net : ProximityNet ι) : ProximityEvent ι → Prop
  | .deliver i sent now => net.MeantFor i now net.air[sent]?
  | _ => True

instance (net : ProximityNet ι) (i : ι) (now : UInt64) : DecidablePred (net.MeantFor i now)
  | some (.intent _) => inferInstanceAs (Decidable (_ ∨ _ ∨ _))
  | some (.presence _) => isTrue trivial
  | some (.direct _) => isTrue trivial
  | none => isTrue trivial

instance (net : ProximityNet ι) : DecidablePred net.Meant
  | .deliver i sent now => inferInstanceAs (Decidable (net.MeantFor i now net.air[sent]?))
  | .presence _ => isTrue trivial
  | .message _ => isTrue trivial
  | .express _ _ _ _ => isTrue trivial

/-- What a node noted as its own interest it expressed, and what it noted as an interest in itself
was expressed by another node. -/
structure Noted (net : ProximityNet ι) : Prop where
  sent : ∀ i k, k ∈ (net.app i).proximityMatches.outgoing → (net.key i, k) ∈ net.expressed
  received : ∀ i k, k ∈ (net.app i).proximityMatches.incoming → (k, net.key i) ∈ net.expressed

variable {net : ProximityNet ι}

theorem noted_start (app : ι → AppNode) : (start app).Noted :=
  ⟨fun _ _ h => absurd h List.not_mem_nil, fun _ _ h => absurd h List.not_mem_nil⟩

theorem Noted.mutualSound (h : net.Noted) : net.MutualSound := by
  intro i k hmutual
  obtain ⟨hsent, hreceived⟩ := ProximityMatchState.isMutual_iff.mp hmutual
  exact ⟨h.sent i k hsent, h.received i k hreceived⟩

/-- More was broadcast and expressed. -/
theorem Noted.more (h : net.Noted) (air : List ProximityPayload)
    (expressed : List (String × String)) :
    ({ net with air, expressed := net.expressed ++ expressed } : ProximityNet ι).Noted :=
  ⟨fun i k hk => List.mem_append_left _ (h.sent i k hk),
    fun i k hk => List.mem_append_left _ (h.received i k hk)⟩

variable [DecidableEq ι]

/-- The network after one node changed. -/
def withApp (net : ProximityNet ι) (i : ι) (app : AppNode) : ProximityNet ι :=
  { net with app := Function.update net.app i app }

theorem app_withApp_self (i : ι) (app : AppNode) : (net.withApp i app).app i = app := by
  show Function.update net.app i app i = app
  exact Function.update_self _ _ _

theorem app_withApp_of_ne {i j : ι} (hj : j ≠ i) (app : AppNode) :
    (net.withApp i app).app j = net.app j := by
  show Function.update net.app i app j = net.app j
  exact Function.update_of_ne hj _ _

/-- One node changed, and the interests it notes now were expressed. -/
theorem Noted.withApp (h : net.Noted) {i : ι} {app : AppNode}
    (hkey : app.localEncPubkeyHex = net.key i)
    (hsent : ∀ k ∈ app.proximityMatches.outgoing, (net.key i, k) ∈ net.expressed)
    (hreceived : ∀ k ∈ app.proximityMatches.incoming, (k, net.key i) ∈ net.expressed) :
    (net.withApp i app).Noted := by
  have hnode : ∀ j, (net.withApp i app).key j = net.key j
      ∧ ((∀ k ∈ ((net.withApp i app).app j).proximityMatches.outgoing,
          (net.key j, k) ∈ net.expressed)
        ∧ ∀ k ∈ ((net.withApp i app).app j).proximityMatches.incoming,
          (k, net.key j) ∈ net.expressed) := by
    -- the changed node by the hypotheses, every other one as before
    intro j
    unfold key
    by_cases hj : j = i
    · subst hj
      rw [app_withApp_self]
      exact ⟨hkey, hsent, hreceived⟩
    · rw [app_withApp_of_ne hj]
      exact ⟨rfl, h.sent j, h.received j⟩
  refine ⟨?_, ?_⟩
  · intro j k hk
    rw [(hnode j).1]
    exact (hnode j).2.1 k hk
  · intro j k hk
    rw [(hnode j).1]
    exact (hnode j).2.2 k hk

end ProximityNet

section

variable [Prims] [AppCodec] [ProximityEncoder]

def ProximityPayload.encode : ProximityPayload → Bytes
  | .direct m => ProximityEncoder.encodeProximityDirect m
  | .presence signal => ProximityEncoder.encodePresence signal
  | .intent i => ProximityEncoder.encodeMatchIntent i

/-- The decoders, tried in turn, take an intent for itself, and nothing else for an intent. -/
structure ProximityRoundTrips : Prop where
  intent : ∀ i, AppCodec.decodeProximityDirect (ProximityEncoder.encodeMatchIntent i) = none
    ∧ AppCodec.decodePresence (ProximityEncoder.encodeMatchIntent i) = none
    ∧ AppCodec.decodeMatchIntent (ProximityEncoder.encodeMatchIntent i) = some i
  presence : ∀ s, (AppCodec.decodePresence (ProximityEncoder.encodePresence s)).isSome
  direct : ∀ m, (AppCodec.decodeProximityDirect (ProximityEncoder.encodeProximityDirect m)).isSome

def ProximityNet.step {ι : Type} [DecidableEq ι] (net : ProximityNet ι) :
    ProximityEvent ι → ProximityNet ι
  | .presence signal => { net with air := net.air ++ [.presence signal] }
  | .message m => { net with air := net.air ++ [.direct m] }
  | .express i encPubkeyHex now now' =>
    match (net.app i).expressProximityInterest now now' encPubkeyHex with
    | (.ok _, app) => ProximityNet.withApp { net with
        air := net.air ++ [.intent (.new (net.key i) now')]
        expressed := net.expressed ++ [(net.key i, encPubkeyHex)] } i app
    | (.error _, app) => net.withApp i app
  | .deliver i sent now =>
    match net.air[sent]? with
    | some payload => net.withApp i ((net.app i).handleProximityPayload now payload.encode)
    | none => net

/-! ## What a node notes -/

namespace AppNode

variable {app : AppNode}

/-- Nothing that concerns matches is changed. -/
def SameMatches (app app' : AppNode) : Prop :=
  app'.localEncPubkeyHex = app.localEncPubkeyHex ∧ app'.proximityMatches = app.proximityMatches

omit [AppCodec] [ProximityEncoder] in
theorem sameMatches_handleProximityDirect (now : UInt64) (m : ProximityDirectMessage) :
    app.SameMatches (app.handleProximityDirect now m) := by
  unfold handleProximityDirect
  split
  · exact ⟨rfl, rfl⟩
  split
  · exact ⟨rfl, rfl⟩
  split
  · exact ⟨rfl, rfl⟩
  · exact ⟨rfl, rfl⟩

omit [Prims] [AppCodec] [ProximityEncoder] in
theorem sameMatches_handlePresence (now : UInt64) (signal : PresenceSignal) :
    app.SameMatches (app.handlePresence now signal) := by
  unfold handlePresence
  split
  · exact ⟨rfl, rfl⟩
  split
  · exact ⟨rfl, rfl⟩
  · exact ⟨rfl, rfl⟩

/-- What arrives changes the noted interests only if it is an intent of another node, and in time:
the interest of its sender is then noted. -/
theorem handleProximityPayload_matches (hround : ProximityRoundTrips) (now : UInt64)
    (payload : ProximityPayload) :
    app.SameMatches (app.handleProximityPayload now payload.encode)
    ∨ ∃ intent, payload = .intent intent ∧ intent.isExpired now = false
        ∧ intent.fromEncPubkeyHex ≠ app.localEncPubkeyHex
        ∧ app.handleProximityPayload now payload.encode = { app with
            proximityMatches := app.proximityMatches.recordIncoming intent.fromEncPubkeyHex } := by
  unfold handleProximityPayload
  split
  · exact .inl ⟨rfl, rfl⟩
  -- the decoders are tried in the order direct, presence, intent; each kind survives its own
  cases payload with
  | direct m =>
    obtain ⟨m', hm'⟩ := Option.isSome_iff_exists.mp (hround.direct m)
    rw [ProximityPayload.encode, hm']
    exact .inl (sameMatches_handleProximityDirect now m')
  | presence signal =>
    obtain ⟨signal', hsignal'⟩ := Option.isSome_iff_exists.mp (hround.presence signal)
    rw [ProximityPayload.encode, hsignal']
    split
    · next m _ => exact .inl (sameMatches_handleProximityDirect now m)
    · exact .inl (sameMatches_handlePresence now signal')
  | intent intent =>
    obtain ⟨hdirect, hpresence, hintent⟩ := hround.intent intent
    rw [ProximityPayload.encode, hdirect, hpresence, hintent]
    simp only
    unfold handleMatchIntent
    split
    · exact .inl ⟨rfl, rfl⟩
    · next hexpired =>
      split
      · exact .inl ⟨rfl, rfl⟩
      · next hother => exact .inr ⟨intent, rfl, by simpa using hexpired, hother, rfl⟩

omit [Prims] [AppCodec] in
/-- A node that expresses an interest notes it. -/
theorem expressProximityInterest_cases (now now' : UInt64) (encPubkeyHex : String) :
    (∃ e, app.expressProximityInterest now now' encPubkeyHex = (.error e, app))
    ∨ ∃ matched, app.expressProximityInterest now now' encPubkeyHex
        = (.ok (matched, .broadcastPayload proximityScope "[proximity]" (ProximityPayload.encode
            (.intent (ProximityMatchIntent.new app.localEncPubkeyHex now')))),
          { app with proximityMatches := app.proximityMatches.recordOutgoing encPubkeyHex }) := by
  unfold expressProximityInterest
  split
  · exact .inl ⟨_, rfl⟩
  · exact .inr ⟨_, rfl⟩

end AppNode

/-! ## Runs -/

namespace ProximityNet

variable {ι : Type} [DecidableEq ι] {net : ProximityNet ι}

/-- **Every event** whose intent, if it delivers one, is meant for its receiver. -/
theorem Noted.step (hround : ProximityRoundTrips) (h : net.Noted) {e : ProximityEvent ι}
    (hmeant : net.Meant e) : (net.step e).Noted := by
  cases e with
  | presence signal => exact ⟨h.sent, h.received⟩
  | message m => exact ⟨h.sent, h.received⟩
  | express i k now now' =>
    rcases (net.app i).expressProximityInterest_cases now now' k with ⟨e, hrun⟩ | ⟨matched, hrun⟩
    · simp only [ProximityNet.step, hrun]
      exact h.withApp rfl (h.sent i) (h.received i)
    · simp only [ProximityNet.step, hrun]
      refine (h.more _ [(net.key i, k)]).withApp rfl ?_ ?_
      · intro k' hk'
        -- the interest that is new is expressed with this event
        rcases ProximityMatchState.mem_recordOutgoing hk' with rfl | hold
        · exact List.mem_append_right _ (List.mem_singleton.mpr rfl)
        · exact List.mem_append_left _ (h.sent i k' hold)
      · intro k' hk'
        exact List.mem_append_left _ (h.received i k' hk')
  | deliver i sent now =>
    cases hair : net.air[sent]? with
    | none =>
      simp only [ProximityNet.step, hair]
      exact h
    | some payload =>
      simp only [ProximityNet.step, hair]
      rcases AppNode.handleProximityPayload_matches hround now payload with
        ⟨hkey, hsame⟩ | ⟨intent, rfl, htime, hother, hrun⟩
      · refine h.withApp hkey ?_ ?_
        · rw [hsame]
          exact h.sent i
        · rw [hsame]
          exact h.received i
      · simp only [hrun]
        refine h.withApp rfl (h.sent i) ?_
        intro k hk
        rcases ProximityMatchState.mem_recordIncoming hk with rfl | hold
        · have hmeantFor : net.MeantFor i now (some (.intent intent)) := hair ▸ hmeant
          rcases hmeantFor with hexpired | hself | hexpressed
          · cases htime.symm.trans hexpired
          · exact absurd hself hother
          · exact hexpressed
        · exact h.received i k hold

/-- An intent that is not meant for its receiver makes a false match at once, if the receiver is
interested in the sender. -/
theorem not_mutualSound_deliver (hround : ProximityRoundTrips) {i : ι} {sent : Nat} {now : UInt64}
    {intent : ProximityMatchIntent} (hair : net.air[sent]? = some (.intent intent))
    (hactive : (net.app i).proximityActive = true)
    (hinterested : intent.fromEncPubkeyHex ∈ (net.app i).proximityMatches.outgoing)
    (hnot : ¬ net.Meant (.deliver i sent now)) :
    ¬ (net.step (.deliver i sent now)).MutualSound := by
  have hnotFor : ¬ net.MeantFor i now (some (.intent intent)) := hair ▸ hnot
  obtain ⟨htime, hrest⟩ := not_or.mp hnotFor
  obtain ⟨hother, hunexpressed⟩ := not_or.mp hrest
  -- the guards that should have stopped the intent are not met, so it is recorded
  have hrun : (net.app i).handleProximityPayload now (ProximityPayload.encode (.intent intent))
      = { net.app i with proximityMatches :=
            (net.app i).proximityMatches.recordIncoming intent.fromEncPubkeyHex } := by
    obtain ⟨hdirect, hpresence, hintent⟩ := hround.intent intent
    unfold AppNode.handleProximityPayload
    rw [hactive, ProximityPayload.encode, hdirect, hpresence, hintent]
    simp only [Bool.not_true, Bool.false_eq_true, if_false]
    unfold AppNode.handleMatchIntent
    rw [if_neg htime]
    exact if_neg hother
  -- the sender is then mutual at `i` without having expressed an interest in it
  intro hsound
  have hi := hsound i intent.fromEncPubkeyHex
  simp only [ProximityNet.step, hair, hrun, app_withApp_self] at hi
  have hmutual := hi (ProximityMatchState.isMutual_iff.mpr
    ⟨hinterested, ProximityMatchState.mem_recordIncoming_self _ _⟩)
  have hkey : (net.withApp i { net.app i with proximityMatches :=
      (net.app i).proximityMatches.recordIncoming intent.fromEncPubkeyHex }).key i = net.key i := by
    unfold key
    rw [app_withApp_self]
  rw [hkey] at hmutual
  exact hunexpressed hmutual.2

/-- **When matches are mutual.** In every network of nodes whose proximity is active, and every
order of interests, broadcasts and deliveries: if each intent that a node receives in time comes
from a node that expressed an interest in it, a match in any state of the run means that both nodes
expressed an interest in each other. -/
theorem mutual_sound_of_meant (hround : ProximityRoundTrips) (app : ι → AppNode)
    (events : List (ProximityEvent ι)) (hmeant : Each step Meant (start app) events) :
    Always step MutualSound (start app) events :=
  always_of_each Noted Noted.mutualSound (fun h _ hm => h.step hround hm) (noted_start app)
    (each_true _ _) hmeant

end ProximityNet

end

/-! ## Three nodes -/

/-- The key in hex of a node whose key is all `b`. -/
def nearbyKey (b : UInt8) : String := hexEncode (List.replicate 32 b)

/-- The signal of the node with a key, under an id that begins like the key. -/
def nearbySignal (k : String) : PresenceSignal where
  ephemeralId := ⟨Vector.replicate 16 ((asBytes k).headD 0)⟩
  encPubkeyHex := k
  profile := {}
  createdAtMs := 1000
  ttlSecs := 300

/-- A byte for the kind, then the fields; signals carry their key alone. -/
@[reducible] def proximityEncoder : ProximityEncoder where
  encodeProximityDirect _ := [0]
  encodePresence s := 1 :: asBytes s.encPubkeyHex
  encodeMatchIntent i :=
    2 :: (leBytes 8 i.createdAtMs.toNat ++ (leBytes 4 i.ttlSecs.toNat ++ asBytes i.fromEncPubkeyHex))

@[reducible] def proximityCodec : AppCodec where
  decodeAppMessage _ := none
  decodeCoinPayload _ := none
  decodeProximityDirect
    | 0 :: _ => some ⟨"", "", [], 0⟩
    | _ => none
  decodePresence
    | 1 :: bytes => (fromUtf8 bytes).map nearbySignal
    | _ => none
  decodeMatchIntent
    | 2 :: bytes => (fromUtf8 (bytes.drop 12)).map fun k =>
        { fromEncPubkeyHex := k
          createdAtMs := UInt64.ofNat (Codec.ofLeBytes (bytes.take 8))
          ttlSecs := UInt32.ofNat (Codec.ofLeBytes ((bytes.drop 8).take 4)) }
    | _ => none
  manifestJson _ := []
  sourcesJson _ := []

section

attribute [local instance] symbolicPrims proximityEncoder proximityCodec

theorem proximityRoundTrips : ProximityRoundTrips where
  intent i := by
    refine ⟨rfl, rfl, ?_⟩
    obtain ⟨k, createdAtMs, ttlSecs⟩ := i
    have hcreated : (leBytes 8 createdAtMs.toNat).length = 8 := length_leBytes _ _
    have httl : (leBytes 4 ttlSecs.toNat).length = 4 := length_leBytes _ _
    have hhead : (leBytes 8 createdAtMs.toNat ++ leBytes 4 ttlSecs.toNat).length = 12 := by simp
    simp only [AppCodec.decodeMatchIntent, ProximityEncoder.encodeMatchIntent]
    rw [List.take_left' hcreated, List.drop_left' hcreated, List.take_left' httl,
      ← List.append_assoc, List.drop_left' hhead, fromUtf8_asBytes,
      Codec.ofLeBytes_leBytes createdAtMs.toNat_lt, Codec.ofLeBytes_leBytes ttlSecs.toNat_lt]
    simp
  presence s := by
    simp only [AppCodec.decodePresence, ProximityEncoder.encodePresence, fromUtf8_asBytes]
    rfl
  direct m := rfl

/-- Three nodes that have received nothing yet. -/
def threeApps (i : Fin 3) : AppNode where
  localPeerId := Node.symbolicPeer (UInt8.ofNat (17 * (i.val + 1)))
  localEncPubkeyHex := nearbyKey (UInt8.ofNat (17 * (i.val + 1)))
  encKeypair := ⟨Vector.replicate 32 (UInt8.ofNat (17 * (i.val + 1)))⟩

/-- The first node and the second see each other and express an interest in each other, and each
receives the intent of the other. -/
def mutualInterest : List (ProximityEvent (Fin 3)) :=
  [.presence (nearbySignal (nearbyKey 17)), .presence (nearbySignal (nearbyKey 34)),
    .deliver 0 1 1000, .deliver 1 0 1000,
    .express 0 (nearbyKey 34) 2000 2000, .express 1 (nearbyKey 17) 3000 3000,
    .deliver 0 3 4000, .deliver 1 2 4000]

/-- The second node is interested in the third, and the first in the second. -/
def interestElsewhere : List (ProximityEvent (Fin 3)) :=
  [.presence (nearbySignal (nearbyKey 34)), .presence (nearbySignal (nearbyKey 51)),
    .deliver 0 0 1000, .deliver 1 1 1000,
    .express 0 (nearbyKey 34) 2000 2000, .express 1 (nearbyKey 51) 3000 3000,
    .deliver 0 3 4000]

namespace ProximityNet

/-- The two nodes are a match, and rightly so. -/
theorem mutual_sound_of_two :
    ((mutualInterest.foldl step (start threeApps)).app 0).proximityMatches.isMutual (nearbyKey 34)
        = true
      ∧ Always step MutualSound (start threeApps) mutualInterest :=
  ⟨by decide +kernel, mutual_sound_of_meant proximityRoundTrips threeApps mutualInterest
    (by decide +kernel)⟩

/-- The intent that the second node sends for the third arrives at the first, which then takes
itself and the second for a match. -/
theorem not_mutual_sound_elsewhere : ¬ Always step MutualSound (start threeApps) interestElsewhere := by
  intro h
  have hlast := (always_iff_prefixes _ _).mp h _ List.prefix_rfl
  have hsound := hlast 0 (nearbyKey 34) (by decide +kernel)
  exact absurd hsound.2 (by decide +kernel)

end ProximityNet

end

end Mycelium.App

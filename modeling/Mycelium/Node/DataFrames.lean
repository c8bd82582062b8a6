import Mycelium.Node.RemoteFrames

/-!
# Mycelium node — what becomes of a `Data` frame

The `Data` branch of `handle_incoming_direct` is a sequence of early returns: throttle,
signature, hop limit, freshness and replay and rate, expiry, seen cache and store. This
module runs it once. `dataVerdict` is the return that is taken, a function of the state the
frame arrives in and of the clock readings the branch makes; `afterData` is the state it
leaves, up to the routing of an accepted message.

* `handleIncomingDirect_data` — the branch, as verdict and state;
* `deliver_data_iff` — the branch hands a message to the app exactly when it accepts it.
-/

namespace Mycelium.Node

/-- Which return of the `Data` branch a frame takes. -/
inductive DataVerdict where
  | throttled
  | refused (reason : Sd030DropReason)
  | hopLimit
  | guarded (reason : IngestReject)
  /-- Expired, or its id is in the seen cache or in the store. -/
  | absorbed
  | accepted
deriving DecidableEq, Repr

/-- The id is in the seen cache or in the store. -/
def NodeRunner.knows (s : NodeRunner) (id : String) : Bool :=
  s.seenCache.contains id || s.store.contains id

/-! ## Reputation -/

/-- The entry `register_strike` leaves, from the one it finds. -/
def PeerReputation.struck (rep : PeerReputation) (now : UInt64) : PeerReputation :=
  let strikes := if 60 * 1000 < U64.satSub now rep.lastStrikeMs then 0 else rep.strikes
  let rep := { rep with strikes := U8.satAdd strikes 1, lastStrikeMs := now }
  if 3 ≤ rep.strikes then { rep with throttledUntilMs := now + 5 * 60 * 1000 } else rep

/-- The reputations after `is_throttled`. -/
def throttleReps (reps : KvTree.Of String PeerReputation) (peer : String) (now : UInt64) :
    KvTree.Of String PeerReputation :=
  match reps.lookup peer with
  | none => reps
  | some rep => reps.insert peer (rep.decayed now)

/-- The reputations after `register_strike`. -/
def strikeReps (reps : KvTree.Of String PeerReputation) (peer : String) (now : UInt64) :
    KvTree.Of String PeerReputation :=
  reps.insert peer (((reps.lookup peer).getD {}).struck now)

/-- The reputations after `reward_peer`. -/
def rewardReps (reps : KvTree.Of String PeerReputation) (peer : String) :
    KvTree.Of String PeerReputation :=
  match reps.lookup peer with
  | none => reps
  | some rep => reps.insert peer { rep with strikes := rep.strikes / 2 }

section

variable [World]

theorem nowMs_run (s : NodeRunner) :
    nowMs s = .ok (World.clock s.calls) { s with calls := s.calls + 1 } := rfl

theorem isThrottled_run (peer : String) (s : NodeRunner) :
    isThrottled peer s = .ok (throttledAt s peer (World.clock s.calls)) { s with
      calls := s.calls + 1
      peerReputations := throttleReps s.peerReputations peer (World.clock s.calls) } := by
  unfold isThrottled throttledAt throttleReps
  rw [run_bind_of_ok (nowMs_run s), run_bind_of_ok run_get]
  dsimp only
  cases s.peerReputations.lookup peer with
  | none => rfl
  | some rep =>
    simp only [← rep.decayed_throttledUntilMs (World.clock s.calls)]
    rfl

/-- The runner past the throttle. -/
def afterThrottle (s : NodeRunner) (peer : String) : NodeRunner :=
  { s with
    calls := s.calls + 1
    peerReputations := throttleReps s.peerReputations peer (World.clock s.calls) }

/-- A frame of a throttled peer is dropped; any other meets the gate. -/
theorem handleIncomingDirect_eq [Prims] (fromPeer : String) (msg : WireMessage) (s : NodeRunner) :
    handleIncomingDirect fromPeer msg s
      = if throttledAt s fromPeer (World.clock s.calls) then .ok () (afterThrottle s fromPeer)
        else afterGate (hopGate fromPeer msg) (handleWireMessage fromPeer msg)
          (afterThrottle s fromPeer) := by
  unfold handleIncomingDirect
  rw [run_bind_of_ok (isThrottled_run fromPeer s)]
  by_cases hthrottled : throttledAt s fromPeer (World.clock s.calls) = true
  · rw [if_pos hthrottled, if_pos hthrottled]
    rfl
  · rw [if_neg hthrottled, if_neg hthrottled]
    rfl

theorem registerStrike_run (peer : String) (s : NodeRunner) :
    registerStrike peer s = .ok () { s with
      calls := s.calls + 1
      peerReputations := strikeReps s.peerReputations peer (World.clock s.calls) } := rfl

omit [World] in
theorem rewardPeer_run (peer : String) (s : NodeRunner) :
    rewardPeer peer s = .ok () { s with peerReputations := rewardReps s.peerReputations peer } := by
  unfold rewardPeer rewardReps
  rw [run_modify]
  cases s.peerReputations.lookup peer <;> rfl

/-- What follows the check of the size and rate of a gossip payload. -/
def gossipVerdict [Prims] [WireCodec] (fromPeer scope : String) (payload : Bytes) (now : UInt64) :
    Except IngestReject Unit → NodeM Unit
  | .error reason => recordIngestReject reason
  | .ok () =>
    match gossipBody scope payload with
    | some body => ingestGossip fromPeer payload body now
    | none => pure ()

theorem gossipVerdict_of_none [Prims] [WireCodec] {fromPeer scope : String} {payload : Bytes}
    {now : UInt64} {u : Unit} (h : gossipBody scope payload = none) :
    gossipVerdict fromPeer scope payload now (.ok u) = pure () := by
  unfold gossipVerdict
  rw [h]

theorem gossipVerdict_of_some [Prims] [WireCodec] {fromPeer scope body : String} {payload : Bytes}
    {now : UInt64} {u : Unit} (h : gossipBody scope payload = some body) :
    gossipVerdict fromPeer scope payload now (.ok u) = ingestGossip fromPeer payload body now := by
  unfold gossipVerdict
  rw [h]

theorem handleScopedReceived_eq [Prims] [WireCodec] (fromPeer scope : String) (payload : Bytes)
    (s : NodeRunner) :
    handleScopedReceived fromPeer scope payload s
      = (if s.subscribedScopes.any (scopeMatches scope) then
          nowMs >>= fun now => guardCheck (IngestGuard.checkGossipPayload fromPeer payload.length now)
            >>= gossipVerdict fromPeer scope payload now
        else pure () : NodeM Unit) s := rfl

/-! ## The pipeline -/

theorem ingest_run [Prims] (m : DirectMessage) (s : NodeRunner) :
    ingest m false s
      = if m.isExpired (World.clock s.calls) || s.knows m.envelope.id then
          .ok false { s with calls := s.calls + 1 }
        else .ok true { s with
          seenCache := s.seenCache.insert m.envelope.id
          calls := s.calls + 2
          store := s.store.persist (World.clock (s.calls + 1)) m } := by
  unfold ingest
  rw [run_bind_of_ok (nowMs_run s)]
  by_cases hexp : m.isExpired (World.clock s.calls) = true
  · simp only [hexp, if_true, Bool.true_or]
    rfl
  · simp only [Bool.not_eq_true] at hexp
    simp only [hexp, Bool.false_eq_true, if_false, Bool.false_or]
    rw [CoreInvariant.ingestUnseen_run]
    rfl

end

/-! ## The verdict -/

section

variable [World] [Prims]

/-- The return a `Data` frame takes in the state it arrives in. The clock is read for the
throttle, once without use, for the guard and for the pipeline. -/
def dataVerdict (s : NodeRunner) (fromPeer : String) (m : DirectMessage) : DataVerdict :=
  -- the readings in turn: the throttle's, the signature check's, the guard's and the expiry's
  if throttledAt s fromPeer (World.clock s.calls) then .throttled
  else
    match validateDataMessageSignature m with
    | .error reason => .refused reason
    | .ok () =>
      if m.envelope.maxHops ≤ m.envelope.hopCount then .hopLimit
      else
        match (s.ingestGuard.allowDirect m.envelope.signatureAuthorPeer m
            (World.clock (s.calls + 2))).1 with
        | .error reason => .guarded reason
        | .ok () =>
          if m.isExpired (World.clock (s.calls + 3)) || s.knows m.envelope.id then .absorbed
          else .accepted

/-- The state a `Data` frame leaves; an accepted message is still to be routed. -/
def afterData (s : NodeRunner) (fromPeer : String) (m : DirectMessage) : NodeRunner :=
  let reps := throttleReps s.peerReputations fromPeer (World.clock s.calls)
  let ingestGuard := (s.ingestGuard.allowDirect m.envelope.signatureAuthorPeer m
    (World.clock (s.calls + 2))).2
  -- the verdicts differ in how often the clock was read when they were reached
  match dataVerdict s fromPeer m with
  | .throttled => { s with calls := s.calls + 1, peerReputations := reps }
  | .refused .invalidSignature => { s with
      calls := s.calls + 3
      peerReputations := strikeReps reps fromPeer (World.clock (s.calls + 2))
      metrics := { s.metrics with
        messagesDroppedInvalidSig := s.metrics.messagesDroppedInvalidSig + 1 } }
  | .refused _ => { s with
      calls := s.calls + 2
      peerReputations := reps
      metrics := { s.metrics with messagesDroppedNoSig := s.metrics.messagesDroppedNoSig + 1 } }
  | .hopLimit => { s with
      calls := s.calls + 2
      peerReputations := reps
      metrics := { s.metrics with messagesDroppedHops := s.metrics.messagesDroppedHops + 1 } }
  | .guarded .rateLimit => { s with
      calls := s.calls + 4
      peerReputations := strikeReps reps fromPeer (World.clock (s.calls + 3))
      ingestGuard
      metrics := { s.metrics with
        messagesDroppedRateLimit := s.metrics.messagesDroppedRateLimit + 1 } }
  | .guarded .replay => { s with
      calls := s.calls + 4
      peerReputations := strikeReps reps fromPeer (World.clock (s.calls + 3))
      ingestGuard
      metrics := { s.metrics with messagesDroppedReplay := s.metrics.messagesDroppedReplay + 1 } }
  -- stale and oversized messages cost no strike
  | .guarded .stale => { s with
      calls := s.calls + 3
      peerReputations := reps
      ingestGuard
      metrics := { s.metrics with messagesDroppedReplay := s.metrics.messagesDroppedReplay + 1 } }
  | .guarded .oversize => { s with
      calls := s.calls + 3
      peerReputations := reps
      ingestGuard
      metrics := { s.metrics with
        messagesDroppedOversize := s.metrics.messagesDroppedOversize + 1 } }
  -- `ingest` returned false: the sender is struck for it
  | .absorbed => { s with
      calls := s.calls + 5
      peerReputations := strikeReps reps fromPeer (World.clock (s.calls + 4))
      ingestGuard }
  | .accepted => { s with
      calls := s.calls + 5
      peerReputations := rewardReps reps fromPeer
      ingestGuard
      seenCache := s.seenCache.insert m.envelope.id
      store := s.store.persist (World.clock (s.calls + 4)) m
      out := s.out ++ [.deliver .data m] }

omit [Prims] [World] in
/-- A guard check in front of a program; `check` stays a variable, so that it is never run to
compare two states. -/
theorem run_guardCheck_bind {α : Type}
    {check : IngestGuard → Except IngestReject Unit × IngestGuard} {s : NodeRunner}
    {res : Except IngestReject Unit} {g : IngestGuard} (h : check s.ingestGuard = (res, g))
    (f : Except IngestReject Unit → NodeM α) :
    (guardCheck check >>= f) s = f res { s with ingestGuard := g } := by
  have hrun : guardCheck check s = .ok (check s.ingestGuard).1
      { s with ingestGuard := (check s.ingestGuard).2 } := rfl
  rw [h] at hrun
  exact run_bind_of_ok hrun

/-- The guarded part of the branch, when the guard lets the message through. -/
theorem ingestData_of_allowed {s : NodeRunner} {fromPeer : String} {m : DirectMessage}
    {g : IngestGuard}
    (h : s.ingestGuard.allowDirect m.envelope.signatureAuthorPeer m (World.clock s.calls)
      = (.ok (), g)) :
    ingestData fromPeer m s
      = if m.isExpired (World.clock (s.calls + 1)) || s.knows m.envelope.id then
          .ok () { s with
            calls := s.calls + 3
            peerReputations := strikeReps s.peerReputations fromPeer (World.clock (s.calls + 2))
            ingestGuard := g }
        else routeData fromPeer m { s with
          calls := s.calls + 3
          peerReputations := rewardReps s.peerReputations fromPeer
          ingestGuard := g
          seenCache := s.seenCache.insert m.envelope.id
          store := s.store.persist (World.clock (s.calls + 2)) m
          out := s.out ++ [.deliver .data m] } := by
  unfold ingestData
  rw [run_bind_of_ok (nowMs_run s)]
  refine (run_guardCheck_bind (s := { s with calls := s.calls + 1 }) h _).trans ?_
  have hingest := ingest_run m { s with calls := s.calls + 1, ingestGuard := g }
  -- stale or known: struck; otherwise stored, delivered and passed on
  by_cases hknown : (m.isExpired (World.clock (s.calls + 1)) || s.knows m.envelope.id) = true
  · rw [if_pos hknown]
    exact run_bind_of_ok (hingest.trans (if_pos hknown))
  · rw [if_neg hknown]
    refine (run_bind_of_ok (hingest.trans (if_neg hknown))).trans ?_
    exact run_bind_of_ok (rewardPeer_run fromPeer _)

/-- The guarded part of the branch, when the guard refuses the message. -/
theorem ingestData_of_guarded {s : NodeRunner} {fromPeer : String} {m : DirectMessage}
    {reason : IngestReject} {g : IngestGuard}
    (h : s.ingestGuard.allowDirect m.envelope.signatureAuthorPeer m (World.clock s.calls)
      = (.error reason, g)) :
    ingestData fromPeer m s
      = (recordIngestReject reason >>= fun _ =>
          if reason = .rateLimit ∨ reason = .replay then registerStrike fromPeer else pure ())
        { s with calls := s.calls + 1, ingestGuard := g } := by
  unfold ingestData
  rw [run_bind_of_ok (nowMs_run s)]
  exact run_guardCheck_bind (s := { s with calls := s.calls + 1 }) h _

/-- **What becomes of a `Data` frame.** -/
theorem handleIncomingDirect_data (s : NodeRunner) (fromPeer : String) (m : DirectMessage) :
    handleIncomingDirect fromPeer (.data m) s
      = if dataVerdict s fromPeer m = .accepted then routeData fromPeer m (afterData s fromPeer m)
        else .ok () (afterData s fromPeer m) := by
  unfold handleIncomingDirect
  rw [run_bind_of_ok (isThrottled_run fromPeer s)]
  by_cases hthrottled : throttledAt s fromPeer (World.clock s.calls) = true
  · have hv : dataVerdict s fromPeer m = .throttled := by
      unfold dataVerdict
      rw [if_pos hthrottled]
    unfold afterData
    rw [if_pos hthrottled, hv]
    rfl
  -- past the throttle: the early returns in the order of the source
  rw [if_neg hthrottled]
  show handleData fromPeer m _ = _
  unfold handleData
  rw [run_bind_of_ok (nowMs_run _)]
  cases hvalid : validateDataMessageSignature m with
  | error reason =>
    have hv : dataVerdict s fromPeer m = .refused reason := by
      unfold dataVerdict
      rw [if_neg hthrottled, hvalid]
    unfold afterData
    rw [hv]
    cases reason <;> rfl
  | ok u =>
    by_cases hhops : m.envelope.maxHops ≤ m.envelope.hopCount
    · have hv : dataVerdict s fromPeer m = .hopLimit := by
        unfold dataVerdict
        rw [if_neg hthrottled, hvalid]
        exact if_pos hhops
      unfold afterData
      rw [hv]
      exact congrFun (if_pos hhops) _
    · have hv : dataVerdict s fromPeer m
          = match (s.ingestGuard.allowDirect m.envelope.signatureAuthorPeer m
              (World.clock (s.calls + 2))).1 with
            | .error reason => .guarded reason
            | .ok () =>
              if m.isExpired (World.clock (s.calls + 3)) || s.knows m.envelope.id then .absorbed
              else .accepted := by
        unfold dataVerdict
        rw [if_neg hthrottled, hvalid]
        exact if_neg hhops
      refine (congrFun (if_neg hhops) _).trans ?_
      obtain ⟨res, g, hres⟩ : ∃ res g, s.ingestGuard.allowDirect m.envelope.signatureAuthorPeer m
          (World.clock (s.calls + 2)) = (res, g) := ⟨_, _, Prod.mk.eta.symm⟩
      rw [hres] at hv
      unfold afterData
      rw [hres]
      -- the state in which the guard is asked
      let s₂ : NodeRunner := { s with
        calls := s.calls + 2
        peerReputations := throttleReps s.peerReputations fromPeer (World.clock s.calls) }
      cases res with
      | error reason =>
        refine (ingestData_of_guarded (s := s₂) hres).trans ?_
        rw [hv]
        cases reason <;> rfl
      | ok u =>
        refine (ingestData_of_allowed (s := s₂) hres).trans ?_
        by_cases hknown : (m.isExpired (World.clock (s.calls + 3)) || s.knows m.envelope.id) = true
        · rw [hv.trans (if_pos hknown)]
          exact if_pos hknown
        · rw [hv.trans (if_neg hknown)]
          exact if_neg hknown

/-- What a `Data` frame must meet to be accepted: each check of the branch, in the state the
frame arrives in. -/
structure Admits (s : NodeRunner) (fromPeer : String) (m : DirectMessage) : Prop where
  free : throttledAt s fromPeer (World.clock s.calls) = false
  validated : validateDataMessageSignature m = .ok ()
  hops : m.envelope.hopCount < m.envelope.maxHops
  allowed : (s.ingestGuard.allowDirect m.envelope.signatureAuthorPeer m
    (World.clock (s.calls + 2))).1 = .ok ()
  unexpired : m.isExpired (World.clock (s.calls + 3)) = false
  unknown : s.knows m.envelope.id = false

theorem dataVerdict_accepted_iff {s : NodeRunner} {fromPeer : String} {m : DirectMessage} :
    dataVerdict s fromPeer m = .accepted ↔ Admits s fromPeer m := by
  unfold dataVerdict
  -- the checks in the order of the source: throttle, signature, hops, guard, expiry and table
  constructor
  · intro h
    split at h
    · cases h
    · next hfree =>
      split at h
      · cases h
      · next hvalid =>
        split at h
        · cases h
        · next hhops =>
          split at h
          · cases h
          · next hallowed =>
            split at h
            · cases h
            · next hnew =>
              simp only [Bool.or_eq_true, not_or, Bool.not_eq_true] at hnew
              exact ⟨by simpa using hfree, hvalid, UInt8.not_le.mp hhops, hallowed, hnew.1, hnew.2⟩
  · intro h
    rw [if_neg (by simp [h.free]), h.validated]
    refine (if_neg (UInt8.not_le.mpr h.hops)).trans ?_
    rw [h.allowed]
    exact if_neg (by simp [h.unexpired, h.unknown])

end

end Mycelium.Node

import Mycelium.Core.Bloom
import Mycelium.Node.MessageIds
import Mycelium.Node.RemoteFrames
import Mycelium.Node.SyncExchange

/-!
# Mycelium node — what one round of anti-entropy brings

A node that learns from a filter that it has something the other lacks says so, or asks for the
other's ids with a filter of its own, unless its count is exactly 0.8 times the other's. The ids it
says are asked for and sent: up to 256 are said and asked for, but only 128 are answered.

* `sync_bloom_answered_iff` — the counts for which a difference is answered;
* `SyncRound` — ids, request and data between two nodes, nothing lost;
* `sync_round_iff` — the messages that a round brings over.
-/

namespace Mycelium.Node

section

variable [Prims] [World]

/-! ## A filter -/

/-- The ids that go into a filter when a frame arrives: those stored in the last ten minutes. -/
def NodeRunner.recentIds (s : NodeRunner) : List String :=
  s.store.listIdsWindow (World.clock s.calls) 600000

/-- The answers to a filter: some of the own ids, or a filter of them. -/
inductive SyncAnswer (ownIds : List String) : WireMessage → Prop
  | ids {ids : List String} (hne : ids ≠ []) (hown : ∀ id ∈ ids, id ∈ ownIds) :
      SyncAnswer ownIds (.syncIds ids)
  | bloom : SyncAnswer ownIds
      (.syncBloom (BloomFilter.ofIds ownIds).toBytes (UInt64.ofNat ownIds.length))

/-- The handler ends with sending an answer. -/
def Answers (a : Arithmetic) (peer : String) (bloom : Bytes) (count : UInt64) (s : NodeRunner) : Prop :=
  ∃ w, SyncAnswer s.recentIds w
    ∧ handleSyncBloomBy a peer bloom count s = sendDirect peer w { s with calls := s.calls + 1 }

variable {a : Arithmetic} {peer : String} {bloom : Bytes} {remote : BloomFilter} {count : UInt64}
  {s : NodeRunner}

/-- The handler of a filter that parses, on the ids the node has. -/
theorem handleSyncBloomBy_run (hbloom : BloomFilter.fromBytes bloom = some remote) :
    handleSyncBloomBy a peer bloom count s
      = (if a.above s.recentIds.length count
            && !(s.recentIds.filter fun id => !remote.contains id).isEmpty then
          sendDirect peer (.syncIds ((s.recentIds.filter fun id => !remote.contains id).take 256))
        else if a.below s.recentIds.length count then
          sendDirect peer
            (.syncBloom (BloomFilter.ofIds s.recentIds).toBytes (UInt64.ofNat s.recentIds.length))
        else pure () : NodeM Unit) { s with calls := s.calls + 1 } := by
  have hlist : listIdsWindow s = .ok s.recentIds { s with calls := s.calls + 1 } := rfl
  unfold handleSyncBloomBy
  rw [hbloom]
  exact run_bind_of_ok hlist

omit [Prims] in
/-- Sending takes a call to the transport, so it is not nothing. -/
theorem sendDirect_ne_silence (w : WireMessage) : sendDirect peer w s ≠ .ok () s := by
  have hcall : (finalState (sendDirect peer w s)).calls = s.calls + 1 := by
    rw [sendDirect_run]
    cases World.sendOk s.calls peer <;> rfl
  intro h
  rw [h] at hcall
  exact absurd hcall (Nat.ne_of_lt (Nat.lt_succ_self _))

/-- A difference is answered unless the counts are neither above nor below. -/
theorem answers_iff (hbloom : BloomFilter.fromBytes bloom = some remote)
    (hdiffers : ∃ id ∈ s.recentIds, remote.contains id = false) :
    Answers a peer bloom count s
      ↔ a.above s.recentIds.length count = true ∨ a.below s.recentIds.length count = true := by
  obtain ⟨id, hid, hlacks⟩ := hdiffers
  have hmissing : id ∈ s.recentIds.filter fun id => !remote.contains id :=
    List.mem_filter.mpr ⟨hid, by rw [hlacks]; rfl⟩
  have hempty : (s.recentIds.filter fun id => !remote.contains id).isEmpty = false := by
    rw [List.isEmpty_eq_false_iff]
    exact List.ne_nil_of_mem hmissing
  unfold Answers
  rw [handleSyncBloomBy_run hbloom, hempty, Bool.not_false, Bool.and_true]
  by_cases habove : a.above s.recentIds.length count = true
  · -- enough to say what the other lacks
    rw [if_pos habove]
    refine iff_of_true ⟨_, .ids ?_ ?_, rfl⟩ (.inl habove)
    · rw [ne_eq, List.take_eq_nil_iff, not_or]
      exact ⟨by decide, List.ne_nil_of_mem hmissing⟩
    · intro id' hid'
      exact (List.mem_filter.mp (List.mem_of_mem_take hid')).1
  · rw [if_neg habove]
    by_cases hbelow : a.below s.recentIds.length count = true
    · rw [if_pos hbelow]
      exact iff_of_true ⟨_, .bloom, rfl⟩ (.inr hbelow)
    · -- neither above nor below: the handler has no further branch
      rw [if_neg hbelow]
      refine iff_of_false ?_ (not_or.mpr ⟨habove, hbelow⟩)
      rintro ⟨w, -, hrun⟩
      exact sendDirect_ne_silence w hrun.symm

/-- **When a difference is answered.** Whatever the node has stored, whatever the filter and the
count that come with it, if the filter lacks one of the node's ids then the node answers with ids
or with a filter of its own, exactly unless it has 0.8 times as many ids as the count says. -/
theorem sync_bloom_answered_iff (hbloom : BloomFilter.fromBytes bloom = some remote)
    (hdiffers : ∃ id ∈ s.recentIds, remote.contains id = false) :
    Answers .rational peer bloom count s ↔ 5 * s.recentIds.length ≠ 4 * count.toNat := by
  rw [answers_iff hbloom hdiffers]
  simp only [Arithmetic.above, Arithmetic.below, decide_eq_true_eq]
  rw [lt_or_lt_iff_ne, ne_eq, ne_eq, not_iff_not]
  have hcast : (5 * s.recentIds.length = 4 * count.toNat)
      ↔ (5 * (s.recentIds.length : ℚ) = 4 * (count.toNat : ℚ)) := by
    exact_mod_cast Iff.rfl
  rw [hcast]
  constructor
  · intro h
    linarith
  · intro h
    linarith

end

section

attribute [local instance] symbolicPrims

@[reducible] def announceWorld : World := stillWorld 5000000

attribute [local instance] announceWorld

/-- A node that stored `n` messages just now. -/
def storingNode (n : Nat) : NodeRunner :=
  { symbolicNode 2 3 5000000 with store := (List.range n).foldl (fun st k =>
      st.persist 5000000 (symbolicMessage 1 (symbolicPeer (UInt8.ofNat k)) 5000000)) {} }

/-- An empty filter parses as itself. -/
theorem fromBytes_new : BloomFilter.fromBytes BloomFilter.new.toBytes = some .new :=
  BloomFilter.fromBytes_toBytes rfl

/-- The filter of a node with nothing lacks every id of a node with something. -/
theorem new_differs {s : NodeRunner} {n : Nat} (hlength : s.recentIds.length = n + 1) :
    ∃ id ∈ s.recentIds, BloomFilter.new.contains id = false := by
  obtain ⟨id, hid⟩ := List.exists_mem_of_length_pos (l := s.recentIds) (by omega)
  exact ⟨id, hid, BloomFilter.not_contains_new id⟩

/-- Four ids against a count of five, and none of the four is in the filter: nothing is answered,
whether the counts are compared exactly or by the hardware. -/
theorem sync_bloom_silent :
    (∃ id ∈ (storingNode 4).recentIds, BloomFilter.new.contains id = false)
      ∧ ¬ Answers .rational (symbolicPeer 1) BloomFilter.new.toBytes 5 (storingNode 4)
      ∧ ¬ Answers .binary64 (symbolicPeer 1) BloomFilter.new.toBytes 5 (storingNode 4) := by
  have hlength : (storingNode 4).recentIds.length = 4 := rfl
  have hdiffers := new_differs hlength
  have hcount : ((5 : UInt64).toNat : ℚ) = 5 := rfl
  refine ⟨hdiffers, ?_, ?_⟩
  · rw [answers_iff fromBytes_new hdiffers, hlength]
    simp only [Arithmetic.above, Arithmetic.below, decide_eq_true_eq, hcount]
    norm_num
  · rw [answers_iff fromBytes_new hdiffers, hlength]
    decide

/-- One id against a count of five: the node answers. -/
theorem sync_bloom_answered_one :
    BloomFilter.fromBytes BloomFilter.new.toBytes = some .new
      ∧ (∃ id ∈ (storingNode 1).recentIds, BloomFilter.new.contains id = false)
      ∧ Answers .rational (symbolicPeer 1) BloomFilter.new.toBytes 5 (storingNode 1) := by
  have hdiffers := new_differs (s := storingNode 1) (n := 0) rfl
  exact ⟨fromBytes_new, hdiffers, (sync_bloom_answered_iff fromBytes_new hdiffers).mpr (by decide)⟩

end

/-! ## What `SyncData` leaves -/

section

variable [Prims] [World] {s : NodeRunner} {m : DirectMessage}

/-- What the pipeline stored, it keeps; and it stores a message that has not expired and is not in
the seen cache, unless it has it already. -/
theorem ingest_step (m : DirectMessage) (s : NodeRunner) :
    ∃ new s₁, ingest m false s = .ok new s₁ ∧ s.calls < s₁.calls
      ∧ (∀ id, s.store.contains id = true → s₁.store.contains id = true)
      ∧ (m.isExpired (World.clock s.calls) = false → s.seenCache.contains m.envelope.id = false →
        s₁.store.contains m.envelope.id = true) := by
  have hrun := ingest_run m s
  by_cases hdrop : (m.isExpired (World.clock s.calls) || s.knows m.envelope.id) = true
  · -- dropped: a message that is neither expired nor seen was in the store already
    rw [if_pos hdrop] at hrun
    refine ⟨_, _, hrun, Nat.lt_succ_self _, fun _ h => h, ?_⟩
    intro hunexpired hunseen
    rw [hunexpired, Bool.false_or, NodeRunner.knows, hunseen, Bool.false_or] at hdrop
    exact hdrop
  · rw [if_neg hdrop] at hrun
    refine ⟨_, _, hrun, Nat.lt_add_of_pos_right Nat.two_pos, ?_, fun _ _ => ?_⟩
    · intro id hid
      rw [SledMessageStore.contains_iff] at hid ⊢
      exact SledMessageStore.mem_db_persist.mpr (.inr hid)
    · rw [SledMessageStore.contains_iff]
      exact SledMessageStore.mem_db_persist.mpr (.inl rfl)

/-- A frame of messages takes nothing away. Induction on the messages. -/
theorem handleSyncData_grows (messages : List DirectMessage) (s : NodeRunner) :
    ∃ s', handleSyncData messages s = .ok () s' ∧ s.calls ≤ s'.calls
      ∧ ∀ id, s.store.contains id = true → s'.store.contains id = true := by
  induction messages generalizing s with
  | nil => exact ⟨s, rfl, Nat.le_refl _, fun _ h => h⟩
  | cons m messages ih =>
    obtain ⟨new, s₁, hrun, hcalls, hkeep, -⟩ := ingest_step m s
    obtain ⟨s', hrun', hcalls', hkeep'⟩ := ih s₁
    exact ⟨s', (handleSyncData_cons hrun messages).trans hrun', hcalls.le.trans hcalls',
      fun id hid => hkeep' id (hkeep id hid)⟩

/-- The runner when its turn comes to the message behind `pre`. -/
def atTurn (s : NodeRunner) (pre : List DirectMessage) : NodeRunner :=
  finalState (handleSyncData pre s)

/-- The pipeline gets to a message past those before it. -/
theorem atTurn_run (s : NodeRunner) (pre : List DirectMessage) :
    handleSyncData pre s = .ok () (atTurn s pre) := by
  obtain ⟨s', hrun, -⟩ := handleSyncData_grows pre s
  unfold atTurn
  rw [hrun]
  rfl

/-- A message whose turn comes when it is not in the seen cache is stored in the end. -/
theorem contains_of_turn {messages pre post : List DirectMessage} {s' : NodeRunner}
    (hrun : handleSyncData messages s = .ok () s') (hsplit : messages = pre ++ m :: post)
    (hunexpired : ∀ n, s.calls ≤ n → n < s'.calls → m.isExpired (World.clock n) = false)
    (hunseen : (atTurn s pre).seenCache.contains m.envelope.id = false) :
    s'.store.contains m.envelope.id = true := by
  have hpre := atTurn_run s pre
  have hreached : s.calls ≤ (atTurn s pre).calls := by
    obtain ⟨s₁, hrun₁, hcalls, -⟩ := handleSyncData_grows pre s
    rw [hpre] at hrun₁
    obtain rfl := (EStateM.Result.ok.inj hrun₁).2
    exact hcalls
  obtain ⟨new, s₁, hturn, hcalls, -, hstored⟩ := ingest_step m (atTurn s pre)
  obtain ⟨s₂, hpost, hcalls', hkeep⟩ := handleSyncData_grows post s₁
  rw [hsplit, handleSyncData_append hpre, handleSyncData_cons hturn, hpost] at hrun
  obtain rfl := (EStateM.Result.ok.inj hrun).2
  exact hkeep _ (hstored (hunexpired _ hreached (hcalls.trans_le hcalls')) hunseen)

/-- What is stored in the end was stored before, or its turn came when it was not in the seen
cache. -/
theorem turn_of_stored {messages : List DirectMessage} {s' : NodeRunner} {id : String}
    (hrun : handleSyncData messages s = .ok () s') (hold : s.store.contains id = false)
    (hstored : s'.store.contains id = true) :
    ∃ m pre post, messages = pre ++ m :: post ∧ m.envelope.id = id
      ∧ (atTurn s pre).seenCache.contains id = false := by
  obtain ⟨m, hm⟩ := Option.isSome_iff_exists.mp hstored
  obtain ⟨s'', hrun', horigin⟩ := handleSyncData_run messages s
  obtain rfl := (EStateM.Result.ok.inj (hrun.symm.trans hrun')).2
  rcases horigin id m hm with hbefore | ⟨rfl, sᵢ, hnew⟩
  · -- it was there before, which it was not
    rw [SledMessageStore.contains, show s.store.db.lookup id = some m from hbefore] at hold
    cases hold
  · obtain ⟨pre, post, hsplit, hpre⟩ := hnew.reached
    obtain rfl := (EStateM.Result.ok.inj (hpre.symm.trans (atTurn_run s pre))).2
    refine ⟨m, pre, post, hsplit, rfl, ?_⟩
    have hunknown := hnew.unknown
    rw [NodeRunner.knows, Bool.or_eq_false_iff] at hunknown
    exact hunknown.1

end

/-! ## Stored under its id -/

/-- Every message is stored under its own id. -/
def SledMessageStore.Keyed (st : SledMessageStore) : Prop :=
  ∀ id m, st.loadById id = some m → m.envelope.id = id

/-- A message is stored under its own id. -/
theorem SledMessageStore.Keyed.persist {st : SledMessageStore} (h : st.Keyed) (ts : UInt64)
    (m : DirectMessage) : (st.persist ts m).Keyed := by
  intro id m' hm'
  rw [SledMessageStore.loadById_persist] at hm'
  by_cases hid : id = m.envelope.id
  · rw [if_pos hid] at hm'
    rw [← Option.some.inj hm', hid]
  · rw [if_neg hid] at hm'
    exact h id m' hm'

/-- The cleaning takes rows away. -/
theorem SledMessageStore.Keyed.gcExpired {st : SledMessageStore} (h : st.Keyed) (now : UInt64) :
    (st.gcExpired now).2.Keyed :=
  fun id m hm => h id m (SledMessageStore.loadById_gcExpired.mp hm).2

section

variable [Prims] [World] [WireCodec]

omit [WireCodec] in
/-- Nothing the node does stores a message under another id. -/
theorem keyed_loop : LoopInvariant (fun s => s.store.Keyed) fun _ => True := by
  have hcore : CoreInvariant fun s => s.store.Keyed := by
    refine ⟨fun s s' hcore _ hs => ?_⟩
    have hstore : s'.store = s.store := congrArg NodeCore.store hcore
    rw [hstore]
    exact hs
  have hemit : ∀ o, Keeps (fun s : NodeRunner => s.store.Keyed) True (emit o) :=
    fun _ => Keeps.modify fun _ hs => hs
  have hframe : FrameInvariant (fun s => s.store.Keyed) True fun _ => True :=
    { toCoreInvariant := hcore
      ingestUnseen := fun m => hcore.ingestUnseen_keeps fun s hs _ => hs.persist _ m
      enqueue := fun _ _ _ => hcore.enqueue_of_pending (fun _ _ hs => hs) trivial (hemit _)
      emit := fun o _ => hemit o
      plain := fun _ _ => trivial }
  exact
    { toFrameInvariant := hframe
      gcExpired := Keeps.bind hcore.nowMs fun now => Keeps.modifyGet fun _ hs => hs.gcExpired now
      evictExpired := hcore.evictExpired_of_pending fun _ _ hs => hs
      pop := fun _ _ _ _ hs => hs
      rotate := fun _ _ hs => hs
      view := fun _ _ hs => hs
      other := fun _ _ => trivial
      data := fun _ _ => hframe.ingestData trivial fun _ _ _ _ => trivial }

/-- In every reachable state, if it was so on disk. -/
theorem keyed_reachable {c : NodeConfig} (hdb : (SledMessageStore.openDb c.db).Keyed)
    {s : NodeRunner} (hs : Reachable c s) : s.store.Keyed :=
  keyed_loop.reachable hdb hs

end

/-! ## A round -/

/-- A node under its name, in an environment that loses no frame. -/
structure Endpoint where
  peerId : String
  world : World
  lossless : ∀ n peer, world.sendOk n peer = true

section

variable [Prims]

/-- The frames arrive one after the other. -/
def Endpoint.receive (e : Endpoint) (fromPeer : String) (frames : List WireMessage) : NodeM Unit :=
  forM frames fun w => @handleIncomingDirect _ e.world fromPeer w

/-- The ids that `a` says reach `b`, the request of `b` reaches `a`, and its answer reaches `b`,
which goes from `r` to `r'`. -/
inductive SyncRound (a b : Endpoint) (ids : List String) (s r r' : NodeRunner) : Prop
  | mk (r₁ s₁ : NodeRunner) (hids : b.receive a.peerId [.syncIds ids] r = .ok () r₁)
      (hrequest : a.receive b.peerId (framesTo a.peerId r.out r₁.out) s = .ok () s₁)
      (hdata : b.receive a.peerId (framesTo b.peerId s.out s₁.out) r₁ = .ok () r')

/-- A frame with these ids is among what the node answers to a filter. -/
def Says (e : Endpoint) (peer : String) (s : NodeRunner) (ids : List String) : Prop :=
  ∃ s' bloom count, e.receive peer [.syncBloom bloom count] s = .ok () s'
    ∧ .syncIds ids ∈ framesTo peer s.out s'.out

end

section

variable [World]

/-- Passing the throttle changes nothing about it. -/
theorem throttledAt_afterThrottle (s : NodeRunner) (peer : String) (now : UInt64) :
    throttledAt (afterThrottle s peer) peer now = throttledAt s peer now := by
  unfold throttledAt afterThrottle throttleReps
  simp only
  cases hrep : s.peerReputations.lookup peer with
  | none => simp only [hrep]
  | some rep => simp only [AList.lookup_insert, PeerReputation.decayed_throttledUntilMs]

/-- The node after a frame of `peer` that it answers with `v`, unless it keeps silent. -/
def answered (peer : String) (v : WireMessage) (silent : Bool) (s : NodeRunner) : NodeRunner :=
  if silent then afterThrottle s peer
  else { afterThrottle s peer with calls := s.calls + 2, out := s.out ++ [.sendDirect peer v] }

omit [World] in
/-- Nothing done, nothing sent. -/
theorem framesTo_self (peer : String) (out : List Output) : framesTo peer out out = [] := by
  unfold framesTo
  rw [List.drop_length]
  rfl

/-- The answer is the only frame to the peer, unless there is none. -/
theorem framesTo_answered (peer : String) (v : WireMessage) (silent : Bool) (s : NodeRunner) :
    framesTo peer s.out (answered peer v silent s).out = if silent then [] else [v] := by
  cases silent with
  | true => exact framesTo_self peer s.out
  | false => exact framesTo_append peer s.out (some v)

/-- Answering does not store. -/
theorem answered_store (peer : String) (v : WireMessage) (silent : Bool) (s : NodeRunner) :
    (answered peer v silent s).store = s.store := by
  cases silent <;> rfl

/-- A frame that is answered with a list: silence if the list is empty or the peer throttled. -/
theorem handleIncomingDirect_answered [Prims] {peer : String} {w v : WireMessage} {s : NodeRunner}
    {α : Type} {l : List α} (hsend : World.sendOk (s.calls + 1) peer = true)
    (hanswer : ∀ s', s'.store = s.store →
      afterGate (hopGate peer w) (handleWireMessage peer w) s'
        = (if l.isEmpty then pure () else sendDirect peer v : NodeM Unit) s') :
    handleIncomingDirect peer w s
      = .ok () (answered peer v (throttledAt s peer (World.clock s.calls) || l.isEmpty) s) := by
  rw [handleIncomingDirect_eq]
  cases throttledAt s peer (World.clock s.calls) with
  | true => rfl
  | false =>
    rw [if_neg Bool.false_ne_true]
    refine (hanswer (afterThrottle s peer) rfl).trans ?_
    cases l.isEmpty with
    | true => rfl
    | false => exact (sendDirect_run peer v _).trans (if_pos hsend)

end

/-- The ids of the list that the receiver asks for. -/
def missingIds (ids : List String) (r : NodeRunner) : List String :=
  (ids.take 256).filter fun id => !r.store.contains id

/-- The messages that come back. -/
def brought (ids : List String) (s r : NodeRunner) : List DirectMessage :=
  ((missingIds ids r).take 128).filterMap s.store.loadById

section

variable [Prims]

/-- Neither node throttles the other when a frame of the round arrives. -/
structure Unthrottled (a b : Endpoint) (s r : NodeRunner) : Prop where
  ids : throttledAt r a.peerId (b.world.clock r.calls) = false
  request : throttledAt s b.peerId (a.world.clock s.calls) = false
  data : throttledAt r a.peerId (b.world.clock (r.calls + 2)) = false

/-- The receiver when it comes to the first message, having asked for it. -/
def whenBrought (a b : Endpoint) (ids : List String) (r : NodeRunner) : NodeRunner :=
  @afterThrottle b.world (@answered b.world a.peerId (.syncRequest (missingIds ids r)) false r)
    a.peerId

/-- The message is brought, and not in the receiver's seen cache when its turn comes. -/
def Carried (a b : Endpoint) (ids : List String) (s r : NodeRunner) (m : DirectMessage) : Prop :=
  Unthrottled a b s r ∧ ∃ pre post, brought ids s r = pre ++ m :: post
    ∧ (@atTurn _ b.world (whenBrought a b ids r) pre).seenCache.contains m.envelope.id = false

/-- The message does not expire before the receiver has made the calls of the round. -/
def UnexpiredThrough (b : Endpoint) (r r' : NodeRunner) (m : DirectMessage) : Prop :=
  ∀ n, r.calls ≤ n → n < r'.calls → m.isExpired (b.world.clock n) = false

variable {a b : Endpoint} {ids : List String} {s r r' r'' : NodeRunner}

/-- No frames, no change. -/
theorem Endpoint.receive_nil (e : Endpoint) (peer : String) (s : NodeRunner) :
    e.receive peer [] s = .ok () s := rfl

/-- One frame is one call of the handler. -/
theorem Endpoint.receive_singleton (e : Endpoint) (peer : String) (w : WireMessage) (s : NodeRunner) :
    e.receive peer [w] s = @handleIncomingDirect _ e.world peer w s := by
  simp only [receive, List.forM_cons, List.forM_nil, bind_pure_unit]

/-- Ids are answered with a request for those that are missing. -/
theorem Endpoint.receive_syncIds (e : Endpoint) (peer : String) (ids : List String) (r : NodeRunner) :
    e.receive peer [.syncIds ids] r
      = .ok () (@answered e.world peer (.syncRequest (missingIds ids r))
          (throttledAt r peer (e.world.clock r.calls) || (missingIds ids r).isEmpty) r) := by
  rw [Endpoint.receive_singleton]
  refine @handleIncomingDirect_answered e.world _ _ _ _ _ _ (missingIds ids r) (e.lossless _ _) ?_
  intro s' hstore
  unfold missingIds
  rw [← hstore]
  rfl

/-- A request is answered with the stored messages among the first 128 that are asked for. -/
theorem Endpoint.receive_syncRequest (e : Endpoint) (peer : String) (ids : List String)
    (s : NodeRunner) :
    e.receive peer [.syncRequest ids] s
      = .ok () (@answered e.world peer (.syncData ((ids.take 128).filterMap s.store.loadById))
          (throttledAt s peer (e.world.clock s.calls)
            || ((ids.take 128).filterMap s.store.loadById).isEmpty) s) := by
  rw [Endpoint.receive_singleton]
  refine @handleIncomingDirect_answered e.world _ _ _ _ _ _ ((ids.take 128).filterMap s.store.loadById)
    (e.lossless _ _) ?_
  intro s' hstore
  rw [← hstore]
  rfl

/-- The environment decides how a round ends. -/
theorem SyncRound.unique (h : SyncRound a b ids s r r') (h' : SyncRound a b ids s r r'') :
    r'' = r' := by
  obtain ⟨r₁, s₁, hids, hrequest, hdata⟩ := h
  obtain ⟨r₂, s₂, hids', hrequest', hdata'⟩ := h'
  obtain rfl := (EStateM.Result.ok.inj (hids.symm.trans hids')).2
  obtain rfl := (EStateM.Result.ok.inj (hrequest.symm.trans hrequest')).2
  exact (EStateM.Result.ok.inj (hdata'.symm.trans hdata)).2

/-- A round ends with the pipeline on what was brought, or brings nothing. -/
theorem syncRound_run (a b : Endpoint) (ids : List String) (s r : NodeRunner) :
    ∃ r', SyncRound a b ids s r r'
      ∧ ((Unthrottled a b s r
          ∧ @handleSyncData _ b.world (brought ids s r) (whenBrought a b ids r) = .ok () r')
        ∨ (¬ (Unthrottled a b s r ∧ brought ids s r ≠ []) ∧ r'.store = r.store)) := by
  have hids := b.receive_syncIds a.peerId ids r
  have hstore := fun silent =>
    @answered_store b.world a.peerId (.syncRequest (missingIds ids r)) silent r
  have hframes := @framesTo_answered b.world a.peerId (.syncRequest (missingIds ids r))
    (throttledAt r a.peerId (b.world.clock r.calls) || (missingIds ids r).isEmpty) r
  by_cases hsilent : (throttledAt r a.peerId (b.world.clock r.calls)
      || (missingIds ids r).isEmpty) = true
  · -- the receiver asks for nothing
    rw [hsilent] at hids hframes
    refine ⟨_, ⟨_, s, hids, ?_, ?_⟩, .inr ⟨?_, hstore true⟩⟩
    · rw [hframes, if_pos rfl]
      exact a.receive_nil b.peerId s
    · rw [framesTo_self]
      exact b.receive_nil a.peerId _
    · rintro ⟨hfree, hbrought⟩
      rw [hfree.ids, Bool.false_or, List.isEmpty_iff] at hsilent
      refine hbrought ?_
      unfold brought
      rw [hsilent]
      rfl
  rw [Bool.not_eq_true] at hsilent
  rw [hsilent] at hids hframes
  obtain ⟨hfree, -⟩ := Bool.or_eq_false_iff.mp hsilent
  have hrequest : a.receive b.peerId (framesTo a.peerId r.out
        (@answered b.world a.peerId (.syncRequest (missingIds ids r)) false r).out) s
      = .ok () (@answered a.world b.peerId (.syncData (brought ids s r))
          (throttledAt s b.peerId (a.world.clock s.calls) || (brought ids s r).isEmpty) s) := by
    rw [hframes]
    exact a.receive_syncRequest b.peerId (missingIds ids r) s
  have hframes' := @framesTo_answered a.world b.peerId (.syncData (brought ids s r))
    (throttledAt s b.peerId (a.world.clock s.calls) || (brought ids s r).isEmpty) s
  by_cases hsilent' : (throttledAt s b.peerId (a.world.clock s.calls)
      || (brought ids s r).isEmpty) = true
  · -- the sender has nothing to send
    refine ⟨_, ⟨_, _, hids, hrequest, ?_⟩, .inr ⟨?_, hstore false⟩⟩
    · rw [hframes', hsilent', if_pos rfl]
      exact b.receive_nil a.peerId _
    · rintro ⟨hfree', hbrought⟩
      rw [hfree'.request, Bool.false_or, List.isEmpty_iff] at hsilent'
      exact hbrought hsilent'
  rw [Bool.not_eq_true] at hsilent'
  obtain ⟨hfree', -⟩ := Bool.or_eq_false_iff.mp hsilent'
  have hdata := @handleIncomingDirect_syncData b.world _ a.peerId (brought ids s r)
    (@answered b.world a.peerId (.syncRequest (missingIds ids r)) false r)
  have hthrottle : @throttledAt (@answered b.world a.peerId (.syncRequest (missingIds ids r)) false r)
      a.peerId (b.world.clock (r.calls + 2)) = throttledAt r a.peerId (b.world.clock (r.calls + 2)) :=
    @throttledAt_afterThrottle b.world r a.peerId _
  have hround : ∀ r', (if throttledAt (@answered b.world a.peerId (.syncRequest (missingIds ids r))
        false r) a.peerId (b.world.clock (r.calls + 2)) then .ok () (whenBrought a b ids r)
      else @handleSyncData _ b.world (brought ids s r) (whenBrought a b ids r)) = .ok () r' →
      SyncRound a b ids s r r' := by
    intro r' hr'
    refine ⟨_, _, hids, hrequest, ?_⟩
    rw [hframes', hsilent', if_neg Bool.false_ne_true, Endpoint.receive_singleton]
    exact hdata.trans hr'
  cases hlate : throttledAt r a.peerId (b.world.clock (r.calls + 2)) with
  | true =>
    -- the answer comes from a peer that is throttled by now
    refine ⟨whenBrought a b ids r, hround _ ?_, .inr ⟨?_, rfl⟩⟩
    · rw [hthrottle, hlate]
      rfl
    · rintro ⟨hfree'', -⟩
      rw [hfree''.data] at hlate
      cases hlate
  | false =>
    -- the answer goes into the pipeline
    have hrun := @atTurn_run _ b.world (whenBrought a b ids r) (brought ids s r)
    refine ⟨_, hround _ ?_, .inl ⟨⟨hfree, hfree', hlate⟩, hrun⟩⟩
    rw [hthrottle, hlate]
    exact hrun

/-- The sender's message is with the receiver after the round, if it was before or is carried over,
and only then. -/
theorem transferred_iff (hkeyed : s.store.Keyed) (hround : SyncRound a b ids s r r') {id : String}
    {m : DirectMessage} (hm : s.store.loadById id = some m) (hlives : UnexpiredThrough b r r' m) :
    r'.store.contains id = true ↔ r.store.contains id = true ∨ Carried a b ids s r m := by
  obtain ⟨r'', hround', hend⟩ := syncRound_run a b ids s r
  obtain rfl := hround.unique hround'
  obtain rfl := hkeyed id m hm
  rcases hend with ⟨hfree, hrun⟩ | ⟨hnothing, hstore⟩
  · constructor
    · intro hstored
      by_cases hold : r.store.contains m.envelope.id = true
      · exact .inl hold
      · rw [Bool.not_eq_true] at hold
        -- it was stored at the turn of a message with this id, and the sender has only one such
        obtain ⟨m', pre, post, hsplit, hid, hunseen⟩ :=
          @turn_of_stored _ b.world _ _ _ _ hrun hold hstored
        have hmem : m' ∈ brought ids s r := hsplit ▸ List.mem_append_cons_self
        obtain ⟨id', -, hid'⟩ := List.mem_filterMap.mp hmem
        obtain rfl := hkeyed id' m' hid'
        rw [hid, hm] at hid'
        obtain rfl := Option.some.inj hid'
        exact .inr ⟨hfree, pre, post, hsplit, hunseen⟩
    · rintro (hold | ⟨-, pre, post, hsplit, hunseen⟩)
      · obtain ⟨s', hrun', -, hkeep⟩ :=
          @handleSyncData_grows _ b.world (brought ids s r) (whenBrought a b ids r)
        obtain rfl := (EStateM.Result.ok.inj (hrun.symm.trans hrun')).2
        exact hkeep _ hold
      · refine @contains_of_turn _ b.world _ _ _ _ _ _ hrun hsplit ?_ hunseen
        intro n hn
        exact hlives n (Nat.le_trans (Nat.le_add_right r.calls 3) hn)
  · -- nothing was brought, so nothing is carried over
    rw [hstore]
    refine ⟨.inl, ?_⟩
    rintro (hold | ⟨hfree, pre, post, hsplit, -⟩)
    · exact hold
    · refine absurd ⟨hfree, ?_⟩ hnothing
      rw [hsplit]
      simp

variable [WireCodec]

/-- **What a round of anti-entropy brings.** A sender in any state it can get into, any receiver and
any ids: the round ends in one way, and then the receiver has every message of the sender with one
of the ids that does not expire meanwhile, exactly if each that it did not have is carried over. -/
theorem sync_round_iff {c : NodeConfig} (hdb : (SledMessageStore.openDb c.db).Keyed)
    (hs : @Reachable _ a.world _ c s) :
    ∃ r', (∀ r'', SyncRound a b ids s r r'' ↔ r'' = r')
      ∧ ((∀ id ∈ ids, ∀ m, s.store.loadById id = some m → UnexpiredThrough b r r' m →
          r'.store.contains id = true)
        ↔ ∀ id ∈ ids, ∀ m, s.store.loadById id = some m → UnexpiredThrough b r r' m →
          r.store.contains id = true ∨ Carried a b ids s r m) := by
  obtain ⟨r', hround, -⟩ := syncRound_run a b ids s r
  have hkeyed : s.store.Keyed := @keyed_reachable _ a.world _ _ hdb _ hs
  refine ⟨r', ?_, ?_⟩
  · intro r''
    refine ⟨hround.unique, ?_⟩
    rintro rfl
    exact hround
  · constructor
    · intro h id hid m hm hlives
      exact (transferred_iff hkeyed hround hm hlives).mp (h id hid m hm hlives)
    · intro h id hid m hm hlives
      exact (transferred_iff hkeyed hround hm hlives).mpr (h id hid m hm hlives)

end

section

variable [Prims] [World]

/-- Messages that are new to the node, none twice, are all stored. Induction on the messages. -/
theorem handleSyncData_all {now : UInt64} (hclock : ∀ n, World.clock n = now)
    {messages : List DirectMessage} {s : NodeRunner}
    (hunexpired : ∀ m ∈ messages, m.isExpired now = false)
    (hnodup : (messages.map fun m => m.envelope.id).Nodup)
    (hunknown : ∀ m ∈ messages, s.knows m.envelope.id = false) :
    ∃ calls seenCache, handleSyncData messages s = .ok () { s with
      calls
      seenCache
      store := messages.foldl (fun st m => st.persist now m) s.store } := by
  induction messages generalizing s with
  | nil => exact ⟨s.calls, s.seenCache, rfl⟩
  | cons m messages ih =>
    obtain ⟨hm, hunexpired⟩ := List.forall_mem_cons.mp hunexpired
    obtain ⟨hfirst, hnodup⟩ := List.nodup_cons.mp hnodup
    obtain ⟨hnew, hunknown⟩ := List.forall_mem_cons.mp hunknown
    have hunexpired' : m.isExpired (World.clock s.calls) = false := by rw [hclock]; exact hm
    have hrun := ingest_run m s
    rw [hunexpired', hnew, hclock] at hrun
    -- the ids of the rest are different, so they are as unknown as before
    have hstill : ∀ m' ∈ messages, (finalState (ingest m false s)).knows m'.envelope.id = false := by
      intro m' hm'
      rw [← Bool.not_eq_true, knows_ingest hunexpired' hnew (hunknown m' hm')]
      intro hid
      refine hfirst (List.mem_map.mpr ⟨m', hm', hid⟩)
    rw [hrun] at hstill
    obtain ⟨calls, seenCache, hrest⟩ := ih hunexpired hnodup hstill
    exact ⟨calls, seenCache, (handleSyncData_cons hrun messages).trans hrest⟩

end

namespace SledMessageStore

/-- Messages that are stored one after the other are listed in that order. -/
theorem order_foldl_persist (messages : List DirectMessage) (now : UInt64) (st : SledMessageStore) :
    (messages.foldl (fun st m => st.persist now m) st).order
      = st.order ++ messages.map fun m => (now, m.envelope.id) := by
  induction messages generalizing st with
  | nil => exact (List.append_nil _).symm
  | cons m messages ih =>
    rw [List.foldl_cons, ih]
    exact List.append_assoc _ [(now, m.envelope.id)] _

/-- Of messages with different ids, each is found under its own. Induction from the last one. -/
theorem loadById_foldl_persist {messages : List DirectMessage} {now : UInt64} {st : SledMessageStore}
    (hnodup : (messages.map fun m => m.envelope.id).Nodup) {m : DirectMessage} (hm : m ∈ messages) :
    (messages.foldl (fun st m => st.persist now m) st).loadById m.envelope.id = some m := by
  induction messages using List.reverseRecOn with
  | nil => cases hm
  | append_singleton messages last ih =>
    rw [List.foldl_append, List.foldl_cons, List.foldl_nil, loadById_persist]
    rw [List.map_append] at hnodup
    obtain ⟨hnodup, -, hdisjoint⟩ := List.nodup_append.mp hnodup
    rcases List.mem_append.mp hm with hm | hm
    · have hne : m.envelope.id ≠ last.envelope.id :=
        hdisjoint _ (List.mem_map_of_mem hm) _ (List.mem_singleton.mpr rfl)
      rw [if_neg hne]
      exact ih hnodup hm
    · obtain rfl := List.mem_singleton.mp hm
      exact if_pos rfl

end SledMessageStore

section

variable [Prims]

/-- To a filter that lacks all it has, with a count of zero, a node says what it has, if that is
not too much. -/
theorem Endpoint.says_all (e : Endpoint) {peer : String} {s : NodeRunner} {ids : List String}
    (hfree : throttledAt s peer (e.world.clock s.calls) = false)
    (hids : s.store.listIdsWindow (e.world.clock (s.calls + 1)) 600000 = ids) (hne : ids ≠ [])
    (hlength : ids.length ≤ 256) : Says e peer s ids := by
  let _ : World := e.world
  have hhandle : ∀ bloom count, handleIncomingDirect peer (.syncBloom bloom count) s
      = handleSyncBloomBy .binary64 peer bloom count (afterThrottle s peer) := by
    intro bloom count
    rw [handleIncomingDirect_eq, if_neg (by rw [hfree]; exact Bool.false_ne_true)]
    rfl
  have hrecent : (afterThrottle s peer).recentIds = ids := hids
  have hmissing : (ids.filter fun id => !BloomFilter.new.contains id) = ids :=
    List.filter_eq_self.mpr fun id _ => by rw [BloomFilter.not_contains_new]; rfl
  -- any number of ids is above a count of zero
  have habove : Arithmetic.binary64.above ids.length 0 = true := by
    have hround := (f64Round_bounds ids.length).1
    have hpos := List.length_pos_iff.mpr hne
    have hzero : syncThreshold 0 = 0 := by decide
    simp only [Arithmetic.above, aboveSyncThreshold, decide_eq_true_eq, hzero]
    omega
  have hrun : e.receive peer [.syncBloom BloomFilter.new.toBytes 0] s
      = sendDirect peer (.syncIds ids)
          { afterThrottle s peer with calls := (afterThrottle s peer).calls + 1 } := by
    rw [Endpoint.receive_singleton]
    refine (hhandle _ _).trans ?_
    rw [handleSyncBloomBy_run (BloomFilter.fromBytes_toBytes rfl), hrecent, hmissing, if_pos,
      List.take_of_length_le hlength]
    rw [habove, List.isEmpty_eq_false_iff.mpr hne]
    rfl
  refine ⟨_, _, _, hrun.trans ((sendDirect_run _ _ _).trans (if_pos (e.lossless _ _))), ?_⟩
  have hframes : framesTo peer s.out (s.out ++ [.sendDirect peer (.syncIds ids)])
      = [.syncIds ids] := framesTo_append peer s.out (some (.syncIds ids))
  show WireMessage.syncIds ids ∈ framesTo peer s.out (s.out ++ [.sendDirect peer (.syncIds ids)])
  rw [hframes]
  exact List.mem_singleton.mpr rfl

end

section

attribute [local instance] symbolicPrims announceWorld noCodec

/-- A message with an id of `k` letters. -/
def numbered (k : Nat) : DirectMessage :=
  { symbolicMessage 1 "a" 5000000 with envelope :=
    { (symbolicMessage 1 "a" 5000000).envelope with id := String.ofList (List.replicate k 'x') } }

def supply (n : Nat) : List DirectMessage := (List.range n).map numbered

/-- The number of a message can be read off its id. -/
theorem numbered_injective {j k : Nat} (h : (numbered j).envelope.id = (numbered k).envelope.id) :
    j = k := by
  have hlist := congrArg (fun id => id.toList.length) h
  simpa [numbered] using hlist

/-- The ids of the first `n`. -/
def supplyIds (n : Nat) : List String := (List.range n).map fun k => (numbered k).envelope.id

/-- The ids of the supply. -/
theorem supply_ids (n : Nat) : (supply n).map (fun m => m.envelope.id) = supplyIds n :=
  List.map_map

/-- There are as many as messages. -/
theorem supplyIds_length (n : Nat) : (supplyIds n).length = n := by
  rw [supplyIds, List.length_map, List.length_range]

/-- The supply has the first `n` numbers. -/
theorem mem_supplyIds {n k : Nat} : (numbered k).envelope.id ∈ supplyIds n ↔ k < n := by
  refine ⟨?_, fun hk => List.mem_map_of_mem (List.mem_range.mpr hk)⟩
  intro hmem
  obtain ⟨j, hj, heq⟩ := List.mem_map.mp hmem
  obtain rfl := numbered_injective heq
  exact List.mem_range.mp hj

/-- No id is supplied twice. -/
theorem supply_nodup (n : Nat) : ((supply n).map fun m => m.envelope.id).Nodup := by
  rw [supply_ids]
  exact List.nodup_range.map fun _ _ => numbered_injective

/-- No message of the supply has expired yet. -/
theorem supply_unexpired {n : Nat} {m : DirectMessage} (hm : m ∈ supply n) :
    m.isExpired 5000000 = false := by
  obtain ⟨k, -, rfl⟩ := List.mem_map.mp hm
  have hmessage : (numbered k).isExpired 5000000 = (symbolicMessage 1 "a" 5000000).isExpired 5000000 :=
    rfl
  rw [hmessage]
  decide

/-- Node 1 when it has entered its loop, past the throttle of a frame of peer 3. -/
def supplierNode : NodeRunner :=
  afterThrottle { symbolicNode 1 3 5000000 with transport := {} } (symbolicPeer 3)

/-- Node 1 after peer 3 has sent it `n` messages. -/
def suppliedNode (n : Nat) : NodeRunner :=
  finalState (step {} (.frame (symbolicPeer 3) (.syncData (supply n))) (symbolicNode 1 3 5000000))

/-- One frame of `SyncData` stores the whole supply. -/
theorem suppliedNode_run (n : Nat) :
    ∃ calls seenCache, step {} (.frame (symbolicPeer 3) (.syncData (supply n)))
        (symbolicNode 1 3 5000000)
      = .ok () { supplierNode with
        calls
        seenCache
        store := (supply n).foldl (fun st m => st.persist 5000000 m) supplierNode.store } := by
  have hstep : step {} (.frame (symbolicPeer 3) (.syncData (supply n))) (symbolicNode 1 3 5000000)
      = handleIncomingDirect (symbolicPeer 3) (.syncData (supply n))
        { symbolicNode 1 3 5000000 with transport := {} } := rfl
  have hfree : ∀ now, throttledAt { symbolicNode 1 3 5000000 with transport := {} } (symbolicPeer 3)
      now = false := fun _ => rfl
  rw [hstep, handleIncomingDirect_syncData, hfree, if_neg Bool.false_ne_true]
  exact handleSyncData_all (s := supplierNode) (fun _ => rfl) (fun m hm => supply_unexpired hm)
    (supply_nodup n) fun _ _ => rfl

/-- The supplied node, as the node before with another store. -/
theorem suppliedNode_eq (n : Nat) :
    ∃ calls seenCache, suppliedNode n = { supplierNode with
      calls
      seenCache
      store := (supply n).foldl (fun st m => st.persist 5000000 m) supplierNode.store } := by
  obtain ⟨calls, seenCache, hrun⟩ := suppliedNode_run n
  exact ⟨calls, seenCache, congrArg finalState hrun⟩

/-- The supplied node is one that a run leads to. -/
theorem suppliedNode_reachable (n : Nat) : Reachable (symbolicConfig 1 3) (suppliedNode n) := by
  obtain ⟨calls, seenCache, hrun⟩ := suppliedNode_run n
  have hreached := (symbolicNode_reachable 1 3 5000000).step hrun
  rw [suppliedNode, hrun]
  exact hreached

/-- Its messages are stored under their own ids. -/
theorem suppliedNode_keyed (n : Nat) : (suppliedNode n).store.Keyed :=
  keyed_reachable (c := symbolicConfig 1 3) (fun _ _ h => by cases h) (suppliedNode_reachable n)

/-- It lists the ids of the supply. -/
theorem suppliedNode_listIds (n : Nat) :
    (suppliedNode n).store.listIdsWindow 5000000 600000 = supplyIds n := by
  obtain ⟨calls, seenCache, hnode⟩ := suppliedNode_eq n
  rw [hnode, SledMessageStore.listIdsWindow, SledMessageStore.order_foldl_persist,
    List.filter_eq_self.mpr, List.map_append, List.map_map]
  · exact supply_ids n
  · intro entry hentry
    rcases List.mem_append.mp hentry with hentry | hentry
    · cases hentry
    · obtain ⟨m, -, rfl⟩ := List.mem_map.mp hentry
      rfl

/-- It has every message of the supply. -/
theorem suppliedNode_loadById {n k : Nat} (hk : k < n) :
    (suppliedNode n).store.loadById (numbered k).envelope.id = some (numbered k) := by
  obtain ⟨calls, seenCache, hnode⟩ := suppliedNode_eq n
  rw [hnode]
  exact SledMessageStore.loadById_foldl_persist (supply_nodup n)
    (List.mem_map_of_mem (List.mem_range.mpr hk))

/-- It has struck nobody. -/
theorem suppliedNode_free (n : Nat) : throttledAt (suppliedNode n) (symbolicPeer 2) 5000000 = false := by
  obtain ⟨calls, seenCache, hnode⟩ := suppliedNode_eq n
  rw [hnode]
  rfl

def stillEndpoint (b : UInt8) : Endpoint where
  peerId := symbolicPeer b
  world := announceWorld
  lossless := fun _ _ => rfl

/-- A peer with nothing asks for all that is said, if it is not too much. -/
theorem missingIds_all {ids : List String} (hlength : ids.length ≤ 256) :
    missingIds ids (symbolicNode 2 3 5000000) = ids := by
  unfold missingIds
  rw [List.take_of_length_le hlength]
  exact List.filter_eq_self.mpr fun _ _ => rfl

/-- Of 129 messages that one node has and another lacks, and that it says it has, the other gets
128. -/
theorem sync_round_leaves_out :
    Reachable (symbolicConfig 1 3) (suppliedNode 129)
    ∧ Reachable (symbolicConfig 2 3) (symbolicNode 2 3 5000000)
    ∧ ∃ ids r', Says (stillEndpoint 1) (symbolicPeer 2) (suppliedNode 129) ids
      ∧ SyncRound (stillEndpoint 1) (stillEndpoint 2) ids (suppliedNode 129)
          (symbolicNode 2 3 5000000) r'
      ∧ ∃ id ∈ ids, ∃ m, (suppliedNode 129).store.loadById id = some m
        ∧ UnexpiredThrough (stillEndpoint 2) (symbolicNode 2 3 5000000) r' m
        ∧ r'.store.contains id = false := by
  obtain ⟨r', hround, -⟩ := syncRound_run (stillEndpoint 1) (stillEndpoint 2) (supplyIds 129)
    (suppliedNode 129) (symbolicNode 2 3 5000000)
  have hlength : (supplyIds 129).length ≤ 256 := by
    rw [supplyIds_length]
    decide
  have hlast : (numbered 128).envelope.id ∈ supplyIds 129 := mem_supplyIds.mpr (by decide)
  have hload := suppliedNode_loadById (n := 129) (k := 128) (by decide)
  have hsays : Says (stillEndpoint 1) (symbolicPeer 2) (suppliedNode 129) (supplyIds 129) :=
    (stillEndpoint 1).says_all (suppliedNode_free 129) (suppliedNode_listIds 129)
      (List.ne_nil_of_mem hlast) hlength
  have hlives : UnexpiredThrough (stillEndpoint 2) (symbolicNode 2 3 5000000) r' (numbered 128) :=
    fun _ _ _ => rfl
  refine ⟨suppliedNode_reachable 129, symbolicNode_reachable 2 3 5000000, _, r', hsays, hround, _,
    hlast, _, hload, hlives, ?_⟩
  rw [← Bool.not_eq_true, transferred_iff (suppliedNode_keyed 129) hround hload hlives]
  rintro (hold | ⟨-, pre, post, hsplit, -⟩)
  · cases hold
  · have hmem : numbered 128 ∈ brought (supplyIds 129) (suppliedNode 129) (symbolicNode 2 3 5000000) :=
      hsplit ▸ List.mem_append_cons_self
    obtain ⟨id, hid, hid'⟩ := List.mem_filterMap.mp hmem
    obtain rfl := suppliedNode_keyed 129 _ _ hid'
    -- the first 128 are those with less than 128 letters
    rw [missingIds_all hlength, supplyIds, ← List.map_take, List.take_range] at hid
    exact absurd (mem_supplyIds.mp hid) (by decide)

/-- One message is brought over. -/
theorem sync_round_brings_one :
    (SledMessageStore.openDb (symbolicConfig 1 3).db).Keyed
    ∧ Reachable (symbolicConfig 1 3) (suppliedNode 1)
    ∧ ∃ r', (∀ r'', SyncRound (stillEndpoint 1) (stillEndpoint 2) [(numbered 0).envelope.id]
          (suppliedNode 1) (symbolicNode 2 3 5000000) r'' ↔ r'' = r')
      ∧ ∀ id ∈ [(numbered 0).envelope.id], ∀ m, (suppliedNode 1).store.loadById id = some m →
        UnexpiredThrough (stillEndpoint 2) (symbolicNode 2 3 5000000) r' m →
        r'.store.contains id = true := by
  have hdb : (SledMessageStore.openDb (symbolicConfig 1 3).db).Keyed := fun _ _ h => by cases h
  refine ⟨hdb, suppliedNode_reachable 1, ?_⟩
  obtain ⟨r', hround, hiff⟩ : ∃ r', (∀ r'', SyncRound (stillEndpoint 1) (stillEndpoint 2)
      [(numbered 0).envelope.id] (suppliedNode 1) (symbolicNode 2 3 5000000) r'' ↔ r'' = r') ∧ _ :=
    sync_round_iff (a := stillEndpoint 1) hdb (suppliedNode_reachable 1)
  refine ⟨r', hround, hiff.mpr ?_⟩
  intro id hid m hm _
  obtain rfl := List.mem_singleton.mp hid
  have hload := suppliedNode_loadById (n := 1) (k := 0) (by decide)
  obtain rfl := Option.some.inj (hload.symm.trans hm)
  have hbrought : brought [(numbered 0).envelope.id] (suppliedNode 1) (symbolicNode 2 3 5000000)
      = [numbered 0] := by
    unfold brought
    rw [missingIds_all (Nat.one_le_ofNat)]
    simp only [List.take_succ_cons, List.take_nil, List.filterMap_cons, hload, List.filterMap_nil]
  exact .inr ⟨⟨rfl, suppliedNode_free 1, rfl⟩, [], [], hbrought, rfl⟩

end

end Mycelium.Node

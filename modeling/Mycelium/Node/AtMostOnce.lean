import Mycelium.Node.Invariants
import Mycelium.Node.Symbolic

/-!
# Mycelium node — a `Data` message is delivered at most once

Four mechanisms keep a message from being delivered twice, and each of them forgets: the
freshness window (thirty minutes, with five minutes of skew), the author's id window, the
seen cache and the message store, which garbage collection empties after seven days. The
argument uses only the first and the last: a delivered message is either still in the
store, or it has left the store so late that it can never be fresh again.

* `Settled` — that disjunction, for one delivered message;
* `Once` — the invariant: everything delivered is settled, and was delivered once;
* `at_most_once` — the count over whole runs.
-/

namespace Mycelium.Node

open SledMessageStore

/-- The output is the delivery, from the `Data` branch, of a message with this id and
creation time. -/
def Output.isDataDelivery (id : String) (created : UInt64) : Output → Bool
  | .deliver .data m => m.envelope.id = id ∧ m.envelope.createdAtMs = created
  | _ => false

/-- The message is stored, and was stored no more than five minutes before its own creation
time. -/
def StoredSince (st : SledMessageStore) (id : String) (created : UInt64) : Prop :=
  id ∈ st.db ∧ ∀ ts, (ts, id) ∈ st.order → created.toNat ≤ ts.toNat + 300000

/-- The message is stale at every time from `now` on, or it is stored. -/
def SettledAt (now : UInt64) (st : SledMessageStore) (id : String) (created : UInt64) : Prop :=
  created.toNat + 1800000 < now.toNat ∨ StoredSince st id created

/-! ## The store -/

/-- Storing another message does not disturb a stored one. -/
theorem StoredSince.persist {st : SledMessageStore} {id : String} {created ts : UInt64}
    {m : DirectMessage} (h : StoredSince st id created) (hnew : m.envelope.id ∉ st.db) :
    StoredSince (st.persist ts m) id created := by
  refine ⟨mem_db_persist.mpr (.inr h.1), fun ts' hts' => ?_⟩
  rcases mem_order_persist.mp hts' with hold | heq
  · exact h.2 ts' hold
  · obtain ⟨-, rfl⟩ := Prod.mk.inj heq
    exact absurd h.1 hnew

/-- **The horizons are ordered.** What garbage collection removes at `now` is at least seven
days old, so it is stale at `now`. -/
theorem SettledAt.gcExpired {st : SledMessageStore} {id : String} {created : UInt64}
    (now : UInt64) (h : StoredSince st id created) : SettledAt now (st.gcExpired now).2 id created := by
  by_cases hexp : ∃ ts, (ts, id) ∈ st.order ∧ expiredAt now (ts, id) = true
  · obtain ⟨ts, hmem, hexp⟩ := hexp
    have hle := h.2 ts hmem
    have hage : storeMaxAgeMs.toNat = 604800000 := rfl
    simp only [expiredAt, decide_eq_true_eq, U64.lt_iff, U64.toNat_satSub] at hexp
    left
    omega
  · refine .inr ⟨mem_db_gcExpired.mpr ⟨fun ts hmem => ?_, h.1⟩, fun ts hmem => ?_⟩
    · by_contra hne
      exact hexp ⟨ts, hmem, by simpa using hne⟩
    · exact h.2 ts (mem_order_gcExpired.mp hmem).1

section

variable [World]

/-- A settled message: stale at every future reading of the clock, or stored. -/
def Settled (s : NodeRunner) (id : String) (created : UInt64) : Prop :=
  (∀ n, s.calls ≤ n → created.toNat + 1800000 < (World.clock n).toNat)
    ∨ StoredSince s.store id created

/-- The invariant of the at-most-once property. -/
structure Once (s : NodeRunner) : Prop where
  indexed : Indexed s.store
  settled : ∀ m, .deliver .data m ∈ s.out → Settled s m.envelope.id m.envelope.createdAtMs
  once : ∀ id created, s.out.countP (Output.isDataDelivery id created) ≤ 1

/-- The clock does not go back. -/
def ClockMonotone : Prop := ∀ i j, i ≤ j → (World.clock i).toNat ≤ (World.clock j).toNat

theorem Settled.congr {s s' : NodeRunner} {id : String} {created : UInt64}
    (hstore : s'.store = s.store) (hcalls : s.calls ≤ s'.calls) (h : Settled s id created) :
    Settled s' id created := by
  rcases h with hstale | hstored
  · exact .inl fun n hn => hstale n (hcalls.trans hn)
  · exact .inr (hstore ▸ hstored)

theorem once_core : CoreInvariant Once where
  congr := by
    intro s s' hcore hcalls h
    have hstore : s'.store = s.store := congrArg NodeCore.store hcore
    have hout : s'.out = s.out := congrArg NodeCore.out hcore
    refine ⟨hstore ▸ h.indexed, fun m hm => ?_, fun id created => ?_⟩
    · exact (h.settled m (hout ▸ hm)).congr hstore hcalls
    · rw [hout]
      exact h.once id created

/-- Any other output leaves the invariant. -/
theorem Once.emitOther {o : Output} (ho : ∀ m, o ≠ .deliver .data m) {E : Prop} :
    Keeps Once E (emit o) := by
  refine Keeps.modify fun s h => ⟨h.indexed, fun m hm => ?_, fun id created => ?_⟩
  · rcases List.mem_append.mp hm with hold | hnew
    · exact h.settled m hold
    · exact absurd (List.mem_singleton.mp hnew).symm (ho m)
  · have hno : Output.isDataDelivery id created o = false := by
      unfold Output.isDataDelivery
      split
      · next m => exact absurd rfl (ho m)
      · rfl
    rw [List.countP_append, List.countP_singleton, hno]
    exact h.once id created

/-! ## Storing a message -/

/-- What holds after the clock was read as `now`: later readings are not smaller, and all
that was delivered is settled at `now` itself. -/
structure OnceSince (now : UInt64) (s : NodeRunner) : Prop where
  once : Once s
  later : ∀ n, s.calls ≤ n → now.toNat ≤ (World.clock n).toNat
  settledAt : ∀ m, .deliver .data m ∈ s.out →
    SettledAt now s.store m.envelope.id m.envelope.createdAtMs

theorem onceSince_core (now : UInt64) : CoreInvariant (OnceSince now) where
  congr := by
    intro s s' hcore hcalls h
    have hstore : s'.store = s.store := congrArg NodeCore.store hcore
    have hout : s'.out = s.out := congrArg NodeCore.out hcore
    refine ⟨once_core.congr s s' hcore hcalls h.once, fun n hn => h.later n (hcalls.trans hn), ?_⟩
    intro m hm
    rw [hstore]
    exact h.settledAt m (hout ▸ hm)

/-- Reading the clock. -/
theorem nowMs_onceSince (hclock : ClockMonotone) {E : String → NodeRunner → Prop} :
    Triple Once nowMs OnceSince E := by
  refine Triple.modifyGet fun s h => ?_
  have hstep := once_core.congr s { s with calls := s.calls + 1 } rfl (Nat.le_succ _) h
  refine ⟨hstep, fun n hn => hclock _ _ ((Nat.le_succ _).trans hn), fun m hm => ?_⟩
  rcases h.settled m hm with hstale | hstored
  · exact .inl (hstale s.calls (Nat.le_refl _))
  · exact .inr hstored

/-- The state after a fresh message was stored: it is settled and was never delivered. -/
structure Accepted (m : DirectMessage) (s : NodeRunner) : Prop where
  once : Once s
  stored : StoredSince s.store m.envelope.id m.envelope.createdAtMs
  undelivered : ∀ m', .deliver .data m' ∈ s.out → m'.envelope.id = m.envelope.id →
    m'.envelope.createdAtMs ≠ m.envelope.createdAtMs

theorem accepted_core (m : DirectMessage) : CoreInvariant (Accepted m) where
  congr := by
    intro s s' hcore hcalls h
    have hstore : s'.store = s.store := congrArg NodeCore.store hcore
    have hout : s'.out = s.out := congrArg NodeCore.out hcore
    refine ⟨once_core.congr s s' hcore hcalls h.once, hstore ▸ h.stored, fun m' hm' => ?_⟩
    exact h.undelivered m' (hout ▸ hm')

/-- Storing a message with a new id keeps the invariant. -/
theorem Once.persist {s : NodeRunner} (h : Once s) {m : DirectMessage}
    (hnew : m.envelope.id ∉ s.store.db) (ts : UInt64) :
    Once { s with store := s.store.persist ts m } where
  indexed := h.indexed.persist hnew ts
  settled := by
    intro m' hm'
    rcases h.settled m' hm' with hstale | hstored
    · exact .inl hstale
    · exact .inr (hstored.persist hnew)
  once := h.once

theorem once_persist {s : NodeRunner} (h : Once s) {m : DirectMessage}
    (hnew : m.envelope.id ∉ s.store.db) :
    Once { s with calls := s.calls + 1, store := s.store.persist (World.clock s.calls) m } :=
  (once_core.congr s { s with calls := s.calls + 1 } rfl (Nat.le_succ _) h).persist hnew _

/-- **Storing a fresh message.** It was read at `now` as fresh, so if it had been delivered
before it would still be in the store; and it is stored at a time not before `now`. -/
theorem accepted_persist {now : UInt64} {m : DirectMessage}
    (hfresh : checkEnvelopeFreshness m.envelope.createdAtMs now = true) {s : NodeRunner}
    (h : OnceSince now s) (hnew : m.envelope.id ∉ s.store.db) :
    Accepted m { s with
      calls := s.calls + 1
      store := s.store.persist (World.clock s.calls) m } := by
  obtain ⟨hskew, hage⟩ := le_of_checkEnvelopeFreshness hfresh
  refine ⟨once_persist h.once hnew, ⟨mem_db_persist.mpr (.inl rfl), fun ts hts => ?_⟩, ?_⟩
  · rcases mem_order_persist.mp hts with hold | heq
    · exact absurd (h.once.indexed.stored _ hold) hnew
    · obtain ⟨rfl, -⟩ := Prod.mk.inj heq
      have hlater := h.later s.calls (Nat.le_refl _)
      omega
  · intro m' hm' hid hcreated
    rcases h.settledAt m' hm' with hstale | hstored
    · rw [hcreated] at hstale
      omega
    · rw [hid] at hstored
      exact hnew hstored.1

/-- Delivering an accepted message: the first time for its id and creation time. -/
theorem emit_accepted (m : DirectMessage) {E : Prop} :
    Triple (Accepted m) (emit (.deliver .data m)) (fun _ s => Once s) (fun _ s => Once s ∧ E) := by
  refine Triple.modify fun s h => ⟨h.once.indexed, fun m' hm' => ?_, fun id created => ?_⟩
  · rcases List.mem_append.mp hm' with hold | hnew
    · exact h.once.settled m' hold
    · have heq : m' = m := by simpa using hnew
      rw [heq]
      exact .inr h.stored
  · rw [List.countP_append, List.countP_singleton]
    by_cases hm : m.envelope.id = id ∧ m.envelope.createdAtMs = created
    · -- the first delivery of this pair
      have hzero : s.out.countP (Output.isDataDelivery id created) = 0 := by
        rw [List.countP_eq_zero]
        intro o ho hd
        unfold Output.isDataDelivery at hd
        split at hd
        · next m' =>
          obtain ⟨hid, hcreated⟩ := of_decide_eq_true hd
          exact h.undelivered m' ho (hid.trans hm.1.symm) (hcreated.trans hm.2.symm)
        · exact absurd hd (by simp)
      rw [hzero]
      split <;> omega
    · have hno : Output.isDataDelivery id created (.deliver .data m) = false := by
        simp [Output.isDataDelivery, hm]
      rw [hno]
      exact h.once.once id created

/-! ## The `Data` branch -/

section

variable [Prims]

/-- The pipeline on a fresh message. -/
theorem ingest_accepted {now : UInt64} {m : DirectMessage}
    (hfresh : checkEnvelopeFreshness m.envelope.createdAtMs now = true)
    {F : String → NodeRunner → Prop} (hF : ∀ e s, OnceSince now s → F e s) :
    Triple (OnceSince now) (ingest m false)
      (fun new s => if new then Accepted m s else OnceSince now s) F := by
  refine Triple.bind (R := fun _ => OnceSince now)
    ((onceSince_core now).nowMs (E := True) |>.imp (fun _ h => h) (fun _ _ h => h)
      (fun e s h => hF e s h.1)) fun now' => ?_
  split
  · exact Triple.pure fun _ h => h
  · exact CoreInvariant.ingestUnseen_triple
      (fun s hs hnew => accepted_persist hfresh hs hnew) (accepted_core m)

omit [Prims] in
/-- The guard lets only fresh messages through. -/
theorem guardCheck_fresh {now : UInt64} {author : String} {m : DirectMessage}
    {F : String → NodeRunner → Prop} :
    Triple (OnceSince now) (guardCheck (IngestGuard.allowDirect author m now))
      (fun res s => (res = .ok () → checkEnvelopeFreshness m.envelope.createdAtMs now = true)
        ∧ OnceSince now s) F :=
  CoreInvariant.guardCheck_triple fun _ hs =>
    ⟨IngestGuard.fresh_of_allowDirect, (onceSince_core now).setGuard hs _⟩

/-- **The accepting part of the `Data` branch.** The clock reading that found the message
fresh is the one its delivery is measured against. -/
theorem once_ingestData (hclock : ClockMonotone) (fromPeer : String) (m : DirectMessage)
    (hroute : Keeps Once True (routeData fromPeer m)) :
    Keeps Once True (ingestData fromPeer m) := by
  refine Triple.bind (nowMs_onceSince hclock) fun now => ?_
  refine Triple.bind guardCheck_fresh fun res => Triple.of_fact fun hfresh => ?_
  cases res with
  | error reason =>
    -- nothing is delivered: the rest is bookkeeping
    refine Triple.bind (R := fun _ => Once) ?_ fun _ => ?_
    · exact (once_core.recordIngestReject reason).imp (fun _ h => h.once) (fun _ _ h => h)
        (fun _ _ h => h)
    · exact Keeps.ite (fun _ => once_core.registerStrike fromPeer) (fun _ => Keeps.pure)
  | ok u =>
    refine Triple.bind (ingest_accepted (hfresh rfl) fun _ _ h => ⟨h.once, trivial⟩) fun new => ?_
    refine Triple.ite (fun hnew => ?_) (fun hnew => ?_)
    · simp only [hnew, if_true]
      refine Triple.bind (R := fun _ => Accepted m)
        ((accepted_core m).rewardPeer fromPeer (E := True) |>.imp (fun _ h => h) (fun _ _ h => h)
          (fun _ _ h => ⟨h.1.once, trivial⟩)) fun _ => ?_
      exact Triple.bind (emit_accepted m) fun _ => hroute
    · simp only [hnew, Bool.false_eq_true, if_false]
      exact (once_core.registerStrike fromPeer).imp (fun _ h => h.once) (fun _ _ h => h)
        (fun _ _ h => h)

end

/-! ## Whole runs -/

/-- What the loop does besides accepting `Data` messages. -/
theorem once_frame [Prims] : FrameInvariant Once True (fun o => ∀ m, o ≠ .deliver .data m) where
  toCoreInvariant := once_core
  ingestUnseen _ := once_core.ingestUnseen_keeps fun _ hs hnew => once_persist hs hnew
  emit _ ho := Once.emitOther ho
  enqueue _ _ ho := once_core.enqueue_of_pending (fun s _ hs => ⟨hs.indexed, hs.settled, hs.once⟩)
    trivial (Once.emitOther ho)
  plain o ho := by
    rintro m rfl
    exact ho

theorem once_gcExpired (hclock : ClockMonotone) : Keeps Once True gcExpired := by
  refine Triple.bind (nowMs_onceSince hclock) fun now => Triple.modifyGet fun s h => ?_
  refine ⟨h.once.indexed.gcExpired now, fun m hm => ?_, h.once.once⟩
  rcases h.once.settled m hm with hstale | hstored
  · exact .inl hstale
  · rcases SettledAt.gcExpired now hstored with hstale | hkept
    · exact .inl fun n hn => hstale.trans_le (h.later n hn)
    · exact .inr hkept

theorem once_loop [Prims] (hclock : ClockMonotone) :
    LoopInvariant Once (fun o => ∀ m, o ≠ .deliver .data m) where
  toFrameInvariant := once_frame
  gcExpired := once_gcExpired hclock
  evictExpired := once_core.evictExpired_of_pending
    fun s _ hs => ⟨hs.indexed, hs.settled, hs.once⟩
  pop _ _ _ _ hs := ⟨hs.indexed, hs.settled, hs.once⟩
  rotate _ _ hs := ⟨hs.indexed, hs.settled, hs.once⟩
  view _ _ hs := ⟨hs.indexed, hs.settled, hs.once⟩
  other _ ho := ho
  data fromPeer m := once_ingestData hclock fromPeer m
    (once_frame.send.routeData fun _ _ _ _ => by simp)

theorem once_new (c : NodeConfig) : Once (.new c) where
  indexed := indexed_openDb c.db
  settled := by
    intro m hm
    exact absurd hm (by simp [NodeRunner.new])
  once := by simp [NodeRunner.new]

/-- The invariant at the end of every run, whichever way the run ends. -/
theorem once_final [Prims] [WireCodec] (hclock : ClockMonotone) (c : NodeConfig)
    (inputs : List (TransportView × Input)) : ∃ s, outputs c inputs = s.out ∧ Once s := by
  have h := ((once_loop hclock).runLoop inputs).state (once_new c)
  unfold outputs
  cases hrun : runLoop inputs (.new c) with
  | ok u s =>
    rw [hrun] at h
    exact ⟨s, rfl, h⟩
  | error e s =>
    rw [hrun] at h
    exact ⟨s, rfl, h⟩

/-- **At most once.** In every run of a node, over any inputs in any order, with a clock
that does not go back, the `Data` branch delivers at most one message with a given id and
creation time. -/
theorem at_most_once [Prims] [WireCodec] (hclock : ClockMonotone) (c : NodeConfig)
    (inputs : List (TransportView × Input)) (id : String) (created : UInt64) :
    (outputs c inputs).countP (Output.isDataDelivery id created) ≤ 1 := by
  obtain ⟨s, hout, honce⟩ := once_final hclock c inputs
  rw [hout]
  exact honce.once id created

end

section

attribute [local instance] symbolicPrims noCodec

@[reducible] def replayWorld : World := stillWorld 5000000

attribute [local instance] replayWorld

/-- The same frame, received twice. -/
def replayedFrame : List (TransportView × Input) :=
  List.replicate 2 ({ knownPeers := [symbolicPeer 1] }, .transportEvent (.directReceived
    (symbolicPeer 1) (.data (symbolicMessage 1 (symbolicPeer 2) 5000000))))

/-- A frame received twice is delivered exactly once. -/
theorem at_most_once_replayed :
    ClockMonotone
    ∧ 1 ≤ (outputs (symbolicConfig 2 3) replayedFrame).countP (Output.isDataDelivery
        (symbolicMessage 1 (symbolicPeer 2) 5000000).envelope.id 5000000)
    ∧ (outputs (symbolicConfig 2 3) replayedFrame).countP (Output.isDataDelivery
        (symbolicMessage 1 (symbolicPeer 2) 5000000).envelope.id 5000000) ≤ 1 := by
  have hclock : ClockMonotone := fun _ _ _ => Nat.le_refl _
  exact ⟨hclock, by decide +kernel, at_most_once hclock _ _ _ _⟩

end

end Mycelium.Node

import Mycelium.Sim.Scheduler
import Mycelium.Core.Transport
import Mycelium.Lib.Loop
import Mycelium.Lib.Tree

/-!
# Mycelium simulator — the runner

Translation of `mycelium-sim/src/runner.rs` and `clock.rs`. The runner takes actions off a channel,
schedules what they deliver, and moves a virtual clock from event to event.

* `scheduleAction` — what an action puts into the scheduler; a publication goes over the nodes in the
  order of a hash map;
* `stepUntilNextEvent` / `runFor` — the loops;
* `processReady_eq` / `stepUntilNextEvent_cases` — what one step does.
-/

namespace Mycelium.Sim

structure LinkProfile where
  latencyMs : UInt64 := 10
  lossPerMille : UInt16 := 0
deriving DecidableEq, Repr

structure DeterministicClock where
  nowMs : UInt64 := 0
deriving DecidableEq, Repr

/-- `advance_to`. -/
def DeterministicClock.advanceTo (c : DeterministicClock) (timestampMs : UInt64) :
    DeterministicClock :=
  { nowMs := max c.nowMs timestampMs }

theorem DeterministicClock.toNat_advanceTo (c : DeterministicClock) (t : UInt64) :
    (c.advanceTo t).nowMs.toNat = max c.nowMs.toNat t.toNat := by
  show (if c.nowMs ≤ t then t else c.nowMs).toNat = _
  split
  · next h =>
    rw [U64.le_iff] at h
    omega
  · next h =>
    rw [U64.le_iff] at h
    omega

structure SimNodeSpec where
  online : Bool := true
  bandwidthBytesPerSec : UInt64
deriving DecidableEq, Repr

inductive SimAction where
  | sendDirect (fromPeer toPeer : String) (message : WireMessage)
  | publishScoped (fromPeer scope : String) (payload : Bytes)
deriving DecidableEq, Repr

inductive ScheduledAction where
  | deliver (toPeer : String) (event : TransportEvent) (bytes : Nat)
  | availability (peerId : String) (online : Bool)
deriving DecidableEq, Repr

structure SimulationMetrics where
  delivered : UInt64 := 0
  duplicates : UInt64 := 0
  droppedLoss : UInt64 := 0
  droppedOffline : UInt64 := 0
  droppedBandwidth : UInt64 := 0
  sentBytes : UInt64 := 0
  latenciesMs : List UInt64 := []
deriving DecidableEq, Repr

structure SimulationRunner where
  clock : DeterministicClock := {}
  scheduler : EventScheduler ScheduledAction := {}
  links : KvTree.Of (String × String) LinkProfile := ∅
  nodes : KvTree.Of String SimNodeSpec := ∅
  /-- The channel of each node: what was sent to it, and at what virtual time. -/
  eventTxs : String → Option (List (UInt64 × TransportEvent)) := fun _ => none
  /-- What `or_insert(0)` makes of the map: zero where nothing was entered. -/
  bandwidthUsage : String × UInt64 → UInt64 := fun _ => 0
  deliveredIds : KvTree.Of String UInt64 := ∅
  metrics : SimulationMetrics := {}
  rngState : UInt64 := 1
  /-- The channel of actions. -/
  actions : List SimAction := []
  /-- A record that the source does not keep: the events taken off the scheduler. -/
  processed : List (ScheduledEvent ScheduledAction) := []
  /-- A record that the source does not keep: how often the map of nodes was iterated. -/
  iterations : Nat := 0

/-- In what order a hash map hands out its keys, at each of its iterations. -/
structure HashOrder where
  order : Nat → List String → List String
  perm : ∀ n keys, (order n keys).Perm keys

/-- `wire_message_size`. -/
def wireMessageSize : WireMessage → Nat
  | .data msg => msg.body.utf8ByteSize + msg.envelope.payload.length + 64
  | .syncIds ids => (ids.map String.utf8ByteSize).sum + 32
  | .syncRequest ids => (ids.map String.utf8ByteSize).sum + 32
  | .syncBloom bloom _ => bloom.length + 32
  | .syncData messages => (messages.map fun m => m.body.utf8ByteSize).sum + 64
  | .scopeAnnounce scopes => (scopes.map String.utf8ByteSize).sum + 32
  | .encryptedDirect _ _ encryptedPayload _ _ _ => encryptedPayload.length + 64 + 96
  | .encryptedGroup _ encryptedPayload => encryptedPayload.length + 32
  | .peerInfo encPubkeyHex _ _ => encPubkeyHex.utf8ByteSize + 32

/-- `delivered_key_fields`. -/
def deliveredKeyFields (message : WireMessage) (toPeer : String) : Option (String × UInt64) :=
  match message with
  | .data msg =>
    if msg.envelope.toPeer = some toPeer then some (msg.envelope.id, msg.envelope.createdAtMs)
    else none
  | _ => none

/-- The next state of the loss generator. -/
def nextRng (x : UInt64) : UInt64 := x * 6364136223846793005 + 1

namespace SimulationRunner

/-- `new`. -/
def new (startMs seed : UInt64) : SimulationRunner where
  clock := { nowMs := startMs }
  rngState := max seed 1

/-- `register_node`. -/
def registerNode (sim : SimulationRunner) (peerId : String) (bandwidthBytesPerSec : UInt64) :
    SimulationRunner :=
  { sim with
    eventTxs := Function.update sim.eventTxs peerId (some [])
    nodes := sim.nodes.insert peerId { bandwidthBytesPerSec } }

/-- `set_link`. -/
def setLink (sim : SimulationRunner) (a b : String) (profile : LinkProfile) : SimulationRunner :=
  { sim with links := (sim.links.insert (a, b) profile).insert (b, a) profile }

/-- `schedule_availability`. -/
def scheduleAvailability (sim : SimulationRunner) (peerId : String) (atMs : UInt64) (online : Bool) :
    SimulationRunner :=
  { sim with scheduler := sim.scheduler.push atMs (.availability peerId online) }

/-- `is_online`. -/
def isOnline (sim : SimulationRunner) (peerId : String) : Bool :=
  ((sim.nodes.lookup peerId).map fun n => n.online).getD false

/-- The availability of a node is set, if it is registered. -/
def setOnline (sim : SimulationRunner) (peerId : String) (online : Bool) : SimulationRunner :=
  match sim.nodes.lookup peerId with
  | some node => { sim with nodes := sim.nodes.insert peerId { node with online } }
  | none => sim

/-- `consume_bandwidth`. -/
def consumeBandwidth (sim : SimulationRunner) (peerId : String) (bytes : UInt64) :
    Bool × SimulationRunner :=
  let nowSec := sim.clock.nowMs / 1000
  let used := sim.bandwidthUsage (peerId, nowSec)
  let budget := ((sim.nodes.lookup peerId).map fun n => n.bandwidthBytesPerSec).getD 0
  if budget < U64.satAdd used bytes then (false, sim)
  else
    (true, { sim with
      bandwidthUsage := Function.update sim.bandwidthUsage (peerId, nowSec) (U64.satAdd used bytes) })

/-- `roll_loss`. -/
def rollLoss (sim : SimulationRunner) (lossPerMille : UInt16) : Bool × SimulationRunner :=
  if lossPerMille = 0 then (false, sim)
  else
    let rngState := nextRng sim.rngState
    (rngState % 1000 < lossPerMille.toUInt64, { sim with rngState })

/-- `record_delivery`. -/
def recordDelivery (sim : SimulationRunner) (toPeer : String) (message : WireMessage) :
    SimulationRunner :=
  match deliveredKeyFields message toPeer with
  | none => sim
  | some (id, createdAtMs) =>
    let key := toPeer ++ ":" ++ id
    let known := (sim.deliveredIds.lookup key).isSome
    -- the time of a repeated delivery replaces the first one's
    let sim := { sim with deliveredIds := sim.deliveredIds.insert key sim.clock.nowMs }
    if known then
      { sim with metrics := { sim.metrics with duplicates := sim.metrics.duplicates + 1 } }
    else
      { sim with
        metrics := { sim.metrics with
          delivered := sim.metrics.delivered + 1
          latenciesMs := sim.metrics.latenciesMs ++ [U64.satSub sim.clock.nowMs createdAtMs] } }

/-! ## Actions -/

/-- What is sent directly. -/
def scheduleDirect (sim : SimulationRunner) (fromPeer toPeer : String) (message : WireMessage) :
    SimulationRunner :=
  if !sim.isOnline fromPeer || !sim.isOnline toPeer then
    { sim with metrics := { sim.metrics with droppedOffline := sim.metrics.droppedOffline + 1 } }
  else
    match sim.links.lookup (fromPeer, toPeer) with
    -- a direct send without a link counts as dropped, a published one (below) does not
    | none =>
      { sim with metrics := { sim.metrics with droppedOffline := sim.metrics.droppedOffline + 1 } }
    | some profile =>
      match sim.rollLoss profile.lossPerMille with
      | (true, sim) =>
        { sim with metrics := { sim.metrics with droppedLoss := sim.metrics.droppedLoss + 1 } }
      | (false, sim) =>
        { sim with
          scheduler := sim.scheduler.push (U64.satAdd sim.clock.nowMs profile.latencyMs)
            (.deliver toPeer (.directReceived fromPeer message) (wireMessageSize message)) }

/-- What is published, for one of the nodes. -/
def publishTo (fromPeer scope : String) (payload : Bytes) (sim : SimulationRunner)
    (toPeer : String) : SimulationRunner :=
  if toPeer = fromPeer then sim
  else if !sim.isOnline fromPeer || !sim.isOnline toPeer then
    { sim with metrics := { sim.metrics with droppedOffline := sim.metrics.droppedOffline + 1 } }
  else
    match sim.links.lookup (fromPeer, toPeer) with
    | none => sim
    | some profile =>
      match sim.rollLoss profile.lossPerMille with
      | (true, sim) =>
        { sim with metrics := { sim.metrics with droppedLoss := sim.metrics.droppedLoss + 1 } }
      | (false, sim) =>
        { sim with
          scheduler := sim.scheduler.push (U64.satAdd sim.clock.nowMs profile.latencyMs)
            (.deliver toPeer (.scopedReceived fromPeer scope payload) (payload.length + 32)) }

/-- `schedule_action`. -/
def scheduleAction (h : HashOrder) (sim : SimulationRunner) : SimAction → SimulationRunner
  | .sendDirect fromPeer toPeer message => sim.scheduleDirect fromPeer toPeer message
  | .publishScoped fromPeer scope payload =>
    (h.order sim.iterations sim.nodes.keys).foldl (publishTo fromPeer scope payload)
      { sim with iterations := sim.iterations + 1 }

/-- The loop over the channel of actions. -/
def drain (h : HashOrder) (sim : SimulationRunner) : SimulationRunner :=
  sim.actions.foldl (scheduleAction h) { sim with actions := [] }

/-! ## Events -/

/-- What a scheduled action does when its time has come. -/
def process (sim : SimulationRunner) : ScheduledAction → SimulationRunner
  | .availability peerId online => sim.setOnline peerId online
  | .deliver toPeer event bytes =>
    match sim.consumeBandwidth toPeer (UInt64.ofNat bytes) with
    | (false, sim) =>
      { sim with
        metrics := { sim.metrics with droppedBandwidth := sim.metrics.droppedBandwidth + 1 } }
    | (true, sim) =>
      let sim := { sim with
        metrics := { sim.metrics with
          sentBytes := sim.metrics.sentBytes + UInt64.ofNat bytes }
        eventTxs := Function.update sim.eventTxs toPeer
          ((sim.eventTxs toPeer).map (· ++ [(sim.clock.nowMs, event)])) }
      match event with
      | .directReceived _ message => sim.recordDelivery toPeer message
      | _ => sim

/-- The loop over the events that are ready, each of which leaves the scheduler. -/
def processReady : Nat → SimulationRunner → SimulationRunner
  | 0, sim => sim
  | fuel + 1, sim =>
    match sim.scheduler.popReady sim.clock.nowMs with
    | (none, _) => sim
    | (some event, scheduler) =>
      processReady fuel
        (({ sim with scheduler, processed := sim.processed ++ [event] }).process event.payload)

/-- The clock jumps to the next event, if there is one. -/
def jump (sim : SimulationRunner) : SimulationRunner :=
  match sim.scheduler.nextTimestamp with
  | some nextAt => { sim with clock := sim.clock.advanceTo nextAt }
  | none => sim

/-- `step_until_next_event`. -/
def stepUntilNextEvent (h : HashOrder) (sim : SimulationRunner) : SimulationRunner :=
  let sim := (sim.drain h).jump
  processReady sim.scheduler.queue.items.length sim

/-- With nothing to do, the clock goes on by a millisecond, but not over the target. -/
def idle (target : UInt64) (sim : SimulationRunner) : SimulationRunner :=
  if sim.scheduler.nextTimestamp.isNone && sim.actions.isEmpty then
    { sim with clock := sim.clock.advanceTo (min (U64.satAdd sim.clock.nowMs 1) target) }
  else sim

/-- One round of the loop of `run_for`. -/
def runForRound (h : HashOrder) (target : UInt64) (sim : SimulationRunner) :
    SimulationRunner ⊕ SimulationRunner :=
  if sim.clock.nowMs < target then .inl ((sim.stepUntilNextEvent h).idle target) else .inr sim

/-- `run_for`, with as many rounds as the time that is left and the scheduled events can take. -/
def runFor (h : HashOrder) (durationMs : UInt64) (sim : SimulationRunner) :
    Option SimulationRunner :=
  let target := U64.satAdd sim.clock.nowMs durationMs
  loop (runForRound h target)
    (target.toNat - sim.clock.nowMs.toNat + (sim.drain h).scheduler.queue.items.length + 1) sim

/-! ## What a roll does -/

theorem rollLoss_fst (sim : SimulationRunner) (lossPerMille : UInt16) :
    (sim.rollLoss lossPerMille).1
      = (decide (lossPerMille ≠ 0) && decide (nextRng sim.rngState % 1000 < lossPerMille.toUInt64)) := by
  unfold rollLoss
  split
  · next hloss => simp [hloss]
  · next hloss => simp [hloss]

/-- Rolling changes the generator only. -/
theorem rollLoss_snd (sim : SimulationRunner) (lossPerMille : UInt16) :
    (sim.rollLoss lossPerMille).2 = { sim with
      rngState := if lossPerMille = 0 then sim.rngState else nextRng sim.rngState } := by
  unfold rollLoss
  split
  · rfl
  · rfl

/-! ## What a step does -/

/-- The same simulation around another scheduler. -/
def withQueue (sim : SimulationRunner) (scheduler : EventScheduler ScheduledAction)
    (processed : List (ScheduledEvent ScheduledAction)) (iterations : Nat) : SimulationRunner :=
  { sim with scheduler, processed, iterations }

/-- Processing neither reads nor changes the scheduler and the records. -/
theorem process_withQueue (sim : SimulationRunner) (scheduler : EventScheduler ScheduledAction)
    (processed : List (ScheduledEvent ScheduledAction)) (iterations : Nat) (a : ScheduledAction) :
    (sim.withQueue scheduler processed iterations).process a
      = (sim.process a).withQueue scheduler processed iterations := by
  cases a with
  | availability peerId online =>
    cases hnode : sim.nodes.lookup peerId with
    | none => simp [process, setOnline, withQueue, hnode]
    | some node => simp [process, setOnline, withQueue, hnode]
  | deliver toPeer event bytes =>
    by_cases hbudget : ((sim.nodes.lookup toPeer).map fun n => n.bandwidthBytesPerSec).getD 0
        < U64.satAdd (sim.bandwidthUsage (toPeer, sim.clock.nowMs / 1000)) (UInt64.ofNat bytes)
    · simp [process, consumeBandwidth, withQueue, hbudget]
    · cases event with
      | directReceived fromPeer message =>
        simp only [process, consumeBandwidth, withQueue, hbudget, if_false, recordDelivery]
        cases deliveredKeyFields message toPeer with
        | none => rfl
        | some key =>
          dsimp only
          split <;> rfl
      | _ => simp [process, consumeBandwidth, withQueue, hbudget]

/-- Processing keeps the clock, the links, the generator and the channel of actions. -/
theorem process_frame (sim : SimulationRunner) (a : ScheduledAction) :
    (sim.process a).clock = sim.clock ∧ (sim.process a).scheduler = sim.scheduler
      ∧ (sim.process a).links = sim.links ∧ (sim.process a).rngState = sim.rngState
      ∧ (sim.process a).actions = sim.actions ∧ (sim.process a).processed = sim.processed
      ∧ (sim.process a).iterations = sim.iterations := by
  cases a with
  | availability peerId online =>
    cases hnode : sim.nodes.lookup peerId with
    | none => simp [process, setOnline, hnode]
    | some node => simp [process, setOnline, hnode]
  | deliver toPeer event bytes =>
    by_cases hbudget : ((sim.nodes.lookup toPeer).map fun n => n.bandwidthBytesPerSec).getD 0
        < U64.satAdd (sim.bandwidthUsage (toPeer, sim.clock.nowMs / 1000)) (UInt64.ofNat bytes)
    · simp [process, consumeBandwidth, hbudget]
    · cases event with
      | directReceived fromPeer message =>
        simp only [process, consumeBandwidth, hbudget, if_false, recordDelivery]
        cases deliveredKeyFields message toPeer with
        | none => simp
        | some key =>
          dsimp only
          split <;> simp
      | _ => simp [process, consumeBandwidth, hbudget]

@[simp] theorem withQueue_withQueue (sim : SimulationRunner)
    (scheduler scheduler' : EventScheduler ScheduledAction)
    (processed processed' : List (ScheduledEvent ScheduledAction)) (iterations iterations' : Nat) :
    (sim.withQueue scheduler processed iterations).withQueue scheduler' processed' iterations'
      = sim.withQueue scheduler' processed' iterations' := rfl

theorem foldl_process_withQueue (sim : SimulationRunner) (scheduler : EventScheduler ScheduledAction)
    (processed : List (ScheduledEvent ScheduledAction)) (iterations : Nat)
    (as : List ScheduledAction) :
    as.foldl process (sim.withQueue scheduler processed iterations)
      = (as.foldl process sim).withQueue scheduler processed iterations := by
  induction as generalizing sim with
  | nil => rfl
  | cons a as ih =>
    rw [List.foldl_cons, List.foldl_cons, process_withQueue]
    exact ih (sim.process a)

theorem foldl_process_clock (sim : SimulationRunner) (as : List ScheduledAction) :
    (as.foldl process sim).clock = sim.clock ∧ (as.foldl process sim).actions = sim.actions := by
  induction as generalizing sim with
  | nil => exact ⟨rfl, rfl⟩
  | cons a as ih =>
    obtain ⟨hclock, -, -, -, hactions, -⟩ := process_frame sim a
    obtain ⟨hclock', hactions'⟩ := ih (sim.process a)
    exact ⟨hclock'.trans hclock, hactions'.trans hactions⟩

/-- The event's time has come. -/
def isReady (sim : SimulationRunner) (event : ScheduledEvent ScheduledAction) : Bool :=
  event.atMs ≤ sim.clock.nowMs

/-- The events whose time has come, in order. -/
def ready (sim : SimulationRunner) : List (ScheduledEvent ScheduledAction) :=
  sim.scheduler.queue.items.takeWhile sim.isReady

/-- **The loop takes exactly the ready events.** Induction on the fuel, which the queue does not
exceed. -/
theorem processReady_eq {fuel : Nat} {sim : SimulationRunner}
    (hfuel : sim.scheduler.queue.items.length ≤ fuel) :
    processReady fuel sim = ((sim.ready.map ScheduledEvent.payload).foldl process sim).withQueue
      { sim.scheduler with queue := sim.scheduler.queue.dropWhile sim.isReady }
      (sim.processed ++ sim.ready) sim.iterations := by
  induction fuel generalizing sim with
  | zero =>
    have hnil : sim.scheduler.queue.items = [] := List.length_eq_zero_iff.mp (Nat.le_zero.mp hfuel)
    have hqueue : sim.scheduler.queue.dropWhile sim.isReady = sim.scheduler.queue :=
      MaxHeap.dropWhile_eq_self (by rw [hnil]; exact nofun)
    rw [hqueue, ready, hnil, List.takeWhile_nil, List.append_nil]
    rfl
  | succ fuel ih =>
    cases hpop : sim.scheduler.popReady sim.clock.nowMs with
    | mk answer scheduler =>
      rw [processReady, hpop]
      cases answer with
      | none =>
        obtain ⟨-, hlate⟩ := EventScheduler.popReady_none (congrArg Prod.fst hpop)
        have hlate' : ∀ x ∈ sim.scheduler.queue.items, sim.isReady x = false :=
          fun x hx => decide_eq_false (UInt64.not_le.mpr (hlate x hx))
        have hready : sim.ready = [] := by
          unfold ready
          cases hitems : sim.scheduler.queue.items with
          | nil => rfl
          | cons x rest =>
            have hx := hlate' x (hitems ▸ List.mem_cons_self)
            exact List.takeWhile_cons_of_neg (by rw [hx]; exact Bool.false_ne_true)
        rw [MaxHeap.dropWhile_eq_self hlate', hready, List.append_nil]
        rfl
      | some event =>
        obtain ⟨hpeek, hdue, rfl⟩ := EventScheduler.popReady_some hpop
        have hitems := MaxHeap.items_of_peek hpeek
        have hevent : sim.isReady event = true := decide_eq_true hdue
        have hready : sim.ready = event :: sim.scheduler.queue.tail.items.takeWhile sim.isReady := by
          rw [ready, hitems, List.takeWhile_cons_of_pos hevent]
        have hqueue : sim.scheduler.queue.dropWhile sim.isReady
            = sim.scheduler.queue.tail.dropWhile sim.isReady := by
          ext1
          rw [MaxHeap.items_dropWhile, hitems, List.dropWhile_cons_of_pos hevent]
          rfl
        -- the event is taken off, then processed
        dsimp only
        have hnext := process_withQueue sim { sim.scheduler with queue := sim.scheduler.queue.tail }
          (sim.processed ++ [event]) sim.iterations event.payload
        have hclock := (process_frame sim event.payload).1
        have hfuel' : sim.scheduler.queue.tail.items.length ≤ fuel := by
          rw [hitems, List.length_cons] at hfuel
          omega
        rw [show ({ sim with
            scheduler := { sim.scheduler with queue := sim.scheduler.queue.tail }
            processed := sim.processed ++ [event] } : SimulationRunner).process event.payload
          = _ from hnext, ih hfuel']
        have hisReady : ((sim.process event.payload).withQueue
            { sim.scheduler with queue := sim.scheduler.queue.tail } (sim.processed ++ [event])
            sim.iterations).isReady = sim.isReady := by
          funext x
          show decide (x.atMs ≤ (sim.process event.payload).clock.nowMs) = _
          rw [hclock]
          rfl
        rw [foldl_process_withQueue, withQueue_withQueue, ready, hisReady, hready, hqueue,
          List.map_cons, List.foldl_cons]
        show (List.foldl process _ _).withQueue _ ((sim.processed ++ [event]) ++ _) _ = _
        rw [List.append_assoc]
        rfl

end SimulationRunner

end Mycelium.Sim

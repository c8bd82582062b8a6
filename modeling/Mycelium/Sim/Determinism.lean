import Mycelium.Sim.Horizon
import Mycelium.Lib.Swaps

/-!
# Mycelium simulator — two simulations of one seed

A publication goes over the nodes in the order of a hash map, and every lossy link takes the next draw
of the generator. So the order decides which draw a node gets, and in which order events of one time
are scheduled. The second makes no difference: what is delivered to different nodes commutes. The
first makes none only if each node would fare the same with each of the draws.

* `Agree` — two simulations that differ in the order of independent events;
* `Settled` — a publication whose draws do not decide by their order;
* `simulation_deterministic` — every run whose publications are settled.
-/

namespace Mycelium.Sim

/-! ## The scheduler as an agenda -/

namespace EventScheduler

variable {T : Type} {s : EventScheduler T}

/-- The events in the order in which they will be taken, without their numbers. -/
def agenda (s : EventScheduler T) : List (Nat × T) :=
  s.queue.items.map fun e => (e.atMs.toNat, e.payload)

/-- No event has a number that is still to come. -/
def Numbered (s : EventScheduler T) : Prop := ∀ e ∈ s.queue.items, e.seq ≤ s.nextSeq

/-- An empty queue has no numbers. -/
theorem numbered_empty : Numbered ({} : EventScheduler T) := nofun

/-- A pushed event gets a number past all others. -/
theorem Numbered.push (h : s.Numbered) (atMs : UInt64) (payload : T) :
    (s.push atMs payload).Numbered := by
  intro e he
  rcases List.mem_cons.mp ((MaxHeap.perm_push _ _).subset he) with rfl | hold
  · exact Nat.le_refl _
  · exact (h e hold).trans (Nat.le_succ _)

/-- **A push enters the event behind those that are not later.** Its number is the greatest. -/
theorem agenda_push (h : s.Numbered) (atMs : UInt64) (payload : T) :
    (s.push atMs payload).agenda = enter s.agenda (atMs.toNat, payload) := by
  have hinsert : ∀ items : List (ScheduledEvent T), (∀ e ∈ items, e.seq ≤ s.nextSeq) →
      (items.orderedInsert (fun x y => (compare y x).isLE = true)
        { atMs, seq := s.nextSeq + 1, payload }).map (fun e => (e.atMs.toNat, e.payload))
      = enter (items.map fun e => (e.atMs.toNat, e.payload)) (atMs.toNat, payload) := by
    intro items hitems
    induction items with
    | nil => rfl
    | cons x items ih =>
      obtain ⟨hx, hrest⟩ := List.forall_mem_cons.mp hitems
      rw [List.orderedInsert_cons, List.map_cons]
      by_cases hlt : atMs.toNat < x.atMs.toNat
      · rw [if_pos (ScheduledEvent.isLE_compare_iff.mpr (ScheduledEvent.notAfter_iff.mpr (.inl hlt))),
          enter_cons_of_lt hlt]
        rfl
      · have hafter : ¬ (compare x { atMs, seq := s.nextSeq + 1, payload }).isLE = true := by
          rw [ScheduledEvent.isLE_compare_iff, ScheduledEvent.notAfter_iff]
          show ¬ (atMs.toNat < x.atMs.toNat ∨ atMs.toNat = x.atMs.toNat ∧ s.nextSeq + 1 ≤ x.seq)
          omega
        rw [if_neg hafter, List.map_cons, ih hrest, enter_cons_of_le (Nat.le_of_not_lt hlt)]
  exact hinsert s.queue.items h

/-- Pushing one entry after the other. -/
def pushAll (s : EventScheduler T) (entries : List (UInt64 × T)) : EventScheduler T :=
  entries.foldl (fun s e => s.push e.1 e.2) s

/-- The same for several events. -/
theorem Numbered.pushAll (h : s.Numbered) (entries : List (UInt64 × T)) :
    (s.pushAll entries).Numbered := by
  induction entries generalizing s with
  | nil => exact h
  | cons e entries ih => exact ih (h.push e.1 e.2)

/-- Pushing enters the events into the agenda, each behind those of its time. -/
theorem agenda_pushAll (h : s.Numbered) (entries : List (UInt64 × T)) :
    (s.pushAll entries).agenda
      = (entries.map fun e => (e.1.toNat, e.2)).foldl enter s.agenda := by
  induction entries generalizing s with
  | nil => rfl
  | cons e entries ih =>
    rw [List.map_cons, List.foldl_cons, ← agenda_push h]
    exact ih (h.push e.1 e.2)

/-- The next time is that of the first entry of the agenda. -/
theorem nextTimestamp_eq (s : EventScheduler T) :
    s.nextTimestamp = s.agenda.head?.map fun x => UInt64.ofNat x.1 := by
  unfold nextTimestamp agenda MaxHeap.peek
  rw [List.head?_map, Option.map_map]
  congr 1
  funext e
  exact (UInt64.ofNat_toNat).symm

end EventScheduler

/-! ## Independent events -/

/-- Events of one time that deliver publications to different nodes. -/
def Independent (x y : Nat × ScheduledAction) : Prop :=
  x.1 = y.1 ∧ ∃ p q from₁ from₂ scope₁ scope₂ payload₁ payload₂ bytes₁ bytes₂, p ≠ q
    ∧ x.2 = .deliver p (.scopedReceived from₁ scope₁ payload₁) bytes₁
    ∧ y.2 = .deliver q (.scopedReceived from₂ scope₂ payload₂) bytes₂

/-- Swaps of independent events leave the times where they are. -/
theorem map_fst_of_swaps {l l' : List (Nat × ScheduledAction)} (h : Swaps Independent l l') :
    l.map Prod.fst = l'.map Prod.fst := by
  induction h with
  | nil => rfl
  | cons x _ ih => rw [List.map_cons, List.map_cons, ih]
  | swap x y l hxy => simp only [List.map_cons, hxy.1]
  | trans _ _ ih ih' => exact ih.trans ih'

namespace SimulationRunner

/-- Independent events can be processed in either order. -/
theorem process_comm (sim : SimulationRunner) {x y : Nat × ScheduledAction} (h : Independent x y) :
    (sim.process x.2).process y.2 = (sim.process y.2).process x.2 := by
  obtain ⟨-, p, q, from₁, from₂, scope₁, scope₂, payload₁, payload₂, bytes₁, bytes₂, hne, hx, hy⟩ := h
  rw [hx, hy]
  have hkey : (q, sim.clock.nowMs / 1000) ≠ (p, sim.clock.nowMs / 1000) :=
    fun heq => hne (congrArg Prod.fst heq).symm
  by_cases hp : ((sim.nodes.lookup p).map fun n => n.bandwidthBytesPerSec).getD 0
      < U64.satAdd (sim.bandwidthUsage (p, sim.clock.nowMs / 1000)) (UInt64.ofNat bytes₁)
  · by_cases hq : ((sim.nodes.lookup q).map fun n => n.bandwidthBytesPerSec).getD 0
        < U64.satAdd (sim.bandwidthUsage (q, sim.clock.nowMs / 1000)) (UInt64.ofNat bytes₂)
    · simp [process, consumeBandwidth, hp, hq]
    · simp [process, consumeBandwidth, hp, hq, hkey.symm]
  · by_cases hq : ((sim.nodes.lookup q).map fun n => n.bandwidthBytesPerSec).getD 0
        < U64.satAdd (sim.bandwidthUsage (q, sim.clock.nowMs / 1000)) (UInt64.ofNat bytes₂)
    · simp [process, consumeBandwidth, hp, hq, hkey]
    · simp [process, consumeBandwidth, hp, hq, hkey, hkey.symm, hne, hne.symm,
        Function.update_comm hne, Function.update_comm hkey.symm]
      rw [UInt64.add_assoc, UInt64.add_assoc, UInt64.add_comm (UInt64.ofNat bytes₁)]

/-! ## Simulations that agree -/

/-- A simulation without its scheduler and its records. -/
def core (sim : SimulationRunner) : SimulationRunner := sim.withQueue {} [] 0

/-- The two differ in the order of independent events, and in their records. -/
structure Agree (a b : SimulationRunner) : Prop where
  core : a.core = b.core
  agenda : Swaps Independent a.scheduler.agenda b.scheduler.agenda
  numbered : a.scheduler.Numbered
  numbered' : b.scheduler.Numbered

/-- What neither reads nor changes the scheduler and the records. -/
structure Local (f : SimulationRunner → SimulationRunner) : Prop where
  withQueue : ∀ sim scheduler processed iterations,
    f (sim.withQueue scheduler processed iterations) = (f sim).withQueue scheduler processed iterations

variable {a b : SimulationRunner}

namespace Agree

/-- A simulation agrees with itself. -/
theorem refl {sim : SimulationRunner} (h : sim.scheduler.Numbered) : Agree sim sim :=
  ⟨rfl, Swaps.refl _, h, h⟩

/-- The second is the first with another scheduler and other records. -/
theorem exists_withQueue (h : Agree a b) :
    ∃ scheduler processed iterations, b = a.withQueue scheduler processed iterations :=
  ⟨b.scheduler, b.processed, b.iterations,
    calc b = b.core.withQueue b.scheduler b.processed b.iterations := rfl
      _ = a.core.withQueue b.scheduler b.processed b.iterations := by rw [h.core]
      _ = a.withQueue b.scheduler b.processed b.iterations := rfl⟩

/-- What does not look at the scheduler and the records is the same in both. -/
theorem same {β : Type} (h : Agree a b) (f : SimulationRunner → β)
    (hf : ∀ sim scheduler processed iterations,
      f (sim.withQueue scheduler processed iterations) = f sim) : f a = f b :=
  calc f a = f a.core := (hf a _ _ _).symm
    _ = f b.core := congrArg f h.core
    _ = f b := hf b _ _ _

/-- What acts on the nodes by their names alone respects agreement. -/
theorem ofLocal {f : SimulationRunner → SimulationRunner} (hf : Local f) (h : Agree a b) :
    Agree (f a) (f b) := by
  have hscheduler : ∀ sim, (f sim).scheduler = sim.scheduler := by
    intro sim
    have heq : f sim = (f sim).withQueue sim.scheduler sim.processed sim.iterations :=
      hf.withQueue sim sim.scheduler sim.processed sim.iterations
    rw [heq]
    rfl
  refine ⟨?_, ?_, ?_, ?_⟩
  · show (f a).withQueue {} [] 0 = (f b).withQueue {} [] 0
    rw [← hf.withQueue, ← hf.withQueue]
    exact congrArg f h.core
  · rw [hscheduler, hscheduler]
    exact h.agenda
  · rw [hscheduler]
    exact h.numbered
  · rw [hscheduler]
    exact h.numbered'

/-- Both push the same events in the same order. -/
theorem pushAll (h : Agree a b) (entries : List (UInt64 × ScheduledAction)) :
    Agree { a with scheduler := a.scheduler.pushAll entries }
      { b with scheduler := b.scheduler.pushAll entries } := by
  refine ⟨h.core, ?_, h.numbered.pushAll entries, h.numbered'.pushAll entries⟩
  rw [EventScheduler.agenda_pushAll h.numbered, EventScheduler.agenda_pushAll h.numbered']
  exact h.agenda.enterAll (fun _ _ hind => hind.1) _

end Agree

/-! ## Steps of simulations that agree -/

namespace Agree

/-- The next time does not depend on the order of the hash maps. -/
theorem nextTimestamp (h : Agree a b) : a.scheduler.nextTimestamp = b.scheduler.nextTimestamp := by
  have hfst := congrArg List.head? (map_fst_of_swaps h.agenda)
  rw [List.head?_map, List.head?_map] at hfst
  have htimes := congrArg (Option.map UInt64.ofNat) hfst
  rw [Option.map_map, Option.map_map] at htimes
  rw [EventScheduler.nextTimestamp_eq, EventScheduler.nextTimestamp_eq]
  exact htimes

/-- Nor does the number of events. -/
theorem length_items (h : Agree a b) :
    a.scheduler.queue.items.length = b.scheduler.queue.items.length := by
  have hlength := h.agenda.perm.length_eq
  rwa [EventScheduler.agenda, EventScheduler.agenda, List.length_map, List.length_map] at hlength

/-- Nor does the clock. -/
theorem clock (h : Agree a b) : a.clock = b.clock :=
  h.same SimulationRunner.clock fun _ _ _ _ => rfl

/-- Nor do the recorded actions. -/
theorem actions (h : Agree a b) : a.actions = b.actions :=
  h.same SimulationRunner.actions fun _ _ _ _ => rfl

/-- Setting both clocks. -/
theorem setClock (h : Agree a b) (clock : DeterministicClock) :
    Agree { a with clock } { b with clock } :=
  h.ofLocal (f := fun sim => { sim with clock }) ⟨fun _ _ _ _ => rfl⟩

/-- Jumping to the next time. -/
theorem jump (h : Agree a b) : Agree a.jump b.jump := by
  unfold SimulationRunner.jump
  rw [← h.nextTimestamp, ← h.clock]
  cases a.scheduler.nextTimestamp with
  | none => exact h
  | some nextAt => exact h.setClock _

/-- Waiting for a time at which nothing happens. -/
theorem idle (h : Agree a b) (target : UInt64) : Agree (a.idle target) (b.idle target) := by
  have hcond : (b.scheduler.nextTimestamp.isNone && b.actions.isEmpty)
      = (a.scheduler.nextTimestamp.isNone && a.actions.isEmpty) := by
    rw [h.nextTimestamp, h.actions]
  unfold SimulationRunner.idle
  rw [hcond, ← h.clock]
  split
  · exact h.setClock _
  · exact h

end Agree

/-- What is ready of the agenda. -/
def dueOf (sim : SimulationRunner) (x : Nat × ScheduledAction) : Bool :=
  x.1 ≤ sim.clock.nowMs.toNat

/-- What is ready is the front of the agenda, up to the clock. -/
theorem payload_ready (sim : SimulationRunner) : sim.ready.map ScheduledEvent.payload
    = (sim.scheduler.agenda.takeWhile sim.dueOf).map Prod.snd := by
  unfold ready EventScheduler.agenda
  rw [List.takeWhile_map, List.map_map]
  congr 1

/-- What is left is its back. -/
theorem agenda_dropWhile (sim : SimulationRunner) :
    ({ sim.scheduler with
      queue := sim.scheduler.queue.dropWhile sim.isReady } : EventScheduler ScheduledAction).agenda
      = sim.scheduler.agenda.dropWhile sim.dueOf := by
  unfold EventScheduler.agenda
  rw [MaxHeap.items_dropWhile, List.dropWhile_map]
  congr 1

/-- **The ready events**, whose order is that of the agenda up to independent ones. -/
theorem Agree.processReady (h : Agree a b) :
    Agree (SimulationRunner.processReady a.scheduler.queue.items.length a)
      (SimulationRunner.processReady b.scheduler.queue.items.length b) := by
  have hdue : a.dueOf = b.dueOf := by
    funext x
    unfold dueOf
    rw [h.clock]
  have htime : ∀ x y, Independent x y → a.dueOf x = a.dueOf y := by
    intro x y hxy
    unfold dueOf
    rw [hxy.1]
  have hkept : ∀ sim : SimulationRunner, sim.scheduler.Numbered →
      EventScheduler.Numbered ({ sim.scheduler with
        queue := sim.scheduler.queue.dropWhile sim.isReady } : EventScheduler ScheduledAction) :=
    fun sim hsim e he => hsim e ((List.dropWhile_sublist _).subset he)
  rw [processReady_eq (Nat.le_refl _), processReady_eq (Nat.le_refl _)]
  refine ⟨?_, ?_, hkept a h.numbered, hkept b h.numbered'⟩
  · -- what is due is processed in orders that differ by independent events
    show (List.foldl _ a _).core = (List.foldl _ b _).core
    unfold SimulationRunner.core
    rw [← foldl_process_withQueue, ← foldl_process_withQueue, payload_ready, payload_ready,
      List.foldl_map, List.foldl_map, ← hdue]
    rw [show a.withQueue {} [] 0 = b.withQueue {} [] 0 from h.core]
    exact (h.agenda.takeWhile htime).foldl_eq (fun sim x y hxy => process_comm sim hxy) _
  · -- and what is left differs by such as well
    show Swaps Independent (EventScheduler.agenda _) (EventScheduler.agenda _)
    rw [withQueue, withQueue]
    dsimp only
    rw [agenda_dropWhile, agenda_dropWhile, ← hdue]
    exact h.agenda.dropWhile htime

/-! ## Actions -/

namespace Agree

/-- The same peers are online. -/
theorem isOnline (h : Agree a b) (peerId : String) : a.isOnline peerId = b.isOnline peerId :=
  h.same (fun sim => sim.isOnline peerId) fun _ _ _ _ => rfl

/-- The generator is asked once, with the same seed. -/
theorem rollLoss (h : Agree a b) (lossPerMille : UInt16) :
    (a.rollLoss lossPerMille).1 = (b.rollLoss lossPerMille).1
      ∧ Agree (a.rollLoss lossPerMille).2 (b.rollLoss lossPerMille).2 := by
  have hrng : a.rngState = b.rngState := h.same SimulationRunner.rngState fun _ _ _ _ => rfl
  rw [rollLoss_fst, rollLoss_fst, rollLoss_snd, rollLoss_snd, hrng]
  refine ⟨rfl, ?_⟩
  -- the next state of the generator is one number, whichever it is
  generalize (if lossPerMille = 0 then b.rngState else nextRng b.rngState) = rngState
  exact h.ofLocal (f := fun sim => { sim with rngState }) ⟨fun _ _ _ _ => rfl⟩

/-- What is sent directly does not depend on the order of anything. -/
theorem scheduleDirect (h : Agree a b) (fromPeer toPeer : String) (message : WireMessage) :
    Agree (a.scheduleDirect fromPeer toPeer message) (b.scheduleDirect fromPeer toPeer message) := by
  have hoffline : Agree
      { a with metrics := { a.metrics with droppedOffline := a.metrics.droppedOffline + 1 } }
      { b with metrics := { b.metrics with droppedOffline := b.metrics.droppedOffline + 1 } } :=
    h.ofLocal (f := fun sim => { sim with
      metrics := { sim.metrics with droppedOffline := sim.metrics.droppedOffline + 1 } })
      ⟨fun _ _ _ _ => rfl⟩
  have hlookup : b.links.lookup (fromPeer, toPeer) = a.links.lookup (fromPeer, toPeer) :=
    (h.same (fun sim => sim.links.lookup (fromPeer, toPeer)) fun _ _ _ _ => rfl).symm
  unfold SimulationRunner.scheduleDirect
  -- both runs find the same nodes online and the same link
  rw [← h.isOnline, ← h.isOnline, hlookup]
  split
  · exact hoffline
  · cases a.links.lookup (fromPeer, toPeer) with
    | none => exact hoffline
    | some profile =>
      -- and they roll the same number, each from its own state of the generator
      obtain ⟨hlost, hrolled⟩ := h.rollLoss profile.lossPerMille
      dsimp only
      generalize a.rollLoss profile.lossPerMille = rolled at hlost hrolled ⊢
      generalize b.rollLoss profile.lossPerMille = rolled' at hlost hrolled ⊢
      obtain ⟨lost, a'⟩ := rolled
      obtain ⟨lost', b'⟩ := rolled'
      obtain rfl : lost = lost' := hlost
      cases lost with
      | true =>
        exact hrolled.ofLocal (f := fun sim => { sim with
          metrics := { sim.metrics with droppedLoss := sim.metrics.droppedLoss + 1 } })
          ⟨fun _ _ _ _ => rfl⟩
      | false =>
        have hpush := hrolled.pushAll
          [(U64.satAdd a'.clock.nowMs profile.latencyMs, .deliver toPeer
            (.directReceived fromPeer message) (wireMessageSize message))]
        have hat : U64.satAdd b'.clock.nowMs profile.latencyMs
            = U64.satAdd a'.clock.nowMs profile.latencyMs := by
          rw [show a'.clock = b'.clock from hrolled.clock]
        dsimp only
        rw [hat]
        exact hpush

end Agree

/-! ## Publications -/

/-- The link over which a publication gets to a node. -/
def reach (sim : SimulationRunner) (fromPeer toPeer : String) : Option LinkProfile :=
  if toPeer = fromPeer then none
  else if !sim.isOnline fromPeer || !sim.isOnline toPeer then none
  else sim.links.lookup (fromPeer, toPeer)

/-- The publication does not get to the node because one of the two is offline. -/
def missed (sim : SimulationRunner) (fromPeer toPeer : String) : Bool :=
  decide (toPeer ≠ fromPeer) && (!sim.isOnline fromPeer || !sim.isOnline toPeer)

/-- The link to the node takes a draw. -/
def lossy (sim : SimulationRunner) (fromPeer toPeer : String) : Bool :=
  (sim.reach fromPeer toPeer).any fun profile => profile.lossPerMille ≠ 0

/-- The draws of the generator to come. -/
def draw (sim : SimulationRunner) (i : Nat) : UInt64 := nextRng^[i + 1] sim.rngState

/-- The publication to the node would be lost with this draw. -/
def lostAt (sim : SimulationRunner) (fromPeer toPeer : String) (i : Nat) : Bool :=
  (sim.reach fromPeer toPeer).any fun profile =>
    decide (profile.lossPerMille ≠ 0) && decide (sim.draw i % 1000 < profile.lossPerMille.toUInt64)

/-- How many draws a publication takes. -/
def drawCount (sim : SimulationRunner) (fromPeer : String) : Nat :=
  sim.nodes.keys.countP (sim.lossy fromPeer)

/-- Every node fares the same with each of the draws that the publication takes. -/
def Settled (sim : SimulationRunner) : SimAction → Prop
  | .sendDirect .. => True
  | .publishScoped fromPeer .. =>
    ∀ toPeer ∈ sim.nodes.keys, ∀ i < sim.drawCount fromPeer, ∀ j < sim.drawCount fromPeer,
      sim.lostAt fromPeer toPeer i = sim.lostAt fromPeer toPeer j

instance (sim : SimulationRunner) (action : SimAction) : Decidable (sim.Settled action) :=
  match action with
  | .sendDirect .. => isTrue trivial
  | .publishScoped fromPeer .. =>
    inferInstanceAs (Decidable (∀ toPeer ∈ sim.nodes.keys, ∀ i < sim.drawCount fromPeer,
      ∀ j < sim.drawCount fromPeer,
        sim.lostAt fromPeer toPeer i = sim.lostAt fromPeer toPeer j))

/-- What is scheduled for a node. -/
def entryFor (sim : SimulationRunner) (fromPeer scope : String) (payload : Bytes) (toPeer : String) :
    Option (UInt64 × ScheduledAction) :=
  (sim.reach fromPeer toPeer).bind fun profile =>
    if sim.lostAt fromPeer toPeer 0 then none
    else some (U64.satAdd sim.clock.nowMs profile.latencyMs,
      .deliver toPeer (.scopedReceived fromPeer scope payload) (payload.length + 32))

/-- What a publication leaves behind for the first of the nodes. -/
def published (sim : SimulationRunner) (fromPeer scope : String) (payload : Bytes)
    (peers : List String) : SimulationRunner :=
  { sim with
    rngState := nextRng^[peers.countP (sim.lossy fromPeer)] sim.rngState
    metrics := { sim.metrics with
      droppedOffline := sim.metrics.droppedOffline
        + UInt64.ofNat (peers.countP (sim.missed fromPeer))
      droppedLoss := sim.metrics.droppedLoss
        + UInt64.ofNat (peers.countP fun toPeer => sim.lostAt fromPeer toPeer 0) }
    scheduler := sim.scheduler.pushAll (peers.filterMap (sim.entryFor fromPeer scope payload)) }

/-- Publishing to nobody. -/
theorem published_nil (sim : SimulationRunner) (fromPeer scope : String) (payload : Bytes) :
    sim.published fromPeer scope payload [] = sim := by
  simp [published, EventScheduler.pushAll]

/-- What one node more adds to it. -/
theorem published_append (sim : SimulationRunner) (fromPeer scope : String) (payload : Bytes)
    (peers : List String) (toPeer : String) :
    sim.published fromPeer scope payload (peers ++ [toPeer])
      = { sim.published fromPeer scope payload peers with
          rngState := nextRng^[if sim.lossy fromPeer toPeer then 1 else 0]
            (sim.published fromPeer scope payload peers).rngState
          metrics := { (sim.published fromPeer scope payload peers).metrics with
            droppedOffline := (sim.published fromPeer scope payload peers).metrics.droppedOffline
              + UInt64.ofNat (if sim.missed fromPeer toPeer then 1 else 0)
            droppedLoss := (sim.published fromPeer scope payload peers).metrics.droppedLoss
              + UInt64.ofNat (if sim.lostAt fromPeer toPeer 0 then 1 else 0) }
          scheduler := (sim.published fromPeer scope payload peers).scheduler.pushAll
            (sim.entryFor fromPeer scope payload toPeer).toList } := by
  have hcount : ∀ p : String → Bool, (peers ++ [toPeer]).countP p
      = peers.countP p + if p toPeer then 1 else 0 := by
    intro p
    rw [List.countP_append, List.countP_singleton]
  have hentries : (peers ++ [toPeer]).filterMap (sim.entryFor fromPeer scope payload)
      = peers.filterMap (sim.entryFor fromPeer scope payload)
        ++ (sim.entryFor fromPeer scope payload toPeer).toList := by
    rw [List.filterMap_append]
    cases hentry : sim.entryFor fromPeer scope payload toPeer with
    | none => simp [hentry]
    | some e => simp [hentry]
  unfold published
  rw [hcount, hcount, hcount, hentries, UInt64.ofNat_add, UInt64.ofNat_add, ← UInt64.add_assoc,
    ← UInt64.add_assoc, Nat.add_comm, Function.iterate_add_apply, EventScheduler.pushAll,
    List.foldl_append]
  rfl

/-- **One node more**, which fares with its draw as it would with the first. -/
theorem publishTo_published (sim : SimulationRunner) (fromPeer scope : String) (payload : Bytes)
    (peers : List String) (toPeer : String)
    (hsettled : sim.lossy fromPeer toPeer = true →
      sim.lostAt fromPeer toPeer (peers.countP (sim.lossy fromPeer)) = sim.lostAt fromPeer toPeer 0) :
    publishTo fromPeer scope payload (sim.published fromPeer scope payload peers) toPeer
      = sim.published fromPeer scope payload (peers ++ [toPeer]) := by
  rw [published_append]
  have hrng : (sim.published fromPeer scope payload peers).rngState
      = nextRng^[peers.countP (sim.lossy fromPeer)] sim.rngState := rfl
  have honline : (sim.published fromPeer scope payload peers).isOnline = sim.isOnline := rfl
  have hlookup : (sim.published fromPeer scope payload peers).links.lookup (fromPeer, toPeer)
      = sim.links.lookup (fromPeer, toPeer) := rfl
  have hclock : (sim.published fromPeer scope payload peers).clock = sim.clock := rfl
  generalize sim.published fromPeer scope payload peers = before at *
  unfold publishTo
  rw [honline, hlookup]
  by_cases hself : toPeer = fromPeer
  · rw [if_pos hself]
    simp [lossy, missed, lostAt, entryFor, reach, hself, EventScheduler.pushAll]
  rw [if_neg hself]
  by_cases hoffline : (!sim.isOnline fromPeer || !sim.isOnline toPeer) = true
  · rw [if_pos hoffline]
    simp [lossy, missed, lostAt, entryFor, reach, hself, hoffline, EventScheduler.pushAll]
  rw [if_neg hoffline]
  have hreach : sim.reach fromPeer toPeer = sim.links.lookup (fromPeer, toPeer) := by
    rw [reach, if_neg hself, if_neg hoffline]
  have hmissed : sim.missed fromPeer toPeer = false := by
    rw [missed, Bool.eq_false_iff.mpr hoffline, Bool.and_false]
  cases hlink : sim.links.lookup (fromPeer, toPeer) with
  | none =>
    rw [hlink] at hreach
    simp [lossy, lostAt, entryFor, hreach, hmissed, EventScheduler.pushAll]
  | some profile =>
    rw [hlink] at hreach
    have hlossy : sim.lossy fromPeer toPeer = decide (profile.lossPerMille ≠ 0) := by
      rw [lossy, hreach, Option.any_some]
    have hroll : before.rollLoss profile.lossPerMille = (sim.lostAt fromPeer toPeer 0,
        { before with
          rngState := nextRng^[if sim.lossy fromPeer toPeer then 1 else 0] before.rngState }) := by
      by_cases hloss : profile.lossPerMille = 0
      · simp [rollLoss, lossy, lostAt, hreach, hloss]
      · -- the generator stands at the draw that the nodes before have left
        have hdraw : nextRng before.rngState = sim.draw (peers.countP (sim.lossy fromPeer)) := by
          rw [hrng, draw, Function.iterate_succ_apply']
        have htaken : sim.lossy fromPeer toPeer = true := by
          rw [hlossy]
          exact decide_eq_true hloss
        refine Prod.ext ?_ ?_
        · rw [rollLoss_fst, hdraw, ← hsettled htaken, lostAt, hreach, Option.any_some]
        · rw [rollLoss_snd, if_neg hloss, htaken]
          rfl
    dsimp only
    rw [hroll]
    cases hlost : sim.lostAt fromPeer toPeer 0 with
    | true => simp [entryFor, hreach, hlost, hmissed, EventScheduler.pushAll]
    | false => simp [entryFor, hreach, hlost, hmissed, hclock, EventScheduler.pushAll]

/-- **The whole publication**, whatever the order of the nodes. Induction on those to come: every lossy
one of them leaves a draw to those before it. -/
theorem foldl_publishTo {sim : SimulationRunner} {fromPeer scope : String} {payload : Bytes}
    (hsettled : sim.Settled (.publishScoped fromPeer scope payload)) {peers rest : List String}
    (hperm : (peers ++ rest).Perm sim.nodes.keys) :
    rest.foldl (publishTo fromPeer scope payload) (sim.published fromPeer scope payload peers)
      = sim.published fromPeer scope payload (peers ++ rest) := by
  induction rest generalizing peers with
  | nil => rw [List.append_nil, List.foldl_nil]
  | cons toPeer rest ih =>
    have hmem : toPeer ∈ sim.nodes.keys :=
      hperm.subset (List.mem_append_right _ List.mem_cons_self)
    have hdraws : sim.lossy fromPeer toPeer = true →
        peers.countP (sim.lossy fromPeer) < sim.drawCount fromPeer := by
      intro hlossy
      rw [drawCount, ← hperm.countP_eq, List.countP_append, List.countP_cons, if_pos hlossy]
      omega
    have hstep := publishTo_published sim fromPeer scope payload peers toPeer fun hlossy =>
      hsettled toPeer hmem _ (hdraws hlossy) 0 (Nat.zero_lt_of_lt (hdraws hlossy))
    have hrest : ((peers ++ [toPeer]) ++ rest).Perm sim.nodes.keys := by
      rwa [List.append_assoc]
    rw [List.foldl_cons, hstep, ih hrest, List.append_assoc, List.singleton_append]

/-- Publishing is a push for each peer, in the order of the hash map. -/
theorem scheduleAction_publishScoped (h : HashOrder) {sim : SimulationRunner}
    {fromPeer scope : String} {payload : Bytes}
    (hsettled : sim.Settled (.publishScoped fromPeer scope payload)) :
    sim.scheduleAction h (.publishScoped fromPeer scope payload)
      = { sim with iterations := sim.iterations + 1 }.published fromPeer scope payload
          (h.order sim.iterations sim.nodes.keys) := by
  have hsettled' : { sim with iterations := sim.iterations + 1 }.Settled
      (.publishScoped fromPeer scope payload) := hsettled
  have hperm : ([] ++ h.order sim.iterations sim.nodes.keys).Perm
      { sim with iterations := sim.iterations + 1 }.nodes.keys := h.perm _ _
  have hfold := foldl_publishTo hsettled' hperm
  rw [published_nil, List.nil_append] at hfold
  exact hfold

/-- What a peer is sent names that peer. -/
theorem entryFor_eq_some {sim : SimulationRunner} {fromPeer scope : String} {payload : Bytes}
    {toPeer : String} {e : UInt64 × ScheduledAction}
    (h : sim.entryFor fromPeer scope payload toPeer = some e) :
    e.2 = .deliver toPeer (.scopedReceived fromPeer scope payload) (payload.length + 32) := by
  obtain ⟨profile, -, hentry⟩ := Option.bind_eq_some_iff.mp h
  split at hentry
  · cases hentry
  · rw [← Option.some.inj hentry]

namespace Agree

/-- A publication to the same nodes in another order. -/
theorem published (h : Agree a b) (fromPeer scope : String) (payload : Bytes)
    {peers peers' : List String} (hperm : peers.Perm peers') :
    Agree (a.published fromPeer scope payload peers)
      (b.published fromPeer scope payload peers') := by
  obtain ⟨scheduler, processed, iterations, rfl⟩ := h.exists_withQueue
  refine ⟨?_, ?_, h.numbered.pushAll _, h.numbered'.pushAll _⟩
  · -- the counts do not see the order
    show (a.published fromPeer scope payload peers).core
      = (a.published fromPeer scope payload peers').core
    unfold SimulationRunner.published SimulationRunner.core
    rw [hperm.countP_eq, hperm.countP_eq, hperm.countP_eq]
    rfl
  · have hentries := (hperm.filterMap (a.entryFor fromPeer scope payload)).map
      fun e : UInt64 × ScheduledAction => (e.1.toNat, e.2)
    show Swaps Independent
      (a.scheduler.pushAll (peers.filterMap (a.entryFor fromPeer scope payload))).agenda
      ((a.withQueue scheduler processed iterations).scheduler.pushAll
        (peers'.filterMap (a.entryFor fromPeer scope payload))).agenda
    rw [EventScheduler.agenda_pushAll h.numbered, EventScheduler.agenda_pushAll h.numbered']
    -- entries of one time go to different nodes
    refine Swaps.enterAll_perm (fun _ _ hind => hind.1) hentries ?_ h.agenda
    intro x hx y hy hne htime
    obtain ⟨e, he, rfl⟩ := List.mem_map.mp hx
    obtain ⟨e', he', rfl⟩ := List.mem_map.mp hy
    obtain ⟨p, -, hp⟩ := List.mem_filterMap.mp he
    obtain ⟨q, -, hq⟩ := List.mem_filterMap.mp he'
    refine ⟨htime, p, q, fromPeer, fromPeer, scope, scope, payload, payload, _, _, ?_,
      entryFor_eq_some hp, entryFor_eq_some hq⟩
    rintro rfl
    obtain rfl := Option.some.inj (hp.symm.trans hq)
    exact hne rfl

/-- One action, carried out under two orders of the hash maps. -/
theorem scheduleAction (h : Agree a b) (o o' : HashOrder) {action : SimAction}
    (hsettled : a.Settled action) :
    Agree (a.scheduleAction o action) (b.scheduleAction o' action) := by
  cases action with
  | sendDirect fromPeer toPeer message => exact h.scheduleDirect fromPeer toPeer message
  | publishScoped fromPeer scope payload =>
    have hnodes : a.nodes = b.nodes := h.same SimulationRunner.nodes fun _ _ _ _ => rfl
    have hsettled' : b.Settled (.publishScoped fromPeer scope payload) := by
      have hsame := h.same (fun sim => sim.Settled (.publishScoped fromPeer scope payload))
        fun _ _ _ _ => rfl
      rwa [← hsame]
    have hperm : (o.order a.iterations a.nodes.keys).Perm (o'.order b.iterations b.nodes.keys) := by
      rw [hnodes]
      exact (o.perm _ _).trans (o'.perm _ _).symm
    have hcounted : Agree { a with iterations := a.iterations + 1 }
        { b with iterations := b.iterations + 1 } :=
      ⟨h.core, h.agenda, h.numbered, h.numbered'⟩
    rw [scheduleAction_publishScoped o hsettled, scheduleAction_publishScoped o' hsettled']
    exact hcounted.published fromPeer scope payload hperm

end Agree

/-! ## Rounds -/

/-- Every action is settled when its turn comes. -/
def SettledActions (h : HashOrder) : SimulationRunner → List SimAction → Prop
  | _, [] => True
  | sim, action :: actions =>
    sim.Settled action ∧ SettledActions h (sim.scheduleAction h action) actions

instance decidableSettledActions (h : HashOrder) :
    ∀ sim actions, Decidable (SettledActions h sim actions)
  | _, [] => isTrue trivial
  | sim, action :: actions =>
    @instDecidableAnd _ _ inferInstance
      (decidableSettledActions h (sim.scheduleAction h action) actions)

/-- The actions that wait are settled. -/
def SettledStep (h : HashOrder) (sim : SimulationRunner) : Prop :=
  SettledActions h { sim with actions := [] } sim.actions

namespace Agree

/-- A list of actions. Induction on the list. -/
theorem foldl_scheduleAction (h : Agree a b) (o o' : HashOrder) {actions : List SimAction}
    (hsettled : SettledActions o a actions) :
    Agree (actions.foldl (SimulationRunner.scheduleAction o) a)
      (actions.foldl (SimulationRunner.scheduleAction o') b) := by
  induction actions generalizing a b with
  | nil => exact h
  | cons action actions ih =>
    obtain ⟨haction, hrest⟩ := hsettled
    exact ih (h.scheduleAction o o' haction) hrest

/-- Everything that is ready, in two orders. -/
theorem drain (h : Agree a b) (o o' : HashOrder) (hsettled : SettledStep o a) :
    Agree (a.drain o) (b.drain o') := by
  have hempty : Agree { a with actions := [] } { b with actions := [] } :=
    h.ofLocal (f := fun sim => { sim with actions := [] }) ⟨fun _ _ _ _ => rfl⟩
  unfold SimulationRunner.drain
  rw [← h.actions]
  exact hempty.foldl_scheduleAction o o' hsettled

/-- One step to the next event. -/
theorem stepUntilNextEvent (h : Agree a b) (o o' : HashOrder) (hsettled : SettledStep o a) :
    Agree (a.stepUntilNextEvent o) (b.stepUntilNextEvent o') :=
  (h.drain o o' hsettled).jump.processReady

/-- A round, or the end, at the same time. -/
theorem runForRound (h : Agree a b) (o o' : HashOrder) {target : UInt64}
    (hsettled : a.clock.nowMs < target → SettledStep o a) :
    (∃ a' b', a.runForRound o target = .inl a' ∧ b.runForRound o' target = .inl b'
        ∧ Agree a' b' ∧ a'.actions = [])
      ∨ a.runForRound o target = .inr a ∧ b.runForRound o' target = .inr b := by
  unfold SimulationRunner.runForRound
  rw [← h.clock]
  by_cases hlt : a.clock.nowMs < target
  · rw [if_pos hlt, if_pos hlt]
    have hstep := (h.stepUntilNextEvent o o' (hsettled hlt)).idle target
    refine .inl ⟨_, _, rfl, rfl, hstep, ?_⟩
    rw [actions_idle]
    exact (stepped o a).actions
  · rw [if_neg hlt, if_neg hlt]
    exact .inr ⟨rfl, rfl⟩

/-- The rounds of two runs. Only the first finds waiting actions. -/
theorem rounds (h : Agree a b) (o o' : HashOrder) {target : UInt64}
    (hsettled : a.clock.nowMs < target → SettledStep o a) (fuel : Nat) :
    Option.Rel Agree (loop (SimulationRunner.runForRound o target) fuel a)
      (loop (SimulationRunner.runForRound o' target) fuel b) := by
  induction fuel generalizing a b with
  | zero => exact .none
  | succ fuel ih =>
    rcases h.runForRound o o' hsettled with ⟨a', b', ha, hb, hnext, hnil⟩ | ⟨ha, hb⟩
    · rw [loop_continue ha, loop_continue hb]
      -- the rounds to come find nothing that waits
      refine ih hnext fun _ => ?_
      unfold SettledStep
      rw [hnil]
      trivial
    · rw [loop_exit ha, loop_exit hb]
      exact .some h

/-- **A run** takes as many rounds in both. -/
theorem runFor (h : Agree a b) (o o' : HashOrder) {durationMs : UInt64}
    (hsettled : a.clock.nowMs < U64.satAdd a.clock.nowMs durationMs → SettledStep o a) :
    Option.Rel Agree (a.runFor o durationMs) (b.runFor o' durationMs) := by
  unfold SimulationRunner.runFor
  rw [← h.clock]
  by_cases hahead : a.clock.nowMs < U64.satAdd a.clock.nowMs durationMs
  · -- the fuel is reckoned from the clock and the number of events, in which the two agree
    rw [← (h.drain o o' (hsettled hahead)).length_items]
    exact h.rounds o o' hsettled _
  · have ha : a.runForRound o (U64.satAdd a.clock.nowMs durationMs) = .inr a := if_neg hahead
    have hb : b.runForRound o' (U64.satAdd a.clock.nowMs durationMs) = .inr b :=
      if_neg (h.clock ▸ hahead)
    rw [loop_exit ha, loop_exit hb]
    exact .some h

end Agree

/-! ## What a simulation is given -/

/-- What is done with a simulation from outside. -/
inductive SimOp where
  | registerNode (peerId : String) (bandwidthBytesPerSec : UInt64)
  | setLink (a b : String) (profile : LinkProfile)
  | scheduleAvailability (peerId : String) (atMs : UInt64) (online : Bool)
  | send (action : SimAction)
  | step
  | idle (target : UInt64)
  | runFor (durationMs : UInt64)

def apply (h : HashOrder) (sim : SimulationRunner) : SimOp → Option SimulationRunner
  | .registerNode peerId bandwidthBytesPerSec => some (sim.registerNode peerId bandwidthBytesPerSec)
  | .setLink a b profile => some (sim.setLink a b profile)
  | .scheduleAvailability peerId atMs online => some (sim.scheduleAvailability peerId atMs online)
  | .send action => some { sim with actions := sim.actions ++ [action] }
  | .step => some (sim.stepUntilNextEvent h)
  | .idle target => some (sim.idle target)
  | .runFor durationMs => sim.runFor h durationMs

def runOps (h : HashOrder) (sim : SimulationRunner) (ops : List SimOp) : Option SimulationRunner :=
  ops.foldlM (apply h) sim

/-- The actions that the operation takes are settled. -/
def SettledOp (h : HashOrder) (sim : SimulationRunner) : SimOp → Prop
  | .step => SettledStep h sim
  | .runFor durationMs =>
    sim.clock.nowMs < U64.satAdd sim.clock.nowMs durationMs → SettledStep h sim
  | _ => True

/-- Every operation of the run is settled when its turn comes. -/
def SettledRun (h : HashOrder) : SimulationRunner → List SimOp → Prop
  | _, [] => True
  | sim, op :: ops =>
    SettledOp h sim op ∧ match sim.apply h op with
      | some next => SettledRun h next ops
      | none => True

instance (h : HashOrder) (sim : SimulationRunner) : Decidable (SettledStep h sim) :=
  decidableSettledActions h _ _

instance (h : HashOrder) (sim : SimulationRunner) (op : SimOp) : Decidable (SettledOp h sim op) :=
  match op with
  | .step => inferInstanceAs (Decidable (SettledStep h sim))
  | .runFor durationMs => inferInstanceAs (Decidable
      (sim.clock.nowMs < U64.satAdd sim.clock.nowMs durationMs → SettledStep h sim))
  | .registerNode .. | .setLink .. | .scheduleAvailability .. | .send _ | .idle _ => isTrue trivial

instance decidableSettledRun (h : HashOrder) : ∀ sim ops, Decidable (SettledRun h sim ops)
  | _, [] => isTrue trivial
  | sim, op :: ops =>
    have hnext : Decidable (match sim.apply h op with
        | some next => SettledRun h next ops
        | none => True) :=
      match sim.apply h op with
      | some next => decidableSettledRun h next ops
      | none => isTrue trivial
    @instDecidableAnd _ _ inferInstance hnext

/-- An operation of the driver always succeeds. -/
theorem apply_isSome (h : HashOrder) (sim : SimulationRunner) (op : SimOp) :
    (sim.apply h op).isSome := by
  cases op with
  | runFor durationMs => exact runFor_isSome h sim durationMs
  | _ => rfl

/-- **One operation.** -/
theorem Agree.apply (h : Agree a b) (o o' : HashOrder) {op : SimOp} (hsettled : SettledOp o a op) :
    Option.Rel Agree (a.apply o op) (b.apply o' op) := by
  cases op with
  | registerNode peerId bandwidthBytesPerSec =>
    exact .some (h.ofLocal (f := fun sim => sim.registerNode peerId bandwidthBytesPerSec)
      ⟨fun _ _ _ _ => rfl⟩)
  | setLink p q profile =>
    exact .some (h.ofLocal (f := fun sim => sim.setLink p q profile) ⟨fun _ _ _ _ => rfl⟩)
  | scheduleAvailability peerId atMs online =>
    exact .some (h.pushAll [(atMs, .availability peerId online)])
  | send action =>
    exact .some (h.ofLocal (f := fun sim => { sim with actions := sim.actions ++ [action] })
      ⟨fun _ _ _ _ => rfl⟩)
  | step => exact .some (h.stepUntilNextEvent o o' hsettled)
  | idle target => exact .some (h.idle target)
  | runFor durationMs => exact h.runFor o o' hsettled

/-- **All operations.** Induction on them. -/
theorem Agree.runOps (h : Agree a b) (o o' : HashOrder) {ops : List SimOp}
    (hsettled : SettledRun o a ops) :
    ∃ a' b', a.runOps o ops = some a' ∧ b.runOps o' ops = some b' ∧ Agree a' b' := by
  induction ops generalizing a b with
  | nil => exact ⟨a, b, rfl, rfl, h⟩
  | cons op ops ih =>
    obtain ⟨hop, hrest⟩ := hsettled
    have hrel := h.apply o o' hop
    obtain ⟨a', ha⟩ := Option.isSome_iff_exists.mp (apply_isSome o a op)
    obtain ⟨b', hb⟩ := Option.isSome_iff_exists.mp (apply_isSome o' b op)
    rw [ha, hb] at hrel
    obtain ⟨hnext⟩ := hrel
    rw [ha] at hrest
    obtain ⟨a'', b'', ha', hb', hagree⟩ := ih hnext hrest
    refine ⟨a'', b'', ?_, ?_, hagree⟩
    · unfold SimulationRunner.runOps
      rw [List.foldlM_cons, ha]
      exact ha'
    · unfold SimulationRunner.runOps
      rw [List.foldlM_cons, hb]
      exact hb'

/-- **Two simulations of one seed.** Where every publication is settled, the order in which the map of
nodes is iterated makes no difference: the runs end with the same metrics, the same deliveries at the
same virtual times, and the same clock. -/
theorem simulation_deterministic (h h' : HashOrder) (startMs seed : UInt64) (ops : List SimOp)
    (hsettled : SettledRun h (new startMs seed) ops) :
    ∃ a b, (new startMs seed).runOps h ops = some a ∧ (new startMs seed).runOps h' ops = some b
      ∧ a.metrics = b.metrics ∧ a.eventTxs = b.eventTxs ∧ a.clock = b.clock := by
  have hstart : Agree (new startMs seed) (new startMs seed) :=
    .refl EventScheduler.numbered_empty
  obtain ⟨a, b, ha, hb, hagree⟩ := hstart.runOps h h' hsettled
  exact ⟨a, b, ha, hb, hagree.same SimulationRunner.metrics fun _ _ _ _ => rfl,
    hagree.same SimulationRunner.eventTxs fun _ _ _ _ => rfl, hagree.clock⟩

/-! ## Two lossy links -/

/-- A map that hands out its keys from behind. -/
def reverseOrder : HashOrder where
  order _ keys := keys.reverse
  perm _ keys := keys.reverse_perm

/-- Three nodes; "a" publishes to "b" and "c" over links with these losses. -/
def publication (lossB lossC : UInt16) : List SimOp :=
  [.registerNode "a" 1000, .registerNode "b" 1000, .registerNode "c" 1000,
    .setLink "a" "b" { lossPerMille := lossB }, .setLink "a" "c" { lossPerMille := lossC },
    .send (.publishScoped "a" "scope" [1]), .runFor 100]

/-- The first draw of seed 1 loses, the second does not: who is asked first gets nothing. -/
theorem simulation_depends_on_order :
    ((new 0 1).runOps reverseOrder (publication 500 500)).bind (fun sim => sim.eventTxs "b") = some []
    ∧ ((new 0 1).runOps listOrder (publication 500 500)).bind (fun sim => sim.eventTxs "b")
      = some [(10, .scopedReceived "a" "scope" [1])]
    ∧ ¬ ∀ (h h' : HashOrder) (startMs seed : UInt64) (ops : List SimOp),
      ∃ a b, (new startMs seed).runOps h ops = some a ∧ (new startMs seed).runOps h' ops = some b
        ∧ a.metrics = b.metrics ∧ a.eventTxs = b.eventTxs ∧ a.clock = b.clock := by
  have hreverse : ((new 0 1).runOps reverseOrder (publication 500 500)).bind
      (fun sim => sim.eventTxs "b") = some [] := by
    decide +kernel
  have hlist : ((new 0 1).runOps listOrder (publication 500 500)).bind
      (fun sim => sim.eventTxs "b") = some [(10, .scopedReceived "a" "scope" [1])] := by
    decide +kernel
  refine ⟨hreverse, hlist, fun hall => ?_⟩
  obtain ⟨a, b, ha, hb, -, htxs, -⟩ := hall reverseOrder listOrder 0 1 (publication 500 500)
  rw [ha, Option.bind_some, htxs] at hreverse
  rw [hb, Option.bind_some, hreverse] at hlist
  cases hlist

/-- With one lossy link the order decides nothing. -/
theorem simulation_deterministic_one_lossy :
    ∃ a b, (new 0 1).runOps listOrder (publication 500 0) = some a
      ∧ (new 0 1).runOps reverseOrder (publication 500 0) = some b
      ∧ a.metrics = b.metrics ∧ a.eventTxs = b.eventTxs ∧ a.clock = b.clock :=
  simulation_deterministic listOrder reverseOrder 0 1 (publication 500 0) (by decide +kernel)

end SimulationRunner

end Mycelium.Sim

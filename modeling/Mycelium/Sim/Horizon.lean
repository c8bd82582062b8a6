import Mycelium.Sim.Runner
import Mathlib.Data.List.TakeWhile

/-!
# Mycelium simulator — the horizon of a run

`run_for` looks at its target between two jumps of the clock. A jump goes to the next event, wherever
that is, so the run ends at the first event that is not before the target, and at the target itself
only if there is none.

* `Stepped` — what one step does to the clock and to the scheduled events;
* `Progress` — the invariant of the rounds;
* `runFor_ends` — where a run ends;
* `run_for_horizon_iff` — which runs keep to their horizon.
-/

namespace Mycelium.Sim

namespace SimulationRunner

variable {h : HashOrder} {sim : SimulationRunner}

/-! ## What is scheduled -/

/-- The events in the scheduler, and those that the waiting actions make. -/
def scheduled (h : HashOrder) (sim : SimulationRunner) : List (ScheduledEvent ScheduledAction) :=
  (sim.drain h).scheduler.queue.items

/-- The clock, the channel of actions and the record of a simulation. -/
def frame (sim : SimulationRunner) :
    DeterministicClock × List SimAction × List (ScheduledEvent ScheduledAction) :=
  (sim.clock, sim.actions, sim.processed)

/-- Rolling for a loss asks the generator only. -/
theorem frame_of_roll {sim' : SimulationRunner} {lossPerMille : UInt16} {lost : Bool}
    (hroll : sim.rollLoss lossPerMille = (lost, sim')) : sim'.frame = sim.frame := by
  have hsnd := rollLoss_snd sim lossPerMille
  rw [hroll] at hsnd
  rw [show sim' = _ from hsnd]
  rfl

/-- A direct message is scheduled or lost. -/
theorem frame_scheduleDirect (sim : SimulationRunner) (fromPeer toPeer : String)
    (message : WireMessage) : (sim.scheduleDirect fromPeer toPeer message).frame = sim.frame := by
  unfold scheduleDirect
  split
  · rfl
  · split
    · rfl
    · split
      · next hroll => exact (frame_of_roll hroll :)
      · next hroll => exact (frame_of_roll hroll :)

/-- So is gossip for one peer. -/
theorem frame_publishTo (fromPeer scope : String) (payload : Bytes) (sim : SimulationRunner)
    (toPeer : String) : (publishTo fromPeer scope payload sim toPeer).frame = sim.frame := by
  unfold publishTo
  split
  · rfl
  · split
    · rfl
    · split
      · rfl
      · split
        · next hroll => exact (frame_of_roll hroll :)
        · next hroll => exact (frame_of_roll hroll :)

/-- What each step leaves alone, the loop leaves alone. Induction on the list. -/
theorem frame_foldl {α : Type} {f : SimulationRunner → α → SimulationRunner}
    (hf : ∀ sim x, (f sim x).frame = sim.frame) (sim : SimulationRunner) (xs : List α) :
    (xs.foldl f sim).frame = sim.frame := by
  induction xs generalizing sim with
  | nil => rfl
  | cons x xs ih => exact (ih (f sim x)).trans (hf sim x)

/-- Scheduling an action processes nothing. -/
theorem frame_scheduleAction (h : HashOrder) (sim : SimulationRunner) (a : SimAction) :
    (sim.scheduleAction h a).frame = sim.frame := by
  cases a with
  | sendDirect fromPeer toPeer message => exact frame_scheduleDirect sim fromPeer toPeer message
  | publishScoped fromPeer scope payload =>
    exact frame_foldl (frame_publishTo fromPeer scope payload) _ _

/-- Draining takes all actions, and processes nothing. -/
theorem frame_drain (h : HashOrder) (sim : SimulationRunner) :
    (sim.drain h).frame = (sim.clock, [], sim.processed) :=
  frame_foldl (frame_scheduleAction h) _ _

/-- Without waiting actions, nothing is scheduled but what the scheduler holds. -/
theorem scheduled_of_nil (hactions : sim.actions = []) :
    scheduled h sim = sim.scheduler.queue.items := by
  unfold scheduled drain
  rw [hactions]
  rfl

/-- What is scheduled is in order. -/
theorem pairwise_scheduled (h : HashOrder) (sim : SimulationRunner) :
    (scheduled h sim).Pairwise ScheduledEvent.NotAfter :=
  ((sim.drain h).scheduler.queue.sorted).imp ScheduledEvent.isLE_compare_iff.mp

/-! ## One step -/

/-- What a step does: the clock jumps, and what is due leaves the schedule. -/
structure Stepped (h : HashOrder) (sim next : SimulationRunner) : Prop where
  actions : next.actions = []
  clock : next.clock = match (scheduled h sim).head? with
    | some e => sim.clock.advanceTo e.atMs
    | none => sim.clock
  processed : next.processed = sim.processed ++ (scheduled h sim).takeWhile next.isReady
  items : next.scheduler.queue.items = (scheduled h sim).dropWhile next.isReady

/-- A step processes the earliest events, at their time. -/
theorem stepped (h : HashOrder) (sim : SimulationRunner) :
    Stepped h sim (sim.stepUntilNextEvent h) := by
  have hframe := frame_drain h sim
  obtain ⟨hclock, hactions, hprocessed⟩ : (sim.drain h).clock = sim.clock
      ∧ (sim.drain h).actions = [] ∧ (sim.drain h).processed = sim.processed := by
    simpa [frame] using hframe
  -- the clock jumps to the first event of the queue, if there is one
  have hjump : (sim.drain h).jump = { sim.drain h with
      clock := match (scheduled h sim).head? with
        | some e => sim.clock.advanceTo e.atMs
        | none => sim.clock } := by
    unfold jump EventScheduler.nextTimestamp MaxHeap.peek scheduled
    cases (sim.drain h).scheduler.queue.items.head? with
    | none => rw [← hclock]; rfl
    | some e => rw [← hclock]; rfl
  unfold stepUntilNextEvent
  dsimp only
  rw [processReady_eq (Nat.le_refl _)]
  -- processing moves no clock, so what is ready stays what it is
  have hkept := foldl_process_clock (sim.drain h).jump
    ((sim.drain h).jump.ready.map ScheduledEvent.payload)
  have hready : ∀ sched processed n, ((((sim.drain h).jump.ready.map
      ScheduledEvent.payload).foldl process (sim.drain h).jump).withQueue sched processed n).isReady
        = (sim.drain h).jump.isReady := by
    intro sched processed n
    funext e
    unfold isReady
    rw [withQueue]
    dsimp only
    rw [hkept.1]
  -- no action is left, the clock has jumped, and the queue is split at that time
  refine ⟨?_, ?_, ?_, ?_⟩
  · rw [withQueue]
    dsimp only
    rw [hkept.2, hjump]
    exact hactions
  · rw [withQueue]
    dsimp only
    rw [hkept.1, hjump]
  · rw [hready]
    show (sim.drain h).jump.processed ++ (sim.drain h).jump.ready = _
    rw [ready, hjump]
    show (sim.drain h).processed ++ _ = _
    rw [hprocessed]
    rfl
  · rw [hready]
    show (sim.drain h).jump.scheduler.queue.items.dropWhile _ = _
    rw [hjump]
    rfl

/-! ## The rounds of a run -/

/-- Where a run with this target ends: at the first event that is not before it, or else there. -/
def stopTime (target : UInt64) (events : List (ScheduledEvent ScheduledAction)) : UInt64 :=
  ((events.find? fun e => target ≤ e.atMs).map ScheduledEvent.atMs).getD target

/-- When everything is before the target, the run stops at the target. -/
theorem stopTime_of_before {target : UInt64} {events : List (ScheduledEvent ScheduledAction)}
    (h : ∀ e ∈ events, e.atMs < target) : stopTime target events = target := by
  have hnone : (events.find? fun e => target ≤ e.atMs) = none := by
    refine List.find?_eq_none.mpr fun e he hle => ?_
    exact UInt64.not_lt.mpr (of_decide_eq_true hle) (h e he)
  rw [stopTime, hnone]
  rfl

/-- Otherwise it stops at the first event that is not. -/
theorem stopTime_of_first {target : UInt64} {done rest : List (ScheduledEvent ScheduledAction)}
    {e : ScheduledEvent ScheduledAction} (h : ∀ x ∈ done, x.atMs < target) (he : target ≤ e.atMs) :
    stopTime target (done ++ e :: rest) = e.atMs := by
  have hnone : (done.find? fun x => target ≤ x.atMs) = none := by
    refine List.find?_eq_none.mpr fun x hx hle => ?_
    exact UInt64.not_lt.mpr (of_decide_eq_true hle) (h x hx)
  rw [stopTime, List.find?_append, hnone, Option.none_or,
    List.find?_cons_of_pos (by simpa using he)]
  rfl

/-- In a sorted list the stop time is the target, unless the first event after it comes instead. -/
theorem stopTime_eq_iff {target : UInt64} {events : List (ScheduledEvent ScheduledAction)}
    (hsorted : events.Pairwise ScheduledEvent.NotAfter) : stopTime target events = target
      ↔ (∀ e ∈ events, e.atMs ≤ target) ∨ ∃ e ∈ events, e.atMs = target := by
  induction events with
  | nil => exact ⟨fun _ => .inl nofun, fun _ => rfl⟩
  | cons x events ih =>
    obtain ⟨hfirst, hrest⟩ := List.pairwise_cons.mp hsorted
    by_cases hx : target ≤ x.atMs
    · have hstop : stopTime target (x :: events) = x.atMs := by
        rw [stopTime, List.find?_cons_of_pos (by simpa using hx)]
        rfl
      rw [hstop]
      constructor
      · exact fun hat => .inr ⟨x, List.mem_cons_self, hat⟩
      · rintro (hall | ⟨e, he, hat⟩)
        · exact UInt64.le_antisymm (hall x List.mem_cons_self) hx
        · -- the first is not after the one at the target
          rcases List.mem_cons.mp he with rfl | he
          · exact hat
          · exact UInt64.le_antisymm (hat ▸ (hfirst e he).atMs_le) hx
    · have hbefore : x.atMs < target := UInt64.not_le.mp hx
      have hskip : stopTime target (x :: events) = stopTime target events := by
        unfold stopTime
        rw [List.find?_cons_of_neg (by simpa using hx)]
      rw [hskip, ih hrest]
      refine or_congr ?_ ?_
      · exact ⟨fun hall => List.forall_mem_cons.mpr ⟨UInt64.le_of_lt hbefore, hall⟩,
          fun hall => (List.forall_mem_cons.mp hall).2⟩
      · constructor
        · rintro ⟨e, he, hat⟩
          exact ⟨e, List.mem_cons_of_mem x he, hat⟩
        · rintro ⟨e, he, hat⟩
          rcases List.mem_cons.mp he with rfl | he
          · exact absurd (hat ▸ hbefore) (UInt64.lt_irrefl _)
          · exact ⟨e, he, hat⟩

/-- What the rounds so far have done. -/
structure Progress (h : HashOrder) (start : SimulationRunner) (target : UInt64)
    (sim : SimulationRunner) (done : List (ScheduledEvent ScheduledAction)) : Prop where
  processed : sim.processed = start.processed ++ done
  scheduled : done ++ scheduled h sim = SimulationRunner.scheduled h start
  past : ∀ e ∈ done, e.atMs ≤ sim.clock.nowMs
  time : sim.clock.nowMs < target
    ∨ sim.clock.nowMs = stopTime target (SimulationRunner.scheduled h start)

/-- No action waits, and all that is scheduled is later. -/
structure Quiet (sim : SimulationRunner) : Prop where
  actions : sim.actions = []
  later : ∀ e ∈ sim.scheduler.queue.items, sim.clock.nowMs < e.atMs

/-- What a run has left to do: time and events. -/
def left (h : HashOrder) (target : UInt64) (sim : SimulationRunner) : Nat :=
  target.toNat - sim.clock.nowMs.toNat + (scheduled h sim).length

variable {start : SimulationRunner} {target : UInt64}
  {done : List (ScheduledEvent ScheduledAction)}

/-- Of a sorted list, what is not taken comes after what is. -/
theorem lt_of_mem_dropWhile {now : UInt64} {events : List (ScheduledEvent ScheduledAction)}
    (hsorted : events.Pairwise ScheduledEvent.NotAfter) {e : ScheduledEvent ScheduledAction}
    (he : e ∈ events.dropWhile fun x => decide (x.atMs ≤ now)) : now < e.atMs := by
  induction events with
  | nil => cases he
  | cons x events ih =>
    obtain ⟨hfirst, hrest⟩ := List.pairwise_cons.mp hsorted
    by_cases hx : x.atMs ≤ now
    · rw [List.dropWhile_cons_of_pos (by simpa using hx)] at he
      exact ih hrest he
    · rw [List.dropWhile_cons_of_neg (by simpa using hx)] at he
      have hlate : now < x.atMs := UInt64.not_le.mp hx
      rcases List.mem_cons.mp he with rfl | he
      · exact hlate
      · exact UInt64.lt_of_lt_of_le hlate (hfirst e he).atMs_le

namespace Progress

/-- Before the target, all that is done lies before it. -/
theorem done_before (hp : Progress h start target sim done) (hlt : sim.clock.nowMs < target) :
    ∀ e ∈ done, e.atMs < target :=
  fun e he => UInt64.lt_of_le_of_lt (hp.past e he) hlt

/-- **One step.** Without events it changes nothing; else it takes those off that are first. -/
theorem step (hp : Progress h start target sim done) (hlt : sim.clock.nowMs < target) :
    ∃ more, Progress h start target (sim.stepUntilNextEvent h) (done ++ more)
      ∧ (sim.stepUntilNextEvent h).Quiet
      ∧ sim.clock.nowMs.toNat ≤ (sim.stepUntilNextEvent h).clock.nowMs.toNat
      ∧ (SimulationRunner.scheduled h sim = [] ∧ SimulationRunner.scheduled h (sim.stepUntilNextEvent h) = []
          ∧ (sim.stepUntilNextEvent h).clock = sim.clock
        ∨ (SimulationRunner.scheduled h (sim.stepUntilNextEvent h)).length
          < (SimulationRunner.scheduled h sim).length) := by
  have hstep := stepped h sim
  generalize sim.stepUntilNextEvent h = next at hstep ⊢
  have hscheduled : SimulationRunner.scheduled h next = next.scheduler.queue.items :=
    scheduled_of_nil hstep.actions
  have hsplit : (SimulationRunner.scheduled h sim).takeWhile next.isReady
      ++ SimulationRunner.scheduled h next = SimulationRunner.scheduled h sim := by
    rw [hscheduled, hstep.items]
    exact List.takeWhile_append_dropWhile
  have hquiet : next.Quiet := by
    refine ⟨hstep.actions, fun e he => ?_⟩
    rw [hstep.items] at he
    exact lt_of_mem_dropWhile (pairwise_scheduled h sim) he
  have hbefore := hp.done_before hlt
  refine ⟨(SimulationRunner.scheduled h sim).takeWhile next.isReady,
    ⟨?_, ?_, fun e he => ?_, ?_⟩, hquiet, ?_, ?_⟩
  · rw [hstep.processed, hp.processed, List.append_assoc]
  · rw [List.append_assoc, hsplit, hp.scheduled]
  · rcases List.mem_append.mp he with hold | hnew
    · have hle : sim.clock.nowMs ≤ next.clock.nowMs := by
        rw [hstep.clock, U64.le_iff]
        cases (SimulationRunner.scheduled h sim).head? with
        | none => exact Nat.le_refl _
        | some x =>
          show _ ≤ (sim.clock.advanceTo x.atMs).nowMs.toNat
          rw [DeterministicClock.toNat_advanceTo]
          omega
      exact UInt64.le_trans (hp.past e hold) hle
    · have hready : next.isReady e = true := List.mem_takeWhile_imp hnew
      exact of_decide_eq_true hready
  · -- the clock stays before the target, or jumps to the first event that is not
    rw [hstep.clock]
    cases hevents : SimulationRunner.scheduled h sim with
    | nil => exact .inl hlt
    | cons e rest =>
      show (sim.clock.advanceTo e.atMs).nowMs < target ∨ (sim.clock.advanceTo e.atMs).nowMs = _
      have hjump := DeterministicClock.toNat_advanceTo sim.clock e.atMs
      rw [U64.lt_iff] at hlt
      by_cases htarget : target ≤ e.atMs
      · right
        rw [← hp.scheduled, hevents, stopTime_of_first hbefore htarget, ← UInt64.toNat_inj]
        rw [U64.le_iff] at htarget
        omega
      · left
        rw [U64.le_iff] at htarget
        rw [U64.lt_iff]
        omega
  · rw [hstep.clock]
    cases (SimulationRunner.scheduled h sim).head? with
    | none => exact Nat.le_refl _
    | some x =>
      show _ ≤ (sim.clock.advanceTo x.atMs).nowMs.toNat
      rw [DeterministicClock.toNat_advanceTo]
      omega
  · cases hevents : SimulationRunner.scheduled h sim with
    | nil =>
      left
      rw [hscheduled, hstep.items, hstep.clock, hevents]
      exact ⟨rfl, rfl, rfl⟩
    | cons e rest =>
      right
      have hclock := hstep.clock
      rw [hevents] at hclock
      have hready : next.isReady e = true := by
        refine decide_eq_true (U64.le_iff.mpr ?_)
        rw [hclock]
        show _ ≤ (sim.clock.advanceTo e.atMs).nowMs.toNat
        rw [DeterministicClock.toNat_advanceTo]
        omega
      have hlength := congrArg List.length hsplit
      rw [hevents, List.takeWhile_cons_of_pos hready, List.length_append, List.length_cons] at hlength
      omega

end Progress

/-- Waiting does not schedule. -/
theorem scheduled_idle (h : HashOrder) (target : UInt64) (hactions : sim.actions = []) :
    scheduled h (sim.idle target) = scheduled h sim := by
  unfold idle
  split
  · rw [scheduled_of_nil hactions]
    exact scheduled_of_nil hactions
  · rfl

/-- Nor does it ask for anything. -/
theorem actions_idle (target : UInt64) (sim : SimulationRunner) :
    (sim.idle target).actions = sim.actions := by
  unfold idle
  split
  · rfl
  · rfl

/-- With nothing scheduled the clock goes on by one, up to the target. -/
theorem toNat_idle (hquiet : sim.Quiet) : (sim.idle target).clock.nowMs.toNat
    = if sim.scheduler.queue.items = [] ∧ sim.clock.nowMs < target then sim.clock.nowMs.toNat + 1
      else sim.clock.nowMs.toNat := by
  unfold idle
  rw [hquiet.actions]
  by_cases hitems : sim.scheduler.queue.items = []
  · have hnext : sim.scheduler.nextTimestamp = none :=
      EventScheduler.nextTimestamp_eq_none_iff.mpr hitems
    have hfits := U64.toNat_lt target
    rw [hnext, if_pos (by rfl)]
    show (sim.clock.advanceTo _).nowMs.toNat = _
    rw [DeterministicClock.toNat_advanceTo, U64.toNat_min, U64.toNat_satAdd]
    rw [show (1 : UInt64).toNat = 1 from rfl]
    split
    · next hlt =>
      have hnat := U64.lt_iff.mp hlt.2
      omega
    · next hnot =>
      have hlate : ¬ sim.clock.nowMs < target := fun hlt => hnot ⟨hitems, hlt⟩
      rw [U64.lt_iff] at hlate
      omega
  · have hnext : sim.scheduler.nextTimestamp ≠ none :=
      fun hnone => hitems (EventScheduler.nextTimestamp_eq_none_iff.mp hnone)
    rw [if_neg (by simp [Option.isNone_iff_eq_none, hnext]), if_neg fun h => hitems h.1]

/-- A quiet simulation stays quiet. -/
theorem Quiet.idle (hquiet : sim.Quiet) : (sim.idle target).Quiet := by
  refine ⟨?_, fun e he => ?_⟩
  · rw [actions_idle]
    exact hquiet.actions
  · have hitems : (sim.idle target).scheduler.queue.items = sim.scheduler.queue.items := by
      unfold SimulationRunner.idle
      split
      · rfl
      · rfl
    rw [hitems] at he
    have hlater := hquiet.later e he
    have hclock : (sim.idle target).clock.nowMs.toNat = _ := toNat_idle hquiet
    rw [if_neg fun h => List.ne_nil_of_mem he h.1] at hclock
    rwa [U64.lt_iff, hclock, ← U64.lt_iff]

/-- The idle clock reaches the target only if no event is left. -/
theorem Progress.idle (hp : Progress h start target sim done) (hquiet : sim.Quiet) :
    Progress h start target (sim.idle target) done := by
  have hclock : (sim.idle target).clock.nowMs.toNat = _ := toNat_idle hquiet
  refine ⟨?_, ?_, fun e he => ?_, ?_⟩
  · rw [← hp.processed]
    unfold SimulationRunner.idle
    split
    · rfl
    · rfl
  · rw [scheduled_idle h target hquiet.actions, hp.scheduled]
  · have hle := hp.past e he
    rw [U64.le_iff] at hle ⊢
    split at hclock <;> omega
  -- an empty queue lets the clock run on to the target, anything else leaves it
  · by_cases hidle : sim.scheduler.queue.items = [] ∧ sim.clock.nowMs < target
    · rw [if_pos hidle] at hclock
      have hdone : SimulationRunner.scheduled h start = done := by
        rw [← hp.scheduled, scheduled_of_nil hquiet.actions, hidle.1, List.append_nil]
      have hstop : stopTime target (SimulationRunner.scheduled h start) = target := by
        rw [hdone]
        exact stopTime_of_before (hp.done_before hidle.2)
      have hlt := hidle.2
      rw [U64.lt_iff] at hlt
      rw [hstop, U64.lt_iff, ← UInt64.toNat_inj]
      omega
    · rw [if_neg hidle, UInt64.toNat_inj] at hclock
      rw [hclock]
      exact hp.time

/-- **One round** brings the run on. -/
theorem Progress.round (hp : Progress h start target sim done) (hlt : sim.clock.nowMs < target) :
    ∃ more, Progress h start target ((sim.stepUntilNextEvent h).idle target) (done ++ more)
      ∧ ((sim.stepUntilNextEvent h).idle target).Quiet
      ∧ left h target ((sim.stepUntilNextEvent h).idle target) < left h target sim := by
  obtain ⟨more, hnext, hquiet, hclock, hfewer⟩ := hp.step hlt
  have hidle : (((sim.stepUntilNextEvent h).idle target).clock.nowMs).toNat = _ :=
    toNat_idle hquiet
  refine ⟨more, hnext.idle hquiet, hquiet.idle, ?_⟩
  unfold left
  rw [scheduled_idle h target hquiet.actions]
  rw [U64.lt_iff] at hlt
  rcases hfewer with ⟨hnil, hnil', hsame⟩ | hfewer
  · -- nothing was scheduled: a millisecond has passed
    have hitems : (sim.stepUntilNextEvent h).scheduler.queue.items = [] := by
      rw [← scheduled_of_nil (h := h) hquiet.actions, hnil']
    rw [if_pos ⟨hitems, by rw [hsame, U64.lt_iff]; exact hlt⟩, hsame] at hidle
    rw [hnil, hnil', List.length_nil]
    omega
  · split at hidle <;> omega

/-! ## The end of a run -/

/-- **The rounds end**, behind the target, with nothing waiting. The fuel need only exceed what is
left. -/
theorem rounds_end (h : HashOrder) (sim : SimulationRunner) {target : UInt64}
    (hahead : sim.clock.nowMs < target) :
    ∃ next done, Progress h sim target next done ∧ next.Quiet ∧ target ≤ next.clock.nowMs
      ∧ ∀ fuel, left h target sim < fuel → loop (runForRound h target) fuel sim = some next := by
  -- before the first round nothing is done; after it, nothing waits
  let Inv (x : SimulationRunner) : Prop :=
    (∃ done, Progress h sim target x done) ∧ (target ≤ x.clock.nowMs → x.Quiet)
  have hstart : Inv sim :=
    ⟨⟨[], (List.append_nil _).symm, rfl, nofun, .inl hahead⟩,
      fun hle => absurd hahead (UInt64.not_lt.mpr hle)⟩
  obtain ⟨next, ⟨⟨done, hdone⟩, hquiet, hlate⟩, hloop⟩ := loop_ends (runForRound h target) Inv
    (fun next => (∃ done, Progress h sim target next done) ∧ next.Quiet
      ∧ target ≤ next.clock.nowMs) (left h target)
    (fun x x' hx hround => by
      unfold runForRound at hround
      split at hround
      · next hlt =>
        obtain rfl := Sum.inl.inj hround
        obtain ⟨⟨done, hdone⟩, -⟩ := hx
        obtain ⟨more, hmore, hquiet, hleft⟩ := hdone.round hlt
        exact ⟨⟨⟨_, hmore⟩, fun _ => hquiet⟩, hleft⟩
      · cases hround)
    (fun x r hx hround => by
      unfold runForRound at hround
      split at hround
      · cases hround
      · next hge =>
        obtain rfl := Sum.inr.inj hround
        exact ⟨hx.1, hx.2 (UInt64.not_lt.mp hge), UInt64.not_lt.mp hge⟩)
    hstart
  exact ⟨next, done, hdone, hquiet, hlate, hloop⟩

/-- Every run ends. -/
theorem runFor_isSome (h : HashOrder) (sim : SimulationRunner) (durationMs : UInt64) :
    (sim.runFor h durationMs).isSome := by
  by_cases hahead : sim.clock.nowMs < U64.satAdd sim.clock.nowMs durationMs
  · obtain ⟨next, -, -, -, -, hloop⟩ := rounds_end h sim hahead
    have hrun : sim.runFor h durationMs = some next := hloop _ (Nat.lt_succ_self _)
    rw [hrun]
    rfl
  · have hexit : runForRound h (U64.satAdd sim.clock.nowMs durationMs) sim = .inr sim :=
      if_neg hahead
    have hrun : sim.runFor h durationMs = some sim := loop_exit hexit _
    rw [hrun]
    rfl

/-- **Where a run ends.** It ends, and if its target lies ahead, with the clock at the stop time, and
with the events up to then processed. -/
theorem runFor_ends (h : HashOrder) (sim : SimulationRunner) {durationMs : UInt64}
    (hfits : sim.clock.nowMs.toNat + durationMs.toNat < 2 ^ 64) :
    ∃ next, sim.runFor h durationMs = some next
      ∧ if durationMs = 0 then next = sim
        else ∃ done, next.Quiet
          ∧ next.clock.nowMs = stopTime (sim.clock.nowMs + durationMs) (scheduled h sim)
          ∧ next.processed = sim.processed ++ done
          ∧ done ++ scheduled h next = scheduled h sim
          ∧ ∀ e ∈ done, e.atMs ≤ next.clock.nowMs := by
  have htarget : U64.satAdd sim.clock.nowMs durationMs = sim.clock.nowMs + durationMs := if_pos hfits
  have hnat : (sim.clock.nowMs + durationMs).toNat = sim.clock.nowMs.toNat + durationMs.toNat :=
    U64.toNat_add_of_lt hfits
  unfold runFor
  rw [htarget]
  generalize htargetDef : sim.clock.nowMs + durationMs = target at *
  -- a run of no time ends at once, any other goes on to the stop time
  by_cases hzero : durationMs = 0
  · subst hzero
    have hhere : ¬ sim.clock.nowMs < target := by
      rw [U64.lt_iff, hnat]
      simp
    have hexit : runForRound h target sim = .inr sim := if_neg hhere
    refine ⟨sim, loop_exit hexit _, ?_⟩
    rw [if_pos rfl]
  · have hpos : 0 < durationMs.toNat := by
      refine Nat.pos_of_ne_zero fun hnil => hzero ?_
      exact UInt64.toNat_inj.mp hnil
    have hahead : sim.clock.nowMs < target := by
      rw [U64.lt_iff]
      omega
    obtain ⟨next, done, hdone, hquiet, hlate, hloop⟩ := rounds_end h sim hahead
    refine ⟨next, hloop _ (Nat.lt_succ_self _), ?_⟩
    rw [if_neg hzero]
    refine ⟨done, hquiet, ?_, hdone.processed, hdone.scheduled, hdone.past⟩
    exact hdone.time.resolve_left (UInt64.not_lt.mpr hlate)

/-- What a run should do: stop at the horizon, with the events up to it processed in order and the
later ones still scheduled. -/
def KeepsHorizon (h : HashOrder) (sim : SimulationRunner) (durationMs : UInt64) : Prop :=
  ∃ next done, sim.runFor h durationMs = some next
    ∧ next.clock.nowMs = sim.clock.nowMs + durationMs
    ∧ next.processed = sim.processed ++ done
    ∧ done.Perm ((scheduled h sim).filter fun e => e.atMs ≤ sim.clock.nowMs + durationMs)
    ∧ done.Pairwise ScheduledEvent.NotAfter
    ∧ (scheduled h next).Perm
      ((scheduled h sim).filter fun e => sim.clock.nowMs + durationMs < e.atMs)

/-- **Which runs keep to their horizon.** A run of no time does if nothing is due. A longer one does
exactly if no event is scheduled after the horizon, or one is scheduled at it. -/
theorem run_for_horizon_iff (h : HashOrder) (sim : SimulationRunner) (durationMs : UInt64)
    (hfits : sim.clock.nowMs.toNat + durationMs.toNat < 2 ^ 64) :
    KeepsHorizon h sim durationMs ↔
      if durationMs = 0 then ∀ e ∈ scheduled h sim, sim.clock.nowMs < e.atMs
      else (∀ e ∈ scheduled h sim, e.atMs ≤ sim.clock.nowMs + durationMs)
        ∨ ∃ e ∈ scheduled h sim, e.atMs = sim.clock.nowMs + durationMs := by
  obtain ⟨next, hrun, hend⟩ := runFor_ends h sim hfits
  -- for no time the horizon is now, and nothing may be due yet
  by_cases hzero : durationMs = 0
  · rw [if_pos hzero] at hend ⊢
    subst hend hzero
    rw [KeepsHorizon, UInt64.add_zero]
    constructor
    · rintro ⟨next, done, hrun', -, hprocessed, hperm, -⟩ e he
      obtain rfl := Option.some.inj (hrun.symm.trans hrun')
      obtain rfl : done = [] := List.append_right_eq_self.mp hprocessed.symm
      have hnone := List.filter_eq_nil_iff.mp (List.nil_perm.mp hperm) e he
      exact UInt64.not_le.mp fun hle => hnone (decide_eq_true hle)
    · intro hlater
      refine ⟨next, [], hrun, rfl, (List.append_nil _).symm, ?_, List.Pairwise.nil, ?_⟩
      · rw [List.filter_eq_nil_iff.mpr fun e he hle =>
          UInt64.not_le.mpr (hlater e he) (of_decide_eq_true hle)]
      · rw [List.filter_eq_self.mpr fun e he => decide_eq_true (hlater e he)]
  · rw [if_neg hzero] at hend ⊢
    obtain ⟨done, hquiet, hclock, hprocessed, hscheduled, hpast⟩ := hend
    rw [← stopTime_eq_iff (pairwise_scheduled h sim)]
    constructor
    · rintro ⟨next', -, hrun', hclock', -⟩
      obtain rfl := Option.some.inj (hrun.symm.trans hrun')
      exact hclock.symm.trans hclock'
    · intro hstop
      rw [hstop] at hclock
      have hrest : ∀ e ∈ scheduled h next, next.clock.nowMs < e.atMs := by
        rw [scheduled_of_nil hquiet.actions]
        exact hquiet.later
      have hsorted : (done ++ scheduled h next).Pairwise ScheduledEvent.NotAfter :=
        hscheduled ▸ pairwise_scheduled h sim
      -- the events done are those up to the stop time, in order, and the rest comes later
      refine ⟨next, done, hrun, hclock, hprocessed, ?_, (List.pairwise_append.mp hsorted).1, ?_⟩
      · rw [← hscheduled, ← hclock, List.filter_append,
          List.filter_eq_self.mpr fun e he => decide_eq_true (hpast e he),
          List.filter_eq_nil_iff.mpr fun e he hle =>
            UInt64.not_le.mpr (hrest e he) (of_decide_eq_true hle),
          List.append_nil]
      · rw [← hscheduled, ← hclock, List.filter_append,
          List.filter_eq_nil_iff.mpr fun e he hlt =>
            UInt64.not_lt.mpr (hpast e he) (of_decide_eq_true hlt),
          List.filter_eq_self.mpr fun e he => decide_eq_true (hrest e he), List.nil_append]

/-! ## An event behind the horizon -/

/-- A map that hands out its keys as they lie. -/
def listOrder : HashOrder where
  order _ keys := keys
  perm _ _ := List.Perm.refl _

/-- A simulation with one event, at 50 ms. -/
def oneEvent : SimulationRunner := (new 0 1).scheduleAvailability "n" 50 true

/-- A run of 10 ms takes the event at 50 ms. -/
theorem run_for_overshoots :
    (oneEvent.runFor listOrder 10).map (fun next => (next.clock.nowMs, next.processed.length))
      = some (50, 1)
    ∧ ¬ KeepsHorizon listOrder oneEvent 10 := by
  have hrun : (oneEvent.runFor listOrder 10).map
      (fun next => (next.clock.nowMs, next.processed.length)) = some (50, 1) := by
    decide +kernel
  refine ⟨hrun, ?_⟩
  rintro ⟨next, done, hnext, hclock, -⟩
  rw [hnext] at hrun
  have hfifty : next.clock.nowMs = 50 := congrArg Prod.fst (Option.some.inj hrun)
  rw [hfifty] at hclock
  exact absurd hclock (by decide)

/-- A run of 50 ms ends at the event. -/
theorem run_for_horizon_fifty : KeepsHorizon listOrder oneEvent 50 :=
  (run_for_horizon_iff listOrder oneEvent 50 (by decide)).mpr (.inr
    ⟨{ atMs := 50, seq := 1, payload := .availability "n" true }, List.mem_singleton.mpr rfl, rfl⟩)

end SimulationRunner

end Mycelium.Sim

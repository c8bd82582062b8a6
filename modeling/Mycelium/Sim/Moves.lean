import Mycelium.Sim.Determinism
import Mycelium.Sim.Horizon
import Mathlib.Logic.Relation

/-!
# Mycelium simulator — the moves of a simulation

Between the operations of its user a simulation makes moves: it takes an action off its channel, lets
the clock go on, or processes the first event that is due. The loops of the runner are sequences of
moves, so what every move keeps holds in every simulation.

* `Move` — the moves;
* `moves_stepUntilNextEvent`, `moves_runFor` — the loops consist of them;
* `Attempt` — what comes of sending an event to a node;
* `runOps_induction` — a property that the moves keep, with the actions sent so far.
-/

namespace Mycelium.Sim

namespace SimulationRunner

open Relation (ReflTransGen)

/-- The simulation whose first event has been taken off the scheduler. -/
def take (sim : SimulationRunner) (event : ScheduledEvent ScheduledAction) : SimulationRunner :=
  { sim with
    scheduler := { sim.scheduler with queue := sim.scheduler.queue.tail }
    processed := sim.processed ++ [event] }

/-- One move. -/
inductive Move (h : HashOrder) (sim : SimulationRunner) : SimulationRunner → Prop
  | link (a b : String) (profile : LinkProfile) : Move h sim (sim.setLink a b profile)
  | availability (peerId : String) (atMs : UInt64) (online : Bool) :
      Move h sim (sim.scheduleAvailability peerId atMs online)
  | tick (timestampMs : UInt64) : Move h sim { sim with clock := sim.clock.advanceTo timestampMs }
  | action {a : SimAction} {rest : List SimAction} (hactions : sim.actions = a :: rest) :
      Move h sim (({ sim with actions := rest }).scheduleAction h a)
  | event {e : ScheduledEvent ScheduledAction} (hpeek : sim.scheduler.queue.peek = some e)
      (hdue : e.atMs ≤ sim.clock.nowMs) : Move h sim ((sim.take e).process e.payload)

variable {h : HashOrder}

/-! ## The loops -/

/-- Rolling changes the generator only, whatever is on the channel. -/
theorem rollLoss_withActions (sim : SimulationRunner) (actions : List SimAction)
    (lossPerMille : UInt16) : ({ sim with actions } : SimulationRunner).rollLoss lossPerMille
      = ((sim.rollLoss lossPerMille).1, { (sim.rollLoss lossPerMille).2 with actions }) := by
  unfold rollLoss
  split <;> rfl

theorem scheduleDirect_withActions (sim : SimulationRunner) (actions : List SimAction)
    (fromPeer toPeer : String) (message : WireMessage) :
    ({ sim with actions } : SimulationRunner).scheduleDirect fromPeer toPeer message
      = { sim.scheduleDirect fromPeer toPeer message with actions } := by
  unfold scheduleDirect
  rw [show ({ sim with actions } : SimulationRunner).isOnline = sim.isOnline from rfl]
  split
  · rfl
  · cases hlink : sim.links.lookup (fromPeer, toPeer) with
    | none => rfl
    | some profile =>
      simp only [rollLoss_withActions]
      cases hroll : sim.rollLoss profile.lossPerMille with
      | mk lost sim' => cases lost <;> rfl

theorem publishTo_withActions (fromPeer scope : String) (payload : Bytes) (sim : SimulationRunner)
    (actions : List SimAction) (toPeer : String) :
    publishTo fromPeer scope payload { sim with actions } toPeer
      = { publishTo fromPeer scope payload sim toPeer with actions } := by
  unfold publishTo
  rw [show ({ sim with actions } : SimulationRunner).isOnline = sim.isOnline from rfl]
  split
  · rfl
  · split
    · rfl
    · cases hlink : sim.links.lookup (fromPeer, toPeer) with
      | none => rfl
      | some profile =>
        simp only [rollLoss_withActions]
        cases hroll : sim.rollLoss profile.lossPerMille with
        | mk lost sim' => cases lost <;> rfl

/-- What an action does has nothing to do with the others. -/
theorem scheduleAction_withActions (sim : SimulationRunner) (actions : List SimAction)
    (a : SimAction) : ({ sim with actions } : SimulationRunner).scheduleAction h a
      = { sim.scheduleAction h a with actions } := by
  cases a with
  | sendDirect fromPeer toPeer message => exact scheduleDirect_withActions sim actions _ _ _
  | publishScoped fromPeer scope payload =>
    have hfold : ∀ (keys : List String) (s : SimulationRunner),
        keys.foldl (publishTo fromPeer scope payload) { s with actions }
          = { keys.foldl (publishTo fromPeer scope payload) s with actions } := by
      intro keys
      induction keys with
      | nil => exact fun s => rfl
      | cons key keys ih =>
        intro s
        rw [List.foldl_cons, List.foldl_cons, publishTo_withActions]
        exact ih _
    exact hfold _ { sim with iterations := sim.iterations + 1 }

theorem actions_scheduleAction (sim : SimulationRunner) (a : SimAction) :
    (sim.scheduleAction h a).actions = sim.actions :=
  congrArg (fun f => f.2.1) (frame_scheduleAction h sim a)

/-- The channel of actions is emptied one by one. Induction on the channel. -/
theorem moves_drain (sim : SimulationRunner) : ReflTransGen (Move h) sim (sim.drain h) := by
  generalize hactions : sim.actions = actions
  induction actions generalizing sim with
  | nil =>
    have hnone : sim.drain h = sim := by
      unfold drain
      rw [hactions]
      show ({ sim with actions := [] } : SimulationRunner) = sim
      rw [← hactions]
    rw [hnone]
  | cons a rest ih =>
    have hnext := ih (({ sim with actions := rest } : SimulationRunner).scheduleAction h a)
      (actions_scheduleAction _ a)
    have hdrain : (({ sim with actions := rest } : SimulationRunner).scheduleAction h a).drain h
        = sim.drain h := by
      have hfirst : ({ ({ sim with actions := rest } : SimulationRunner).scheduleAction h a with
          actions := [] } : SimulationRunner)
          = ({ sim with actions := [] } : SimulationRunner).scheduleAction h a := by
        rw [scheduleAction_withActions sim rest, scheduleAction_withActions sim []]
      unfold drain
      rw [actions_scheduleAction, hactions, List.foldl_cons]
      exact congrArg (rest.foldl (scheduleAction h)) hfirst
    rw [hdrain] at hnext
    exact .head (.action hactions) hnext

theorem moves_jump (sim : SimulationRunner) : ReflTransGen (Move h) sim sim.jump := by
  unfold jump
  split
  · next nextAt _ => exact .single (.tick nextAt)
  · exact .refl

/-- Induction on the fuel. -/
theorem moves_processReady (fuel : Nat) (sim : SimulationRunner) :
    ReflTransGen (Move h) sim (processReady fuel sim) := by
  induction fuel generalizing sim with
  | zero => exact .refl
  | succ fuel ih =>
    rw [processReady]
    split
    · exact .refl
    · next e scheduler hpop =>
      obtain ⟨hpeek, hdue, rfl⟩ := EventScheduler.popReady_some hpop
      exact .head (.event hpeek hdue) (ih _)

theorem moves_stepUntilNextEvent (sim : SimulationRunner) :
    ReflTransGen (Move h) sim (sim.stepUntilNextEvent h) :=
  (moves_drain sim).trans ((moves_jump _).trans (moves_processReady _ _))

theorem moves_idle (target : UInt64) (sim : SimulationRunner) :
    ReflTransGen (Move h) sim (sim.idle target) := by
  unfold idle
  split
  · exact .single (.tick _)
  · exact .refl

/-- Induction on the rounds. -/
theorem moves_rounds {target : UInt64} (fuel : Nat) {sim sim' : SimulationRunner}
    (hloop : loop (runForRound h target) fuel sim = some sim') : ReflTransGen (Move h) sim sim' := by
  induction fuel generalizing sim with
  | zero => cases hloop
  | succ fuel ih =>
    by_cases hlt : sim.clock.nowMs < target
    · have hround : runForRound h target sim = .inl ((sim.stepUntilNextEvent h).idle target) :=
        if_pos hlt
      rw [loop_continue hround] at hloop
      exact ((moves_stepUntilNextEvent sim).trans (moves_idle target _)).trans (ih hloop)
    · have hround : runForRound h target sim = .inr sim := if_neg hlt
      rw [loop_exit hround] at hloop
      obtain rfl := Option.some.inj hloop
      exact .refl

theorem moves_runFor {durationMs : UInt64} {sim sim' : SimulationRunner}
    (hrun : sim.runFor h durationMs = some sim') : ReflTransGen (Move h) sim sim' :=
  moves_rounds _ hrun

/-! ## What an action comes to -/

/-- The node is registered. -/
def knows (sim : SimulationRunner) (peerId : String) : Bool := (sim.nodes.lookup peerId).isSome

theorem knows_of_isOnline {sim : SimulationRunner} {peerId : String}
    (h : sim.isOnline peerId = true) : sim.knows peerId = true := by
  unfold isOnline at h
  unfold knows
  cases hnode : sim.nodes.lookup peerId with
  | none =>
    rw [hnode] at h
    exact absurd h Bool.false_ne_true
  | some node => rfl

/-- How many bytes a delivery is charged with. -/
def eventSize : TransportEvent → Nat
  | .directReceived _ message => wireMessageSize message
  | .scopedReceived _ _ payload => payload.length + 32
  | _ => 0

/-- **What comes of sending an event to a node**: it is dropped, or else scheduled. -/
inductive Attempt (sim : SimulationRunner) (toPeer : String) (event : TransportEvent) :
    SimulationRunner → Prop
  | offline : Attempt sim toPeer event { sim with
      metrics := { sim.metrics with droppedOffline := sim.metrics.droppedOffline + 1 } }
  | lost (rngState : UInt64) : Attempt sim toPeer event { sim with
      rngState
      metrics := { sim.metrics with droppedLoss := sim.metrics.droppedLoss + 1 } }
  | scheduled (rngState atMs : UInt64) (hknows : sim.knows toPeer = true) :
      Attempt sim toPeer event { sim with
        rngState
        scheduler := sim.scheduler.push atMs (.deliver toPeer event (eventSize event)) }

/-- A roll decides between the two. -/
theorem attempt_of_roll {sim : SimulationRunner} {toPeer : String} (event : TransportEvent)
    (profile : LinkProfile) (hknows : sim.knows toPeer = true) :
    Attempt sim toPeer event (match sim.rollLoss profile.lossPerMille with
      | (true, sim) =>
        { sim with metrics := { sim.metrics with droppedLoss := sim.metrics.droppedLoss + 1 } }
      | (false, sim) =>
        { sim with
          scheduler := sim.scheduler.push (U64.satAdd sim.clock.nowMs profile.latencyMs)
            (.deliver toPeer event (eventSize event)) }) := by
  have hsnd := rollLoss_snd sim profile.lossPerMille
  cases hroll : sim.rollLoss profile.lossPerMille with
  | mk lost sim' =>
    rw [hroll] at hsnd
    obtain rfl : sim' = _ := hsnd
    cases lost with
    | true => exact .lost _
    | false => exact .scheduled _ _ hknows

/-- What is sent directly is one attempt. -/
theorem scheduleDirect_attempt (sim : SimulationRunner) (fromPeer toPeer : String)
    (message : WireMessage) : Attempt sim toPeer (.directReceived fromPeer message)
      (sim.scheduleDirect fromPeer toPeer message) := by
  unfold scheduleDirect
  split
  · exact .offline
  · next honline =>
    have hto : sim.isOnline toPeer = true := by
      rw [Bool.or_eq_true, not_or, Bool.not_eq_true', Bool.not_eq_true'] at honline
      exact (Bool.not_eq_false _).mp honline.2
    split
    · exact .offline
    · next profile _ =>
      exact attempt_of_roll (.directReceived fromPeer message) profile (knows_of_isOnline hto)

/-- A publication is an attempt for a node, or passes it by. -/
theorem publishTo_attempt (fromPeer scope : String) (payload : Bytes) (sim : SimulationRunner)
    (toPeer : String) : publishTo fromPeer scope payload sim toPeer = sim
      ∨ Attempt sim toPeer (.scopedReceived fromPeer scope payload)
        (publishTo fromPeer scope payload sim toPeer) := by
  unfold publishTo
  split
  · exact .inl rfl
  · split
    · exact .inr .offline
    · next honline =>
      have hto : sim.isOnline toPeer = true := by
        rw [Bool.or_eq_true, not_or, Bool.not_eq_true', Bool.not_eq_true'] at honline
        exact (Bool.not_eq_false _).mp honline.2
      split
      · exact .inl rfl
      · next profile _ =>
        exact .inr
          (attempt_of_roll (.scopedReceived fromPeer scope payload) profile (knows_of_isOnline hto))

/-- **What every attempt keeps, an action keeps.** Induction on the nodes that a publication goes
over. -/
theorem scheduleAction_of_attempts {P : SimulationRunner → Prop}
    (hiterations : ∀ sim iterations, P sim → P { sim with iterations })
    (hattempt : ∀ sim sim' toPeer event, P sim → Attempt sim toPeer event sim' → P sim')
    (sim : SimulationRunner) (hP : P sim) (a : SimAction) : P (sim.scheduleAction h a) := by
  cases a with
  | sendDirect fromPeer toPeer message =>
    exact hattempt _ _ _ _ hP (scheduleDirect_attempt sim fromPeer toPeer message)
  | publishScoped fromPeer scope payload =>
    have hfold : ∀ (keys : List String) (s : SimulationRunner), P s →
        P (keys.foldl (publishTo fromPeer scope payload) s) := by
      intro keys
      induction keys with
      | nil => exact fun s hs => hs
      | cons key keys ih =>
        intro s hs
        refine ih _ ?_
        rcases publishTo_attempt fromPeer scope payload s key with hsame | hatt
        · rw [hsame]
          exact hs
        · exact hattempt _ _ _ _ hs hatt
    exact hfold _ _ (hiterations sim _ hP)

/-! ## What is done with a simulation -/

/-- The nodes that the operations register. -/
def registered (ops : List SimOp) : List String :=
  ops.filterMap fun op => match op with
    | .registerNode peerId _ => some peerId
    | _ => none

/-- The actions that the operations send. -/
def sent (ops : List SimOp) : List SimAction :=
  ops.filterMap fun op => match op with
    | .send action => some action
    | _ => none

theorem knows_setOnline (sim : SimulationRunner) (peerId : String) (online : Bool) :
    (sim.setOnline peerId online).knows = sim.knows := by
  unfold setOnline
  cases hnode : sim.nodes.lookup peerId with
  | none => rfl
  | some node =>
    funext p
    unfold knows
    dsimp only
    by_cases hp : p = peerId
    · rw [hp, AList.lookup_insert, hnode]
      rfl
    · rw [AList.lookup_insert_ne hp]

theorem knows_registerNode (sim : SimulationRunner) {peerId p : String}
    (bandwidthBytesPerSec : UInt64) (hp : p ≠ peerId) :
    (sim.registerNode peerId bandwidthBytesPerSec).knows p = sim.knows p := by
  unfold knows registerNode
  dsimp only
  rw [AList.lookup_insert_ne hp]

/-- Processing a delivery keeps the nodes. -/
theorem nodes_deliver (sim : SimulationRunner) (toPeer : String) (event : TransportEvent)
    (bytes : Nat) : (sim.process (.deliver toPeer event bytes)).nodes = sim.nodes := by
  by_cases hbudget : ((sim.nodes.lookup toPeer).map fun n => n.bandwidthBytesPerSec).getD 0
      < U64.satAdd (sim.bandwidthUsage (toPeer, sim.clock.nowMs / 1000)) (UInt64.ofNat bytes)
  · simp [process, consumeBandwidth, hbudget]
  · cases event with
    | directReceived fromPeer message =>
      simp only [process, consumeBandwidth, hbudget, if_false, recordDelivery]
      cases deliveredKeyFields message toPeer with
      | none => rfl
      | some key =>
        dsimp only
        split <;> rfl
    | _ => simp [process, consumeBandwidth, hbudget]

/-- A move registers nobody. -/
theorem Move.knows {sim sim' : SimulationRunner} (hmove : Move h sim sim') :
    sim'.knows = sim.knows := by
  cases hmove with
  | link => rfl
  | availability => rfl
  | tick => rfl
  | @action a rest hactions =>
    have hkept : ∀ s s' toPeer event, s.knows = sim.knows → Attempt s toPeer event s' →
        s'.knows = sim.knows := by
      intro s s' toPeer event hs hatt
      cases hatt <;> exact hs
    exact scheduleAction_of_attempts (P := fun s => s.knows = sim.knows) (fun s _ hs => hs) hkept
      { sim with actions := rest } rfl a
  | @event e hpeek hdue =>
    cases hpayload : e.payload with
    | availability peerId online => exact knows_setOnline (sim.take e) peerId online
    | deliver toPeer event bytes =>
      unfold SimulationRunner.knows
      rw [nodes_deliver]
      rfl

/-- The operations come to an end. -/
theorem runOps_isSome (h : HashOrder) (sim : SimulationRunner) (ops : List SimOp) :
    (runOps h sim ops).isSome := by
  induction ops generalizing sim with
  | nil => rfl
  | cons op ops ih =>
    obtain ⟨next, hnext⟩ := Option.isSome_iff_exists.mp (apply_isSome h sim op)
    have hrest : runOps h sim (op :: ops) = runOps h next ops := by
      show (sim.apply h op).bind (fun s => runOps h s ops) = _
      rw [hnext]
      rfl
    rw [hrest]
    exact ih next

/-- **What holds of every simulation.** A property of the actions sent so far and the simulation
that the moves keep, and that a registration of a new node and a send keep, holds after any
operations that register no node twice. Induction on the operations. -/
theorem runOps_induction {P : List SimAction → SimulationRunner → Prop}
    (hmove : ∀ actions sim sim', P actions sim → Move h sim sim' → P actions sim')
    (hsend : ∀ actions sim action, P actions sim →
      P (actions ++ [action]) { sim with actions := sim.actions ++ [action] })
    (hregister : ∀ actions sim peerId bandwidth, P actions sim → sim.knows peerId = false →
      P actions (sim.registerNode peerId bandwidth))
    {ops : List SimOp} {sim sim' : SimulationRunner} (hP : P [] sim)
    (hnodup : (registered ops).Nodup) (hfresh : ∀ peerId ∈ registered ops, sim.knows peerId = false)
    (hrun : runOps h sim ops = some sim') : P (sent ops) sim' := by
  suffices hall : ∀ actions, P actions sim → P (actions ++ sent ops) sim' from hall [] hP
  clear hP
  intro actions hP
  -- induction on the operations; a registration needs a name of its own, a send is remembered
  induction ops generalizing sim actions with
  | nil =>
    obtain rfl : sim = sim' := Option.some.inj hrun
    rw [show sent [] = [] from rfl, List.append_nil]
    exact hP
  | cons op ops ih =>
    obtain ⟨next, hop, hrest⟩ := Option.bind_eq_some_iff.mp hrun
    have hmoves : Relation.ReflTransGen (Move h) sim next → registered (op :: ops) = registered ops →
        sent (op :: ops) = sent ops → P (actions ++ sent (op :: ops)) sim' := by
      intro hsteps hreg hsent
      rw [hreg] at hnodup hfresh
      rw [hsent]
      -- a step may take several moves, none of which registers anybody
      have hnext : P actions next ∧ next.knows = sim.knows := by
        clear hop hrest
        induction hsteps with
        | refl => exact ⟨hP, rfl⟩
        | tail _ hlast hprev => exact ⟨hmove _ _ _ hprev.1 hlast, hlast.knows.trans hprev.2⟩
      exact ih hnodup (fun p hp => by rw [hnext.2]; exact hfresh p hp) hrest _ hnext.1
    cases op with
    | registerNode peerId bandwidth =>
      obtain rfl := Option.some.inj hop
      obtain ⟨hnew, hnodup'⟩ := List.nodup_cons.mp hnodup
      refine ih hnodup' (fun p hp => ?_) hrest _
        (hregister _ _ _ _ hP (hfresh peerId List.mem_cons_self))
      rw [knows_registerNode _ _ fun heq : p = peerId => hnew (heq ▸ hp)]
      exact hfresh p (List.mem_cons_of_mem _ hp)
    | setLink a b profile =>
      obtain rfl := Option.some.inj hop
      exact hmoves (.single (.link a b profile)) rfl rfl
    | scheduleAvailability peerId atMs online =>
      obtain rfl := Option.some.inj hop
      exact hmoves (.single (.availability peerId atMs online)) rfl rfl
    | send action =>
      obtain rfl := Option.some.inj hop
      have hfresh' : ∀ p ∈ registered ops,
          ({ sim with actions := sim.actions ++ [action] } : SimulationRunner).knows p = false := hfresh
      have hnext := ih hnodup hfresh' hrest _ (hsend _ _ action hP)
      rwa [List.append_assoc] at hnext
    | step =>
      obtain rfl := Option.some.inj hop
      exact hmoves (moves_stepUntilNextEvent sim) rfl rfl
    | idle target =>
      obtain rfl := Option.some.inj hop
      exact hmoves (moves_idle target sim) rfl rfl
    | runFor durationMs => exact hmoves (moves_runFor hop) rfl rfl

end SimulationRunner

end Mycelium.Sim

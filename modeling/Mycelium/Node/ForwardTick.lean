import Mycelium.Node.Symbolic
import Mycelium.Node.Walk

/-!
# Mycelium node — what a forward tick takes from the queue

`forward_once` drops what has expired and then takes entries from the front, as many as the energy
state allows. An entry that it has taken is gone, also when the energy state forbids to send it and
when sending fails.

* `turns` — the entries it takes, each with the call at which it looks at the clock;
* `forwardOnce_run` — the queue and the output after a tick;
* `conserved_iff` — every copy of an entry is sent or still queued, unless one has its turn and is
  not sent;
* `forward_conserves_iff` — the ticks that lose nothing.
-/

namespace Mycelium.Node

/-! ## Turns -/

/-- The entries that a loop takes from a queue, at most `budget`, each with the number of the call
at which its turn begins; `cost` is the number of calls it makes. -/
def turns {α : Type} (cost : Nat → α → Nat) : Nat → List α → Nat → List (Nat × α)
  | 0, _, _ => []
  | _ + 1, [], _ => []
  | budget + 1, item :: rest, n => (n, item) :: turns cost budget rest (n + cost n item)

/-- They are the first ones. Induction on the budget. -/
theorem turns_items {α : Type} (cost : Nat → α → Nat) (budget : Nat) (queue : List α) (n : Nat) :
    (turns cost budget queue n).map Prod.snd = queue.take budget := by
  induction budget generalizing queue n with
  | zero => rfl
  | succ budget ih =>
    cases queue with
    | nil => rfl
    | cons item rest =>
      simp only [turns, List.map_cons, List.take_succ_cons]
      rw [ih]

/-- As many have `p` as have both, if all that have `p` have `q`, and only then. -/
theorem countP_eq_and_iff {α : Type} {p q : α → Bool} {l : List α} :
    l.countP p = l.countP (fun a => p a && q a) ↔ ∀ a ∈ l, p a = true → q a = true := by
  have hfilter : l.countP (fun a => p a && q a) = (l.filter p).countP q := by
    rw [List.countP_filter]
    exact List.countP_congr fun a _ => by rw [Bool.and_comm]
  rw [hfilter, List.countP_eq_length_filter, eq_comm, List.countP_eq_length]
  simp only [List.mem_filter, and_imp]

/-! ## One tick -/

section

variable [World]

/-- The entry is sent in a turn that begins with call `n`. -/
def sendsAt (state : NodeState) (turn : Nat × PendingMessage) : Bool :=
  !turn.2.message.isExpired (World.clock turn.1)
    && canForward state turn.2.message.envelope.priority
    && World.sendOk (turn.1 + 1) turn.2.toPeer

/-- The calls of a turn: the clock, and the transport if the entry may be sent. -/
def turnCost (state : NodeState) (n : Nat) (item : PendingMessage) : Nat :=
  if !item.message.isExpired (World.clock n) && canForward state item.message.envelope.priority then 2
  else 1

/-- What sending an entry leaves behind. -/
def PendingMessage.sending (item : PendingMessage) : Output :=
  .sendDirect item.toPeer (.data item.message)

omit [World] in
theorem sending_injective : Function.Injective PendingMessage.sending := by
  rintro ⟨toPeer, message⟩ ⟨toPeer', message'⟩ h
  obtain ⟨rfl, hw⟩ := Output.sendDirect.inj h
  obtain rfl := WireMessage.data.inj hw
  rfl

/-- The call at which the tick looks for what has expired: the clock is read before, to see whether
the relay's key is due, and a new key takes two more calls. -/
def evictCall (s : NodeRunner) : Nat :=
  if relayKeyRotationSecs < (World.instant s.calls - s.relayIdentity.createdAt) / 1000 then
    s.calls + 3
  else s.calls + 1

/-- What has not expired by then. -/
def freshPending (s : NodeRunner) : List PendingMessage :=
  s.pending.filter fun item => !item.message.isExpired (World.clock (evictCall s))

/-- The turns of the tick. -/
def forwardTurns (s : NodeRunner) : List (Nat × PendingMessage) :=
  turns (turnCost s.nodeState) (forwardBudget s.nodeState) (freshPending s) (evictCall s + 1)

theorem forwardItem_run (state : NodeState) (item : PendingMessage) (s : NodeRunner) :
    ∃ metrics, forwardItem state item s = .ok () { s with
      calls := s.calls + turnCost state s.calls item
      metrics
      out := s.out ++ if sendsAt state (s.calls, item) then [item.sending] else [] } := by
  have hrun : forwardItem state item s
      = (if item.message.isExpired (World.clock s.calls) then pure ()
        else if !canForward state item.message.envelope.priority then pure ()
        else trySendDirect item.toPeer (.data item.message) >>= fun sent =>
          if sent then updateMetrics fun m => { m with messagesForwarded := m.messagesForwarded + 1 }
          else pure () : NodeM Unit) { s with calls := s.calls + 1 } := rfl
  rw [hrun]
  unfold turnCost sendsAt
  simp only
  -- the three ways a turn can end without a frame, and the one with
  cases hexpired : item.message.isExpired (World.clock s.calls) with
  | true => exact ⟨s.metrics, by simp; rfl⟩
  | false =>
    cases hforward : canForward state item.message.envelope.priority with
    | false => exact ⟨s.metrics, by simp; rfl⟩
    | true =>
      have htry := trySendDirect_run item.toPeer (.data item.message) { s with calls := s.calls + 1 }
      cases hsend : World.sendOk (s.calls + 1) item.toPeer with
      | false =>
        rw [hsend] at htry
        exact ⟨s.metrics, (run_bind_of_ok htry).trans (by simp; rfl)⟩
      | true =>
        rw [hsend] at htry
        exact ⟨{ s.metrics with messagesForwarded := s.metrics.messagesForwarded + 1 },
          (run_bind_of_ok htry).trans rfl⟩

/-- The loop takes the first entries and sends those that may be sent. Induction on the budget. -/
theorem forwardPending_run (budget : Nat) (s : NodeRunner) :
    ∃ s', forwardPending budget s = .ok () s' ∧ s'.pending = s.pending.drop budget
      ∧ s'.out = s.out ++ ((turns (turnCost s.nodeState) budget s.pending s.calls).filter
          (sendsAt s.nodeState)).map fun turn => turn.2.sending := by
  -- induction on the budget; each turn reads the clock as often as its checks take
  induction budget generalizing s with
  | zero => exact ⟨s, rfl, rfl, (List.append_nil _).symm⟩
  | succ budget ih =>
    cases hqueue : s.pending with
    | nil =>
      refine ⟨s, forwardPending_nil hqueue _, hqueue, ?_⟩
      exact (List.append_nil _).symm
    | cons item rest =>
      obtain ⟨metrics, hitem⟩ := forwardItem_run s.nodeState item { s with pending := rest }
      obtain ⟨s', hrun, hpending, hout⟩ := ih { s with
        pending := rest
        calls := s.calls + turnCost s.nodeState s.calls item
        metrics
        out := s.out ++ if sendsAt s.nodeState (s.calls, item) then [item.sending] else [] }
      refine ⟨s', ?_, hpending, ?_⟩
      · rw [forwardPending_cons hqueue, run_bind_of_ok hitem]
        exact hrun
      · rw [hout, List.append_assoc, turns, List.filter_cons]
        -- a turn that does not send adds no output
        split
        · rfl
        · rfl

theorem maybeRotateRelayKeypair_run (s : NodeRunner) :
    ∃ relayIdentity, maybeRotateRelayKeypair s
      = .ok () { s with calls := evictCall s, relayIdentity } := by
  have hrun : maybeRotateRelayKeypair s
      = (if relayKeyRotationSecs < (World.instant s.calls - s.relayIdentity.createdAt) / 1000 then do
          let keypair ← worldCall World.generateKeypair
          let createdAt ← worldCall World.instant
          modify fun s => { s with relayIdentity := { keypair, createdAt } }
        else pure () : NodeM Unit) { s with calls := s.calls + 1 } := rfl
  rw [hrun]
  unfold evictCall
  split
  · -- a new key: two more calls
    exact ⟨_, rfl⟩
  · exact ⟨s.relayIdentity, rfl⟩

/-- A tick drops what has expired, takes the first entries and sends those that may be sent. -/
theorem forwardOnce_run (s : NodeRunner) :
    ∃ s', forwardOnce s = .ok () s'
      ∧ s'.pending = (freshPending s).drop (forwardBudget s.nodeState)
      ∧ s'.out = s.out ++ ((forwardTurns s).filter (sendsAt s.nodeState)).map
          fun turn => turn.2.sending := by
  obtain ⟨relayIdentity, hrotate⟩ := maybeRotateRelayKeypair_run s
  obtain ⟨s', hrun, hpending, hout⟩ := forwardPending_run (forwardBudget s.nodeState) { s with
    calls := evictCall s + 1
    relayIdentity
    pending := freshPending s }
  refine ⟨{ s' with metrics := { s'.metrics with
    pendingQueueSize := s'.pending.length
    seenCacheSize := s'.seenCache.len
    connectedPeers := s'.transport.connectedPeerCount
    maxPeers := s'.transport.maxDirectPeers
    peerCapRejections := s'.transport.peerCapRejections } }, ?_, hpending, hout⟩
  have hevict : evictExpired { s with calls := evictCall s, relayIdentity }
      = .ok () { s with calls := evictCall s + 1, relayIdentity, pending := freshPending s } := rfl
  unfold forwardOnce
  rw [run_bind_of_ok hrotate, run_bind_of_ok hevict]
  exact (run_bind_of_ok hrun).trans rfl

/-! ## What is lost -/

/-- The tick does not find the entry expired, whenever it looks. -/
def Unexpired (s : NodeRunner) (item : PendingMessage) : Prop :=
  item.message.isExpired (World.clock (evictCall s)) = false
    ∧ ∀ n, (n, item) ∈ forwardTurns s → item.message.isExpired (World.clock n) = false

/-- Every copy of the entry is queued still, or was sent. -/
def Conserved (s s' : NodeRunner) (item : PendingMessage) : Prop :=
  s.pending.count item + s.out.count item.sending
    = s'.pending.count item + s'.out.count item.sending

/-- An entry is conserved if it is sent in all its turns, and only then. -/
theorem conserved_iff {s s' : NodeRunner} {item : PendingMessage} (hunexpired : Unexpired s item)
    (hpending : s'.pending = (freshPending s).drop (forwardBudget s.nodeState))
    (hout : s'.out = s.out ++ ((forwardTurns s).filter (sendsAt s.nodeState)).map
      fun turn => turn.2.sending) :
    Conserved s s' item ↔ ∀ n, (n, item) ∈ forwardTurns s → sendsAt s.nodeState (n, item) = true := by
  have hitems : ∀ l : List (Nat × PendingMessage),
      (l.map Prod.snd).count item = l.countP fun turn => turn.2 == item :=
    fun _ => List.countP_map
  -- what has left the queue had its turn, since it has not expired
  have hqueued : s.pending.count item
      = (forwardTurns s).countP (fun turn => turn.2 == item) + s'.pending.count item := by
    have hfresh : s.pending.count item = (freshPending s).count item :=
      (List.count_filter (by rw [hunexpired.1]; rfl)).symm
    rw [hfresh, hpending, ← List.take_append_drop (forwardBudget s.nodeState) (freshPending s),
      List.count_append, List.take_append_drop, ← turns_items (turnCost s.nodeState) _ _
        (evictCall s + 1), hitems]
    rfl
  -- what was sent was sent in a turn
  have hsent : s'.out.count item.sending = s.out.count item.sending
      + (forwardTurns s).countP (fun turn => turn.2 == item && sendsAt s.nodeState turn) := by
    have hmap : (((forwardTurns s).filter (sendsAt s.nodeState)).map fun turn => turn.2.sending)
        = (((forwardTurns s).filter (sendsAt s.nodeState)).map Prod.snd).map
            PendingMessage.sending := by
      rw [List.map_map]
      rfl
    rw [hout, List.count_append, hmap, List.count_map_of_injective _ _ sending_injective, hitems,
      List.countP_filter]
  have hcount : Conserved s s' item ↔ (forwardTurns s).countP (fun turn => turn.2 == item)
      = (forwardTurns s).countP (fun turn => turn.2 == item && sendsAt s.nodeState turn) := by
    unfold Conserved
    omega
  rw [hcount, countP_eq_and_iff]
  refine ⟨?_, ?_⟩
  · intro h n hturn
    exact h (n, item) hturn (beq_self_eq_true item)
  · rintro h ⟨n, item'⟩ hturn hitem
    obtain rfl := eq_of_beq hitem
    exact h n hturn

/-- **Forward ticks that lose nothing.** Whatever is in the queue, in any energy state, with any
clock and any transport, a forward tick returns; and every entry that it does not find expired is
sent or still queued, exactly if each of those that have their turn may be forwarded in the energy
state and the transport takes it. -/
theorem forward_conserves_iff (s : NodeRunner) :
    ∃ s', forwardOnce s = .ok () s'
      ∧ ((∀ item, Unexpired s item → Conserved s s' item)
        ↔ ∀ n item, (n, item) ∈ forwardTurns s → Unexpired s item →
          canForward s.nodeState item.message.envelope.priority = true
            ∧ World.sendOk (n + 1) item.toPeer = true) := by
  obtain ⟨s', hrun, hpending, hout⟩ := forwardOnce_run s
  refine ⟨s', hrun, ?_⟩
  have hsends : ∀ n item, (n, item) ∈ forwardTurns s → Unexpired s item →
      (sendsAt s.nodeState (n, item) = true
        ↔ canForward s.nodeState item.message.envelope.priority = true
          ∧ World.sendOk (n + 1) item.toPeer = true) := by
    intro n item hturn hunexpired
    unfold sendsAt
    simp only
    rw [hunexpired.2 n hturn, Bool.not_false, Bool.true_and, Bool.and_eq_true]
  constructor
  · intro h n item hturn hunexpired
    exact (hsends n item hturn hunexpired).mp
      ((conserved_iff hunexpired hpending hout).mp (h item hunexpired) n hturn)
  · intro h item hunexpired
    refine (conserved_iff hunexpired hpending hout).mpr fun n hturn => ?_
    exact (hsends n item hturn hunexpired).mpr (h n item hturn hunexpired)

end

section

attribute [local instance] symbolicPrims

/-- A message of normal priority to forward. -/
def restingItem : PendingMessage := { toPeer := "a", message := symbolicMessage 1 "a" 5000000 }

/-- A passive node that has it in its queue. -/
def restingNode : NodeRunner :=
  { symbolicNode 2 3 5000000 with nodeState := .passive, pending := [restingItem] }

/-- The message is taken from the queue and not sent. -/
theorem forward_loses_normal :
    ¬ ∃ s', @forwardOnce (stillWorld 5000000) restingNode = .ok () s'
      ∧ ∀ item, @Unexpired (stillWorld 5000000) restingNode item → Conserved restingNode s' item := by
  let _ : World := stillWorld 5000000
  rintro ⟨s', hrun, hconserved⟩
  obtain ⟨s'', hrun', hpending, hout⟩ := forwardOnce_run restingNode
  obtain rfl := (EStateM.Result.ok.inj (hrun.symm.trans hrun')).2
  have hunexpired : Unexpired restingNode restingItem := ⟨rfl, fun _ _ => rfl⟩
  have hevict : evictCall restingNode = 1 := by decide
  have hturns : forwardTurns restingNode = [(2, restingItem)] := by
    unfold forwardTurns
    rw [hevict]
    rfl
  have hsent := (conserved_iff hunexpired hpending hout).mp (hconserved restingItem hunexpired) 2
    (hturns ▸ List.mem_singleton.mpr rfl)
  exact absurd hsent (by decide)

end

end Mycelium.Node

import Mycelium.Sim.Moves

/-!
# Mycelium simulator — the metrics

What the metrics of a simulation say about the messages in it. A `Receipt` is an event on the channel
of a node.

* `deliveries_counted` — what is processed is received or dropped for want of bandwidth; the bytes,
  the deliveries and the duplicates are those of the receipts;
* `message_conservation` — a message that was sent is waiting, dropped or received;
* `bandwidth_kept` — a node receives no more in a second than its bandwidth.

The counters wrap, so the equations are those of machine words.
-/

namespace Mycelium.Sim

/-- The action is a message to one node. -/
def SimAction.isDirect : SimAction → Bool
  | .sendDirect .. => true
  | .publishScoped .. => false

/-- An event that a node has received, and when. -/
structure Receipt where
  peerId : String
  atMs : UInt64
  event : TransportEvent

/-- Under what a receipt is counted as a delivery. -/
def Receipt.key (r : Receipt) : Option String :=
  match r.event with
  | .directReceived _ message =>
    (deliveredKeyFields message r.peerId).map fun fields => r.peerId ++ ":" ++ fields.1
  | _ => none

/-! ## The tally of deliveries -/

/-- What `record_delivery` keeps. -/
structure Tally where
  ids : KvTree.Of String UInt64
  delivered : UInt64
  duplicates : UInt64
  latencies : List UInt64

namespace Tally

/-- One receipt is recorded. -/
inductive Records (t : Tally) : Option String → Tally → Prop
  | unkeyed : Records t none t
  | again {key : String} (now : UInt64) (hknown : key ∈ t.ids) :
      Records t (some key) { t with ids := t.ids.insert key now, duplicates := t.duplicates + 1 }
  | first {key : String} (now latency : UInt64) (hnew : key ∉ t.ids) :
      Records t (some key) { t with
        ids := t.ids.insert key now
        delivered := t.delivered + 1
        latencies := t.latencies ++ [latency] }

/-- The tally is one of receipts with these keys. -/
structure Counts (t : Tally) (keys : List String) : Prop where
  all : t.delivered + t.duplicates = UInt64.ofNat keys.length
  ids : ∀ key, key ∈ t.ids ↔ key ∈ keys
  once : t.delivered = UInt64.ofNat t.ids.keys.length
  latencies : t.latencies.length = t.ids.keys.length

/-- The order of the ids does not matter. -/
theorem Counts.perm {t : Tally} {keys keys' : List String} (h : t.Counts keys)
    (hperm : keys.Perm keys') : t.Counts keys' :=
  ⟨h.all.trans (by rw [hperm.length_eq]), fun key => (h.ids key).trans hperm.mem_iff, h.once,
    h.latencies⟩

/-- An id that was entered before is entered again in its place. -/
theorem length_insert_of_mem {ids : KvTree.Of String UInt64} {key : String} (now : UInt64)
    (h : key ∈ ids) : (ids.insert key now).keys.length = ids.keys.length := by
  rw [AList.keys_insert, List.length_cons, List.length_erase_of_mem h]
  have hpos := List.length_pos_of_mem h
  omega

/-- A new id is one more. -/
theorem length_insert_of_notMem {ids : KvTree.Of String UInt64} {key : String} (now : UInt64)
    (h : key ∉ ids) : (ids.insert key now).keys.length = ids.keys.length + 1 := by
  have hkeys : key ∉ ids.keys := h
  rw [AList.keys_insert, List.length_cons, List.erase_of_not_mem hkeys]

/-- One more message is counted. -/
theorem Counts.records {t t' : Tally} {keys : List String} (h : t.Counts keys) {key : Option String}
    (hrec : Records t key t') : t'.Counts (key.toList ++ keys) := by
  cases hrec with
  | unkeyed => exact h
  | @again key now hknown =>
    have hids : ∀ k, k ∈ t.ids.insert key now ↔ k ∈ key :: keys := by
      intro k
      rw [AList.mem_insert, List.mem_cons, h.ids]
    refine ⟨?_, hids, h.once.trans (by rw [length_insert_of_mem now hknown]),
      h.latencies.trans (length_insert_of_mem now hknown).symm⟩
    show t.delivered + (t.duplicates + 1) = UInt64.ofNat (keys.length + 1)
    rw [UInt64.ofNat_add, ← h.all, ← UInt64.add_assoc]
    rfl
  | @first key now latency hnew =>
    have hids : ∀ k, k ∈ t.ids.insert key now ↔ k ∈ key :: keys := by
      intro k
      rw [AList.mem_insert, List.mem_cons, h.ids]
    refine ⟨?_, hids, ?_, ?_⟩
    · show t.delivered + 1 + t.duplicates = UInt64.ofNat (keys.length + 1)
      rw [UInt64.ofNat_add, ← h.all]
      show _ = t.delivered + t.duplicates + 1
      grind
    · show t.delivered + 1 = UInt64.ofNat (t.ids.insert key now).keys.length
      rw [length_insert_of_notMem now hnew, UInt64.ofNat_add, ← h.once]
      rfl
    · show (t.latencies ++ [latency]).length = (t.ids.insert key now).keys.length
      rw [length_insert_of_notMem now hnew, List.length_append, h.latencies]
      rfl

end Tally

namespace SimulationRunner

variable {h : HashOrder} {sim sim' : SimulationRunner}

/-! ## Receipts -/

/-- What a node has received. -/
def receiptsOf (sim : SimulationRunner) (peerId : String) : List Receipt :=
  ((sim.eventTxs peerId).getD []).map fun x => ⟨peerId, x.1, x.2⟩

/-- What all nodes have received. -/
def receipts (sim : SimulationRunner) : List Receipt := sim.nodes.keys.flatMap sim.receiptsOf

/-- The same receipts, node by node. -/
theorem receipts_perm (hkeys : sim'.nodes.keys.Perm sim.nodes.keys)
    (htxs : sim'.eventTxs = sim.eventTxs) : sim'.receipts.Perm sim.receipts := by
  have hof : sim'.receiptsOf = sim.receiptsOf := by
    unfold receiptsOf
    rw [htxs]
  unfold receipts
  rw [hof]
  exact hkeys.flatMap_right _

/-- A node is known under its id. -/
theorem mem_keys_iff_knows {peerId : String} :
    peerId ∈ sim.nodes.keys ↔ sim.knows peerId = true := by
  unfold knows
  rw [AList.lookup_isSome, AList.mem_keys]

/-- Availability changes neither what nodes there are nor their bandwidths. -/
theorem keys_setOnline (sim : SimulationRunner) (peerId : String) (online : Bool) :
    (sim.setOnline peerId online).nodes.keys.Perm sim.nodes.keys := by
  unfold setOnline
  cases hnode : sim.nodes.lookup peerId with
  | none => exact .refl _
  | some node =>
    have hmem : peerId ∈ sim.nodes.keys :=
      mem_keys_iff_knows.mpr (by rw [knows, hnode]; rfl)
    show (sim.nodes.insert peerId _).keys.Perm _
    rw [AList.keys_insert]
    exact (List.perm_cons_erase hmem).symm

/-- What a node may receive in a second. -/
def budgetOf (sim : SimulationRunner) (peerId : String) : UInt64 :=
  ((sim.nodes.lookup peerId).map fun n => n.bandwidthBytesPerSec).getD 0

/-- Going online does not change a budget. -/
theorem budgetOf_setOnline (sim : SimulationRunner) (peerId : String) (online : Bool) :
    (sim.setOnline peerId online).budgetOf = sim.budgetOf := by
  unfold setOnline
  cases hnode : sim.nodes.lookup peerId with
  | none => rfl
  | some node =>
    funext p
    unfold budgetOf
    dsimp only
    by_cases hp : p = peerId
    · rw [hp, AList.lookup_insert, hnode]
      rfl
    · rw [AList.lookup_insert_ne hp]

/-! ## What a delivery does -/

def tally (sim : SimulationRunner) : Tally where
  ids := sim.deliveredIds
  delivered := sim.metrics.delivered
  duplicates := sim.metrics.duplicates
  latencies := sim.metrics.latenciesMs

/-- The counters that `record_delivery` leaves alone. -/
def dropped (sim : SimulationRunner) : UInt64 × UInt64 × UInt64 :=
  (sim.metrics.droppedOffline, sim.metrics.droppedLoss, sim.metrics.droppedBandwidth)

/-- The bytes of `event` have been received by `toPeer`. -/
structure Received (sim : SimulationRunner) (toPeer : String) (event : TransportEvent) (bytes : Nat)
    (sim' : SimulationRunner) : Prop where
  fits : U64.satAdd (sim.bandwidthUsage (toPeer, sim.clock.nowMs / 1000)) (UInt64.ofNat bytes)
    ≤ sim.budgetOf toPeer
  usage : sim'.bandwidthUsage = Function.update sim.bandwidthUsage (toPeer, sim.clock.nowMs / 1000)
    (U64.satAdd (sim.bandwidthUsage (toPeer, sim.clock.nowMs / 1000)) (UInt64.ofNat bytes))
  channel : sim'.eventTxs = Function.update sim.eventTxs toPeer
    ((sim.eventTxs toPeer).map (· ++ [(sim.clock.nowMs, event)]))
  sentBytes : sim'.metrics.sentBytes = sim.metrics.sentBytes + UInt64.ofNat bytes
  dropped : sim'.dropped = sim.dropped
  tally : sim.tally.Records (Receipt.key ⟨toPeer, sim.clock.nowMs, event⟩) sim'.tally

/-- What recording changes: the tally. -/
theorem recordDelivery_records {t : Tally} (htally : sim.tally = t) (toPeer fromPeer : String)
    (atMs : UInt64) (message : WireMessage) :
    t.Records (Receipt.key ⟨toPeer, atMs, .directReceived fromPeer message⟩)
      (sim.recordDelivery toPeer message).tally := by
  subst htally
  unfold recordDelivery Receipt.key
  dsimp only
  cases deliveredKeyFields message toPeer with
  | none => exact .unkeyed
  | some fields =>
    dsimp only [Option.map_some]
    split
    · next hknown => exact .again _ (AList.lookup_isSome.mp hknown)
    · next hnew => exact .first _ _ fun hmem => hnew (AList.lookup_isSome.mpr hmem)

/-- Recording a delivery counts nothing else. -/
theorem recordDelivery_frame (sim : SimulationRunner) (toPeer : String) (message : WireMessage) :
    (sim.recordDelivery toPeer message).bandwidthUsage = sim.bandwidthUsage
      ∧ (sim.recordDelivery toPeer message).eventTxs = sim.eventTxs
      ∧ (sim.recordDelivery toPeer message).metrics.sentBytes = sim.metrics.sentBytes
      ∧ (sim.recordDelivery toPeer message).dropped = sim.dropped := by
  unfold recordDelivery
  split
  · exact ⟨rfl, rfl, rfl, rfl⟩
  · dsimp only
    split <;> exact ⟨rfl, rfl, rfl, rfl⟩

/-- **A delivery that is processed** is received, or dropped for want of bandwidth. -/
theorem process_deliver_cases (sim : SimulationRunner) (toPeer : String) (event : TransportEvent)
    (bytes : Nat) :
    sim.process (.deliver toPeer event bytes) = { sim with
      metrics := { sim.metrics with droppedBandwidth := sim.metrics.droppedBandwidth + 1 } }
    ∨ Received sim toPeer event bytes (sim.process (.deliver toPeer event bytes)) := by
  unfold process consumeBandwidth
  dsimp only
  -- the budget of the second is spent or it is not; only then does the node hear anything
  split
  · next heq =>
    split at heq
    · obtain ⟨-, rfl⟩ := Prod.mk.inj heq
      exact .inl rfl
    · cases (Prod.mk.inj heq).1
  · next heq =>
    split at heq
    · cases (Prod.mk.inj heq).1
    · next hfits =>
      obtain ⟨-, rfl⟩ := Prod.mk.inj heq
      right
      cases event with
      | directReceived fromPeer message =>
        dsimp only
        obtain ⟨husage, hchannel, hbytes, hdropped⟩ := recordDelivery_frame _ toPeer message
        refine ⟨UInt64.not_lt.mp hfits, husage, hchannel, hbytes, hdropped,
          recordDelivery_records ?_ toPeer fromPeer _ message⟩
        rfl
      | _ => exact ⟨UInt64.not_lt.mp hfits, rfl, rfl, rfl, rfl, .unkeyed⟩

/-- One more entry under one key. -/
theorem flatMap_update {α β : Type} [DecidableEq α] {keys : List α} (hnodup : keys.Nodup) {key : α}
    (hkey : key ∈ keys) (f : α → List β) (x : β) :
    (keys.flatMap (Function.update f key (f key ++ [x]))).Perm (x :: keys.flatMap f) := by
  have hperm := List.perm_cons_erase hkey
  -- the other keys give what they gave
  have hrest : (keys.erase key).flatMap (Function.update f key (f key ++ [x]))
      = (keys.erase key).flatMap f := by
    refine List.flatMap_congr fun k hk => ?_
    rw [Function.update_of_ne (fun heq : k = key => hnodup.not_mem_erase (heq ▸ hk))]
  refine (hperm.flatMap_right _).trans (.trans ?_ ((hperm.flatMap_right f).symm.cons x))
  rw [List.flatMap_cons, List.flatMap_cons, hrest, Function.update_self, List.append_assoc]
  exact List.perm_middle

/-- What is received is on the channel of its node. -/
theorem Received.receipts {toPeer : String} {event : TransportEvent} {bytes : Nat}
    (hrec : Received sim toPeer event bytes sim') (hnodes : sim'.nodes = sim.nodes)
    (hknows : sim.knows toPeer = true) (hwired : (sim.eventTxs toPeer).isSome = true) :
    sim'.receipts.Perm (⟨toPeer, sim.clock.nowMs, event⟩ :: sim.receipts) := by
  have hof : sim'.receiptsOf = Function.update sim.receiptsOf toPeer
      (sim.receiptsOf toPeer ++ [⟨toPeer, sim.clock.nowMs, event⟩]) := by
    funext p
    obtain ⟨channel, hchannel⟩ := Option.isSome_iff_exists.mp hwired
    unfold receiptsOf
    rw [hrec.channel]
    by_cases hp : p = toPeer
    · subst hp
      rw [Function.update_self, Function.update_self, hchannel]
      simp
    · rw [Function.update_of_ne hp, Function.update_of_ne hp]
  unfold SimulationRunner.receipts
  rw [hof, hnodes]
  exact flatMap_update sim.nodes.keys_nodup (mem_keys_iff_knows.mpr hknows) _ _

/-! ## The accounts -/

/-- A scheduled delivery, as opposed to a change of availability. -/
def isDelivery (e : ScheduledEvent ScheduledAction) : Bool :=
  match e.payload with
  | .deliver .. => true
  | .availability .. => false

/-- How many deliveries are waiting for their time. -/
def waiting (sim : SimulationRunner) : Nat := sim.scheduler.queue.items.countP isDelivery

/-- How many have been processed. -/
def taken (sim : SimulationRunner) : Nat := sim.processed.countP isDelivery

/-- The bytes that a node has received in one second of virtual time. -/
def bytesIn (sim : SimulationRunner) (peerId : String) (sec : UInt64) : Nat :=
  ((sim.receipts.filter fun r => r.peerId = peerId ∧ r.atMs / 1000 = sec).map
    fun r => (UInt64.ofNat (eventSize r.event)).toNat).sum

/-- The event is no delivery, or one to a node that is registered. -/
def Addressed (sim : SimulationRunner) (e : ScheduledEvent ScheduledAction) : Prop :=
  ∀ toPeer event bytes, e.payload = .deliver toPeer event bytes →
    sim.knows toPeer = true ∧ bytes = eventSize event

/-- **The accounts of a simulation**, drawn up from the receipts. -/
structure Accounts (sim : SimulationRunner) : Prop where
  wired : ∀ peerId, sim.knows peerId = true → (sim.eventTxs peerId).isSome = true
  addressed : ∀ e ∈ sim.scheduler.queue.items, sim.Addressed e
  received : UInt64.ofNat sim.taken
    = sim.metrics.droppedBandwidth + UInt64.ofNat sim.receipts.length
  bytes : sim.metrics.sentBytes = UInt64.ofNat (sim.receipts.map fun r => eventSize r.event).sum
  counted : sim.tally.Counts (sim.receipts.filterMap Receipt.key)
  within : ∀ peerId sec, sim.bandwidthUsage (peerId, sec) ≤ sim.budgetOf peerId
  exact : ∀ peerId sec, (sim.budgetOf peerId).toNat < 2 ^ 64 - 1 →
    (sim.bandwidthUsage (peerId, sec)).toNat = sim.bytesIn peerId sec

/-- What was received in a second does not depend on the order. -/
theorem bytesIn_perm (hperm : sim'.receipts.Perm sim.receipts) (peerId : String) (sec : UInt64) :
    sim'.bytesIn peerId sec = sim.bytesIn peerId sec :=
  ((hperm.filter _).map _).sum_eq

/-- The known nodes are those in the table. -/
theorem knows_of_keys (hkeys : sim'.nodes.keys.Perm sim.nodes.keys) : sim'.knows = sim.knows := by
  funext p
  rw [Bool.eq_iff_iff, ← mem_keys_iff_knows, ← mem_keys_iff_knows]
  exact hkeys.mem_iff

/-- Nothing is received: what is counted as taken may have been dropped. -/
theorem Accounts.keep (acc : Accounts sim) (hkeys : sim'.nodes.keys.Perm sim.nodes.keys)
    (hbudget : sim'.budgetOf = sim.budgetOf) (htxs : sim'.eventTxs = sim.eventTxs)
    (husage : sim'.bandwidthUsage = sim.bandwidthUsage)
    (hbytes : sim'.metrics.sentBytes = sim.metrics.sentBytes) (htally : sim'.tally = sim.tally)
    (htaken : UInt64.ofNat sim'.taken
      = sim'.metrics.droppedBandwidth + UInt64.ofNat sim.receipts.length)
    (haddressed : ∀ e ∈ sim'.scheduler.queue.items,
      e ∈ sim.scheduler.queue.items ∨ sim.Addressed e) : Accounts sim' := by
  have hknows := knows_of_keys hkeys
  have hreceipts := receipts_perm hkeys htxs
  -- each part of the books reads one of the fields that are kept
  refine ⟨fun p hp => ?_, fun e he => ?_, ?_, ?_, ?_, fun p sec => ?_, fun p sec hp => ?_⟩
  · rw [htxs]
    exact acc.wired p (by rw [← hknows]; exact hp)
  · unfold Addressed
    rw [hknows]
    exact (haddressed e he).elim (acc.addressed e) id
  · rw [hreceipts.length_eq]
    exact htaken
  · rw [hbytes, acc.bytes, (hreceipts.map _).sum_eq]
  · rw [htally]
    exact acc.counted.perm (hreceipts.symm.filterMap _)
  · rw [husage, hbudget]
    exact acc.within p sec
  · rw [hbudget] at hp
    rw [husage, bytesIn_perm hreceipts]
    exact acc.exact p sec hp

/-- An attempt leaves the receipts alone. -/
theorem Accounts.attempt (acc : Accounts sim) {toPeer : String} {event : TransportEvent}
    (hatt : Attempt sim toPeer event sim') : Accounts sim' := by
  cases hatt with
  | offline => exact acc.keep (.refl _) rfl rfl rfl rfl rfl acc.received fun e he => .inl he
  | lost rngState => exact acc.keep (.refl _) rfl rfl rfl rfl rfl acc.received fun e he => .inl he
  | scheduled rngState atMs hknows =>
    refine acc.keep (.refl _) rfl rfl rfl rfl rfl acc.received fun e he => ?_
    rcases List.mem_cons.mp ((MaxHeap.perm_push _ _).subset he) with rfl | hold
    · refine .inr fun p ev b hpayload => ?_
      obtain ⟨rfl, rfl, rfl⟩ := ScheduledAction.deliver.inj hpayload
      exact ⟨hknows, rfl⟩
    · exact .inl hold

/-- A receipt is entered in the accounts. -/
theorem Accounts.receive (acc : Accounts sim) {toPeer : String} {event : TransportEvent}
    (hrec : Received sim toPeer event (eventSize event) sim') (hnodes : sim'.nodes = sim.nodes)
    (hknows : sim.knows toPeer = true) (hscheduler : sim'.scheduler.queue.items ⊆ sim.scheduler.queue.items)
    (htaken : sim'.taken = sim.taken + 1) : Accounts sim' := by
  have hperm := hrec.receipts hnodes hknows (acc.wired toPeer hknows)
  have hsame : sim'.knows = sim.knows := knows_of_keys (by rw [hnodes])
  have hbudget : sim'.budgetOf = sim.budgetOf := by
    unfold budgetOf
    rw [hnodes]
  refine ⟨fun p hp => ?_, fun e he => ?_, ?_, ?_, ?_, fun p sec => ?_, fun p sec hp => ?_⟩
  · rw [hsame] at hp
    rw [hrec.channel]
    by_cases htp : p = toPeer
    · rw [htp, Function.update_self, Option.isSome_map]
      exact acc.wired toPeer hknows
    · rw [Function.update_of_ne htp]
      exact acc.wired p hp
  · unfold Addressed
    rw [hsame]
    exact acc.addressed e (hscheduler he)
  · have hdropped : sim'.metrics.droppedBandwidth = sim.metrics.droppedBandwidth :=
      congrArg (fun d => d.2.2) hrec.dropped
    rw [htaken, hperm.length_eq, List.length_cons, UInt64.ofNat_add, UInt64.ofNat_add, acc.received,
      hdropped, UInt64.add_assoc]
  · rw [hrec.sentBytes, acc.bytes, (hperm.map _).sum_eq, List.map_cons, List.sum_cons,
      UInt64.ofNat_add, UInt64.add_comm]
  · refine (acc.counted.records hrec.tally).perm ?_
    refine .trans ?_ (hperm.symm.filterMap Receipt.key)
    rw [List.filterMap_cons]
    cases Receipt.key ⟨toPeer, sim.clock.nowMs, event⟩ <;> exact .refl _
  · rw [hrec.usage, hbudget]
    by_cases hkey : (p, sec) = (toPeer, sim.clock.nowMs / 1000)
    · rw [hkey, Function.update_self, (Prod.mk.inj hkey).1]
      exact hrec.fits
    · rw [Function.update_of_ne hkey]
      exact acc.within p sec
  · rw [hbudget] at hp
    have hold := acc.exact p sec hp
    have hin : sim'.bytesIn p sec
        = if p = toPeer ∧ sec = sim.clock.nowMs / 1000
          then (UInt64.ofNat (eventSize event)).toNat + sim.bytesIn p sec
          else sim.bytesIn p sec := by
      unfold bytesIn
      rw [((hperm.filter _).map _).sum_eq, List.filter_cons]
      by_cases hhere : p = toPeer ∧ sec = sim.clock.nowMs / 1000
      · rw [if_pos hhere, if_pos (decide_eq_true ⟨hhere.1.symm, hhere.2.symm⟩), List.map_cons,
          List.sum_cons]
      · rw [if_neg hhere, if_neg]
        rintro heq
        obtain ⟨hp', hsec⟩ := of_decide_eq_true heq
        exact hhere ⟨hp'.symm, hsec.symm⟩
    rw [hin, hrec.usage]
    by_cases hhere : p = toPeer ∧ sec = sim.clock.nowMs / 1000
    · obtain ⟨rfl, rfl⟩ := hhere
      rw [if_pos ⟨rfl, rfl⟩, Function.update_self]
      -- the sum is below the budget, so it does not saturate
      have hfits := U64.le_iff.mp hrec.fits
      rw [U64.toNat_satAdd] at hfits ⊢
      omega
    · rw [if_neg hhere, Function.update_of_ne fun heq => hhere (Prod.mk.inj heq)]
      exact hold

/-- Processing a delivery counts it as taken. -/
theorem taken_take (sim : SimulationRunner) {e : ScheduledEvent ScheduledAction} {toPeer : String}
    {event : TransportEvent} {bytes : Nat} (hpayload : e.payload = .deliver toPeer event bytes) :
    (sim.take e).taken = sim.taken + 1 := by
  unfold taken take
  dsimp only
  rw [List.countP_append, List.countP_cons_of_pos (by unfold isDelivery; rw [hpayload])]
  rfl

/-- **Every move keeps the accounts.** -/
theorem Accounts.move (acc : Accounts sim) (hmove : Move h sim sim') : Accounts sim' := by
  cases hmove with
  | link a b profile => exact acc.keep (.refl _) rfl rfl rfl rfl rfl acc.received fun e he => .inl he
  | availability peerId atMs online =>
    refine acc.keep (.refl _) rfl rfl rfl rfl rfl acc.received fun e he => ?_
    rcases List.mem_cons.mp ((MaxHeap.perm_push _ _).subset he) with rfl | hold
    · exact .inr fun _ _ _ hpayload => by cases hpayload
    · exact .inl hold
  | tick t => exact acc.keep (.refl _) rfl rfl rfl rfl rfl acc.received fun e he => .inl he
  | @action a rest hactions =>
    -- an action is a series of attempts, each of which keeps the books
    refine scheduleAction_of_attempts (P := Accounts) (fun s iterations hs => ?_)
      (fun s s' toPeer event hs hatt => hs.attempt hatt) { sim with actions := rest } ?_ a
    · exact hs.keep (.refl _) rfl rfl rfl rfl rfl hs.received fun e he => .inl he
    · exact acc.keep (.refl _) rfl rfl rfl rfl rfl acc.received fun e he => .inl he
  | @event e hpeek hdue =>
    have hitems := MaxHeap.items_of_peek hpeek
    have hsub : (sim.take e).scheduler.queue.items ⊆ sim.scheduler.queue.items := by
      rw [hitems]
      exact List.subset_cons_self _ _
    -- an event of availability is no delivery, so nothing is taken from the queue of deliveries
    cases hpayload : e.payload with
    | availability peerId online =>
      have htake : (sim.take e).taken = sim.taken := by
        unfold taken take
        dsimp only
        rw [List.countP_append, List.countP_cons_of_neg (by unfold isDelivery; rw [hpayload]; simp)]
        rfl
      obtain ⟨-, hscheduler, -, -, -, hprocessed, -⟩ :=
        process_frame (sim.take e) (.availability peerId online)
      have hframe : ∀ s : SimulationRunner, (s.setOnline peerId online).eventTxs = s.eventTxs
          ∧ (s.setOnline peerId online).bandwidthUsage = s.bandwidthUsage
          ∧ (s.setOnline peerId online).metrics = s.metrics
          ∧ (s.setOnline peerId online).tally = s.tally := by
        intro s
        unfold setOnline
        split <;> exact ⟨rfl, rfl, rfl, rfl⟩
      obtain ⟨htxs, husage, hmetrics, htally⟩ := hframe (sim.take e)
      refine acc.keep (keys_setOnline (sim.take e) peerId online)
        (budgetOf_setOnline (sim.take e) peerId online) htxs husage
        (congrArg SimulationMetrics.sentBytes hmetrics) htally ?_ fun x hx => .inl (hsub ?_)
      · rw [show ((sim.take e).process (.availability peerId online)).taken = sim.taken from
          (congrArg (List.countP isDelivery) hprocessed).trans htake, acc.received]
        exact congrArg (fun m : SimulationMetrics => m.droppedBandwidth + _) hmetrics.symm
      · rw [← hscheduler]
        exact hx
    | deliver toPeer event bytes =>
      obtain ⟨hknows, rfl⟩ := acc.addressed e (MaxHeap.mem_of_peek hpeek) _ _ _ hpayload
      obtain ⟨-, hscheduler, -, -, -, hprocessed, -⟩ :=
        process_frame (sim.take e) (.deliver toPeer event (eventSize event))
      have htaken : ((sim.take e).process (.deliver toPeer event (eventSize event))).taken
          = sim.taken + 1 :=
        (congrArg (List.countP isDelivery) hprocessed).trans (taken_take sim hpayload)
      -- the delivery is refused for bandwidth or it is received, and taken in either case
      rcases process_deliver_cases (sim.take e) toPeer event (eventSize event) with hdrop | hrec
      · rw [hdrop] at htaken ⊢
        refine acc.keep (.refl _) rfl rfl rfl rfl rfl ?_ fun x hx => .inl (hsub hx)
        rw [htaken, UInt64.ofNat_add, acc.received]
        show _ + 1 = sim.metrics.droppedBandwidth + 1 + _
        grind
      · exact acc.receive ⟨hrec.fits, hrec.usage, hrec.channel, hrec.sentBytes,
          hrec.dropped, hrec.tally⟩ (nodes_deliver _ _ _ _) hknows (by rw [hscheduler]; exact hsub)
          htaken

/-- A node that is registered has received nothing yet. -/
theorem Accounts.register (acc : Accounts sim) {peerId : String}
    (hnew : sim.knows peerId = false) (bandwidth : UInt64) :
    Accounts (sim.registerNode peerId bandwidth) := by
  have hnotin : peerId ∉ sim.nodes.keys := by
    rw [mem_keys_iff_knows, hnew]
    exact Bool.false_ne_true
  have hkeys : (sim.registerNode peerId bandwidth).nodes.keys = peerId :: sim.nodes.keys := by
    show (sim.nodes.insert peerId _).keys = _
    rw [AList.keys_insert, List.erase_of_not_mem hnotin]
  have hreceipts : (sim.registerNode peerId bandwidth).receipts = sim.receipts := by
    unfold receipts
    rw [hkeys, List.flatMap_cons]
    have hnone : (sim.registerNode peerId bandwidth).receiptsOf peerId = [] := by
      show List.map _ ((Function.update sim.eventTxs peerId (some []) peerId).getD []) = []
      rw [Function.update_self]
      rfl
    rw [hnone, List.nil_append]
    refine List.flatMap_congr fun p hp => ?_
    show List.map _ ((Function.update sim.eventTxs peerId (some []) p).getD []) = _
    rw [Function.update_of_ne (fun heq : p = peerId => hnotin (heq ▸ hp))]
    rfl
  have hknows : ∀ p, sim.knows p = true → (sim.registerNode peerId bandwidth).knows p = true := by
    intro p hp
    rw [← mem_keys_iff_knows, hkeys]
    exact List.mem_cons_of_mem _ (mem_keys_iff_knows.mpr hp)
  have hbudget : ∀ p, p ≠ peerId →
      (sim.registerNode peerId bandwidth).budgetOf p = sim.budgetOf p := by
    intro p hp
    unfold budgetOf registerNode
    dsimp only
    rw [AList.lookup_insert_ne hp]
  have hnone : sim.budgetOf peerId = 0 := by
    unfold knows at hnew
    unfold budgetOf
    rw [Option.isSome_eq_false_iff, Option.isNone_iff_eq_none] at hnew
    rw [hnew]
    rfl
  -- without a budget nothing could be used
  have hunused : ∀ sec, sim.bandwidthUsage (peerId, sec) = 0 := by
    intro sec
    have hle := U64.le_iff.mp (acc.within peerId sec)
    rw [hnone] at hle
    exact UInt64.toNat_inj.mp (Nat.le_zero.mp hle)
  refine ⟨fun p hp => ?_, fun e he p event bytes hpayload => ?_, ?_, ?_, ?_, fun p sec => ?_,
    fun p sec hp => ?_⟩
  · show (Function.update sim.eventTxs peerId (some []) p).isSome = true
    by_cases heq : p = peerId
    · rw [heq, Function.update_self]
      rfl
    · rw [Function.update_of_ne heq]
      rw [knows_registerNode _ _ heq] at hp
      exact acc.wired p hp
  · obtain ⟨hk, hbytes⟩ := acc.addressed e he p event bytes hpayload
    exact ⟨hknows p hk, hbytes⟩
  · rw [hreceipts]
    exact acc.received
  · rw [hreceipts]
    exact acc.bytes
  · rw [hreceipts]
    exact acc.counted
  · show sim.bandwidthUsage (p, sec) ≤ _
    by_cases heq : p = peerId
    · rw [heq, hunused]
      exact UInt64.zero_le
    · rw [hbudget p heq]
      exact acc.within p sec
  · have hsame : (sim.registerNode peerId bandwidth).bytesIn p sec = sim.bytesIn p sec := by
      unfold bytesIn
      rw [hreceipts]
    rw [hsame]
    by_cases heq : p = peerId
    · refine acc.exact p sec ?_
      rw [heq, hnone]
      decide
    · rw [hbudget p heq] at hp
      exact acc.exact p sec hp

/-- A new simulation has nothing to account for. -/
theorem accounts_new (startMs seed : UInt64) : Accounts (new startMs seed) := by
  refine ⟨nofun, nofun, rfl, rfl, ⟨rfl, ?_, rfl, rfl⟩, fun _ _ => ?_, fun _ _ _ => rfl⟩
  · exact fun key => ⟨fun hk => absurd hk (AList.notMem_empty key), nofun⟩
  · exact UInt64.zero_le

/-- **The accounts of every simulation.** -/
theorem runOps_accounts {startMs seed : UInt64} {ops : List SimOp} (hnodup : (registered ops).Nodup)
    (hrun : runOps h (new startMs seed) ops = some sim) : Accounts sim :=
  runOps_induction (P := fun _ s => Accounts s) (fun _ _ _ acc hmove => acc.move hmove)
    (fun _ _ _ acc => acc.keep (.refl _) rfl rfl rfl rfl rfl acc.received fun _ he => .inl he)
    (fun _ _ _ bandwidth acc hnew => acc.register hnew bandwidth) (accounts_new _ _) hnodup
    (fun _ _ => rfl) hrun

/-! ## The messages that were sent -/

/-- What was sent is on the channel of actions, dropped, or else scheduled; a publication may be any
number of messages. -/
structure Balanced (actions : List SimAction) (sim : SimulationRunner) : Prop where
  sub : sim.actions ⊆ actions
  all : (∀ a ∈ actions, a.isDirect = true) → UInt64.ofNat actions.length
    = UInt64.ofNat sim.actions.length + sim.metrics.droppedOffline + sim.metrics.droppedLoss
      + UInt64.ofNat (sim.waiting + sim.taken)

/-- The counters of the messages that were never scheduled. -/
theorem dropped_process (sim : SimulationRunner) (a : ScheduledAction) :
    (sim.process a).metrics.droppedOffline = sim.metrics.droppedOffline
      ∧ (sim.process a).metrics.droppedLoss = sim.metrics.droppedLoss := by
  cases a with
  | availability peerId online =>
    show (sim.setOnline peerId online).metrics.droppedOffline = _
      ∧ (sim.setOnline peerId online).metrics.droppedLoss = _
    unfold setOnline
    split <;> exact ⟨rfl, rfl⟩
  | deliver toPeer event bytes =>
    rcases process_deliver_cases sim toPeer event bytes with hdrop | hrec
    · rw [hdrop]
      exact ⟨rfl, rfl⟩
    · exact ⟨congrArg Prod.fst hrec.dropped, congrArg (fun d => d.2.1) hrec.dropped⟩

/-- An event that is processed was waiting. -/
theorem waiting_add_taken {e : ScheduledEvent ScheduledAction}
    (hpeek : sim.scheduler.queue.peek = some e) :
    ((sim.take e).process e.payload).waiting + ((sim.take e).process e.payload).taken
      = sim.waiting + sim.taken := by
  obtain ⟨-, hscheduler, -, -, -, hprocessed, -⟩ := process_frame (sim.take e) e.payload
  unfold waiting taken
  rw [hscheduler, hprocessed, MaxHeap.items_of_peek hpeek]
  show List.countP isDelivery sim.scheduler.queue.tail.items
    + List.countP isDelivery (sim.processed ++ [e]) = _
  rw [List.countP_append, List.countP_singleton, List.countP_cons]
  omega

/-- An attempt drops a message or schedules it. -/
theorem balance_attempt {n : UInt64} {toPeer : String} {event : TransportEvent}
    (hatt : Attempt sim toPeer event sim')
    (hall : n = sim.metrics.droppedOffline + sim.metrics.droppedLoss
      + UInt64.ofNat (sim.waiting + sim.taken)) :
    n + 1 = sim'.metrics.droppedOffline + sim'.metrics.droppedLoss
      + UInt64.ofNat (sim'.waiting + sim'.taken) := by
  -- an attempt ends offline, lost, or with one delivery more in the queue
  cases hatt with
  | offline =>
    show _ = sim.metrics.droppedOffline + 1 + sim.metrics.droppedLoss
      + UInt64.ofNat (sim.waiting + sim.taken)
    rw [hall]
    grind
  | lost rngState =>
    show _ = sim.metrics.droppedOffline + (sim.metrics.droppedLoss + 1)
      + UInt64.ofNat (sim.waiting + sim.taken)
    rw [hall]
    grind
  | scheduled rngState atMs hknows =>
    have hwaiting : (sim.scheduler.push atMs
        (.deliver toPeer event (eventSize event))).queue.items.countP isDelivery
        = sim.waiting + 1 := by
      show (sim.scheduler.queue.push _).items.countP isDelivery = _
      rw [(MaxHeap.perm_push _ _).countP_eq]
      exact List.countP_cons_of_pos rfl
    show _ = sim.metrics.droppedOffline + sim.metrics.droppedLoss
      + UInt64.ofNat (List.countP isDelivery _ + sim.taken)
    rw [hall, hwaiting, Nat.add_right_comm, UInt64.ofNat_add (sim.waiting + sim.taken)]
    exact UInt64.add_assoc _ _ _

/-- **Every move keeps the balance.** -/
theorem Balanced.move {actions : List SimAction} (hbal : Balanced actions sim)
    (hmove : Move h sim sim') : Balanced actions sim' := by
  cases hmove with
  | link a b profile => exact ⟨hbal.sub, hbal.all⟩
  | tick t => exact ⟨hbal.sub, hbal.all⟩
  | availability peerId atMs online =>
    have hwaiting : (sim.scheduleAvailability peerId atMs online).waiting = sim.waiting := by
      unfold waiting
      rw [show (sim.scheduleAvailability peerId atMs online).scheduler.queue.items.countP isDelivery
        = _ from (MaxHeap.perm_push _ _).countP_eq _]
      exact List.countP_cons_of_neg Bool.false_ne_true
    refine ⟨hbal.sub, fun hdirect => ?_⟩
    rw [hwaiting]
    exact hbal.all hdirect
  | @action a rest hactions =>
    have hrest : (({ sim with actions := rest } : SimulationRunner).scheduleAction h a).actions
        = rest := actions_scheduleAction _ a
    have hsub := hbal.sub
    rw [hactions] at hsub
    refine ⟨?_, fun hdirect => ?_⟩
    · rw [hrest]
      exact fun x hx => hsub (List.mem_cons_of_mem a hx)
    · have hall := hbal.all hdirect
      rw [hrest]
      -- a direct message is one attempt
      cases a with
      | publishScoped fromPeer scope payload =>
        exact absurd (hdirect _ (hsub List.mem_cons_self)) Bool.false_ne_true
      | sendDirect fromPeer toPeer message =>
        have hatt : Attempt { sim with actions := rest } toPeer (.directReceived fromPeer message)
            (({ sim with actions := rest } : SimulationRunner).scheduleAction h
              (.sendDirect fromPeer toPeer message)) :=
          scheduleDirect_attempt _ fromPeer toPeer message
        have hnext := balance_attempt hatt rfl
        rw [hactions, List.length_cons, UInt64.ofNat_add] at hall
        rw [UInt64.add_assoc, UInt64.add_assoc, ← UInt64.add_assoc _ _ (UInt64.ofNat (_ + _)), ← hnext,
          hall]
        show UInt64.ofNat rest.length + 1 + sim.metrics.droppedOffline + sim.metrics.droppedLoss
          + UInt64.ofNat (sim.waiting + sim.taken) = UInt64.ofNat rest.length
            + (sim.metrics.droppedOffline + sim.metrics.droppedLoss
              + UInt64.ofNat (sim.waiting + sim.taken) + 1)
        grind
  | @event e hpeek _ =>
    obtain ⟨-, -, -, -, hactions, -, -⟩ := process_frame (sim.take e) e.payload
    obtain ⟨hoffline, hloss⟩ := dropped_process (sim.take e) e.payload
    have hactions' : ((sim.take e).process e.payload).actions = sim.actions := hactions
    refine ⟨?_, fun hdirect => ?_⟩
    · rw [hactions']
      exact hbal.sub
    · rw [hactions', hoffline, hloss, waiting_add_taken hpeek]
      exact hbal.all hdirect

/-- **The balance of every simulation.** -/
theorem runOps_balanced {startMs seed : UInt64} {ops : List SimOp} (hnodup : (registered ops).Nodup)
    (hrun : runOps h (new startMs seed) ops = some sim) : Balanced (sent ops) sim :=
  runOps_induction (P := Balanced) (fun _ _ _ hbal hmove => hbal.move hmove)
    (fun actions s a hbal => by
      refine ⟨List.append_subset.mpr ⟨fun x hx => List.mem_append_left _ (hbal.sub hx), ?_⟩, ?_⟩
      · exact fun x hx => List.mem_append_right _ hx
      · intro hdirect
        have hall := hbal.all fun x hx => hdirect x (List.mem_append_left _ hx)
        rw [List.length_append, List.length_append, UInt64.ofNat_add, UInt64.ofNat_add, hall]
        show UInt64.ofNat s.actions.length + s.metrics.droppedOffline + s.metrics.droppedLoss
            + UInt64.ofNat (s.waiting + s.taken) + 1
          = UInt64.ofNat s.actions.length + 1 + s.metrics.droppedOffline + s.metrics.droppedLoss
            + UInt64.ofNat (s.waiting + s.taken)
        grind)
    (fun _ _ _ _ hbal _ => ⟨hbal.sub, hbal.all⟩)
    ⟨List.Subset.refl _, fun _ => rfl⟩ hnodup
    (fun _ _ => rfl) hrun

/-! ## What the metrics say -/

/-- **No message is lost from the books.** In every simulation of direct messages, each one that was
sent is waiting on the channel of actions or in the scheduler, has been dropped for one of the three
reasons, or is on the channel of its node. -/
theorem message_conservation (h : HashOrder) (startMs seed : UInt64) {ops : List SimOp}
    (hnodup : (registered ops).Nodup) (hdirect : ∀ a ∈ sent ops, a.isDirect = true)
    {sim : SimulationRunner} (hrun : runOps h (new startMs seed) ops = some sim) :
    UInt64.ofNat (sent ops).length
      = UInt64.ofNat sim.actions.length + UInt64.ofNat sim.waiting
        + sim.metrics.droppedOffline + sim.metrics.droppedLoss + sim.metrics.droppedBandwidth
        + UInt64.ofNat sim.receipts.length := by
  have hbal := (runOps_balanced hnodup hrun).all hdirect
  have hreceived := (runOps_accounts hnodup hrun).received
  rw [hbal, UInt64.ofNat_add, hreceived]
  grind

/-- **Deliveries are counted once.** In every simulation the counter of bytes adds up what the nodes
have received. The deliveries and the duplicates are the receipts of messages by their addressees;
the deliveries are the different ids among them, each with one latency. -/
theorem deliveries_counted (h : HashOrder) (startMs seed : UInt64) {ops : List SimOp}
    (hnodup : (registered ops).Nodup) {sim : SimulationRunner}
    (hrun : runOps h (new startMs seed) ops = some sim) :
    sim.metrics.sentBytes = UInt64.ofNat (sim.receipts.map fun r => eventSize r.event).sum
    ∧ sim.metrics.delivered + sim.metrics.duplicates
        = UInt64.ofNat (sim.receipts.filterMap Receipt.key).length
    ∧ sim.metrics.delivered = UInt64.ofNat (sim.receipts.filterMap Receipt.key).dedup.length
    ∧ sim.metrics.latenciesMs.length = (sim.receipts.filterMap Receipt.key).dedup.length := by
  have acc := runOps_accounts hnodup hrun
  have hids : sim.deliveredIds.keys.Perm (sim.receipts.filterMap Receipt.key).dedup := by
    rw [List.perm_ext_iff_of_nodup sim.deliveredIds.keys_nodup (List.nodup_dedup _)]
    intro key
    rw [List.mem_dedup]
    exact acc.counted.ids key
  rw [← hids.length_eq]
  exact ⟨acc.bytes, acc.counted.all, acc.counted.once, acc.counted.latencies⟩

/-- **The bandwidth is kept.** What a node receives in a second of virtual time does not exceed its
bandwidth, unless that is the greatest there is. -/
theorem bandwidth_kept (h : HashOrder) (startMs seed : UInt64) {ops : List SimOp}
    (hnodup : (registered ops).Nodup) {sim : SimulationRunner}
    (hrun : runOps h (new startMs seed) ops = some sim) {peerId : String} {node : SimNodeSpec}
    (hnode : sim.nodes.lookup peerId = some node)
    (hlimited : node.bandwidthBytesPerSec.toNat < 2 ^ 64 - 1) (sec : UInt64) :
    sim.bytesIn peerId sec ≤ node.bandwidthBytesPerSec.toNat := by
  have acc := runOps_accounts hnodup hrun
  have hbudget : sim.budgetOf peerId = node.bandwidthBytesPerSec := by
    unfold budgetOf
    rw [hnode]
    rfl
  rw [← acc.exact peerId sec (by rw [hbudget]; exact hlimited), ← hbudget]
  exact U64.le_iff.mp (acc.within peerId sec)

/-- A message for `b`. -/
def letter : WireMessage := .data {
  envelope :=
    { id := "m", fromPeer := "a", toPeer := some "b", payload := [1, 2], createdAtMs := 0,
      ttlSecs := 60, priority := .normal }
  body := "hi" }

/-- The letter is sent twice, and once to a node that is not there. -/
def twice : List SimOp :=
  [.registerNode "a" 1000, .registerNode "b" 1000, .setLink "a" "b" {},
    .send (.sendDirect "a" "b" letter), .send (.sendDirect "a" "b" letter),
    .send (.sendDirect "a" "c" letter), .runFor 100]

/-- Three messages were sent: two have been received and one was dropped. -/
theorem message_conservation_twice : ∃ sim, runOps listOrder (new 0 1) twice = some sim
    ∧ UInt64.ofNat 3 = UInt64.ofNat sim.actions.length + UInt64.ofNat sim.waiting
      + sim.metrics.droppedOffline + sim.metrics.droppedLoss + sim.metrics.droppedBandwidth
      + UInt64.ofNat sim.receipts.length := by
  obtain ⟨sim, hrun⟩ := Option.isSome_iff_exists.mp (runOps_isSome listOrder (new 0 1) twice)
  exact ⟨sim, hrun, message_conservation listOrder 0 1 (by decide) (by decide) hrun⟩

/-- The letter counts as one delivery and one duplicate. -/
theorem deliveries_counted_twice : ∃ sim, runOps listOrder (new 0 1) twice = some sim
    ∧ sim.metrics.delivered = 1 ∧ sim.metrics.duplicates = 1
    ∧ sim.metrics.delivered = UInt64.ofNat (sim.receipts.filterMap Receipt.key).dedup.length := by
  have hcounts : (runOps listOrder (new 0 1) twice).map
      (fun sim => (sim.metrics.delivered, sim.metrics.duplicates)) = some (1, 1) := by
    decide +kernel
  obtain ⟨sim, hrun, hboth⟩ := Option.map_eq_some_iff.mp hcounts
  obtain ⟨hdelivered, hduplicates⟩ := Prod.mk.inj hboth
  exact ⟨sim, hrun, hdelivered, hduplicates,
    (deliveries_counted listOrder 0 1 (by decide) hrun).2.2.1⟩

/-- The two letters are 136 of the 1000 bytes. -/
theorem bandwidth_kept_twice : ∃ sim, runOps listOrder (new 0 1) twice = some sim
    ∧ sim.bytesIn "b" 0 = 136 ∧ sim.bytesIn "b" 0 ≤ 1000 := by
  have hnode : (runOps listOrder (new 0 1) twice).map
      (fun sim => (sim.nodes.lookup "b", sim.bytesIn "b" 0))
      = some (some { bandwidthBytesPerSec := 1000 }, 136) := by
    decide +kernel
  obtain ⟨sim, hrun, hboth⟩ := Option.map_eq_some_iff.mp hnode
  obtain ⟨hlookup, hbytes⟩ := Prod.mk.inj hboth
  exact ⟨sim, hrun, hbytes, bandwidth_kept listOrder 0 1 (by decide) hrun hlookup (by decide) 0⟩

end SimulationRunner

end Mycelium.Sim

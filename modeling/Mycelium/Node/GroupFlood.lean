import Mycelium.Lib.Tokens
import Mycelium.Node.DataFrames
import Mycelium.Node.Symbolic

/-!
# Mycelium node — the flood of an `EncryptedGroup` frame

An `EncryptedGroup` frame has no hop counter and no id that is remembered: a node sends it on to
every peer but the one it came from, each time it arrives. What happens to one such frame in a
network is therefore a process of tokens (`Lib.Tokens`), one for each transmission.

* `Mesh` — a network with fixed peer sets in which no transmission is lost;
* `Mesh.Delivers` — one frame in flight is handled by the node it is for;
* `handle_group` — what a node does with the frame;
* `group_flood_terminates_iff` — the flood ends exactly when the frame cannot walk in a circle.
-/

namespace Mycelium.Node

/-! ## Networks with fixed peer sets -/

/-- A network: the environment of each node, its peer id, and its peers. -/
structure Mesh (ι : Type) where
  world : ι → World
  lossless : ∀ i n p, (world i).sendOk n p = true
  peerId : ι → String
  /-- The node a peer id leads to. -/
  resolve : String → Option ι
  resolve_peerId : ∀ i, resolve (peerId i) = some i
  peers : ι → List ι

/-- A frame on its way. -/
structure Packet (ι : Type) where
  src : ι
  dst : ι
  frame : WireMessage

/-- The nodes, and what is in flight between them. -/
structure MeshState (ι : Type) where
  runner : ι → NodeRunner
  inFlight : Multiset (Packet ι)

namespace Mesh

variable {ι : Type} (net : Mesh ι)

theorem peerId_injective : Function.Injective net.peerId := by
  intro i j h
  have hi := net.resolve_peerId i
  rw [h, net.resolve_peerId j] at hi
  exact (Option.some.inj hi).symm

/-- What the transport of a node reports. -/
def view (i : ι) : TransportView := { knownPeers := (net.peers i).map net.peerId }

/-- The frames that node `i` puts on the way. -/
def packets (i : ι) (outs : List Output) : List (Packet ι) :=
  outs.filterMap fun o => match o with
    | .sendDirect p frame => (net.resolve p).map fun j => ⟨i, j, frame⟩
    | _ => none

variable [Prims]

/-- The node a frame is for handles it. -/
def handle (k : Packet ι) (s : NodeRunner) : EStateM.Result String NodeRunner Unit :=
  @handleIncomingDirect _ (net.world k.dst) (net.peerId k.src) k.frame
    { s with transport := net.view k.dst }

/-- One frame in flight is handled, whichever it is. -/
def Delivers [DecidableEq ι] (S S' : MeshState ι) : Prop :=
  ∃ k rest s', S.inFlight = k ::ₘ rest ∧ net.handle k (S.runner k.dst) = .ok () s'
    ∧ S'.runner = Function.update S.runner k.dst s'
    ∧ S'.inFlight = net.packets k.dst (s'.out.drop (S.runner k.dst).out.length) + rest

/-- However the frames in flight are delivered, at some point none is left. -/
def Terminates [DecidableEq ι] (S : MeshState ι) : Prop := Acc (Function.swap net.Delivers) S

end Mesh

/-! ## One node -/

/-- None of these peers was ever throttled. -/
def NeverThrottled (peers : String → Prop) (reps : KvTree.Of String PeerReputation) : Prop :=
  ∀ p rep, peers p → reps.lookup p = some rep → rep.throttledUntilMs = 0

theorem NeverThrottled.throttledAt {peers : String → Prop} {s : NodeRunner}
    (h : NeverThrottled peers s.peerReputations) {p : String} (hp : peers p) (now : UInt64) :
    throttledAt s p now = false := by
  unfold Node.throttledAt
  split
  · rfl
  · next rep hrep =>
    rw [h p rep hp hrep]
    exact decide_eq_false (UInt64.not_lt.mpr (UInt64.zero_le))

theorem NeverThrottled.throttleReps {peers : String → Prop} {reps : KvTree.Of String PeerReputation}
    (h : NeverThrottled peers reps) (peer : String) (now : UInt64) :
    NeverThrottled peers (throttleReps reps peer now) := by
  unfold Node.throttleReps
  split
  · exact h
  · next rep hrep =>
    intro p rep' hp hlookup
    by_cases heq : p = peer
    · subst heq
      obtain rfl : rep.decayed now = rep' := by simpa [AList.lookup_insert] using hlookup
      rw [PeerReputation.decayed_throttledUntilMs]
      exact h p rep hp hrep
    · rw [AList.lookup_insert_ne heq] at hlookup
      exact h p rep' hp hlookup

section

variable [World]

/-- Sending to one peer after the other when no call fails. Induction on the peers. -/
theorem forM_trySendDirect_run (hok : ∀ n p, World.sendOk n p = true) (frame : WireMessage)
    (ps : List String) (s : NodeRunner) :
    (forM ps fun p => do let _ ← trySendDirect p frame : NodeM Unit) s
      = .ok () { s with
          calls := s.calls + ps.length
          out := s.out ++ ps.map (.sendDirect · frame) } := by
  induction ps generalizing s with
  | nil =>
    simp only [List.length_nil, List.map_nil, List.append_nil, Nat.add_zero]
    rfl
  | cons p ps ih =>
    have hsend : (do let _ ← trySendDirect p frame : NodeM Unit) s
        = .ok () { s with calls := s.calls + 1, out := s.out ++ [.sendDirect p frame] } := by
      rw [run_bind_of_ok (trySendDirect_run p frame s), hok, if_pos rfl]
      rfl
    rw [List.forM_cons, run_bind_of_ok hsend, ih]
    simp only [List.length_cons, List.map_cons, List.append_assoc, List.singleton_append]
    congr 2
    omega

/-- **The group branch** sends the frame to all peers but one, and keeps nothing. -/
theorem handleIncomingDirect_group [Prims] (hok : ∀ n p, World.sendOk n p = true)
    {fromPeer : String} (groupId : String) (payload : Bytes) {s : NodeRunner}
    (hclear : throttledAt s fromPeer (World.clock s.calls) = false) :
    ∃ calls, handleIncomingDirect fromPeer (.encryptedGroup groupId payload) s
      = .ok () { s with
          calls
          peerReputations := throttleReps s.peerReputations fromPeer (World.clock s.calls)
          out := s.out ++ (s.transport.knownPeers.filter (· != fromPeer)).map
            (.sendDirect · (.encryptedGroup groupId payload)) } := by
  rw [handleIncomingDirect_eq, if_neg (by rw [hclear]; exact Bool.false_ne_true)]
  exact ⟨_, forM_trySendDirect_run hok _ _ (afterThrottle s fromPeer)⟩

end

/-! ## The flood as a process of tokens -/

namespace Mesh

variable {ι : Type} [DecidableEq ι] (net : Mesh ι)

/-- The transmissions that follow the one from `e.1` to `e.2`. -/
def next (e : ι × ι) : Multiset (ι × ι) := ((net.peers e.2).filter (· ≠ e.1)).map fun w => (e.2, w)

/-- The frame goes on to a peer, and not back. -/
def Onward (e e' : ι × ι) : Prop := e'.1 = e.2 ∧ e'.2 ∈ net.peers e.2 ∧ e'.2 ≠ e.1

instance (e e' : ι × ι) : Decidable (net.Onward e e') :=
  inferInstanceAs (Decidable (e'.1 = e.2 ∧ e'.2 ∈ net.peers e.2 ∧ e'.2 ≠ e.1))

theorem creates_iff {e e' : ι × ι} : Creates net.next e e' ↔ net.Onward e e' := by
  obtain ⟨v, w⟩ := e'
  simp only [Creates, next, Onward, Multiset.mem_coe, List.mem_map, List.mem_filter,
    decide_eq_true_eq, Prod.mk.injEq]
  constructor
  · rintro ⟨w', ⟨hmem, hne⟩, rfl, rfl⟩
    exact ⟨rfl, hmem, hne⟩
  · rintro ⟨rfl, hmem, hne⟩
    exact ⟨w, ⟨hmem, hne⟩, rfl, rfl⟩

/-- From where to where a frame travels. -/
def edge (k : Packet ι) : ι × ι := (k.src, k.dst)

/-- A flood of `frame`: nothing else is in flight, and nobody throttles anybody. -/
structure Flooding (frame : WireMessage) (S : MeshState ι) : Prop where
  frames : ∀ k ∈ S.inFlight, k.frame = frame
  clear : ∀ i, NeverThrottled (· ∈ Set.range net.peerId) (S.runner i).peerReputations

variable {net} {groupId : String} {payload : Bytes}

omit [DecidableEq ι] in
/-- The peers of a node but one, as ids and as nodes. -/
theorem knownPeers_filter [DecidableEq ι] (u v : ι) :
    (net.view v).knownPeers.filter (· != net.peerId u)
      = ((net.peers v).filter (· ≠ u)).map net.peerId := by
  unfold view
  rw [List.filter_map]
  congr 1
  refine List.filter_congr fun w _ => ?_
  rw [Bool.eq_iff_iff]
  simp only [Function.comp_apply, bne_iff_ne, ne_eq, decide_eq_true_eq,
    net.peerId_injective.eq_iff]

omit [DecidableEq ι] in
theorem packets_sent (v : ι) (frame : WireMessage) (ws : List ι) :
    net.packets v ((ws.map net.peerId).map (.sendDirect · frame)) = ws.map fun w => ⟨v, w, frame⟩ := by
  induction ws with
  | nil => rfl
  | cons w ws ih =>
    unfold packets at ih ⊢
    simp only [List.map_cons]
    rw [List.filterMap_cons_some (b := ⟨v, w, frame⟩), ih]
    simp only [net.resolve_peerId, Option.map_some]

variable [Prims]

/-- **What a node does with the frame.** It is never refused, it goes to every peer but one, and
the node stays as it was. -/
theorem handle_group (groupId : String) (payload : Bytes) (u v : ι) {s : NodeRunner}
    (hclear : NeverThrottled (· ∈ Set.range net.peerId) s.peerReputations) :
    ∃ s', net.handle ⟨u, v, .encryptedGroup groupId payload⟩ s = .ok () s'
      ∧ net.packets v (s'.out.drop s.out.length)
        = ((net.peers v).filter (· ≠ u)).map (fun w => ⟨v, w, .encryptedGroup groupId payload⟩)
      ∧ NeverThrottled (· ∈ Set.range net.peerId) s'.peerReputations := by
  let _ := net.world v
  have hthrottle := hclear.throttledAt (s := { s with transport := net.view v })
    (Set.mem_range_self u) (World.clock s.calls)
  obtain ⟨calls, hrun⟩ := handleIncomingDirect_group (net.lossless v) groupId payload
    hthrottle
  refine ⟨_, hrun, ?_, hclear.throttleReps _ _⟩
  show net.packets v ((s.out ++ _).drop s.out.length) = _
  rw [List.drop_left]
  show net.packets v (((net.view v).knownPeers.filter (· != net.peerId u)).map _) = _
  rw [knownPeers_filter, packets_sent]

/-- A delivery is a firing, and the flood goes on. -/
theorem Flooding.delivers {S S' : MeshState ι} (h : net.Flooding (.encryptedGroup groupId payload) S)
    (hstep : net.Delivers S S') :
    net.Flooding (.encryptedGroup groupId payload) S'
      ∧ Fires net.next (S.inFlight.map edge) (S'.inFlight.map edge) := by
  obtain ⟨⟨u, v, frame⟩, rest, s', hflight, hrun, hrunner, hflight'⟩ := hstep
  obtain rfl : frame = .encryptedGroup groupId payload :=
    h.frames ⟨u, v, frame⟩ (by rw [hflight]; exact Multiset.mem_cons_self _ _)
  obtain ⟨s'', hrun', hpackets, hclear⟩ := handle_group groupId payload u v (h.clear v)
  obtain rfl : s'' = s' := by
    rw [hrun'] at hrun
    exact (EStateM.Result.ok.inj hrun).2
  rw [hpackets] at hflight'
  -- in flight are copies of the one frame, and no node throttles or limits its neighbours
  refine ⟨⟨fun k hk => ?_, fun i => ?_⟩, (u, v), rest.map edge, ?_, ?_⟩
  · rw [hflight'] at hk
    rcases Multiset.mem_add.mp hk with hnew | hold
    · obtain ⟨w, -, rfl⟩ := List.mem_map.mp (Multiset.mem_coe.mp hnew)
      rfl
    · exact h.frames k (by rw [hflight]; exact Multiset.mem_cons_of_mem hold)
  · rw [hrunner]
    by_cases hi : i = v
    · subst hi
      rw [Function.update_self]
      exact hclear
    · rw [Function.update_of_ne hi]
      exact h.clear i
  · rw [hflight, Multiset.map_cons]
    rfl
  -- the graph of the new packets is that of the links the frame is passed on by
  · rw [hflight', Multiset.map_add, Multiset.map_coe, List.map_map]
    rfl

/-- Every firing is the delivery of a frame in flight. -/
theorem Flooding.fires {S : MeshState ι} (h : net.Flooding (.encryptedGroup groupId payload) S)
    {M : Multiset (ι × ι)} (hfires : Fires net.next (S.inFlight.map edge) M) :
    ∃ S', net.Delivers S S' ∧ S'.inFlight.map edge = M := by
  classical
  obtain ⟨e, rest, hmap, rfl⟩ := hfires
  obtain ⟨⟨u, v, frame⟩, hk, rfl, hrest⟩ := (Multiset.map_eq_cons _ _ _ _).mpr hmap
  obtain rfl : frame = .encryptedGroup groupId payload := h.frames _ hk
  obtain ⟨s', hrun, hpackets, -⟩ := handle_group groupId payload u v (h.clear v)
  refine ⟨⟨Function.update S.runner v s', _⟩, ⟨_, _, s', (Multiset.cons_erase hk).symm, hrun, rfl, rfl⟩, ?_⟩
  show Multiset.map edge (_ + _) = _
  rw [Multiset.map_add, hrest, hpackets, Multiset.map_coe, List.map_map]
  rfl

/-- **The flood and the process of tokens** end together. Induction on either of them. -/
theorem Flooding.terminates_iff {S : MeshState ι}
    (h : net.Flooding (.encryptedGroup groupId payload) S) :
    net.Terminates S ↔ Acc (Function.swap (Fires net.next)) (S.inFlight.map edge) := by
  constructor
  · intro hacc
    induction hacc with
    | intro S _ ih =>
      refine Acc.intro _ fun M hfires => ?_
      obtain ⟨S', hstep, rfl⟩ := h.fires hfires
      exact ih S' hstep (h.delivers hstep).1
  · intro hacc
    generalize hM : S.inFlight.map edge = M at hacc
    induction hacc generalizing S with
    | intro M _ ih =>
      refine Acc.intro _ fun S' hstep => ?_
      obtain ⟨hflooding, hfires⟩ := h.delivers hstep
      rw [hM] at hfires
      exact ih _ hfires hflooding rfl

/-- The frame comes back to a transmission it has made before. -/
def Circles (net : Mesh ι) (e : ι × ι) : Prop :=
  ∃ e', Relation.ReflTransGen net.Onward e e' ∧ Relation.TransGen net.Onward e' e'

/-- Any number of frames in flight: each of them must come to an end. -/
theorem Flooding.terminates_iff_circles [Finite ι] {S : MeshState ι}
    (h : net.Flooding (.encryptedGroup groupId payload) S) :
    net.Terminates S ↔ ∀ k ∈ S.inFlight, ¬ net.Circles (edge k) := by
  have honward : Creates net.next = net.Onward := by
    funext e e'
    exact propext net.creates_iff
  rw [h.terminates_iff, acc_fires_iff, honward]
  simp only [Multiset.mem_map, forall_exists_index, and_imp, forall_apply_eq_imp_iff₂]
  exact forall₂_congr fun k _ => acc_iff_no_cycle

/-- One frame is on its way from `u` to `v`. -/
def injected (runner : ι → NodeRunner) (u v : ι) (frame : WireMessage) : MeshState ι :=
  ⟨runner, {⟨u, v, frame⟩}⟩

omit [Prims] [DecidableEq ι] in
theorem flooding_injected {runner : ι → NodeRunner}
    (hclear : ∀ i, NeverThrottled (· ∈ Set.range net.peerId) (runner i).peerReputations) (u v : ι)
    (frame : WireMessage) : net.Flooding frame (injected runner u v frame) := by
  refine ⟨fun k hk => ?_, hclear⟩
  rw [Multiset.mem_singleton.mp hk]

end Mesh

/-- **When the flood of a group frame ends.** In every finite network without loss in which no
peer is throttled, whatever the states of the nodes, one `EncryptedGroup` frame sent from `u` to
`v` causes finitely many transmissions in every order of deliveries exactly when a walk that
starts with this transmission and never turns straight back cannot run in a circle. -/
theorem group_flood_terminates_iff [Prims] {ι : Type} [Finite ι] [DecidableEq ι] (net : Mesh ι)
    (runner : ι → NodeRunner)
    (hclear : ∀ i, NeverThrottled (· ∈ Set.range net.peerId) (runner i).peerReputations)
    (u v : ι) (groupId : String) (payload : Bytes) :
    net.Terminates (Mesh.injected runner u v (.encryptedGroup groupId payload))
      ↔ ¬ net.Circles (u, v) := by
  rw [(Mesh.flooding_injected hclear u v _).terminates_iff_circles]
  constructor
  · intro h
    exact h ⟨u, v, .encryptedGroup groupId payload⟩ (Multiset.mem_singleton_self _)
  · intro h k hk
    rw [Multiset.mem_singleton.mp hk]
    exact h

/-! ### Three nodes -/

section

attribute [local instance] symbolicPrims

/-- The nodes 1, 2 and 3 with the given peers. -/
def meshOfThree (peers : Fin 3 → List (Fin 3)) : Mesh (Fin 3) where
  world _ := stillWorld 5000000
  lossless _ _ _ := rfl
  peerId i := symbolicPeer (UInt8.ofNat (i + 1))
  resolve p := (List.finRange 3).find? fun i => symbolicPeer (UInt8.ofNat (i + 1)) = p
  resolve_peerId := by decide +kernel
  peers := peers

/-- Each node when it has just entered its loop. -/
def freshRunner (i : Fin 3) : NodeRunner :=
  symbolicNode (UInt8.ofNat (i + 1)) (UInt8.ofNat (i + 11)) 5000000

theorem freshRunner_neverThrottled (peers : String → Prop) (i : Fin 3) :
    NeverThrottled peers (freshRunner i).peerReputations := by
  have hnone : (freshRunner i).peerReputations = ∅ := rfl
  intro p rep _ hlookup
  rw [hnone] at hlookup
  cases hlookup

/-- On a line the frame stops at the end. -/
theorem group_flood_ends_on_line :
    (meshOfThree ![[1], [0, 2], [1]]).Terminates
      (Mesh.injected freshRunner 0 1 (.encryptedGroup "group" [])) := by
  refine (group_flood_terminates_iff _ _ (freshRunner_neverThrottled _) 0 1 "group" []).mpr ?_
  -- a frame on its way to the right goes on to the right
  have hstep : ∀ e e', (meshOfThree ![[1], [0, 2], [1]]).Onward e e' → e.1.val + 1 = e.2.val →
      e.1 < e'.1 ∧ e'.1.val + 1 = e'.2.val := by
    decide
  rintro ⟨e, hreach, hcycle⟩
  have hright : e.1.val + 1 = e.2.val := by
    clear hcycle
    induction hreach with
    | refl => decide
    | tail _ honward ih => exact (hstep _ _ honward ih).2
  have hfurther : ∀ e', Relation.TransGen (meshOfThree ![[1], [0, 2], [1]]).Onward e e' →
      e.1 < e'.1 ∧ e'.1.val + 1 = e'.2.val := by
    intro e' hpath
    induction hpath with
    | single honward => exact hstep _ _ honward hright
    | tail _ honward ih =>
      obtain ⟨hlt, hright'⟩ := hstep _ _ honward ih.2
      exact ⟨ih.1.trans hlt, hright'⟩
  exact lt_irrefl _ (hfurther e hcycle).1

/-- In a triangle it goes round for ever. -/
theorem group_flood_circles_in_triangle :
    ¬ (meshOfThree ![[1, 2], [0, 2], [0, 1]]).Terminates
      (Mesh.injected freshRunner 0 1 (.encryptedGroup "group" [])) := by
  rw [(Mesh.flooding_injected (fun i => freshRunner_neverThrottled _ i) 0 1 _).terminates_iff_circles]
  intro hends
  refine hends _ (Multiset.mem_singleton_self _) ⟨(0, 1), .refl, ?_⟩
  exact ((Relation.TransGen.single (b := (1, 2)) (by decide)).tail (c := (2, 0)) (by decide)).tail
    (by decide)

end

end Mycelium.Node

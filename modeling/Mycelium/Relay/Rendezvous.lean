import Mycelium.Lib.Latest
import Mycelium.Relay.Status

/-!
# Mycelium relay — who is listed

`/rendezvous` lists the peers that hold a reservation and have opted in. Two sets keep this, and
five kinds of events write them from two sides: the loop of the swarm, arm by arm, and the HTTP
server. `Runs log relay` says that the relay may be in this state after the operations of `log`, in
whatever way the requests fall between the operations of an arm.

* `Entry.accepts` / `Entry.ends` / `Entry.registers` / `Entry.withdraws` — which entries concern a
  peer;
* `Entry.mem_reservedPeers` / `Entry.mem_rendezvousOptIn` — what an entry does to a set;
* `rendezvous_latest` — the list, in the order of the locks and in the order of whole events.
-/

namespace Mycelium.Relay

open Latest

/-! ## Runs -/

/-- Something done: an operation for an event of the swarm, or a request. -/
inductive Entry where
  | performed (e : SwarmEvent) (op : Op)
  | register (peer : String)
  | unregister (peer : String)

def Entry.act (s : StatusState) : Entry → StatusState
  | .performed _ op => op.exec s
  | .register peer => (rendezvousRegister peer s).2
  | .unregister peer => (rendezvousUnregister peer s).2

/-- The relay: its status, and the operations that the loop has yet to perform for the event it
handles. -/
structure Server where
  state : StatusState := {}
  todo : List (SwarmEvent × Op) := []

/-- The relay may get here, and this is what it did, oldest first. -/
inductive Runs : List Entry → Server → Prop where
  | start : Runs [] {}
  /-- The loop has finished an arm and takes the next event. -/
  | event {log : List Entry} {r : Server} (h : Runs log r) (hidle : r.todo = []) (e : SwarmEvent) :
      Runs log { r with todo := e.ops.map fun op => (e, op) }
  | perform {log : List Entry} {r : Server} {e : SwarmEvent} {op : Op}
      {rest : List (SwarmEvent × Op)} (h : Runs log r) (htodo : r.todo = (e, op) :: rest) :
      Runs (log ++ [.performed e op]) { state := op.exec r.state, todo := rest }
  | register {log : List Entry} {r : Server} (h : Runs log r) (peer : String) :
      Runs (log ++ [.register peer]) { r with state := (rendezvousRegister peer r.state).2 }
  | unregister {log : List Entry} {r : Server} (h : Runs log r) (peer : String) :
      Runs (log ++ [.unregister peer]) { r with state := (rendezvousUnregister peer r.state).2 }

/-- The operation is one of its event. -/
def Entry.Ok : Entry → Prop
  | .performed e op => op ∈ e.ops
  | _ => True

/-- The state is what the entries made of it, and the loop performs the operations of its events
alone. Induction on the run. -/
theorem Runs.state_eq {log : List Entry} {r : Server} (h : Runs log r) :
    r.state = log.foldl Entry.act {} ∧ (∀ x ∈ log, x.Ok) ∧ ∀ x ∈ r.todo, x.2 ∈ x.1.ops := by
  -- the state is the log replayed; every operation still to do belongs to its event
  induction h with
  | start => simp
  | event h hidle e ih =>
    refine ⟨ih.1, ih.2.1, ?_⟩
    intro x hx
    obtain ⟨op, hop, rfl⟩ := List.mem_map.mp hx
    exact hop
  | @perform log r e op rest h htodo ih =>
    obtain ⟨hstate, hlog, hops⟩ := ih
    rw [htodo] at hops
    refine ⟨by simp [hstate, Entry.act], ?_, fun x hx => hops x (List.mem_cons_of_mem _ hx)⟩
    intro x hx
    rcases List.mem_append.mp hx with hx | hx
    · exact hlog x hx
    · rw [List.mem_singleton.mp hx]
      exact hops (e, op) List.mem_cons_self
  | register h peer ih =>
    obtain ⟨hstate, hlog, hops⟩ := ih
    refine ⟨by simp [hstate, Entry.act], ?_, hops⟩
    intro x hx
    rcases List.mem_append.mp hx with hx | hx
    · exact hlog x hx
    · rw [List.mem_singleton.mp hx]
      trivial
  | unregister h peer ih =>
    obtain ⟨hstate, hlog, hops⟩ := ih
    refine ⟨by simp [hstate, Entry.act], ?_, hops⟩
    intro x hx
    rcases List.mem_append.mp hx with hx | hx
    · exact hlog x hx
    · rw [List.mem_singleton.mp hx]
      trivial

/-! ## What concerns a peer -/

/-- A reservation of the peer is accepted or renewed. -/
def Entry.accepts (peer : String) : Entry → Bool
  | .performed (.reservationReqAccepted p _) op => p = peer && op.set? = some .reservedPeers
  | _ => false

/-- A connection of the peer is closed or a reservation of it timed out; the entry is the one at
the lock of `set`. -/
def Entry.ends (set : PeerSet) (peer : String) : Entry → Bool
  | .performed (.connectionClosed p) op => p = peer && op.set? = some set
  | .performed (.reservationTimedOut p) op => p = peer && op.set? = some set
  | _ => false

/-- The peer opts in. -/
def Entry.registers (peer : String) : Entry → Bool
  | .register p => p = peer && p ≠ ""
  | _ => false

/-- The peer opts out, or leaves. -/
def Entry.withdraws (peer : String) : Entry → Bool
  | .unregister p => p = peer
  | x => x.ends .rendezvousOptIn peer

theorem mem_rendezvousRegister {peer p : String} {s : StatusState} :
    peer ∈ (rendezvousRegister p s).2.rendezvousOptIn
      ↔ (p = peer ∧ p ≠ "") ∨ peer ∈ s.rendezvousOptIn := by
  unfold rendezvousRegister
  split
  · next h => simp [h]
  · next h => simp [h, Op.exec, StatusState.updateSet, eq_comm]

theorem rendezvousRegister_reservedPeers (p : String) (s : StatusState) :
    (rendezvousRegister p s).2.reservedPeers = s.reservedPeers := by
  unfold rendezvousRegister
  split
  · rfl
  · rfl

/-- The operations of an event: on neither of the two sets, or an acceptance that is entered, or
an end that is taken out. -/
theorem SwarmEvent.ops_cases {e : SwarmEvent} {op : Op} (h : op ∈ e.ops) :
    (op.set? ≠ some .reservedPeers ∧ op.set? ≠ some .rendezvousOptIn)
    ∨ (∃ p renewed, e = .reservationReqAccepted p renewed ∧ op = .insert .reservedPeers p)
    ∨ ∃ p set, (e = .connectionClosed p ∨ e = .reservationTimedOut p) ∧ op = .remove set p := by
  -- the sets an event writes, read off the source's arms
  cases e with
  | connectionEstablished p =>
    simp only [SwarmEvent.ops, List.mem_cons, List.not_mem_nil, or_false] at h
    rcases h with rfl | rfl
    · exact .inl (by decide)
    · exact .inl (by simp [Op.set?])
  | connectionClosed p =>
    simp only [SwarmEvent.ops, List.mem_cons, List.not_mem_nil, or_false] at h
    rcases h with rfl | rfl | rfl | rfl
    · exact .inl (by decide)
    · exact .inl (by simp [Op.set?])
    · exact .inr (.inr ⟨p, .reservedPeers, .inl rfl, rfl⟩)
    · exact .inr (.inr ⟨p, .rendezvousOptIn, .inl rfl, rfl⟩)
  | reservationReqAccepted p renewed =>
    cases renewed with
    | true =>
      simp only [SwarmEvent.ops, if_true, List.mem_cons, List.not_mem_nil, or_false] at h
      exact .inr (.inl ⟨p, true, rfl, h⟩)
    | false =>
      simp only [SwarmEvent.ops, Bool.false_eq_true, if_false, List.mem_cons, List.not_mem_nil,
        or_false] at h
      rcases h with rfl | rfl
      · exact .inl (by decide)
      · exact .inr (.inl ⟨p, false, rfl, rfl⟩)
  | reservationTimedOut p =>
    simp only [SwarmEvent.ops, List.mem_cons, List.not_mem_nil, or_false] at h
    rcases h with rfl | rfl | rfl
    · exact .inl (by decide)
    · exact .inr (.inr ⟨p, .reservedPeers, .inr rfl, rfl⟩)
    · exact .inr (.inr ⟨p, .rendezvousOptIn, .inr rfl, rfl⟩)

/-- An operation leaves the sets alone that it does not write. -/
theorem Op.exec_reservedPeers {op : Op} (h : op.set? ≠ some .reservedPeers) (s : StatusState) :
    (op.exec s).reservedPeers = s.reservedPeers := by
  cases op with
  | fetchAdd c => cases c <;> rfl
  | saturatingSub c => cases c <;> rfl
  | insert set p => cases set <;> first | rfl | exact absurd rfl h
  | remove set p => cases set <;> first | rfl | exact absurd rfl h

theorem Op.exec_rendezvousOptIn {op : Op} (h : op.set? ≠ some .rendezvousOptIn) (s : StatusState) :
    (op.exec s).rendezvousOptIn = s.rendezvousOptIn := by
  cases op with
  | fetchAdd c => cases c <;> rfl
  | saturatingSub c => cases c <;> rfl
  | insert set p => cases set <;> first | rfl | exact absurd rfl h
  | remove set p => cases set <;> first | rfl | exact absurd rfl h

/-- An entry that does not write a set accepts nobody there and ends nothing there. -/
theorem Entry.ends_of_set {e : SwarmEvent} {op : Op} {set : PeerSet} (h : op.set? ≠ some set)
    (peer : String) : (Entry.performed e op).ends set peer = false := by
  cases e <;> simp [Entry.ends, h]

theorem Entry.accepts_of_set {e : SwarmEvent} {op : Op} (h : op.set? ≠ some .reservedPeers)
    (peer : String) : (Entry.performed e op).accepts peer = false := by
  cases e <;> simp [Entry.accepts, h]

/-- What an entry does to the reserved peers. -/
theorem Entry.mem_reservedPeers {x : Entry} (hok : x.Ok) (peer : String) (s : StatusState) :
    peer ∈ (x.act s).reservedPeers
      ↔ x.accepts peer = true ∨ x.ends .reservedPeers peer = false ∧ peer ∈ s.reservedPeers := by
  cases x with
  | register p =>
    rw [Entry.act, rendezvousRegister_reservedPeers]
    simp [Entry.accepts, Entry.ends]
  | unregister p =>
    show peer ∈ s.reservedPeers ↔ _
    simp [Entry.accepts, Entry.ends]
  | performed e op =>
    by_cases hset : op.set? = some .reservedPeers
    · obtain ⟨hother, -⟩ | ⟨p, renewed, rfl, rfl⟩ | ⟨p, set, he, rfl⟩ := SwarmEvent.ops_cases hok
      · exact absurd hset hother
      · simp [Entry.act, Entry.accepts, Entry.ends, Op.exec, Op.set?, StatusState.updateSet, eq_comm]
      · obtain rfl : set = .reservedPeers := by simpa [Op.set?] using hset
        have hmem : peer ∈ ((Op.remove .reservedPeers p).exec s).reservedPeers
            ↔ peer ≠ p ∧ peer ∈ s.reservedPeers := Finset.mem_erase
        rcases he with rfl | rfl
        · simp [Entry.act, Entry.accepts, Entry.ends, Op.set?, hmem, eq_comm]
        · simp [Entry.act, Entry.accepts, Entry.ends, Op.set?, hmem, eq_comm]
    · rw [Entry.act, Op.exec_reservedPeers hset, Entry.accepts_of_set hset, Entry.ends_of_set hset]
      simp

/-- What an entry does to the peers that opted in. -/
theorem Entry.mem_rendezvousOptIn {x : Entry} (hok : x.Ok) (peer : String) (s : StatusState) :
    peer ∈ (x.act s).rendezvousOptIn
      ↔ x.registers peer = true ∨ x.withdraws peer = false ∧ peer ∈ s.rendezvousOptIn := by
  cases x with
  | register p =>
    rw [Entry.act, mem_rendezvousRegister]
    simp [Entry.registers, Entry.withdraws, Entry.ends]
  | unregister p =>
    have hmem : peer ∈ ((Op.remove .rendezvousOptIn p).exec s).rendezvousOptIn
        ↔ peer ≠ p ∧ peer ∈ s.rendezvousOptIn := Finset.mem_erase
    simp [Entry.act, rendezvousUnregister, Entry.registers, Entry.withdraws, hmem, eq_comm]
  -- an operation on the other set is no entry of this one
  | performed e op =>
    show _ ↔ false = true ∨ (Entry.performed e op).ends .rendezvousOptIn peer = false ∧ _
    by_cases hset : op.set? = some .rendezvousOptIn
    · obtain ⟨-, hother⟩ | ⟨p, renewed, rfl, rfl⟩ | ⟨p, set, he, rfl⟩ := SwarmEvent.ops_cases hok
      · exact absurd hset hother
      · cases hset
      · obtain rfl : set = .rendezvousOptIn := by simpa [Op.set?] using hset
        have hmem : peer ∈ ((Op.remove .rendezvousOptIn p).exec s).rendezvousOptIn
            ↔ peer ≠ p ∧ peer ∈ s.rendezvousOptIn := Finset.mem_erase
        rcases he with rfl | rfl
        · simp [Entry.act, Entry.ends, Op.set?, hmem, eq_comm]
        · simp [Entry.act, Entry.ends, Op.set?, hmem, eq_comm]
    · rw [Entry.act, Op.exec_rendezvousOptIn hset, Entry.ends_of_set hset]
      simp

/-! ## Whole events -/

/-- An event of the relay: one of its swarm, or a request. -/
inductive RelayEvent where
  | swarm (e : SwarmEvent)
  | register (peer : String)
  | unregister (peer : String)

/-- An event that nothing interrupts. -/
def RelayEvent.handle (s : StatusState) : RelayEvent → StatusState
  | .swarm e => e.handle s
  | .register peer => (rendezvousRegister peer s).2
  | .unregister peer => (rendezvousUnregister peer s).2

def RelayEvent.accepts (peer : String) : RelayEvent → Bool
  | .swarm (.reservationReqAccepted p _) => p = peer
  | _ => false

def RelayEvent.ends (peer : String) : RelayEvent → Bool
  | .swarm (.connectionClosed p) => p = peer
  | .swarm (.reservationTimedOut p) => p = peer
  | _ => false

def RelayEvent.registers (peer : String) : RelayEvent → Bool
  | .register p => p = peer && p ≠ ""
  | _ => false

def RelayEvent.withdraws (peer : String) : RelayEvent → Bool
  | .unregister p => p = peer
  | x => x.ends peer

theorem RelayEvent.mem_reservedPeers (x : RelayEvent) (peer : String) (s : StatusState) :
    peer ∈ (x.handle s).reservedPeers
      ↔ x.accepts peer = true ∨ x.ends peer = false ∧ peer ∈ s.reservedPeers := by
  cases x with
  | register p =>
    rw [RelayEvent.handle, rendezvousRegister_reservedPeers]
    simp [RelayEvent.accepts, RelayEvent.ends]
  | unregister p =>
    show peer ∈ s.reservedPeers ↔ _
    simp [RelayEvent.accepts, RelayEvent.ends]
  | swarm e =>
    -- inserted on acceptance, removed on closing and on time-out
    cases e with
    | connectionEstablished p =>
      show peer ∈ s.reservedPeers ↔ _
      simp [RelayEvent.accepts, RelayEvent.ends]
    | connectionClosed p =>
      show peer ∈ s.reservedPeers.erase p ↔ _
      simp [RelayEvent.accepts, RelayEvent.ends, eq_comm]
    | reservationReqAccepted p renewed =>
      have hinsert : (RelayEvent.handle s (.swarm (.reservationReqAccepted p renewed))).reservedPeers
          = insert p s.reservedPeers := by
        cases renewed <;> rfl
      rw [hinsert]
      simp [RelayEvent.accepts, RelayEvent.ends, eq_comm]
    | reservationTimedOut p =>
      show peer ∈ s.reservedPeers.erase p ↔ _
      simp [RelayEvent.accepts, RelayEvent.ends, eq_comm]

theorem RelayEvent.mem_rendezvousOptIn (x : RelayEvent) (peer : String) (s : StatusState) :
    peer ∈ (x.handle s).rendezvousOptIn
      ↔ x.registers peer = true ∨ x.withdraws peer = false ∧ peer ∈ s.rendezvousOptIn := by
  cases x with
  | register p =>
    rw [RelayEvent.handle, mem_rendezvousRegister]
    simp [RelayEvent.registers, RelayEvent.withdraws, RelayEvent.ends]
  | unregister p =>
    show peer ∈ s.rendezvousOptIn.erase p ↔ _
    simp [RelayEvent.registers, RelayEvent.withdraws, eq_comm]
  | swarm e =>
    -- no swarm event registers; closing and time-out withdraw
    cases e with
    | connectionEstablished p =>
      show peer ∈ s.rendezvousOptIn ↔ _
      simp [RelayEvent.registers, RelayEvent.withdraws, RelayEvent.ends]
    | connectionClosed p =>
      show peer ∈ s.rendezvousOptIn.erase p ↔ _
      simp [RelayEvent.registers, RelayEvent.withdraws, RelayEvent.ends, eq_comm]
    | reservationReqAccepted p renewed =>
      have hsame : (RelayEvent.handle s (.swarm (.reservationReqAccepted p renewed))).rendezvousOptIn
          = s.rendezvousOptIn := by
        cases renewed <;> rfl
      rw [hsame]
      simp [RelayEvent.registers, RelayEvent.withdraws, RelayEvent.ends]
    | reservationTimedOut p =>
      show peer ∈ s.rendezvousOptIn.erase p ↔ _
      simp [RelayEvent.registers, RelayEvent.withdraws, RelayEvent.ends, eq_comm]

/-! ## The list -/

/-- **The rendezvous list.** In every run, whatever falls between the operations of an arm, a peer
is listed if and only if the latest entry at the lock of the reservations that concerns it is an
acceptance and the latest at the lock of the opt-ins is a registration. Where every event is
handled as a whole, these are the latest events. -/
theorem rendezvous_latest (peer : String) :
    (∀ log r, Runs log r → (peer ∈ rendezvous r.state
      ↔ SwitchedOn (Entry.accepts peer) (Entry.ends .reservedPeers peer) log
        ∧ SwitchedOn (Entry.registers peer) (Entry.withdraws peer) log))
    ∧ ∀ history : List RelayEvent, peer ∈ rendezvous (history.foldl RelayEvent.handle {})
      ↔ SwitchedOn (RelayEvent.accepts peer) (RelayEvent.ends peer) history
        ∧ SwitchedOn (RelayEvent.registers peer) (RelayEvent.withdraws peer) history := by
  refine ⟨?_, ?_⟩
  -- after any interleaving of operations
  · intro log r h
    obtain ⟨hstate, hlog, -⟩ := h.state_eq
    unfold rendezvous
    rw [Finset.mem_filter, hstate]
    refine and_congr ?_ ?_
    · exact foldl_iff_switchedOn (fun s : StatusState => peer ∈ s.reservedPeers)
        (Finset.notMem_empty peer) fun x hx s => Entry.mem_reservedPeers (hlog x hx) peer s
    · exact foldl_iff_switchedOn (fun s : StatusState => peer ∈ s.rendezvousOptIn)
        (Finset.notMem_empty peer) fun x hx s => Entry.mem_rendezvousOptIn (hlog x hx) peer s
  -- and after any history handled one at a time
  · intro history
    unfold rendezvous
    rw [Finset.mem_filter]
    refine and_congr ?_ ?_
    · exact foldl_iff_switchedOn (fun s : StatusState => peer ∈ s.reservedPeers)
        (Finset.notMem_empty peer) fun x _ s => x.mem_reservedPeers peer s
    · exact foldl_iff_switchedOn (fun s : StatusState => peer ∈ s.rendezvousOptIn)
        (Finset.notMem_empty peer) fun x _ s => x.mem_rendezvousOptIn peer s

end Mycelium.Relay

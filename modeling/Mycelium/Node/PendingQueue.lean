import Mycelium.Node.Symbolic
import Mycelium.Node.Walk

/-!
# Mycelium node — the queue of messages to forward

`enqueue` puts a message at the end of a bounded queue. When the queue is full it first drops what
has expired, and if nothing has, one entry: `evict_one` looks for the least priority from the
front and stops at the first entry of the lowest rank.

* `Evicts` — what is left of a full queue, said without an index;
* `evicts_roomMade` — the search finds the earliest among the entries of lowest priority;
* `queue_discipline` — every sequence of calls keeps the bound, and no `enqueue` fails;
* `no_inversion_iff` — when a new message displaces nothing of a higher priority. The search does
  not look at the new message.
-/

namespace Mycelium.Node

/-- The rank of the entry's priority. -/
def PendingMessage.rank (item : PendingMessage) : UInt8 := priorityRank item.message.envelope.priority

/-- `kept` is `queue` without the earliest of its entries of lowest priority. -/
def DropsLeast (queue kept : List PendingMessage) : Prop :=
  ∃ pre victim post, queue = pre ++ victim :: post ∧ kept = pre ++ post
    ∧ (∀ item ∈ pre, victim.rank < item.rank) ∧ ∀ item ∈ post, victim.rank ≤ item.rank

/-- What `enqueue` leaves of a full queue: no expired entry; and if that frees no slot, one entry
less. -/
def Evicts (now : UInt64) (cap : Nat) (queue kept : List PendingMessage) : Prop :=
  if (queue.filter fun item => !item.message.isExpired now).length < cap then
    kept = queue.filter fun item => !item.message.isExpired now
  else DropsLeast queue kept

/-- What `evict_one` leaves. -/
def roomMade (now : UInt64) (cap : Nat) (queue : List PendingMessage) : List PendingMessage :=
  let fresh := queue.filter fun item => !item.message.isExpired now
  if fresh.length < cap then fresh else removeCandidate fresh

/-! ## The search -/

/-- The search finds the earliest entry of least rank, if there is one below `rank`. Induction on
the entries; a hit at rank 0 ends the search. -/
theorem evictCandidate_spec (queue : List PendingMessage) (idx : Nat) (rank : UInt8)
    (best : Option Nat) :
    ((∀ item ∈ queue, rank ≤ item.rank) ∧ evictCandidate queue idx rank best = best)
    ∨ ∃ pre victim post, queue = pre ++ victim :: post ∧ victim.rank < rank
        ∧ (∀ item ∈ pre, victim.rank < item.rank) ∧ (∀ item ∈ post, victim.rank ≤ item.rank)
        ∧ evictCandidate queue idx rank best = some (idx + pre.length) := by
  -- induction on the queue; the rank to beat falls along the scan and rank 0 ends it
  induction queue generalizing idx rank best with
  | nil => exact .inl ⟨nofun, rfl⟩
  | cons item queue ih =>
    by_cases hlt : item.rank < rank
    · by_cases hzero : item.rank = 0
      · refine .inr ⟨[], item, queue, rfl, hlt, nofun, ?_, ?_⟩
        · intro other _
          rw [hzero]
          exact UInt8.le_iff_toNat_le.mpr (Nat.zero_le _)
        · have hstep : evictCandidate (item :: queue) idx rank best = some idx := by
            unfold evictCandidate
            exact (if_pos hlt).trans (if_pos hzero)
          exact hstep
      · have hstep : evictCandidate (item :: queue) idx rank best
            = evictCandidate queue (idx + 1) item.rank (some idx) := by
          rw [evictCandidate]
          exact (if_pos hlt).trans (if_neg hzero)
        rw [hstep]
        rcases ih (idx + 1) item.rank (some idx) with ⟨hleast, hres⟩ | ⟨pre, victim, post, rfl, hv, hpre, hpost, hres⟩
        · exact .inr ⟨[], item, queue, rfl, hlt, nofun, hleast, hres⟩
        · refine .inr ⟨item :: pre, victim, post, rfl, UInt8.lt_trans hv hlt, ?_, hpost, ?_⟩
          · intro other hother
            rcases List.mem_cons.mp hother with rfl | hother
            · exact hv
            · exact hpre other hother
          · rw [hres, List.length_cons]
            congr 1
            omega
    · have hstep : evictCandidate (item :: queue) idx rank best
          = evictCandidate queue (idx + 1) rank best := by
        rw [evictCandidate]
        exact if_neg hlt
      -- this item does not beat the best so far, so the answer is the rest's
      have hge : rank ≤ item.rank := UInt8.not_lt.mp hlt
      rw [hstep]
      rcases ih (idx + 1) rank best with ⟨hleast, hres⟩ | ⟨pre, victim, post, rfl, hv, hpre, hpost, hres⟩
      · refine .inl ⟨?_, hres⟩
        intro other hother
        rcases List.mem_cons.mp hother with rfl | hother
        · exact hge
        · exact hleast other hother
      · refine .inr ⟨item :: pre, victim, post, rfl, hv, ?_, hpost, ?_⟩
        · intro other hother
          rcases List.mem_cons.mp hother with rfl | hother
          · exact UInt8.lt_of_lt_of_le hv hge
          · exact hpre other hother
        · rw [hres, List.length_cons]
          congr 1
          omega

theorem PendingMessage.rank_lt (item : PendingMessage) : item.rank < 3 := by
  unfold rank priorityRank
  split <;> decide

/-- From a queue that is not empty, the earliest entry of lowest priority goes. -/
theorem dropsLeast_removeCandidate {queue : List PendingMessage} (hne : queue ≠ []) :
    DropsLeast queue (removeCandidate queue) := by
  obtain ⟨item, hitem⟩ := List.exists_mem_of_ne_nil queue hne
  rcases evictCandidate_spec queue 0 3 none with
    ⟨hleast, -⟩ | ⟨pre, victim, post, rfl, -, hpre, hpost, hres⟩
  · exact absurd (hleast item hitem) (UInt8.not_le.mpr item.rank_lt)
  · refine ⟨pre, victim, post, rfl, ?_, hpre, hpost⟩
    rw [removeCandidate, hres]
    simp only [Nat.zero_add]
    rw [List.eraseIdx_append_of_length_le (Nat.le_refl _), Nat.sub_self]
    rfl

theorem DropsLeast.length {queue kept : List PendingMessage} (h : DropsLeast queue kept) :
    queue.length = kept.length + 1 := by
  obtain ⟨pre, victim, post, rfl, rfl, -, -⟩ := h
  simp only [List.length_append, List.length_cons]
  omega

/-- A queue within its bound is left with a free slot. -/
theorem evicts_roomMade (now : UInt64) {cap : Nat} {queue : List PendingMessage} (hcap : 1 ≤ cap)
    (hlen : queue.length ≤ cap) :
    Evicts now cap queue (roomMade now cap queue) ∧ (roomMade now cap queue).length < cap := by
  unfold Evicts roomMade
  simp only
  split
  · next hfree => exact ⟨rfl, hfree⟩
  · next hfull =>
    -- nothing has expired
    have hall : (queue.filter fun item => !item.message.isExpired now) = queue := by
      refine List.filter_sublist.eq_of_length_le ?_
      omega
    rw [hall] at hfull ⊢
    have hne : queue ≠ [] := by
      rintro rfl
      exact hfull hcap
    have hdrops := dropsLeast_removeCandidate hne
    exact ⟨hdrops, by have := hdrops.length; omega⟩

/-! ## One call -/

section

variable [World]

theorem evictOne_run (s : NodeRunner) :
    evictOne s = .ok () { s with
      calls := s.calls + 1
      pending := roomMade (World.clock s.calls) s.pendingCap s.pending } := by
  have hrun : evictOne s = .ok () (if (s.pending.filter fun item =>
        !item.message.isExpired (World.clock s.calls)).length < s.pendingCap
      then { s with calls := s.calls + 1, pending := s.pending.filter fun item =>
        !item.message.isExpired (World.clock s.calls) }
      else { s with calls := s.calls + 1, pending := removeCandidate (s.pending.filter fun item =>
        !item.message.isExpired (World.clock s.calls)) }) := rfl
  rw [hrun, roomMade]
  split <;> rfl

/-- What is left of a queue, full or not, when there has to be a free slot. -/
structure LeavesRoom (now : UInt64) (cap : Nat) (queue kept : List PendingMessage) : Prop where
  room : kept.length < cap
  unchanged : queue.length < cap → kept = queue
  evicts : cap ≤ queue.length → Evicts now cap queue kept

theorem makeRoom_run {s : NodeRunner} (hcap : 1 ≤ s.pendingCap)
    (hlen : s.pending.length ≤ s.pendingCap) :
    ∃ calls kept, makeRoom s = .ok () { s with calls, pending := kept }
      ∧ LeavesRoom (World.clock s.calls) s.pendingCap s.pending kept := by
  by_cases hfull : s.pendingCap ≤ s.pending.length
  · -- full: an entry goes, or several that have expired
    have hrun : makeRoom s = evictOne s := by
      show (if s.pendingCap ≤ s.pending.length then evictOne else pure ()) s = _
      rw [if_pos hfull]
    obtain ⟨hevicts, hroom⟩ := evicts_roomMade (World.clock s.calls) hcap hlen
    exact ⟨_, _, hrun.trans (evictOne_run s), hroom, fun hlt => absurd hfull (Nat.not_le.mpr hlt),
      fun _ => hevicts⟩
  · have hrun : makeRoom s = .ok () s := by
      show (if s.pendingCap ≤ s.pending.length then evictOne else pure ()) s = _
      rw [if_neg hfull]
      rfl
    exact ⟨s.calls, s.pending, hrun, Nat.not_le.mp hfull, fun _ => rfl, fun h => absurd h hfull⟩

theorem enqueue_expired {s : NodeRunner} (toPeer : String) {m : DirectMessage}
    (hexpired : m.isExpired (World.clock s.calls) = true) :
    enqueue toPeer m s = .ok () { s with calls := s.calls + 1 } := by
  show (if m.isExpired (World.clock s.calls) then pure () else _ : NodeM Unit)
    { s with calls := s.calls + 1 } = _
  rw [if_pos hexpired]
  rfl

/-- A message that has not expired is queued, behind what is left if the queue is full. -/
theorem enqueue_run {s : NodeRunner} (toPeer : String) {m : DirectMessage}
    (hcap : 1 ≤ s.pendingCap) (hlen : s.pending.length ≤ s.pendingCap)
    (hfresh : m.isExpired (World.clock s.calls) = false) :
    ∃ kept s', enqueue toPeer m s = .ok () s'
      ∧ s'.pending = kept ++ [{ toPeer, message := m }] ∧ s'.pendingCap = s.pendingCap
      ∧ LeavesRoom (World.clock (s.calls + 1)) s.pendingCap s.pending kept := by
  obtain ⟨calls, kept, hrun, hkept⟩ := makeRoom_run (s := { s with calls := s.calls + 1 }) hcap hlen
  refine ⟨kept, { s with
    calls
    pending := kept ++ [{ toPeer, message := m }]
    metrics := { s.metrics with
      pendingQueueSize := kept.length + 1
      seenCacheSize := s.seenCache.len }
    out := s.out ++ [.enqueued toPeer m] }, ?_, rfl, rfl, hkept⟩
  show (if m.isExpired (World.clock s.calls) then pure () else makeRoom >>= fun _ => _ : NodeM Unit)
    { s with calls := s.calls + 1 } = _
  rw [hfresh, if_neg Bool.false_ne_true, run_bind_of_ok hrun]
  show (if s.pendingCap ≤ kept.length then _ else _ : NodeM Unit) { s with calls, pending := kept } = _
  rw [if_neg (Nat.not_le.mpr hkept.room)]
  rfl

/-! ## Runs -/

inductive QueueCall where
  | enqueue (toPeer : String) (message : DirectMessage)
  | evictExpired
  | forwardOnce

def QueueCall.run : QueueCall → NodeM Unit
  | .enqueue toPeer message => Node.enqueue toPeer message
  | .evictExpired => Node.evictExpired
  | .forwardOnce => Node.forwardOnce

/-- The queue is within its bound, which is `cap`. -/
def Bounded (cap : Nat) (s : NodeRunner) : Prop := s.pendingCap = cap ∧ s.pending.length ≤ cap

variable {cap : Nat}

omit [World] in
theorem bounded_worldCall {α : Type} (f : Nat → α) : Keeps (Bounded cap) False (worldCall f) :=
  Keeps.modifyGet fun _ hs => hs

theorem bounded_evictExpired : Keeps (Bounded cap) False evictExpired :=
  Keeps.bind (bounded_worldCall _) fun _ => Keeps.modify fun _ hs =>
    ⟨hs.1, (List.length_filter_le _ _).trans hs.2⟩

theorem bounded_enqueue (hcap : 1 ≤ cap) (toPeer : String) (m : DirectMessage) :
    Keeps (Bounded cap) False (Node.enqueue toPeer m) := by
  refine ⟨fun s hs => ?_⟩
  obtain ⟨rfl, hlen⟩ := hs
  by_cases hexpired : m.isExpired (World.clock s.calls) = true
  · rw [enqueue_expired toPeer hexpired]
    exact ⟨rfl, hlen⟩
  · obtain ⟨kept, s', hrun, hpending, hcap', hkept⟩ :=
      enqueue_run toPeer hcap hlen (Bool.not_eq_true _ ▸ hexpired)
    rw [hrun]
    refine ⟨hcap', ?_⟩
    have hroom := hkept.room
    rw [hpending, List.length_append, List.length_singleton]
    omega

/-- What is sent leaves the queue alone. -/
theorem bounded_forwardItem (state : NodeState) (item : PendingMessage) :
    Keeps (Bounded cap) False (forwardItem state item) := by
  refine Keeps.bind (bounded_worldCall _) fun now => Keeps.ite (fun _ => Keeps.pure) fun _ => ?_
  refine Keeps.ite (fun _ => Keeps.pure) fun _ => Keeps.bind ?_ fun sent => ?_
  · refine Keeps.bind (bounded_worldCall _) fun ok => Keeps.ite (fun _ => ?_) fun _ => Keeps.pure
    exact Keeps.bind (Keeps.modify fun _ hs => hs) fun _ => Keeps.pure
  · exact Keeps.ite (fun _ => Keeps.modify fun _ hs => hs) fun _ => Keeps.pure

theorem bounded_forwardOnce : Keeps (Bounded cap) False Node.forwardOnce := by
  refine forwardOnce_keeps bounded_worldCall (fun _ _ hs => hs) (fun _ _ hs => hs)
    bounded_evictExpired ?_
  intro s item rest hpending hs
  refine ((bounded_forwardItem s.nodeState item).imp ?_ (fun _ _ h => h) (fun _ _ h => h))
  rintro _ rfl
  refine ⟨hs.1, ?_⟩
  have hlen := hs.2
  rw [hpending, List.length_cons] at hlen
  show rest.length ≤ cap
  omega

theorem bounded_run (hcap : 1 ≤ cap) (call : QueueCall) : Keeps (Bounded cap) False call.run := by
  cases call with
  | enqueue toPeer message => exact bounded_enqueue hcap toPeer message
  | evictExpired => exact bounded_evictExpired
  | forwardOnce => exact bounded_forwardOnce

/-- **The discipline of the queue.** From a runner whose queue is within its bound, every sequence
of calls returns and leaves the queue within the bound; and in the state it leads to, a message
that has not expired is put behind what is left of the queue: all of it if there is a free slot,
else what `Evicts` says. -/
theorem queue_discipline {s : NodeRunner} (hcap : 1 ≤ s.pendingCap)
    (hlen : s.pending.length ≤ s.pendingCap) (calls : List QueueCall) :
    ∃ s', forM calls QueueCall.run s = .ok () s' ∧ s'.pendingCap = s.pendingCap
      ∧ s'.pending.length ≤ s'.pendingCap
      ∧ ∀ toPeer m, m.isExpired (World.clock s'.calls) = false →
        ∃ kept s'', Node.enqueue toPeer m s' = .ok () s''
          ∧ s''.pending = kept ++ [{ toPeer, message := m }]
          ∧ LeavesRoom (World.clock (s'.calls + 1)) s'.pendingCap s'.pending kept := by
  have hkeeps : Keeps (Bounded s.pendingCap) False (forM calls QueueCall.run) :=
    Keeps.forM fun call _ => bounded_run hcap call
  obtain ⟨_, s', hrun⟩ := hkeeps.returns ⟨rfl, hlen⟩
  have hbounded := hkeeps.state (s := s) ⟨rfl, hlen⟩
  rw [hrun] at hbounded
  obtain ⟨hcap', hlen'⟩ := hbounded
  refine ⟨s', hrun, hcap', hcap' ▸ hlen', ?_⟩
  intro toPeer m hfresh
  obtain ⟨kept, s'', henqueue, hpending, -, hkept⟩ :=
    enqueue_run toPeer (hcap' ▸ hcap) (hcap' ▸ hlen') hfresh
  exact ⟨kept, s'', henqueue, hpending, hkept⟩

/-! ## What a new message displaces -/

/-- An entry that has not expired when `enqueue` evicts, and of which there is less afterwards. -/
def Displaced (toPeer : String) (m : DirectMessage) (s : NodeRunner) (item : PendingMessage) : Prop :=
  item.message.isExpired (World.clock (s.calls + 1)) = false
    ∧ (finalState (Node.enqueue toPeer m s)).pending.count item < s.pending.count item

variable {s : NodeRunner} {m : DirectMessage} {toPeer : String}

omit [World] in
/-- Of a queue without the entry `victim`, nothing else is less. -/
theorem eq_of_count_lt {pre post : List PendingMessage} {victim item : PendingMessage}
    (h : (pre ++ post).count item < (pre ++ victim :: post).count item) : item = victim := by
  by_contra hne
  rw [List.count_append, List.count_append, List.count_cons_of_ne (Ne.symm hne)] at h
  exact absurd h (lt_irrefl _)

omit [World] in
/-- An entry that is still fresh is not among what the filter takes out. -/
theorem count_fresh {now : UInt64} {queue : List PendingMessage} {item : PendingMessage}
    (hfresh : item.message.isExpired now = false) :
    (queue.filter fun item => !item.message.isExpired now).count item = queue.count item :=
  List.count_filter (by rw [hfresh]; rfl)

/-- What a full queue loses when nothing in it has expired. -/
theorem displaced_of_dropsLeast {pre post : List PendingMessage} {victim : PendingMessage}
    (hexpired : victim.message.isExpired (World.clock (s.calls + 1)) = false)
    (hqueue : s.pending = pre ++ victim :: post)
    (hafter : (finalState (Node.enqueue toPeer m s)).pending
      = pre ++ post ++ [{ toPeer, message := m }])
    (hne : victim ≠ { toPeer, message := m }) : Displaced toPeer m s victim := by
  refine ⟨hexpired, ?_⟩
  rw [hafter, hqueue]
  simp only [List.count_append, List.count_cons_self, List.count_cons_of_ne (Ne.symm hne),
    List.count_nil]
  omega

/-- **Priority inversion.** Whatever is in a full queue, a message displaces nothing of a higher
priority, exactly if it is itself expired, or an entry is, or an entry is of no higher priority. -/
theorem no_inversion_iff (hcap : 1 ≤ s.pendingCap) (hfull : s.pending.length = s.pendingCap) :
    (∀ item, Displaced toPeer m s item → item.rank ≤ priorityRank m.envelope.priority)
      ↔ m.isExpired (World.clock s.calls) = true
        ∨ ∃ item ∈ s.pending, item.message.isExpired (World.clock (s.calls + 1)) = true
          ∨ item.rank ≤ priorityRank m.envelope.priority := by
  by_cases hexpired : m.isExpired (World.clock s.calls) = true
  · -- nothing is queued
    refine iff_of_true ?_ (.inl hexpired)
    rintro item ⟨-, hless⟩
    rw [enqueue_expired toPeer hexpired] at hless
    exact absurd hless (lt_irrefl _)
  obtain ⟨kept, s', hrun, hafter, -, hroom⟩ :=
    enqueue_run toPeer hcap hfull.le (Bool.not_eq_true _ ▸ hexpired)
  have hevicts := hroom.evicts hfull.ge
  unfold Evicts at hevicts
  have hfinal : (finalState (Node.enqueue toPeer m s)).pending = kept ++ [{ toPeer, message := m }] := by
    rw [hrun]
    exact hafter
  -- the new entry hides no loss: what is less afterwards is less in what was kept
  have hless : ∀ item, Displaced toPeer m s item → kept.count item < s.pending.count item := by
    rintro item ⟨-, hless⟩
    rw [hfinal, List.count_append] at hless
    exact (Nat.le_add_right _ _).trans_lt hless
  constructor
  · intro h
    by_contra hnone
    rw [not_or, not_exists] at hnone
    have hitem : ∀ item ∈ s.pending, item.message.isExpired (World.clock (s.calls + 1)) = false
        ∧ ¬ item.rank ≤ priorityRank m.envelope.priority := by
      intro item hmem
      have hno := not_or.mp (not_and.mp (hnone.2 item) hmem)
      exact ⟨Bool.not_eq_true _ ▸ hno.1, hno.2⟩
    -- so nothing is taken out of the queue before its entry of lowest priority is
    have hall : (s.pending.filter fun item => !item.message.isExpired (World.clock (s.calls + 1)))
        = s.pending :=
      List.filter_eq_self.mpr fun item hmem => by rw [(hitem item hmem).1]; rfl
    rw [hall, if_neg (Nat.not_lt.mpr hfull.ge)] at hevicts
    obtain ⟨pre, victim, post, hqueue, rfl, -, -⟩ := hevicts
    obtain ⟨hfresh, hhigher⟩ := hitem victim (hqueue ▸ List.mem_append_cons_self)
    have hne : victim ≠ { toPeer, message := m } := by
      rintro rfl
      exact hhigher (UInt8.le_refl _)
    exact hhigher (h victim (displaced_of_dropsLeast hfresh hqueue hfinal hne))
  · rintro h item hitem
    have hmem := h.resolve_left hexpired
    split at hevicts
    · -- only what has expired is gone
      next =>
        subst hevicts
        have hcount := hless item hitem
        rw [count_fresh hitem.1] at hcount
        exact absurd hcount (lt_irrefl _)
    · next hnofree =>
        have hall : (s.pending.filter fun item => !item.message.isExpired (World.clock (s.calls + 1)))
            = s.pending := by
          refine List.filter_sublist.eq_of_length_le ?_
          omega
        obtain ⟨pre, victim, post, hqueue, rfl, hpre, hpost⟩ := hevicts
        obtain rfl : item = victim := eq_of_count_lt (hqueue ▸ hless item hitem)
        -- the entry in question has not expired, and the one that is gone ranks no higher
        obtain ⟨other, hother, hlow⟩ := hmem
        have hfresh : other.message.isExpired (World.clock (s.calls + 1)) = false := by
          rw [← hall] at hother
          exact Bool.not_eq_true' _ ▸ (List.mem_filter.mp hother).2
        have hleast : item.rank ≤ other.rank := by
          rw [hqueue] at hother
          rcases List.mem_append.mp hother with hother | hother
          · exact UInt8.le_of_lt (hpre other hother)
          rcases List.mem_cons.mp hother with rfl | hother
          · exact UInt8.le_refl _
          · exact hpost other hother
        rcases hlow with hexp | hlow
        · rw [hfresh] at hexp
          cases hexp
        · exact UInt8.le_trans hleast hlow

end

section

attribute [local instance] symbolicPrims

/-- An entry of the given priority, made at time 5000000. -/
def pendingOf (toPeer : String) (priority : Priority) : PendingMessage where
  toPeer
  message := { symbolicMessage 1 toPeer 5000000 with
    envelope := { (symbolicMessage 1 toPeer 5000000).envelope with priority } }

/-- A node whose queue is full. -/
def fullNode : NodeRunner :=
  { symbolicNode 2 3 5000000 with
    pending := [pendingOf "a" .normal, pendingOf "b" .low, pendingOf "c" .low]
    pendingCap := 3 }

/-- Two more messages are queued, and the queue is still full. -/
theorem queue_discipline_full :
    fullNode.pending.length = 3
    ∧ ∃ s', @Bounded 3 s' ∧ @forM NodeM _ _ _ [.enqueue "d" (pendingOf "d" .low).message, .forwardOnce,
        .enqueue "e" (pendingOf "e" .high).message] (@QueueCall.run (stillWorld 5000000)) fullNode
          = .ok () s' := by
  let _ : World := stillWorld 5000000
  obtain ⟨s', hrun, hcap, hlen, -⟩ := queue_discipline (s := fullNode) (by decide) (by decide)
    [.enqueue "d" (pendingOf "d" .low).message, .forwardOnce,
      .enqueue "e" (pendingOf "e" .high).message]
  exact ⟨rfl, s', ⟨hcap, hlen.trans (le_of_eq hcap)⟩, hrun⟩

/-- A full queue of messages of high and normal priority. -/
def busyNode : NodeRunner :=
  { symbolicNode 2 3 5000000 with
    pending := [pendingOf "a" .high, pendingOf "b" .normal, pendingOf "c" .high]
    pendingCap := 3 }

/-- A message of low priority takes the place of one of normal priority. -/
theorem low_displaces_normal :
    ¬ ∀ item, @Displaced (stillWorld 5000000) "d" (pendingOf "d" .low).message busyNode item →
      item.rank ≤ priorityRank .low := by
  intro h
  have hdisplaced : @Displaced (stillWorld 5000000) "d" (pendingOf "d" .low).message busyNode
      (pendingOf "b" .normal) := by
    refine @displaced_of_dropsLeast (stillWorld 5000000) busyNode _ "d" [pendingOf "a" .high]
      [pendingOf "c" .high] _ rfl rfl rfl ?_
    intro heq
    exact absurd (congrArg PendingMessage.toPeer heq) (by decide)
  exact absurd (h _ hdisplaced) (by decide)

/-- A message of normal priority does not displace one of high priority. -/
theorem no_inversion_normal :
    1 ≤ busyNode.pendingCap ∧ busyNode.pending.length = busyNode.pendingCap
    ∧ ∀ item, @Displaced (stillWorld 5000000) "d" (pendingOf "d" .normal).message busyNode item →
      item.rank ≤ priorityRank .normal := by
  let _ : World := stillWorld 5000000
  refine ⟨by decide, rfl, ?_⟩
  exact (no_inversion_iff (s := busyNode) (by decide) rfl).mpr
    (.inr ⟨pendingOf "b" .normal, .tail _ (.head _), .inr (by decide)⟩)

end

end Mycelium.Node

import Mycelium.Lib.MaxHeap
import Mycelium.Lib.Words
import Mathlib.Data.List.Nodup

/-!
# Mycelium simulator — the event scheduler

Translation of `mycelium-sim/src/scheduler.rs`. The scheduler is a max-heap over an order that is
turned around twice: the event with the least time, and among those the first that was pushed, is
the greatest.

* `EventScheduler.push` / `popReady` / `nextTimestamp`;
* `ScheduledEvent.isLE_compare_iff` — the order of the heap in the words of the simulator;
* `SchedulerRun.scheduler_in_order` — every interleaving of pushes and pops.
-/

namespace Mycelium.Sim

structure ScheduledEvent (T : Type) where
  atMs : UInt64
  /-- The number of the push; a `u64` in the source, of fewer than 2^64 pushes. -/
  seq : Nat
  payload : T
deriving DecidableEq, Repr

namespace ScheduledEvent

variable {T : Type}

/-- `impl Ord for ScheduledEvent`: reversed in both keys. -/
instance : Ord (ScheduledEvent T) where
  compare self other := (compare other.atMs self.atMs).then (compare other.seq self.seq)

/-- `impl PartialEq for ScheduledEvent`: the payload does not count. -/
instance : BEq (ScheduledEvent T) where
  beq self other := self.atMs == other.atMs && self.seq == other.seq

/-- `x` comes first, by time and then by push. -/
def NotAfter (x y : ScheduledEvent T) : Prop :=
  x.atMs < y.atMs ∨ x.atMs = y.atMs ∧ x.seq ≤ y.seq

/-- The order of the heap in numbers: the time, and among equal times the sequence number. -/
theorem notAfter_iff {x y : ScheduledEvent T} : x.NotAfter y ↔
    x.atMs.toNat < y.atMs.toNat ∨ x.atMs.toNat = y.atMs.toNat ∧ x.seq ≤ y.seq := by
  unfold NotAfter
  rw [U64.lt_iff, ← UInt64.toNat_inj]

/-- The order is transitive. -/
theorem NotAfter.trans {x y z : ScheduledEvent T} (hxy : x.NotAfter y) (hyz : y.NotAfter z) :
    x.NotAfter z := by
  rw [notAfter_iff] at hxy hyz ⊢
  omega

/-- What is not after an event is not later. -/
theorem NotAfter.atMs_le {x y : ScheduledEvent T} (h : x.NotAfter y) : x.atMs ≤ y.atMs := by
  rw [notAfter_iff] at h
  rw [U64.le_iff]
  omega

/-- The order is the one of `Ord`, turned around for a heap that pops the greatest. -/
theorem isLE_compare_iff {x y : ScheduledEvent T} :
    (compare y x).isLE = true ↔ x.NotAfter y := by
  show ((compare x.atMs y.atMs).then (compare x.seq y.seq)).isLE = true ↔ _
  have hseq : (compare x.seq y.seq).isLE = true ↔ x.seq ≤ y.seq := Std.isLE_compare
  rw [notAfter_iff, ← hseq]
  cases hat : compare x.atMs y.atMs with
  | lt =>
    have hlt : x.atMs.toNat < y.atMs.toNat := U64.lt_iff.mp (Std.compare_eq_lt.mp hat)
    simp [hlt]
  | eq =>
    have heq : x.atMs = y.atMs := Std.compare_eq_iff_eq.mp hat
    simp [heq]
  | gt =>
    have hgt : y.atMs.toNat < x.atMs.toNat := U64.lt_iff.mp (Std.compare_eq_gt.mp hat)
    simp [hgt.ne', hgt.le]

instance : Std.TransOrd (ScheduledEvent T) where
  eq_swap {x y} := by
    show (compare y.atMs x.atMs).then (compare y.seq x.seq)
      = ((compare x.atMs y.atMs).then (compare x.seq y.seq)).swap
    rw [Ordering.swap_then, ← Std.OrientedOrd.eq_swap, ← Std.OrientedOrd.eq_swap]
  isLE_trans {x y z} hxy hyz := by
    rw [isLE_compare_iff] at hxy hyz ⊢
    exact hyz.trans hxy

/-- The order and the equality agree. -/
instance : Std.LawfulBEqOrd (ScheduledEvent T) where
  compare_eq_iff_beq {x y} := by
    show (compare y.atMs x.atMs).then (compare y.seq x.seq) = .eq
      ↔ (x.atMs == y.atMs && x.seq == y.seq) = true
    rw [Ordering.then_eq_eq, Std.compare_eq_iff_eq, Std.compare_eq_iff_eq, Bool.and_eq_true,
      beq_iff_eq, beq_iff_eq, eq_comm, @eq_comm _ y.seq]

end ScheduledEvent

structure EventScheduler (T : Type) where
  nextSeq : Nat := 0
  queue : MaxHeap (ScheduledEvent T) := .empty

namespace EventScheduler

variable {T : Type}

/-- `push`. -/
def push (s : EventScheduler T) (atMs : UInt64) (payload : T) : EventScheduler T where
  nextSeq := s.nextSeq + 1
  queue := s.queue.push { atMs, seq := s.nextSeq + 1, payload }

/-- `pop_ready`. -/
def popReady (s : EventScheduler T) (nowMs : UInt64) : Option (ScheduledEvent T) × EventScheduler T :=
  let ready := (s.queue.peek.map fun event => decide (event.atMs ≤ nowMs)).getD false
  if ready then (s.queue.peek, { s with queue := s.queue.tail }) else (none, s)

/-- `next_timestamp`. -/
def nextTimestamp (s : EventScheduler T) : Option UInt64 := s.queue.peek.map fun event => event.atMs

variable {s s' : EventScheduler T} {now : UInt64} {e : ScheduledEvent T}

/-- The first event comes before all others. -/
theorem notAfter_of_peek (h : s.queue.peek = some e) {x : ScheduledEvent T}
    (hx : x ∈ s.queue.items) : e.NotAfter x :=
  ScheduledEvent.isLE_compare_iff.mp (MaxHeap.isLE_of_peek h hx)

/-- The event on top is the earliest. -/
theorem atMs_le_of_peek (h : s.queue.peek = some e) {x : ScheduledEvent T}
    (hx : x ∈ s.queue.items) : e.atMs ≤ x.atMs :=
  (notAfter_of_peek h hx).atMs_le

/-- An event that is popped was on top and is due. -/
theorem popReady_some (h : s.popReady now = (some e, s')) :
    s.queue.peek = some e ∧ e.atMs ≤ now ∧ s' = { s with queue := s.queue.tail } := by
  unfold popReady at h
  dsimp only at h
  split at h
  · next hready =>
    obtain ⟨hpeek, hs'⟩ := Prod.mk.inj h
    rw [hpeek] at hready
    exact ⟨hpeek, of_decide_eq_true hready, hs'.symm⟩
  · cases (Prod.mk.inj h).1

/-- When nothing is popped nothing is due, and the queue stays. -/
theorem popReady_none (h : (s.popReady now).1 = none) :
    s.popReady now = (none, s) ∧ ∀ x ∈ s.queue.items, now < x.atMs := by
  unfold popReady at h ⊢
  dsimp only at h ⊢
  split at h
  · next hready =>
    rw [show s.queue.peek = none from h] at hready
    cases hready
  · next hready =>
    rw [if_neg hready]
    refine ⟨rfl, fun x hx => ?_⟩
    cases hpeek : s.queue.peek with
    | none =>
      rw [MaxHeap.peek_eq_none_iff.mp hpeek] at hx
      cases hx
    | some e =>
      rw [hpeek] at hready
      have hlate : ¬ e.atMs ≤ now := fun hle => hready (decide_eq_true hle)
      exact UInt64.lt_of_lt_of_le (UInt64.not_le.mp hlate) (atMs_le_of_peek hpeek hx)

/-- There is no next time only in an empty queue. -/
theorem nextTimestamp_eq_none_iff : s.nextTimestamp = none ↔ s.queue.items = [] := by
  rw [nextTimestamp, Option.map_eq_none_iff, MaxHeap.peek_eq_none_iff]

/-- The next time is that of an event, and the least. -/
theorem nextTimestamp_eq_some {t : UInt64} (h : s.nextTimestamp = some t) :
    (∃ x ∈ s.queue.items, x.atMs = t) ∧ ∀ x ∈ s.queue.items, t ≤ x.atMs := by
  obtain ⟨e, hpeek, rfl⟩ := Option.map_eq_some_iff.mp h
  exact ⟨⟨e, MaxHeap.mem_of_peek hpeek, rfl⟩, fun x hx => atMs_le_of_peek hpeek hx⟩

end EventScheduler

/-! ## Every interleaving -/

inductive SchedulerCall (T : Type) where
  | push (atMs : UInt64) (payload : T)
  | popReady (nowMs : UInt64)

/-- A scheduler, what was pushed in order, and what was popped, with the time of the pop. -/
structure SchedulerRun (T : Type) where
  scheduler : EventScheduler T := {}
  pushed : List (UInt64 × T) := []
  popped : List (ScheduledEvent T × UInt64) := []

namespace SchedulerRun

variable {T : Type}

def step (r : SchedulerRun T) : SchedulerCall T → SchedulerRun T
  | .push atMs payload =>
    { r with scheduler := r.scheduler.push atMs payload, pushed := r.pushed ++ [(atMs, payload)] }
  | .popReady nowMs =>
    match r.scheduler.popReady nowMs with
    | (some e, scheduler) => { r with scheduler, popped := r.popped ++ [(e, nowMs)] }
    | (none, scheduler) => { r with scheduler }

def run (calls : List (SchedulerCall T)) : SchedulerRun T := calls.foldl step {}

/-- The pushed events, numbered by their pushes. -/
def events (r : SchedulerRun T) : List (ScheduledEvent T) :=
  r.pushed.mapIdx fun i p => { atMs := p.1, seq := i + 1, payload := p.2 }

/-- The numbers of the popped events. -/
def poppedSeqs (r : SchedulerRun T) : List Nat := r.popped.map fun p => p.1.seq

/-- The events that were pushed and not popped. -/
def remaining (r : SchedulerRun T) : List (ScheduledEvent T) :=
  r.events.filter fun e => e.seq ∉ r.poppedSeqs

/-- The invariant of every run. -/
structure Sound (r : SchedulerRun T) : Prop where
  nextSeq : r.scheduler.nextSeq = r.pushed.length
  queue : r.scheduler.queue.items.Perm r.remaining
  popped : ∀ p ∈ r.popped, p.1 ∈ r.events ∧ p.1.atMs ≤ p.2
  once : r.poppedSeqs.Nodup

/-- A pushed event gets the next sequence number. -/
theorem events_push (r : SchedulerRun T) (atMs : UInt64) (payload : T) :
    (r.step (.push atMs payload)).events
      = r.events ++ [{ atMs, seq := r.pushed.length + 1, payload }] :=
  List.mapIdx_concat

/-- Sequence numbers count the pushes. -/
theorem seq_le_of_mem_events {r : SchedulerRun T} {e : ScheduledEvent T} (he : e ∈ r.events) :
    e.seq ≤ r.pushed.length := by
  obtain ⟨i, hi, rfl⟩ := List.mem_mapIdx.mp he
  exact hi

/-- No sequence number is given twice. -/
theorem seq_nodup_events (r : SchedulerRun T) : (r.events.map ScheduledEvent.seq).Nodup := by
  have hseq : r.events.map ScheduledEvent.seq = (List.range r.pushed.length).map (· + 1) := by
    refine List.ext_getElem ?_ fun i hi hi' => ?_
    · simp [events]
    · simp [events]
  rw [hseq]
  exact List.nodup_range.map (fun _ _ h => Nat.succ.inj h)

/-- So the number tells an event from the others. -/
theorem seq_inj {r : SchedulerRun T} {e e' : ScheduledEvent T} (he : e ∈ r.events)
    (he' : e' ∈ r.events) (hseq : e.seq = e'.seq) : e = e' :=
  List.inj_on_of_nodup_map r.seq_nodup_events he he' hseq

namespace Sound

variable {r : SchedulerRun T}

/-- **A push** keeps the run sound: the new event comes after those of its time. -/
theorem push (h : Sound r) (atMs : UInt64) (payload : T) : Sound (r.step (.push atMs payload)) := by
  -- the number of the new event is not among those that were popped
  have hnew : r.pushed.length + 1 ∉ r.poppedSeqs := by
    intro hmem
    obtain ⟨p, hp, hseq⟩ := List.mem_map.mp hmem
    have hle := seq_le_of_mem_events (h.popped p hp).1
    omega
  refine ⟨?_, ?_, fun p hp => ?_, h.once⟩
  · show r.scheduler.nextSeq + 1 = (r.pushed ++ [(atMs, payload)]).length
    rw [h.nextSeq, List.length_append, List.length_singleton]
  · have hremaining : (r.step (.push atMs payload)).remaining
        = r.remaining ++ [{ atMs, seq := r.pushed.length + 1, payload }] := by
      unfold remaining
      rw [events_push, List.filter_append]
      refine congrArg (_ ++ ·) (List.filter_cons_of_pos ?_)
      exact decide_eq_true hnew
    rw [hremaining, ← h.nextSeq]
    refine (MaxHeap.perm_push _ _).trans ((h.queue.cons _).trans ?_)
    exact List.perm_append_singleton _ _ |>.symm
  · obtain ⟨hmem, hle⟩ := h.popped p hp
    rw [events_push]
    exact ⟨List.mem_append_left _ hmem, hle⟩

/-- **A pop** keeps the run sound: it takes the first of what is due. -/
theorem popReady (h : Sound r) (nowMs : UInt64) : Sound (r.step (.popReady nowMs)) := by
  unfold step
  dsimp only
  -- nothing is due, or the peeked event leaves the queue
  cases hpop : r.scheduler.popReady nowMs with
  | mk answer scheduler =>
    cases answer with
    | none =>
      obtain ⟨heq, -⟩ := EventScheduler.popReady_none (congrArg Prod.fst hpop)
      obtain rfl : r.scheduler = scheduler := (Prod.mk.inj (heq.symm.trans hpop)).2
      exact h
    | some e =>
      obtain ⟨hpeek, hdue, rfl⟩ := EventScheduler.popReady_some hpop
      have hremaining : e ∈ r.remaining := h.queue.subset (MaxHeap.mem_of_peek hpeek)
      obtain ⟨hevent, hfresh⟩ := List.mem_filter.mp hremaining
      replace hfresh := of_decide_eq_true hfresh
      refine ⟨h.nextSeq, ?_, fun p hp => ?_, ?_⟩
      -- the queue without its top is what remains without that event: sequence numbers are unique
      · have hitems : (e :: r.scheduler.queue.tail.items).Perm r.remaining :=
          MaxHeap.items_of_peek hpeek ▸ h.queue
        have hrest : r.remaining.Perm (e :: r.remaining.filter fun x => x.seq ≠ e.seq) := by
          have hnodup : r.remaining.Nodup :=
            (List.Nodup.of_map _ r.seq_nodup_events).filter _
          refine (List.perm_ext_iff_of_nodup hnodup (List.nodup_cons.mpr
            ⟨fun hmem => by simp at hmem, hnodup.filter _⟩)).mpr fun x => ?_
          rw [List.mem_cons, List.mem_filter, decide_eq_true_eq]
          constructor
          · intro hx
            by_cases hseq : x.seq = e.seq
            · exact .inl (seq_inj (List.mem_of_mem_filter hx) hevent hseq)
            · exact .inr ⟨hx, hseq⟩
          · rintro (rfl | ⟨hx, -⟩)
            · exact hremaining
            · exact hx
        have hkept : { r with
            scheduler := { r.scheduler with queue := r.scheduler.queue.tail }
            popped := r.popped ++ [(e, nowMs)] : SchedulerRun T }.remaining
            = r.remaining.filter fun x => x.seq ≠ e.seq := by
          unfold remaining poppedSeqs
          rw [List.filter_filter]
          refine List.filter_congr fun x _ => ?_
          rw [List.map_append, Bool.eq_iff_iff]
          simp [not_or, and_comm]
        rw [hkept]
        exact (hitems.trans hrest).cons_inv
      · rcases List.mem_append.mp hp with hold | hlast
        · exact h.popped p hold
        · obtain rfl := List.mem_singleton.mp hlast
          exact ⟨hevent, hdue⟩
      -- the popped event was still remaining, so its number was not popped before
      · show ((r.popped ++ [(e, nowMs)]).map fun p => p.1.seq).Nodup
        rw [List.map_append]
        exact List.concat_eq_append ▸ h.once.concat hfresh

/-- Every run is sound. Induction on the calls, over all sound runs before them. -/
theorem run (calls : List (SchedulerCall T)) : Sound (run calls) := by
  have hrun : ∀ r : SchedulerRun T, Sound r → Sound (calls.foldl step r) := by
    induction calls with
    | nil => exact fun r hr => hr
    | cons call calls ih =>
      intro r hr
      cases call with
      | push atMs payload => exact ih _ (hr.push atMs payload)
      | popReady nowMs => exact ih _ (hr.popReady nowMs)
  exact hrun {} ⟨rfl, List.Perm.refl _, nofun, List.nodup_nil⟩

end Sound

/-- **The scheduler over every interleaving.** No event is popped twice or before its time; a pop
takes the remaining event that is first by time and then by push, and takes none only if none is due;
the next timestamp is the least that remains. -/
theorem scheduler_in_order (calls : List (SchedulerCall T)) :
    (run calls).poppedSeqs.Nodup
    ∧ (∀ p ∈ (run calls).popped, p.1 ∈ (run calls).events ∧ p.1.atMs ≤ p.2)
    ∧ (∀ now e, ((run calls).scheduler.popReady now).1 = some e →
        e ∈ (run calls).remaining ∧ ∀ x ∈ (run calls).remaining, e.NotAfter x)
    ∧ (∀ now, ((run calls).scheduler.popReady now).1 = none →
        ∀ x ∈ (run calls).remaining, now < x.atMs)
    ∧ ((run calls).scheduler.nextTimestamp = none ↔ (run calls).remaining = [])
    ∧ ∀ t, (run calls).scheduler.nextTimestamp = some t →
        (∃ x ∈ (run calls).remaining, x.atMs = t) ∧ ∀ x ∈ (run calls).remaining, t ≤ x.atMs := by
  have h := Sound.run calls
  refine ⟨h.once, h.popped, fun now e he => ?_, fun now hnone x hx => ?_, ?_, fun t ht => ?_⟩
  · obtain ⟨hpeek, -, -⟩ := EventScheduler.popReady_some (Prod.ext he rfl)
    exact ⟨h.queue.subset (MaxHeap.mem_of_peek hpeek), fun x hx =>
      EventScheduler.notAfter_of_peek hpeek (h.queue.symm.subset hx)⟩
  · exact (EventScheduler.popReady_none hnone).2 x (h.queue.symm.subset hx)
  · rw [EventScheduler.nextTimestamp_eq_none_iff]
    exact ⟨fun hnil => List.nil_perm.mp (hnil ▸ h.queue), fun hnil => List.perm_nil.mp (hnil ▸ h.queue)⟩
  · obtain ⟨⟨x, hx, hat⟩, hleast⟩ := EventScheduler.nextTimestamp_eq_some ht
    exact ⟨⟨x, h.queue.subset hx, hat⟩, fun y hy => hleast y (h.queue.symm.subset hy)⟩

end SchedulerRun

end Mycelium.Sim

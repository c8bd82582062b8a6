import Mycelium.Lib.Recent
import Mycelium.Node.IngestGuard

/-!
# Mycelium node — what the id caches remember

Over any run, the queue of a cache is the window of the last ids that were new when they came, and
the set holds what the queue holds. This goes for the cache of seen ids, and for every author of the
replay window on its own.

* `IdCache.Tracks` — a cache against the history of its effective insertions;
* `dedup_caches_track` — both caches, over every run.
-/

namespace Mycelium.Node

open Recent (LatestWithin)

namespace IdCache

/-- What the cache holds after a history of effective insertions. -/
structure Tracks (c : IdCache) (cap : Nat) (history : List String) : Prop where
  order : c.order = history.rtake cap
  nodup : c.order.Nodup
  set : c.set = c.order.toFinset

theorem tracks_empty (cap : Nat) : Tracks {} cap [] where
  order := (List.rtake_nil cap).symm
  nodup := List.nodup_nil
  set := rfl

/-- The loop leaves the window of the queue. Induction on the queue. -/
theorem trimLoop_eq (cap : Nat) {order : List String} (hnodup : order.Nodup) :
    trimLoop cap order.toFinset order
      = { set := (order.rtake cap).toFinset, order := order.rtake cap } := by
  induction order with
  | nil =>
    rw [List.rtake_nil]
    rfl
  | cons oldest rest ih =>
    obtain ⟨hnew, hrest⟩ := List.nodup_cons.mp hnodup
    rw [trimLoop]
    split
    · next hover =>
      -- the oldest id leaves the queue and the set
      rw [List.toFinset_cons, Finset.erase_insert (by rwa [List.mem_toFinset]), ih hrest,
        Recent.rtake_cons (Nat.le_of_lt_succ hover)]
    · next hover =>
      rw [Recent.rtake_of_length_le (by rw [List.length_cons]; omega)]

namespace Tracks

variable {c : IdCache} {cap : Nat} {history : List String}

theorem contains_iff (h : Tracks c cap history) (id : String) :
    c.contains id = true ↔ LatestWithin cap id history := by
  rw [IdCache.contains, decide_eq_true_eq, h.set, List.mem_toFinset, h.order]
  exact Recent.mem_rtake_iff

theorem card_le (h : Tracks c cap history) : c.set.card ≤ cap := by
  rw [h.set, List.toFinset_card_of_nodup h.nodup, h.order, Recent.length_rtake]
  exact Nat.min_le_right _ _

/-- An id that is absent becomes the last of the history. -/
theorem push (h : Tracks c cap history) {id : String} (hnew : c.contains id = false) :
    Tracks (c.push cap id) cap (history ++ [id]) := by
  have habsent : id ∉ c.order := by
    have hset : id ∉ c.set := of_decide_eq_false hnew
    rwa [h.set, List.mem_toFinset] at hset
  have hnodup : (c.order ++ [id]).Nodup := by
    rw [← List.concat_eq_append]
    exact h.nodup.concat habsent
  have hset : insert id c.set = (c.order ++ [id]).toFinset := by
    rw [h.set, List.toFinset_append, Finset.union_comm]
    rfl
  rw [IdCache.push, hset, trimLoop_eq cap hnodup]
  refine ⟨?_, hnodup.sublist (List.drop_sublist _ _), rfl⟩
  show (c.order ++ [id]).rtake cap = _
  rw [h.order, Recent.rtake_rtake_append]

/-- Trimming once more changes nothing. -/
theorem trim (h : Tracks c cap history) : Tracks (trimLoop cap c.set c.order) cap history := by
  rw [h.set, trimLoop_eq cap h.nodup]
  refine ⟨?_, h.nodup.sublist (List.drop_sublist _ _), rfl⟩
  show c.order.rtake cap = _
  rw [h.order, Recent.rtake_rtake]

end Tracks

end IdCache

/-! ## The cache of seen ids -/

inductive SeenCacheOp where
  | contains (messageId : String)
  | insert (messageId : String)
deriving DecidableEq, Repr

namespace BasicSeenCache

def step (c : BasicSeenCache) : SeenCacheOp → BasicSeenCache
  | .contains _ => c
  | .insert messageId => c.insert messageId

def run (c : BasicSeenCache) (ops : List SeenCacheOp) : BasicSeenCache := ops.foldl step c

/-- The ids that were absent when they were inserted, in order. -/
def effective (c : BasicSeenCache) : List SeenCacheOp → List String
  | [] => []
  | .contains _ :: ops => effective c ops
  | .insert messageId :: ops =>
    if c.contains messageId then effective (c.insert messageId) ops
    else messageId :: effective (c.insert messageId) ops

@[simp] theorem cap_insert (c : BasicSeenCache) (messageId : String) :
    (c.insert messageId).cap = c.cap := by
  unfold insert
  split <;> rfl

/-- Induction on the operations; the history grows at its end. -/
theorem tracks_run {c : BasicSeenCache} {history : List String}
    (h : c.cache.Tracks c.cap history) (ops : List SeenCacheOp) :
    (c.run ops).cache.Tracks c.cap (history ++ c.effective ops) := by
  -- only an insertion of an id that is not there counts, and it goes to the end
  induction ops generalizing c history with
  | nil => rwa [effective, List.append_nil]
  | cons op ops ih =>
    show ((c.step op).run ops).cache.Tracks _ _
    cases op with
    | contains messageId => exact ih h
    | insert messageId =>
      have hcap := cap_insert c messageId
      rw [effective, step]
      cases hold : c.cache.contains messageId with
      | true =>
        rw [if_pos (show c.contains messageId = true from hold)]
        have hinsert : (c.insert messageId).cache.Tracks (c.insert messageId).cap history := by
          rw [hcap, insert, if_pos hold]
          exact h.trim
        have hrun := ih hinsert
        rwa [hcap] at hrun
      | false =>
        have hnew : ¬ c.contains messageId = true := by
          rw [contains, hold]
          exact Bool.false_ne_true
        rw [if_neg hnew]
        have hinsert : (c.insert messageId).cache.Tracks (c.insert messageId).cap
            (history ++ [messageId]) := by
          rw [hcap, insert, if_neg (show ¬ c.cache.contains messageId = true from hnew)]
          exact h.push hold
        have hrun := ih hinsert
        rwa [hcap, List.append_assoc] at hrun

end BasicSeenCache

/-! ## The replay window -/

namespace AuthorReplayWindow

def new (maxPerAuthor : Nat) : AuthorReplayWindow := { maxPerAuthor }

/-- What is kept for an author. -/
def entry (w : AuthorReplayWindow) (author : String) : IdCache := (w.byAuthor.lookup author).getD {}

/-- Calls of `is_duplicate`, each with its author and id. -/
def run (w : AuthorReplayWindow) (calls : List (String × String)) : AuthorReplayWindow :=
  calls.foldl (fun w call => (w.isDuplicate call.1 call.2).2) w

/-- The ids of the author that were absent when they came. -/
def effective (author : String) (w : AuthorReplayWindow) : List (String × String) → List String
  | [] => []
  | call :: calls =>
    if call.1 = author ∧ (w.isDuplicate call.1 call.2).1 = false then
      call.2 :: effective author (w.isDuplicate call.1 call.2).2 calls
    else effective author (w.isDuplicate call.1 call.2).2 calls

variable {w : AuthorReplayWindow} {author messageId : String}

theorem isDuplicate_fst : (w.isDuplicate author messageId).1 = (w.entry author).contains messageId := by
  unfold isDuplicate
  dsimp only
  split <;> simp_all [entry]

@[simp] theorem maxPerAuthor_isDuplicate :
    (w.isDuplicate author messageId).2.maxPerAuthor = w.maxPerAuthor := by
  unfold isDuplicate
  dsimp only
  split <;> rfl

/-- A call changes what is kept for its author, if the id is new. -/
theorem entry_isDuplicate (author' : String) :
    (w.isDuplicate author messageId).2.entry author'
      = if author = author' ∧ (w.entry author).contains messageId = false
        then (w.entry author).push w.maxPerAuthor messageId else w.entry author' := by
  by_cases hauthor : author = author'
  · subst hauthor
    unfold isDuplicate
    dsimp only
    cases hold : ((w.byAuthor.lookup author).getD {}).contains messageId with
    | true => simp [entry, hold]
    | false => simp [entry, hold]
  · have hother : author' ≠ author := Ne.symm hauthor
    rw [if_neg (show ¬ (author = author' ∧ _) from fun h => hauthor h.1)]
    unfold isDuplicate
    dsimp only
    split <;> simp [entry, hother]

/-- Induction on the calls, as for the cache of seen ids. -/
theorem tracks_run {history : List String} (h : (w.entry author).Tracks w.maxPerAuthor history)
    (calls : List (String × String)) :
    ((w.run calls).entry author).Tracks w.maxPerAuthor (history ++ w.effective author calls) := by
  induction calls generalizing w history with
  | nil => rwa [effective, List.append_nil]
  | cons call calls ih =>
    have hcap : (w.isDuplicate call.1 call.2).2.maxPerAuthor = w.maxPerAuthor :=
      maxPerAuthor_isDuplicate
    have hentry : (w.isDuplicate call.1 call.2).2.entry author = _ := entry_isDuplicate author
    show (((w.isDuplicate call.1 call.2).2.run calls).entry author).Tracks _ _
    rw [effective, isDuplicate_fst]
    split
    · next hnew =>
      obtain ⟨rfl, habsent⟩ := hnew
      rw [if_pos ⟨rfl, habsent⟩] at hentry
      have hpush := h.push habsent
      rw [← hentry, ← hcap] at hpush
      have hrun := ih hpush
      rwa [hcap, List.append_assoc] at hrun
    · next hold =>
      rw [if_neg hold] at hentry
      rw [← hentry, ← hcap] at h
      have hrun := ih h
      rwa [hcap] at hrun

/-- What is kept for an author comes from its own calls. Induction on the calls. -/
theorem entry_run_own {w' : AuthorReplayWindow} (hentry : w.entry author = w'.entry author)
    (hcap : w.maxPerAuthor = w'.maxPerAuthor) (calls : List (String × String)) :
    (w.run calls).entry author = (w'.run (calls.filter fun call => call.1 = author)).entry author := by
  induction calls generalizing w w' with
  | nil => exact hentry
  | cons call calls ih =>
    show ((w.isDuplicate call.1 call.2).2.run calls).entry author = _
    by_cases hown : call.1 = author
    · rw [List.filter_cons_of_pos (by simpa using hown)]
      refine ih ?_ ?_
      · subst hown
        rw [entry_isDuplicate, entry_isDuplicate, hentry, hcap]
      · rw [maxPerAuthor_isDuplicate, maxPerAuthor_isDuplicate, hcap]
    · rw [List.filter_cons_of_neg (by simpa using hown)]
      refine ih ?_ ?_
      · rw [entry_isDuplicate, if_neg fun h => hown h.1, hentry]
      · rw [maxPerAuthor_isDuplicate, hcap]

end AuthorReplayWindow

/-- **The id caches over every run.** The queue has no duplicates, the set holds what it holds, the
size stays within the capacity, and an id is reported exactly if its latest effective insertion is
among the last ones; in the replay window so for each author, on whom the calls of others have no
effect. -/
theorem dedup_caches_track (cap : Nat) :
    (∀ ops, ((BasicSeenCache.new cap).run ops).cache.order.Nodup
      ∧ ((BasicSeenCache.new cap).run ops).cache.set
        = ((BasicSeenCache.new cap).run ops).cache.order.toFinset
      ∧ ((BasicSeenCache.new cap).run ops).len ≤ cap
      ∧ ∀ id, ((BasicSeenCache.new cap).run ops).contains id = true
        ↔ LatestWithin cap id ((BasicSeenCache.new cap).effective ops))
    ∧ ∀ calls author, (((AuthorReplayWindow.new cap).run calls).entry author).order.Nodup
      ∧ (((AuthorReplayWindow.new cap).run calls).entry author).set
        = (((AuthorReplayWindow.new cap).run calls).entry author).order.toFinset
      ∧ (((AuthorReplayWindow.new cap).run calls).entry author).set.card ≤ cap
      ∧ (∀ id, (((AuthorReplayWindow.new cap).run calls).isDuplicate author id).1 = true
        ↔ LatestWithin cap id ((AuthorReplayWindow.new cap).effective author calls))
      ∧ ((AuthorReplayWindow.new cap).run calls).entry author
        = ((AuthorReplayWindow.new cap).run (calls.filter fun call => call.1 = author)).entry
          author := by
  constructor
  · intro ops
    have h := BasicSeenCache.tracks_run (c := BasicSeenCache.new cap) (IdCache.tracks_empty cap) ops
    exact ⟨h.nodup, h.set, h.card_le, fun id => h.contains_iff id⟩
  · intro calls author
    have hempty : ((AuthorReplayWindow.new cap).entry author).Tracks
        (AuthorReplayWindow.new cap).maxPerAuthor [] := IdCache.tracks_empty cap
    have h := AuthorReplayWindow.tracks_run hempty calls
    refine ⟨h.nodup, h.set, h.card_le, fun id => ?_,
      AuthorReplayWindow.entry_run_own rfl rfl calls⟩
    rw [AuthorReplayWindow.isDuplicate_fst]
    exact h.contains_iff id

end Mycelium.Node

import Mycelium.Node.GossipReplay
import Mycelium.Node.StoreOrigin

/-!
# Mycelium node — what an input does to one peer, one author and one id

The runner keeps what it has learned in tables: the reputations by sender, the windows and rates of
the guard by author, the store by id. A frame looks at one entry of each and changes no other, so
what becomes of it is a function of those entries and of the clock readings it makes.

* `IngestGuard.Confined` — the checks of the guard, each confined to the entry of one author;
* `verdictFrom` / `verdictFrom_congr` — the verdict as such a function; only the readings that are
  made matter;
* `lookup_afterData`, `entry_afterData`, `contains_data` — what a `Data` frame leaves;
* `kept_input` — what is in the seen cache is in the store, garbage collection apart.
-/

namespace Mycelium.Node

/-! ## The guard -/

namespace FixedWindowRateLimiter

/-- What a limiter knows of a key. -/
def entry (l : FixedWindowRateLimiter) (key : String) : Nat × UInt64 × Option (Nat × UInt64) :=
  (l.limit, l.windowMs, l.buckets.lookup key)

variable {l l' : FixedWindowRateLimiter} {key : String}

/-- A call looks at the entry of its key. -/
theorem allow_congr (h : l.entry key = l'.entry key) (now : UInt64) :
    (l.allow key now).1 = (l'.allow key now).1
      ∧ (l.allow key now).2.entry key = (l'.allow key now).2.entry key := by
  simp only [entry, Prod.mk.injEq] at h
  obtain ⟨hlimit, hwindow, hlookup⟩ := h
  unfold allow entry
  simp only [hlimit, hwindow, hlookup]
  -- the bucket as it is, or a new one
  generalize (if l'.windowMs ≤ U64.satSub now ((l'.buckets.lookup key).getD (0, now)).2 then (0, now)
    else (l'.buckets.lookup key).getD (0, now)) = bucket
  split
  · exact ⟨rfl, by simp [AList.lookup_insert]⟩
  · exact ⟨rfl, by simp [AList.lookup_insert]⟩

/-- And changes no other. -/
theorem entry_allow_ne {other : String} (hne : other ≠ key) (now : UInt64) :
    (l.allow key now).2.entry other = l.entry other := by
  unfold allow entry
  simp only
  generalize (if l.windowMs ≤ U64.satSub now ((l.buckets.lookup key).getD (0, now)).2 then (0, now)
    else (l.buckets.lookup key).getD (0, now)) = bucket
  split
  · rw [AList.lookup_insert_ne hne]
  · rw [AList.lookup_insert_ne hne]

end FixedWindowRateLimiter

namespace IngestGuard

/-- What the guard knows of an author. -/
structure Entry where
  maxPerAuthor : Nat
  window : IdCache
  direct : Nat × UInt64 × Option (Nat × UInt64)
  gossip : Nat × UInt64 × Option (Nat × UInt64)

def entry (g : IngestGuard) (author : String) : Entry where
  maxPerAuthor := g.replay.maxPerAuthor
  window := g.window author
  direct := g.rateDirect.entry author
  gossip := g.rateGossip.entry author

/-- The guard with another window and another limiter for `Data` frames. -/
theorem entry_direct (g : IngestGuard) (replay : AuthorReplayWindow)
    (rateDirect : FixedWindowRateLimiter) (p : String) :
    ({ g with replay, rateDirect } : IngestGuard).entry p
      = { ({ g with replay } : IngestGuard).entry p with direct := rateDirect.entry p } := rfl

/-- And with another limiter for gossip. -/
theorem entry_gossip (g : IngestGuard) (rateGossip : FixedWindowRateLimiter) (p : String) :
    ({ g with rateGossip } : IngestGuard).entry p
      = { g.entry p with gossip := rateGossip.entry p } := rfl

/-- `is_duplicate` may add the id to the window of its author. -/
theorem entry_isDuplicate (g : IngestGuard) (author id p : String) :
    ({ g with replay := (g.replay.isDuplicate author id).2 } : IngestGuard).entry p
      = { g.entry p with
          window := if p = author ∧ (g.window author).contains id = false then
              (g.window p).push g.replay.maxPerAuthor id
            else g.window p } := by
  unfold entry
  rw [window_isDuplicate]
  congr 1
  exact (steps_isDuplicate author id).max

/-- A check that looks at the entry of one author, and changes no other. -/
structure Confined (author : String)
    (check : IngestGuard → Except IngestReject Unit × IngestGuard) : Prop where
  congr : ∀ {g g' : IngestGuard}, g.entry author = g'.entry author →
    (check g).1 = (check g').1 ∧ (check g).2.entry author = (check g').2.entry author
  other : ∀ (g : IngestGuard) {p : String}, p ≠ author → (check g).2.entry p = g.entry p

variable {g g' : IngestGuard} {author id : String}

/-- The answer about a duplicate, and the entry it leaves. -/
theorem isDuplicate_congr (h : g.entry author = g'.entry author) (id : String) :
    (g.replay.isDuplicate author id).1 = (g'.replay.isDuplicate author id).1
      ∧ ({ g with replay := (g.replay.isDuplicate author id).2 } : IngestGuard).entry author
        = ({ g' with replay := (g'.replay.isDuplicate author id).2 } : IngestGuard).entry author := by
  have hwindow : g.window author = g'.window author := congrArg Entry.window h
  have hmax : g.replay.maxPerAuthor = g'.replay.maxPerAuthor := congrArg Entry.maxPerAuthor h
  rw [isDuplicate_fst, isDuplicate_fst, entry_isDuplicate, entry_isDuplicate, h, hwindow, hmax]
  exact ⟨rfl, rfl⟩

theorem entry_isDuplicate_ne {p : String} (hne : p ≠ author) (g : IngestGuard) (id : String) :
    ({ g with replay := (g.replay.isDuplicate author id).2 } : IngestGuard).entry p = g.entry p := by
  rw [entry_isDuplicate, if_neg fun h => hne h.1]
  rfl

/-- The check of a `Data` frame concerns its author. -/
theorem confined_allowDirect (author : String) (m : DirectMessage) (now : UInt64) :
    Confined author (allowDirect author m now) where
  congr := by
    intro g g' h
    obtain ⟨hdup, hrecorded⟩ := isDuplicate_congr h m.envelope.id
    obtain ⟨hallow, hcounted⟩ :=
      FixedWindowRateLimiter.allow_congr (congrArg Entry.direct h) now
    unfold allowDirect
    cases checkEnvelopeFreshness m.envelope.createdAtMs now with
    | false => exact ⟨rfl, h⟩
    | true =>
      simp only [Bool.not_true, Bool.false_eq_true, if_false, hdup, hallow]
      split
      · exact ⟨rfl, hrecorded⟩
      · -- new: the window and the rate are both written
        have hboth : ({ g with
              replay := (g.replay.isDuplicate author m.envelope.id).2
              rateDirect := (g.rateDirect.allow author now).2 } : IngestGuard).entry author
            = ({ g' with
              replay := (g'.replay.isDuplicate author m.envelope.id).2
              rateDirect := (g'.rateDirect.allow author now).2 } : IngestGuard).entry author := by
          rw [entry_direct, entry_direct, hrecorded, hcounted]
          rfl
        split
        · exact ⟨rfl, hboth⟩
        · exact ⟨rfl, hboth⟩
  other := by
    intro g p hne
    have hrecorded := entry_isDuplicate_ne hne g m.envelope.id
    have hboth : ({ g with
          replay := (g.replay.isDuplicate author m.envelope.id).2
          rateDirect := (g.rateDirect.allow author now).2 } : IngestGuard).entry p = g.entry p := by
      rw [entry_direct, hrecorded, FixedWindowRateLimiter.entry_allow_ne hne]
      rfl
    unfold allowDirect
    split
    · rfl
    · simp only
      split
      · exact hrecorded
      · split
        · exact hboth
        · exact hboth

/-- The check of a gossip payload concerns the peer it comes from. -/
theorem confined_checkGossipPayload (fromPeer : String) (payloadLen : Nat) (now : UInt64) :
    Confined fromPeer (checkGossipPayload fromPeer payloadLen now) where
  congr := by
    intro g g' h
    obtain ⟨hallow, hcounted⟩ :=
      FixedWindowRateLimiter.allow_congr (congrArg Entry.gossip h) now
    have hentry : ({ g with rateGossip := (g.rateGossip.allow fromPeer now).2 }
          : IngestGuard).entry fromPeer
        = ({ g' with rateGossip := (g'.rateGossip.allow fromPeer now).2 }
          : IngestGuard).entry fromPeer := by
      rw [entry_gossip, entry_gossip, h, hcounted]
      rfl
    unfold checkGossipPayload
    split
    · exact ⟨rfl, h⟩
    · simp only [hallow]
      split
      · exact ⟨rfl, hentry⟩
      · exact ⟨rfl, hentry⟩
  other := by
    intro g p hne
    have hentry : ({ g with rateGossip := (g.rateGossip.allow fromPeer now).2 }
        : IngestGuard).entry p = g.entry p := by
      rw [entry_gossip, FixedWindowRateLimiter.entry_allow_ne hne]
      rfl
    unfold checkGossipPayload
    split
    · rfl
    · simp only
      split
      · exact hentry
      · exact hentry

/-- So does the check of the message it becomes. -/
theorem confined_checkGossipMessage (fromPeer id : String) (created now : UInt64) :
    Confined fromPeer (checkGossipMessage fromPeer id created now) where
  congr := by
    intro g g' h
    obtain ⟨hdup, hrecorded⟩ := isDuplicate_congr h id
    unfold checkGossipMessage
    split
    · exact ⟨rfl, h⟩
    · simp only [hdup]
      split
      · exact ⟨rfl, hrecorded⟩
      · exact ⟨rfl, hrecorded⟩
  other := by
    intro g p hne
    have hrecorded := entry_isDuplicate_ne hne g id
    unfold checkGossipMessage
    split
    · rfl
    · simp only
      split
      · exact hrecorded
      · exact hrecorded

/-- A stale message and a duplicate leave the entry of the author. -/
theorem entry_allowDirect_of_refused {m : DirectMessage} {now : UInt64}
    (h : checkEnvelopeFreshness m.envelope.createdAtMs now = false
      ∨ (g.window author).contains m.envelope.id = true) :
    (g.allowDirect author m now).2.entry author = g.entry author := by
  unfold allowDirect
  split
  · rfl
  · next hfresh =>
    have hold : (g.window author).contains m.envelope.id = true :=
      h.resolve_left (by simpa using hfresh)
    simp only [isDuplicate_fst, hold, if_true]
    rw [entry_isDuplicate, hold]
    simp [entry]

end IngestGuard

/-! ## The reputations -/

section

variable (reps : KvTree.Of String PeerReputation) (peer p : String) (now : UInt64)

/-- Asking for the throttle concerns the peer that is asked about. -/
theorem lookup_throttleReps : (throttleReps reps peer now).lookup p
    = if p = peer then (reps.lookup p).map (·.decayed now) else reps.lookup p := by
  unfold throttleReps
  by_cases hp : p = peer
  · subst hp
    rw [if_pos rfl]
    split
    · next hnone => rw [hnone]; rfl
    · next rep hrep => rw [hrep, AList.lookup_insert]; rfl
  · rw [if_neg hp]
    split
    · rfl
    · exact AList.lookup_insert_ne hp

/-- A strike concerns the peer that is struck. -/
theorem lookup_strikeReps : (strikeReps reps peer now).lookup p
    = if p = peer then some (((reps.lookup p).getD {}).struck now) else reps.lookup p := by
  unfold strikeReps
  by_cases hp : p = peer
  · subst hp
    rw [if_pos rfl, AList.lookup_insert]
  · rw [if_neg hp, AList.lookup_insert_ne hp]

/-- A reward concerns the peer that is rewarded. -/
theorem lookup_rewardReps : (rewardReps reps peer).lookup p
    = if p = peer then (reps.lookup p).map (fun rep => { rep with strikes := rep.strikes / 2 })
      else reps.lookup p := by
  unfold rewardReps
  by_cases hp : p = peer
  · subst hp
    rw [if_pos rfl]
    split
    · next hnone => rw [hnone]; rfl
    · next rep hrep => rw [hrep, AList.lookup_insert]; rfl
  · rw [if_neg hp]
    split
    · rfl
    · exact AList.lookup_insert_ne hp

end

/-! ## The verdict -/

/-- How often the clock is read until the return. -/
def DataVerdict.readings : DataVerdict → Nat
  | .throttled => 1
  | .refused .invalidSignature => 3
  | .refused _ => 2
  | .hopLimit => 2
  | .guarded .rateLimit => 4
  | .guarded .replay => 4
  | .guarded _ => 3
  | .absorbed => 5
  | .accepted => 5

/-- The returns behind the check of the guard. -/
def DataVerdict.checked : DataVerdict → Bool
  | .guarded _ => true
  | .absorbed => true
  | .accepted => true
  | _ => false

/-- What the frame leaves of the reputation of its sender: it decays, and the sender is struck or
rewarded. -/
def DataVerdict.reputation (v : DataVerdict) (rep : Option PeerReputation) (first last : UInt64) :
    Option PeerReputation :=
  match v with
  | .refused .invalidSignature => some (((rep.map (PeerReputation.decayed · first)).getD {}).struck last)
  | .guarded .rateLimit => some (((rep.map (PeerReputation.decayed · first)).getD {}).struck last)
  | .guarded .replay => some (((rep.map (PeerReputation.decayed · first)).getD {}).struck last)
  | .absorbed => some (((rep.map (PeerReputation.decayed · first)).getD {}).struck last)
  | .accepted => (rep.map (PeerReputation.decayed · first)).map fun rep => { rep with strikes := rep.strikes / 2 }
  | _ => rep.map (PeerReputation.decayed · first)

/-- The throttle reads the clock. -/
theorem DataVerdict.readings_pos (v : DataVerdict) : 0 < v.readings := by
  unfold readings
  split <;> decide

/-- The guard is asked at the third reading. -/
theorem DataVerdict.readings_of_checked {v : DataVerdict} (h : v.checked = true) :
    2 < v.readings := by
  cases v with
  | guarded reason => cases reason <;> decide
  | absorbed => decide
  | accepted => decide
  | _ => cases h

section

variable [Prims]

/-- The verdict from what the branch asks of the throttle, the guard and the tables of ids, with
the readings it makes in turn. -/
def verdictFrom (throttled : UInt64 → Bool) (allow : UInt64 → Except IngestReject Unit)
    (known : Bool) (clock : Nat → UInt64) (m : DirectMessage) : DataVerdict :=
  if throttled (clock 0) then .throttled
  else
    match validateDataMessageSignature m with
    | .error reason => .refused reason
    | .ok () =>
      if m.envelope.maxHops ≤ m.envelope.hopCount then .hopLimit
      else
        match allow (clock 2) with
        | .error reason => .guarded reason
        | .ok () => if m.isExpired (clock 3) || known then .absorbed else .accepted

/-- Only the readings that are made matter. -/
theorem verdictFrom_congr {throttled : UInt64 → Bool} {allow : UInt64 → Except IngestReject Unit}
    {known : Bool} {clock clock' : Nat → UInt64} {m : DirectMessage}
    (h : ∀ k, k < (verdictFrom throttled allow known clock m).readings →
      k < (verdictFrom throttled allow known clock' m).readings → clock k = clock' k) :
    verdictFrom throttled allow known clock m = verdictFrom throttled allow known clock' m := by
  have h0 := h 0 (DataVerdict.readings_pos _) (DataVerdict.readings_pos _)
  unfold verdictFrom at h ⊢
  rw [h0] at h ⊢
  split
  · rfl
  · next hfree =>
    simp only [if_neg hfree] at h
    split
    · rfl
    · next hvalid =>
      simp only [hvalid] at h
      split
      · rfl
      · next hhops =>
        simp only [if_neg hhops] at h
        -- the guard is asked at the third reading, which both make
        have hguarded : ∀ (res : Except IngestReject Unit) (expired : Bool),
            2 < (match res with
              | .error reason => DataVerdict.guarded reason
              | .ok () => if expired || known then .absorbed else .accepted).readings := by
          intro res expired
          refine DataVerdict.readings_of_checked ?_
          cases res with
          | error reason => rfl
          | ok u =>
            simp only
            split
            · rfl
            · rfl
        have h2 := h 2 (hguarded _ _) (hguarded _ _)
        rw [h2] at h ⊢
        split
        · rfl
        · next hallow =>
          simp only [hallow] at h
          have hlast : ∀ expired : Bool, 3 < (if expired || known then DataVerdict.absorbed
              else .accepted).readings := by
            intro expired
            split
            · exact Nat.lt_add_of_pos_right Nat.two_pos
            · exact Nat.lt_add_of_pos_right Nat.two_pos
          rw [h 3 (hlast _) (hlast _)]

variable [World] {s : NodeRunner} {fromPeer : String} {m : DirectMessage}

/-- The verdict of the branch, in the state the frame arrives in. -/
theorem dataVerdict_eq (s : NodeRunner) (fromPeer : String) (m : DirectMessage) :
    dataVerdict s fromPeer m = verdictFrom (throttledAt s fromPeer)
      (fun now => (s.ingestGuard.allowDirect m.envelope.signatureAuthorPeer m now).1)
      (s.knows m.envelope.id) (fun k => World.clock (s.calls + k)) m := by
  -- the check is a variable, so that it is never run to compare the two sides
  obtain ⟨allow, hallow⟩ : ∃ allow : UInt64 → Except IngestReject Unit, allow
      = fun now => (s.ingestGuard.allowDirect m.envelope.signatureAuthorPeer m now).1 := ⟨_, rfl⟩
  have hcheck : (s.ingestGuard.allowDirect m.envelope.signatureAuthorPeer m
      (World.clock (s.calls + 2))).1 = allow (World.clock (s.calls + 2)) := by rw [hallow]
  rw [← hallow]
  unfold dataVerdict
  rw [hcheck]
  rfl

/-- Past the throttle, the signature and the hop limit the guard is asked. -/
theorem checked_iff : (dataVerdict s fromPeer m).checked = true
    ↔ throttledAt s fromPeer (World.clock s.calls) = false
      ∧ validateDataMessageSignature m = .ok ()
      ∧ m.envelope.hopCount < m.envelope.maxHops := by
  unfold dataVerdict
  split
  · next hthrottled => simp [DataVerdict.checked, hthrottled]
  · next hfree =>
    split
    · next hrefused => simp [DataVerdict.checked, hrefused]
    · next hvalid =>
      split
      · next hhops => simp [DataVerdict.checked, UInt8.not_lt.mpr hhops]
      · next hhops =>
        refine iff_of_true ?_ ⟨by simpa using hfree, hvalid, UInt8.not_le.mp hhops⟩
        split
        · rfl
        · split
          · rfl
          · rfl

/-! ## What a `Data` frame leaves -/

/-- The verdict says how many readings were made. -/
theorem calls_afterData : (afterData s fromPeer m).calls
    = s.calls + (dataVerdict s fromPeer m).readings := by
  unfold afterData
  cases dataVerdict s fromPeer m with
  | throttled => rfl
  | refused reason => cases reason <;> rfl
  | hopLimit => rfl
  | guarded reason => cases reason <;> rfl
  | absorbed => rfl
  | accepted => rfl

/-- The reputation of the sender changes with the verdict, that of no other peer changes. -/
theorem lookup_afterData (p : String) : (afterData s fromPeer m).peerReputations.lookup p
    = if p = fromPeer then (dataVerdict s fromPeer m).reputation (s.peerReputations.lookup p)
        (World.clock s.calls) (World.clock (s.calls + ((dataVerdict s fromPeer m).readings - 1)))
      else s.peerReputations.lookup p := by
  have hreps := lookup_throttleReps s.peerReputations fromPeer p (World.clock s.calls)
  by_cases hp : p = fromPeer
  · rw [if_pos hp] at hreps
    rw [if_pos hp]
    unfold afterData
    cases dataVerdict s fromPeer m with
    | throttled => exact hreps
    | refused reason =>
      cases reason with
      | invalidSignature => exact (lookup_strikeReps _ _ _ _).trans (by rw [if_pos hp, hreps]; rfl)
      | noSignature => exact hreps
      | unparseableAuthor => exact hreps
    | hopLimit => exact hreps
    | guarded reason =>
      cases reason with
      | rateLimit => exact (lookup_strikeReps _ _ _ _).trans (by rw [if_pos hp, hreps]; rfl)
      | replay => exact (lookup_strikeReps _ _ _ _).trans (by rw [if_pos hp, hreps]; rfl)
      | stale => exact hreps
      | oversize => exact hreps
    | absorbed => exact (lookup_strikeReps _ _ _ _).trans (by rw [if_pos hp, hreps]; rfl)
    | accepted => exact (lookup_rewardReps _ _ _).trans (by rw [if_pos hp, hreps]; rfl)
  · rw [if_neg hp] at hreps
    rw [if_neg hp]
    have hstrike : ∀ now, (strikeReps (throttleReps s.peerReputations fromPeer
        (World.clock s.calls)) fromPeer now).lookup p = s.peerReputations.lookup p :=
      fun now => (lookup_strikeReps _ _ _ _).trans (by rw [if_neg hp, hreps])
    unfold afterData
    cases dataVerdict s fromPeer m with
    | throttled => exact hreps
    | refused reason =>
      cases reason with
      | invalidSignature => exact hstrike _
      | noSignature => exact hreps
      | unparseableAuthor => exact hreps
    | hopLimit => exact hreps
    | guarded reason =>
      cases reason with
      | rateLimit => exact hstrike _
      | replay => exact hstrike _
      | stale => exact hreps
      | oversize => exact hreps
    | absorbed => exact hstrike _
    | accepted => exact (lookup_rewardReps _ _ _).trans (by rw [if_neg hp, hreps])

/-- The guard changes by its check, if it is asked. -/
theorem guard_afterData : (afterData s fromPeer m).ingestGuard
    = if (dataVerdict s fromPeer m).checked then
        (s.ingestGuard.allowDirect m.envelope.signatureAuthorPeer m (World.clock (s.calls + 2))).2
      else s.ingestGuard := by
  obtain ⟨g, hg⟩ : ∃ g, (s.ingestGuard.allowDirect m.envelope.signatureAuthorPeer m
      (World.clock (s.calls + 2))).2 = g := ⟨_, rfl⟩
  unfold afterData
  rw [hg]
  cases dataVerdict s fromPeer m with
  | throttled => rfl
  | refused reason => cases reason <;> rfl
  | hopLimit => rfl
  | guarded reason => cases reason <;> rfl
  | absorbed => rfl
  | accepted => rfl

omit [Prims] [World] in
/-- The tables are `tables`. -/
theorem tables_tables (tables : NodeTables) : TablesInvariant (fun s => s.tables = tables) where
  congr _ _ htables hs := htables.trans hs

/-- Routing an accepted message leaves the tables. -/
theorem tables_data (s : NodeRunner) (fromPeer : String) (m : DirectMessage) :
    (finalState (handleIncomingDirect fromPeer (.data m) s)).tables
      = (afterData s fromPeer m).tables := by
  rw [handleIncomingDirect_data]
  split
  · have hroute : Keeps _ True (routeData fromPeer m) :=
      ((tables_tables (afterData s fromPeer m).tables).out trivial).routeData
        fun _ _ _ _ => trivial
    exact hroute.finalState rfl
  · rfl

/-- Only an accepted message comes into the store. -/
theorem contains_data (s : NodeRunner) (fromPeer : String) (m : DirectMessage) (id : String) :
    (finalState (handleIncomingDirect fromPeer (.data m) s)).store.contains id = true
      ↔ s.store.contains id = true
        ∨ dataVerdict s fromPeer m = .accepted ∧ id = m.envelope.id := by
  have hstore : (finalState (handleIncomingDirect fromPeer (.data m) s)).store
      = (afterData s fromPeer m).store := congrArg NodeTables.store (tables_data s fromPeer m)
  rw [hstore, store_afterData]
  by_cases hv : dataVerdict s fromPeer m = .accepted
  · rw [if_pos hv, SledMessageStore.contains_iff, SledMessageStore.mem_db_persist,
      SledMessageStore.contains_iff, or_comm]
    simp [hv]
  · rw [if_neg hv]
    simp [hv]

/-- The readings of the branch are made before the frame is done with. -/
theorem calls_data (s : NodeRunner) (fromPeer : String) (m : DirectMessage) :
    s.calls + (dataVerdict s fromPeer m).readings
      ≤ (finalState (handleIncomingDirect fromPeer (.data m) s)).calls := by
  rw [handleIncomingDirect_data, ← calls_afterData]
  split
  · have hroute : Keeps _ True (routeData fromPeer m) :=
      (calls_frame (afterData s fromPeer m).calls).send.routeData fun _ _ _ _ => trivial
    exact hroute.finalState (Nat.le_refl _)
  · exact Nat.le_refl _

/-! ## The other frames -/

section

variable {reps : KvTree.Of String PeerReputation}

/-- The reputations are `reps`. -/
def RepsAre (reps : KvTree.Of String PeerReputation) (s : NodeRunner) : Prop :=
  s.peerReputations = reps

omit [Prims] [World] in
theorem repsAre_tables : TablesInvariant (RepsAre reps) where
  congr _ _ htables hs := (congrArg NodeTables.peerReputations htables).trans hs

omit [Prims] in
/-- Outside of frames nobody is asked about, struck or rewarded. -/
theorem repsAre_growth : GrowthInvariant (RepsAre reps) (fun _ => True) := by
  refine repsAre_tables.growth (fun m => ⟨fun s hs => ?_⟩) (fun _ => Keeps.modifyGet fun _ hs => hs)
    fun _ _ hs => hs
  rw [CoreInvariant.ingestUnseen_run]
  by_cases hknown : (s.seenCache.contains m.envelope.id || s.store.contains m.envelope.id) = true
  · rw [if_pos hknown]
    exact hs
  · rw [if_neg hknown]
    exact hs

omit [World] [Prims] in
theorem repsAre_storeEncKey (peer key : String) : Keeps (RepsAre reps) True (storeEncKey peer key) := by
  unfold storeEncKey
  split
  · exact Keeps.modify fun _ hs => hs
  · exact Keeps.pure

/-- A frame that is no `Data` frame costs its sender nothing. -/
theorem reps_frame {msg : WireMessage} (hdata : ∀ m, msg ≠ .data m) (fromPeer : String)
    (s : NodeRunner) : (finalState (handleIncomingDirect fromPeer msg s)).peerReputations
      = throttleReps s.peerReputations fromPeer (World.clock s.calls) := by
  rw [handleIncomingDirect_eq]
  split
  · rfl
  · have hgated : Keeps (RepsAre (throttleReps s.peerReputations fromPeer (World.clock s.calls))) True
        (afterGate (hopGate fromPeer msg) (handleWireMessage fromPeer msg)) := by
      refine repsAre_growth.handleGated (.inr trivial) ?_ ?_ ?_ ?_
      · intro m hm
        exact absurd hm (hdata m)
      · intro messages _
        exact Keeps.forM fun m _ => Keeps.bind (repsAre_growth.ingest m false) fun _ => Keeps.pure
      · intro key displayName scopes _
        exact repsAre_storeEncKey fromPeer key
      · intro toPeer key payload sig hop maxHops _ _
        exact repsAre_growth.handleEncryptedDirect (fun _ _ _ _ _ => trivial)
          (fun _ _ _ _ _ => repsAre_storeEncKey _ _) (fun _ _ _ _ _ _ => trivial)
    exact hgated.finalState rfl

/-- An input that is no frame leaves the reputations. -/
theorem reps_input [WireCodec] {input : Input} (hframe : ∀ fromPeer msg, input ≠ .frame fromPeer msg)
    (s : NodeRunner) : (finalState (handleInput input s)).peerReputations = s.peerReputations := by
  have hkeeps : Keeps (RepsAre s.peerReputations) True (handleInput input) := by
    refine repsAre_growth.handleInput ?_ ?_
    · intro fromPeer msg hinput
      exact absurd hinput (hframe fromPeer msg)
    · intro _
      exact Keeps.bind (repsAre_tables.worldCall _) fun _ => Keeps.modifyGet fun _ hs => hs
  exact hkeeps.finalState rfl

end

/-- The throttle reads the clock. -/
theorem calls_throttle (s : NodeRunner) (fromPeer : String) (msg : WireMessage) :
    s.calls < (finalState (handleIncomingDirect fromPeer msg s)).calls := by
  rw [handleIncomingDirect_eq]
  split
  · exact Nat.lt_succ_self _
  · have hcalls := calls_frame (s.calls + 1)
    have hgated : Keeps (fun s' => s.calls + 1 ≤ s'.calls) True
        (afterGate (hopGate fromPeer msg) (handleWireMessage fromPeer msg)) := by
      refine hcalls.send.handleGated (.inr trivial) ?_ ?_ ?_ ?_
      · intro m _
        exact hcalls.send.handleData (hcalls.registerStrike _) fun _ _ =>
          hcalls.ingestData trivial fun _ _ _ _ => trivial
      · intro messages _
        exact hcalls.handleSyncData messages
      · intro key displayName scopes _
        exact hcalls.storeEncKey fromPeer key
      · intro toPeer key payload sig hop maxHops _ _
        exact hcalls.handleEncryptedDirect (fun _ _ _ _ _ => trivial)
          (fun _ _ _ _ _ _ => trivial)
    exact hgated.finalState (Nat.le_refl _)

/-! ## Gossip -/

section

variable [WireCodec] {scope : String} {payload : Bytes}

/-- What gossip asks of the guard: nothing on a scope that is not subscribed; else the rate of the
peer, and when the payload passes and becomes a message, its id. -/
inductive GossipChecked (s : NodeRunner) (fromPeer scope : String) (payload : Bytes)
    (s' : NodeRunner) : Prop
  | unsubscribed (hscope : s.subscribedScopes.any (scopeMatches scope) = false)
      (hguard : s'.ingestGuard = s.ingestGuard)
  | stopped (hscope : s.subscribedScopes.any (scopeMatches scope) = true)
      (hstop : (s.ingestGuard.checkGossipPayload fromPeer payload.length
          (World.clock s.calls)).1 ≠ .ok () ∨ gossipBody scope payload = none)
      (hcalls : s.calls < s'.calls)
      (hguard : s'.ingestGuard = (s.ingestGuard.checkGossipPayload fromPeer payload.length
        (World.clock s.calls)).2)
  | made (hscope : s.subscribedScopes.any (scopeMatches scope) = true)
      (hpass : (s.ingestGuard.checkGossipPayload fromPeer payload.length
        (World.clock s.calls)).1 = .ok ())
      (hbody : gossipBody scope payload ≠ none)
      (hcalls : s.calls + 1 < s'.calls)
      (hguard : s'.ingestGuard = ((s.ingestGuard.checkGossipPayload fromPeer payload.length
        (World.clock s.calls)).2.checkGossipMessage fromPeer (gossipId s fromPeer payload)
          (World.clock (s.calls + 1)) (World.clock s.calls)).2)

/-- **What gossip asks of the guard.** -/
theorem gossip_checked (s : NodeRunner) (fromPeer scope : String) (payload : Bytes) :
    GossipChecked s fromPeer scope payload
      (finalState (handleScopedReceived fromPeer scope payload s)) := by
  rw [handleScopedReceived_eq]
  by_cases hscope : s.subscribedScopes.any (scopeMatches scope) = true
  swap
  · rw [if_neg hscope]
    exact .unsubscribed (by simpa using hscope) rfl
  rw [if_pos hscope, run_bind_of_ok (nowMs_run s)]
  obtain ⟨res, g, hres⟩ : ∃ res g, s.ingestGuard.checkGossipPayload fromPeer payload.length
      (World.clock s.calls) = (res, g) := ⟨_, _, Prod.mk.eta.symm⟩
  rw [run_guardCheck_bind (s := { s with calls := s.calls + 1 }) hres]
  cases res with
  | error reason =>
    exact .stopped hscope (.inl (by rw [hres]; simp)) (Nat.lt_succ_self _) (by rw [hres]; rfl)
  | ok u =>
    cases hbody : gossipBody scope payload with
    | none =>
      rw [gossipVerdict_of_none hbody]
      exact .stopped hscope (.inr hbody) (Nat.lt_succ_self _) (by rw [hres]; rfl)
    | some body =>
      rw [gossipVerdict_of_some hbody]
      have hcreated : ingestGossip fromPeer payload body (World.clock s.calls)
            { s with calls := s.calls + 1, ingestGuard := g }
          = acceptGossip fromPeer (gossipMessage s fromPeer payload body) (World.clock s.calls)
            { s with calls := s.calls + 2, ingestGuard := g } := run_bind_of_ok (nowMs_run _)
      show GossipChecked s fromPeer scope payload (finalState (ingestGossip fromPeer payload body
        (World.clock s.calls) { s with calls := s.calls + 1, ingestGuard := g }))
      rw [hcreated]
      obtain ⟨res', g', hres'⟩ : ∃ res g', g.checkGossipMessage fromPeer
          (gossipMessage s fromPeer payload body).envelope.id
          (gossipMessage s fromPeer payload body).envelope.createdAtMs (World.clock s.calls)
          = (res, g') := ⟨_, _, Prod.mk.eta.symm⟩
      have hrun := acceptGossip_run { s with calls := s.calls + 2, ingestGuard := g } fromPeer
        (gossipMessage s fromPeer payload body) (World.clock s.calls) hres'
      have hcalls := calls_frame (s.calls + 2)
      have haccept : Keeps (fun s' => s.calls + 2 ≤ s'.calls) True (acceptGossip fromPeer
          (gossipMessage s fromPeer payload body) (World.clock s.calls)) := by
        refine Keeps.bind (hcalls.guardCheck _) fun res => ?_
        cases res with
        | error reason => exact hcalls.recordIngestReject reason
        | ok u =>
          exact Keeps.bind (hcalls.ingest _) fun _ =>
            Keeps.ite (fun _ => hcalls.emit _ trivial) (fun _ => Keeps.pure)
      refine .made hscope (by rw [hres]) (by rw [hbody]; simp)
        (haccept.finalState (Nat.le_refl _)) ?_
      rw [hres, hrun.1]
      exact (congrArg Prod.snd hres').symm

end

/-! ## What has been seen is stored -/

/-- Of these ids, those in the seen cache are in the store. -/
def Kept (D : String → Prop) (s : NodeRunner) : Prop :=
  ∀ id, D id → s.seenCache.contains id = true → s.store.contains id = true

/-- The input collects what is old. -/
def Input.Collects (input : Input) : Prop :=
  input = .gcTick ∨ ∃ reply, input = .command (.gcNow reply)

section

variable {D : String → Prop}

omit [Prims] [World] in
theorem kept_tables : TablesInvariant (Kept D) where
  congr := by
    intro s s' htables hs id hid hseen
    have hcache : s'.seenCache = s.seenCache := congrArg NodeTables.seenCache htables
    have hstore : s'.store = s.store := congrArg NodeTables.store htables
    rw [hcache] at hseen
    rw [hstore]
    exact hs id hid hseen

omit [Prims] in
/-- The pipeline writes both. -/
theorem kept_ingestUnseen (m : DirectMessage) : Keeps (Kept D) True (ingestUnseen m) := by
  refine ⟨fun s hs => ?_⟩
  rw [CoreInvariant.ingestUnseen_run]
  by_cases hknown : (s.seenCache.contains m.envelope.id || s.store.contains m.envelope.id) = true
  · rw [if_pos hknown]
    exact hs
  · rw [if_neg hknown]
    intro id hid hseen
    rw [SledMessageStore.contains_iff, SledMessageStore.mem_db_persist]
    rcases BasicSeenCache.contains_of_insert hseen with hnew | hold
    · exact .inl hnew
    · exact .inr (SledMessageStore.contains_iff.mp (hs id hid hold))

omit [Prims] in
theorem kept_growth : GrowthInvariant (Kept D) (fun _ => True) :=
  kept_tables.growth kept_ingestUnseen (fun _ => Keeps.modifyGet fun _ hs => hs) fun _ _ hs => hs

omit [Prims] in
theorem kept_send : SendInvariant (Kept D) True (fun _ => True) := by
  refine kept_tables.send trivial fun peer => ⟨fun s hs => ?_⟩
  rw [isThrottled_run]
  exact hs

omit [World] [Prims] in
theorem kept_storeEncKey (peer key : String) : Keeps (Kept D) True (storeEncKey peer key) := by
  unfold storeEncKey
  split
  · exact Keeps.modify fun _ hs => hs
  · exact Keeps.pure

/-- Every frame leaves what has been seen in the store. -/
theorem kept_frame (fromPeer : String) (msg : WireMessage) :
    Keeps (Kept D) True (handleIncomingDirect fromPeer msg) := by
  have hstrike : Keeps (Kept D) True (registerStrike fromPeer) := ⟨fun s hs => hs⟩
  have hreward : Keeps (Kept D) True (rewardPeer fromPeer) := by
    refine ⟨fun s hs => ?_⟩
    rw [rewardPeer_run]
    exact hs
  refine kept_send.handleIncomingDirect (.inr trivial) ?_ ?_ ?_ ?_
  · intro m _
    exact kept_send.handleData hstrike fun _ _ =>
      kept_send.ingestData (fun _ => kept_growth.guardCheck _) (kept_growth.ingest m false) hstrike
        hreward trivial fun _ _ _ _ => trivial
  · intro messages _
    exact Keeps.forM fun m _ => Keeps.bind (kept_growth.ingest m false) fun _ => Keeps.pure
  · intro key displayName scopes _
    exact kept_storeEncKey fromPeer key
  · intro toPeer key payload sig hop maxHops _ _
    exact kept_send.handleEncryptedDirect (fun _ _ _ _ _ => trivial)
      (fun _ _ _ _ _ => kept_storeEncKey _ _) (fun _ _ _ _ _ _ => trivial)

/-- **What has been seen is stored**, as long as none of the ids is collected. -/
theorem kept_input [WireCodec] {s : NodeRunner} {input : Input} (h : Kept D s)
    (hgc : input.Collects → ∀ id, D id → s.store.contains id = true →
      (finalState (handleInput input s)).store.contains id = true) :
    Kept D (finalState (handleInput input s)) := by
  by_cases hcollects : input.Collects
  · -- a collection leaves the seen cache
    have hseen : (finalState (handleInput input s)).seenCache = s.seenCache := by
      rcases hcollects with rfl | ⟨reply, rfl⟩
      · rfl
      · cases reply <;> rfl
    intro id hid hcontains
    rw [hseen] at hcontains
    exact hgc hcollects id hid (h id hid hcontains)
  · have hkeeps : Keeps (Kept D) True (handleInput input) :=
      kept_growth.handleInput (fun fromPeer msg _ => kept_frame fromPeer msg)
        fun hgc => absurd hgc hcollects
    exact hkeeps.finalState h

end

end

end Mycelium.Node

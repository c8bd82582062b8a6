import Mycelium.Node.Entries
import Mycelium.Node.Network
import Mycelium.Node.SyncRound

/-!
# Mycelium node — can others suppress an author?

Two runs of a node that differ in extra `Data` frames: these come from peers other than the peer `p`
that delivers the messages of an author `a`, and `a` has not signed them. The frames that `a` has
signed should meet the same verdict in both runs. They do not: a frame with a gossip tag needs no
signature, and it is recorded in the window of the author it names and in the store under the id it
names.

The verdict on a frame of `p` signed by `a` depends on the reputation of `p`, on the entry of `a` in
the guard and on whether its id is known. The two runs agree on these (`Agree`) as long as no extra
frame takes effect on `a` or on an id that is still awaited (`Harmless`), and what both runs get is
met alike (`Steady`): extra frames can also disturb third parties, whose frames are common.

* `Agree.extra`, `Agree.step` — what one arrival does to the agreement;
* `agree_run` — the agreement along two runs;
* `same_verdict` — the messages of `a` meet the same verdict in both;
* `unsigned_copy_suppresses` — an unsigned copy that comes first.
-/

namespace Mycelium.Node

/-! ## Two runs -/

/-- An input of the run with the extra frames; the other run gets it unless it is extra. -/
structure Arrival where
  extra : Bool
  view : TransportView
  input : Input

/-- The inputs of the run with the extra frames. -/
def allInputs (arrivals : List Arrival) : List (TransportView × Input) :=
  arrivals.map fun x => (x.view, x.input)

/-- The inputs of the run without them. -/
def commonInputs (arrivals : List Arrival) : List (TransportView × Input) :=
  allInputs (arrivals.filter fun x => !x.extra)

/-- The same node in another environment. -/
def Host.under (h : Host) (w : World) : Host := { h with world := w }

section

variable [Prims]

/-- The state an input leaves. -/
def Host.after (h : Host) (s : NodeRunner) (input : Input) : NodeRunner :=
  finalState (@handleInput _ h.world h.codec input s)

/-- The two runs get to `x`, the one with the extra frames in state `s`, the other one in `t`; after
`x` come the arrivals `post`. -/
def Meets (h : Host) (w : World) (arrivals : List Arrival) (s t : NodeRunner) (x : Arrival)
    (post : List Arrival) : Prop :=
  ∃ pre s₀ t₀, arrivals = pre ++ x :: post
    ∧ h.run (allInputs pre) = .ok () s₀ ∧ (h.under w).run (commonInputs pre) = .ok () t₀
    ∧ s = { s₀ with transport := x.view } ∧ t = { t₀ with transport := x.view }

/-- The message carries a valid signature of its author, who is `a`. -/
def SignedBy (a : String) (m : DirectMessage) : Prop :=
  m.envelope.signatureAuthorPeer = a ∧ AuthorSigned m.envelope

/-- A `Data` frame that does not come from `p` and is not signed by `a`. -/
def Input.Unauthenticated (p a : String) (input : Input) : Prop :=
  ∃ q m, input = .frame q (.data m) ∧ q ≠ p ∧ ¬ SignedBy a m

/-- The ids of the messages signed by `a` that are still to come from `p` in both runs. -/
def Awaited (p a : String) (arrivals : List Arrival) (id : String) : Prop :=
  ∃ view m, ⟨false, view, .frame p (.data m)⟩ ∈ arrivals ∧ SignedBy a m ∧ m.envelope.id = id

/-! ## The condition -/

/-- The frame takes no effect on `a`, and none on these ids: if it names `a` as its author, it does
not get to the check of the window or is stale or found there; and under one of the ids it is not
accepted. -/
structure Harmless [World] (a : String) (D : String → Prop) (s : NodeRunner) (q : String)
    (m : DirectMessage) : Prop where
  author : m.envelope.signatureAuthorPeer = a →
    throttledAt s q (World.clock s.calls) = true
    ∨ validateDataMessageSignature m ≠ .ok ()
    ∨ m.envelope.maxHops ≤ m.envelope.hopCount
    ∨ checkEnvelopeFreshness m.envelope.createdAtMs (World.clock (s.calls + 2)) = false
    ∨ (s.ingestGuard.window a).contains m.envelope.id = true
  id : D m.envelope.id → ¬ Admits s q m

/-- The frame finds the same in both runs: the reputation of its sender, the entry of its author,
and whether its id is known. -/
structure SameEntries (s t : NodeRunner) (q : String) (m : DirectMessage) : Prop where
  reputation : s.peerReputations.lookup q = t.peerReputations.lookup q
  guard : s.ingestGuard.entry m.envelope.signatureAuthorPeer
    = t.ingestGuard.entry m.envelope.signatureAuthorPeer
  known : s.knows m.envelope.id = t.knows m.envelope.id

/-- The messages bring in none of these ids. -/
def SyncSpares [World] (D : String → Prop) (s : NodeRunner) (q : String)
    (messages : List DirectMessage) : Prop :=
  ∀ sᵢ m, SyncIngests s q messages sᵢ m → ¬ D m.envelope.id

/-- None of the messages under these ids expires before the frame is done with. -/
def SyncLasts (h : Host) (D : String → Prop) (s : NodeRunner) (q : String)
    (messages : List DirectMessage) : Prop :=
  ∀ m ∈ messages, D m.envelope.id → ∀ n, s.calls ≤ n →
    n < (h.after s (.frame q (.syncData messages))).calls → m.isExpired (h.world.clock n) = false

/-- The input neither stores nor removes a message under one of these ids. -/
def Untouched (h : Host) (D : String → Prop) (s : NodeRunner) (input : Input) : Prop :=
  ∀ id, D id → (h.after s input).store.contains id = s.store.contains id

/-- An input that both runs get is met alike, as far as `p`, `a` and these ids are concerned.

It arrives at the same time in both, so that the readings it makes are the same. A `Data` frame is
one of `p` that `a` has signed, or takes no effect in either run, or finds the same in both. A
`SyncData` frame brings in none of the ids in either run, or comes from a peer with the same
reputation in both, and none of its messages under these ids expires while it is handled. Gossip of
`a` finds the same subscriptions. No other input touches the ids: what the node makes itself has
other ids, and garbage collection takes none of them away. -/
structure Steady (p a : String) (D : String → Prop) (h : Host) (w : World) (s t : NodeRunner)
    (input : Input) : Prop where
  readings : ∀ k, s.calls + k < (h.after s input).calls →
    t.calls + k < ((h.under w).after t input).calls →
    h.world.clock (s.calls + k) = w.clock (t.calls + k)
  data : ∀ q m, input = .frame q (.data m) →
    (q = p ∧ SignedBy a m)
    ∨ (q ≠ p ∧ @Harmless _ h.world a D s q m ∧ @Harmless _ w a D t q m)
    ∨ SameEntries s t q m
  sync : ∀ q messages, input = .frame q (.syncData messages) →
    (@SyncSpares _ h.world D s q messages ∧ @SyncSpares _ w D t q messages)
    ∨ (s.peerReputations.lookup q = t.peerReputations.lookup q
      ∧ SyncLasts h D s q messages ∧ SyncLasts (h.under w) D t q messages)
  gossip : ∀ scope payload, input = .scoped a scope payload →
    s.subscribedScopes = t.subscribedScopes
  other : (∀ q msg, input ≠ .frame q msg) →
    Untouched h D s input ∧ Untouched (h.under w) D t input

/-- Extra frames are harmless, all other inputs are met alike. -/
structure Undisturbed (p a : String) (h : Host) (w : World) (s t : NodeRunner) (x : Arrival)
    (post : List Arrival) : Prop where
  extra : x.extra = true → ∀ q m, x.input = .frame q (.data m) →
    @Harmless _ h.world a (Awaited p a post) s q m
  common : x.extra = false → Steady p a (Awaited p a (x :: post)) h w s t x.input

/-! ## The agreement -/

/-- What the two runs agree on: the reputation of `p`, the entry of `a`, and which of the ids are
stored. -/
structure Agree (p a : String) (D : String → Prop) (s t : NodeRunner) : Prop where
  reputation : s.peerReputations.lookup p = t.peerReputations.lookup p
  guard : s.ingestGuard.entry a = t.ingestGuard.entry a
  stored : ∀ id, D id → s.store.contains id = t.store.contains id
  kept : Kept D s
  kept' : Kept D t

variable {p a : String} {D : String → Prop} {h : Host} {w : World} {s t : NodeRunner}

omit [Prims] in
/-- What is kept is known if it is stored. -/
theorem Kept.knows_eq (hkept : Kept D s) {id : String} (hid : D id) :
    s.knows id = s.store.contains id := by
  unfold NodeRunner.knows
  cases hseen : s.seenCache.contains id with
  | false => rfl
  | true => rw [hkept id hid hseen]; rfl

omit [Prims] in
/-- A frame of `p` that names `a` and one of the ids finds the same in both runs. -/
theorem Agree.sameEntries (hagree : Agree p a D s t) {m : DirectMessage}
    (hauthor : m.envelope.signatureAuthorPeer = a) (hid : D m.envelope.id) :
    SameEntries s t p m where
  reputation := hagree.reputation
  guard := by rw [hauthor]; exact hagree.guard
  known := by
    rw [hagree.kept.knows_eq hid, hagree.kept'.knows_eq hid]
    exact hagree.stored _ hid

/-! ### Extra frames -/

/-- A harmless frame changes nothing of what matters. -/
theorem Harmless.same [World] {q : String} {m : DirectMessage} (hharmless : Harmless a D s q m)
    (hpeer : q ≠ p) :
    (finalState (handleIncomingDirect q (.data m) s)).peerReputations.lookup p
        = s.peerReputations.lookup p
      ∧ (finalState (handleIncomingDirect q (.data m) s)).ingestGuard.entry a = s.ingestGuard.entry a
      ∧ ∀ id, D id → (finalState (handleIncomingDirect q (.data m) s)).store.contains id
          = s.store.contains id := by
  have htables := tables_data s q m
  have hreps := congrArg NodeTables.peerReputations htables
  have hguard := congrArg NodeTables.ingestGuard htables
  refine ⟨?_, ?_, ?_⟩
  · refine (congrArg (fun reps => AList.lookup p reps) hreps).trans ?_
    exact (lookup_afterData p).trans (if_neg (Ne.symm hpeer))
  · refine (congrArg (fun g => IngestGuard.entry g a) (hguard.trans guard_afterData)).trans ?_
    split
    · next hchecked =>
      obtain ⟨hfree, hvalid, hhops⟩ := checked_iff.mp hchecked
      by_cases hauthor : m.envelope.signatureAuthorPeer = a
      · -- past the gate, so stale or a duplicate
        rcases hharmless.author hauthor with hthrottled | hrefused | hlimit | hrest
        · rw [hfree] at hthrottled
          cases hthrottled
        · exact absurd hvalid hrefused
        · exact absurd hhops (UInt8.not_lt.mpr hlimit)
        · rw [hauthor]
          exact IngestGuard.entry_allowDirect_of_refused hrest
      · exact (IngestGuard.confined_allowDirect _ m _).other s.ingestGuard (Ne.symm hauthor)
    · rfl
  · intro id hid
    rw [Bool.eq_iff_iff, contains_data]
    refine or_iff_left ?_
    rintro ⟨haccepted, rfl⟩
    exact hharmless.id hid (dataVerdict_accepted_iff.mp haccepted)

/-- **An extra frame**: the run that gets it stays in agreement with the one that does not. -/
theorem Agree.extra (hagree : Agree p a D s t) {q : String} {m : DirectMessage} (hpeer : q ≠ p)
    (hharmless : @Harmless _ h.world a D s q m) :
    Agree p a D (h.after s (.frame q (.data m))) t := by
  obtain ⟨hrep, hguard, hstored⟩ := @Harmless.same _ _ _ _ _ h.world _ _ hharmless hpeer
  exact {
    reputation := hrep.trans hagree.reputation
    guard := hguard.trans hagree.guard
    stored := fun id hid => (hstored id hid).trans (hagree.stored id hid)
    kept := (@kept_frame _ h.world _ q (.data m)).finalState hagree.kept
    kept' := hagree.kept' }

/-! ### `Data` frames of both runs -/

/-- A frame that makes the same readings and finds the same meets the same verdict. -/
theorem SameEntries.verdict {q : String} {m : DirectMessage} (hsame : SameEntries s t q m)
    (hreadings : ∀ k, s.calls + k < (h.after s (.frame q (.data m))).calls →
      t.calls + k < ((h.under w).after t (.frame q (.data m))).calls →
      h.world.clock (s.calls + k) = w.clock (t.calls + k)) :
    @dataVerdict h.world _ s q m = @dataVerdict w _ t q m := by
  have hthrottled : throttledAt s q = throttledAt t q := by
    funext now
    unfold throttledAt
    rw [hsame.reputation]
  have hallow : ∀ now, (s.ingestGuard.allowDirect m.envelope.signatureAuthorPeer m now).1
      = (t.ingestGuard.allowDirect m.envelope.signatureAuthorPeer m now).1 :=
    fun now => ((IngestGuard.confined_allowDirect _ m now).congr hsame.guard).1
  have hleft := @dataVerdict_eq _ h.world s q m
  have hright := @dataVerdict_eq _ w t q m
  simp only [hthrottled, hallow, hsame.known] at hleft
  rw [hleft, hright]
  refine verdictFrom_congr fun k hk hk' => hreadings k ?_ ?_
  · rw [← hleft] at hk
    exact (Nat.add_lt_add_left hk _).trans_le (@calls_data _ h.world s q m)
  · rw [← hright] at hk'
    exact (Nat.add_lt_add_left hk' _).trans_le (@calls_data _ w t q m)

/-- **A `Data` frame that finds the same in both runs** leaves them in agreement. -/
theorem Agree.data (hagree : Agree p a D s t) {q : String} {m : DirectMessage}
    (hsame : SameEntries s t q m)
    (hreadings : ∀ k, s.calls + k < (h.after s (.frame q (.data m))).calls →
      t.calls + k < ((h.under w).after t (.frame q (.data m))).calls →
      h.world.clock (s.calls + k) = w.clock (t.calls + k)) :
    Agree p a D (h.after s (.frame q (.data m))) ((h.under w).after t (.frame q (.data m))) := by
  have hverdict := hsame.verdict hreadings
  -- a reading the verdict stands for is made in both runs
  have hclock : ∀ k, k < (@dataVerdict w _ t q m).readings →
      h.world.clock (s.calls + k) = w.clock (t.calls + k) := by
    intro k hk
    refine hreadings k ?_ ?_
    · rw [← hverdict] at hk
      exact (Nat.add_lt_add_left hk _).trans_le (@calls_data _ h.world s q m)
    · exact (Nat.add_lt_add_left hk _).trans_le (@calls_data _ w t q m)
  have hpos := (@dataVerdict w _ t q m).readings_pos
  have hleft := @tables_data _ h.world s q m
  have hright := @tables_data _ w t q m
  refine ⟨?_, ?_, ?_, ?_, ?_⟩
  · refine (congrArg (fun tables => AList.lookup p tables.peerReputations) hleft).trans
      (Eq.trans ?_ (congrArg (fun tables => AList.lookup p tables.peerReputations) hright).symm)
    refine (@lookup_afterData _ h.world s q m p).trans
      (Eq.trans ?_ (@lookup_afterData _ w t q m p).symm)
    have hfirst := hclock 0 hpos
    rw [hverdict, hagree.reputation, hclock _ (Nat.sub_lt hpos Nat.one_pos)]
    rw [Nat.add_zero, Nat.add_zero] at hfirst
    rw [hfirst]
  · refine (congrArg (fun tables => IngestGuard.entry tables.ingestGuard a) hleft).trans
      (Eq.trans ?_ (congrArg (fun tables => IngestGuard.entry tables.ingestGuard a) hright).symm)
    refine (congrArg (fun g => IngestGuard.entry g a) (@guard_afterData _ h.world s q m)).trans
      (Eq.trans ?_ (congrArg (fun g => IngestGuard.entry g a) (@guard_afterData _ w t q m)).symm)
    rw [hverdict]
    by_cases hchecked : (@dataVerdict w _ t q m).checked = true
    · rw [if_pos hchecked, if_pos hchecked, hclock 2 (DataVerdict.readings_of_checked hchecked)]
      have hconfined := IngestGuard.confined_allowDirect m.envelope.signatureAuthorPeer m
        (w.clock (t.calls + 2))
      by_cases hauthor : a = m.envelope.signatureAuthorPeer
      · rw [hauthor]
        exact (hconfined.congr hsame.guard).2
      · rw [hconfined.other _ hauthor, hconfined.other _ hauthor]
        exact hagree.guard
    · rw [if_neg hchecked, if_neg hchecked]
      exact hagree.guard
  · intro id hid
    have hl := @contains_data _ h.world s q m id
    have hr := @contains_data _ w t q m id
    rw [hverdict, hagree.stored id hid] at hl
    exact Bool.eq_iff_iff.mpr (hl.trans hr.symm)
  · exact (@kept_frame _ h.world _ q (.data m)).finalState hagree.kept
  · exact (@kept_frame _ w _ q (.data m)).finalState hagree.kept'

/-! ### The other frames -/

section

variable [World] {q : String} {messages : List DirectMessage}

/-- A frame that brings in none of the ids leaves the same of them in the store. -/
theorem SyncSpares.stored (hspares : SyncSpares D s q messages) {id : String} (hid : D id) :
    (finalState (handleIncomingDirect q (.syncData messages) s)).store.contains id
      = s.store.contains id := by
  rw [handleIncomingDirect_syncData]
  by_cases hthrottled : throttledAt s q (World.clock s.calls) = true
  · rw [if_pos hthrottled]
    rfl
  rw [if_neg hthrottled]
  obtain ⟨s', hrun, horigin⟩ := handleSyncData_run messages (afterThrottle s q)
  obtain ⟨s'', hrun', -, hgrows⟩ := handleSyncData_grows messages (afterThrottle s q)
  obtain rfl := (EStateM.Result.ok.inj (hrun.symm.trans hrun')).2
  rw [hrun]
  refine Bool.eq_iff_iff.mpr ⟨fun hstored => ?_, hgrows id⟩
  obtain ⟨m, hm⟩ := Option.isSome_iff_exists.mp hstored
  rcases horigin id m hm with hold | ⟨rfl, sᵢ, hnew⟩
  · exact Option.isSome_iff_exists.mpr ⟨m, hold⟩
  · exact absurd hid (hspares sᵢ m ⟨by simpa using hthrottled, hnew⟩)

/-- Messages that do not expire while the frame is handled are in the store when it is done with. -/
theorem contains_of_mem (hkept : Kept D s) {id : String} (hid : D id)
    (hlasts : ∀ m ∈ messages, D m.envelope.id → ∀ n, s.calls ≤ n →
      n < (finalState (handleSyncData messages s)).calls → m.isExpired (World.clock n) = false) :
    (finalState (handleSyncData messages s)).store.contains id = true
      ↔ s.store.contains id = true ∨ ∃ m ∈ messages, m.envelope.id = id := by
  obtain ⟨s', hrun, horigin⟩ := handleSyncData_run messages s
  obtain ⟨s'', hrun', -, hgrows⟩ := handleSyncData_grows messages s
  obtain rfl := (EStateM.Result.ok.inj (hrun.symm.trans hrun')).2
  rw [hrun] at hlasts ⊢
  constructor
  · intro hstored
    obtain ⟨m, hm⟩ := Option.isSome_iff_exists.mp hstored
    rcases horigin id m hm with hold | ⟨rfl, sᵢ, hnew⟩
    · exact .inl (Option.isSome_iff_exists.mpr ⟨m, hold⟩)
    · obtain ⟨pre, post, hsplit, -⟩ := hnew.reached
      exact .inr ⟨m, by simp [hsplit], rfl⟩
  · rintro (hold | ⟨m, hmem, rfl⟩)
    · exact hgrows id hold
    · obtain ⟨pre, post, hsplit⟩ := List.append_of_mem hmem
      -- when its turn comes, the id has been seen and is stored, or it is stored now
      cases hseen : (atTurn s pre).seenCache.contains m.envelope.id with
      | false => exact contains_of_turn hrun hsplit (hlasts m hmem hid) hseen
      | true =>
        have hturn : Kept D (atTurn s pre) :=
          (Keeps.forM fun m _ => Keeps.bind (kept_growth.ingest m false) fun _ =>
            Keeps.pure : Keeps (Kept D) True (handleSyncData pre)).finalState hkept
        obtain ⟨s₂, hpost, -, hgrows'⟩ := handleSyncData_grows (m :: post) (atTurn s pre)
        rw [hsplit, handleSyncData_append (atTurn_run s pre), hpost] at hrun
        obtain rfl := (EStateM.Result.ok.inj hrun).2
        exact hgrows' _ (hturn _ hid hseen)

end

/-- Messages that do not expire are brought in alike, from a peer with the same reputation. -/
theorem Agree.syncData (hagree : Agree p a D s t) {q : String} {messages : List DirectMessage}
    (hrep : s.peerReputations.lookup q = t.peerReputations.lookup q)
    (hfirst : h.world.clock s.calls = w.clock t.calls)
    (hleft : SyncLasts h D s q messages) (hright : SyncLasts (h.under w) D t q messages)
    {id : String} (hid : D id) :
    (h.after s (.frame q (.syncData messages))).store.contains id
      = ((h.under w).after t (.frame q (.syncData messages))).store.contains id := by
  have hthrottled : throttledAt s q (h.world.clock s.calls) = throttledAt t q (w.clock t.calls) := by
    unfold throttledAt
    rw [hrep, hfirst]
  have hs := @handleIncomingDirect_syncData h.world _ q messages s
  have ht := @handleIncomingDirect_syncData w _ q messages t
  rw [hthrottled] at hs
  have hafter : h.after s (.frame q (.syncData messages))
      = finalState (@handleIncomingDirect _ h.world q (.syncData messages) s) := rfl
  have hafter' : (h.under w).after t (.frame q (.syncData messages))
      = finalState (@handleIncomingDirect _ w q (.syncData messages) t) := rfl
  by_cases hdrop : throttledAt t q (w.clock t.calls) = true
  · rw [if_pos hdrop] at hs ht
    rw [hafter, hafter', hs, ht]
    exact hagree.stored id hid
  · rw [if_neg hdrop] at hs ht
    rw [hs] at hafter
    rw [ht] at hafter'
    have hl := @contains_of_mem _ _ (@afterThrottle h.world s q) h.world messages hagree.kept id hid
      fun m hm hmid n hn hlt => hleft m hm hmid n (Nat.le_of_succ_le hn) (by rw [hafter]; exact hlt)
    have hr := @contains_of_mem _ _ (@afterThrottle w t q) w messages hagree.kept' id hid
      fun m hm hmid n hn hlt => hright m hm hmid n (Nat.le_of_succ_le hn) (by rw [hafter']; exact hlt)
    rw [hafter, hafter', Bool.eq_iff_iff, hl, hr]
    have hstored : (@afterThrottle h.world s q).store.contains id
        = (@afterThrottle w t q).store.contains id := hagree.stored id hid
    rw [hstored]

/-- **A frame that is no `Data` frame** leaves the runs in agreement, if it stores the same. -/
theorem Agree.frame (hagree : Agree p a D s t) {q : String} {msg : WireMessage}
    (hdata : ∀ m, msg ≠ .data m)
    (hreadings : ∀ k, s.calls + k < (h.after s (.frame q msg)).calls →
      t.calls + k < ((h.under w).after t (.frame q msg)).calls →
      h.world.clock (s.calls + k) = w.clock (t.calls + k))
    (hstored : ∀ id, D id → (h.after s (.frame q msg)).store.contains id
      = ((h.under w).after t (.frame q msg)).store.contains id) :
    Agree p a D (h.after s (.frame q msg)) ((h.under w).after t (.frame q msg)) := by
  have hfirst : h.world.clock s.calls = w.clock t.calls :=
    hreadings 0 (@calls_throttle _ h.world s q msg) (@calls_throttle _ w t q msg)
  have hunchecked : ∀ fromPeer m, Input.frame q msg ≠ .frame fromPeer (.data m) := by
    rintro fromPeer m heq
    obtain ⟨-, rfl⟩ : q = fromPeer ∧ msg = .data m := by simpa [Input.frame] using heq
    exact hdata m rfl
  have hnogossip : ∀ fromPeer scope payload, Input.frame q msg ≠ .scoped fromPeer scope payload := by
    simp [Input.frame, Input.scoped]
  refine ⟨?_, ?_, hstored, ?_, ?_⟩
  · refine (congrArg (AList.lookup p) (@reps_frame _ h.world msg hdata q s)).trans
      (Eq.trans ?_ (congrArg (AList.lookup p) (@reps_frame _ w msg hdata q t)).symm)
    rw [lookup_throttleReps, lookup_throttleReps, hagree.reputation, hfirst]
  · refine (congrArg (fun g => IngestGuard.entry g a)
      (@guard_unchecked h.world _ h.codec _ hunchecked hnogossip s)).trans (hagree.guard.trans ?_)
    exact (congrArg (fun g => IngestGuard.entry g a)
      (@guard_unchecked w _ h.codec _ hunchecked hnogossip t)).symm
  · exact (@kept_frame _ h.world _ q msg).finalState hagree.kept
  · exact (@kept_frame _ w _ q msg).finalState hagree.kept'

/-! ### Gossip -/

/-- Gossip of another peer does not touch the entry. -/
theorem GossipChecked.other [World] [WireCodec] {s s' : NodeRunner} {q scope : String}
    {payload : Bytes} (hgossip : GossipChecked s q scope payload s') (hne : a ≠ q) :
    s'.ingestGuard.entry a = s.ingestGuard.entry a := by
  have hpayload := (IngestGuard.confined_checkGossipPayload q payload.length
    (World.clock s.calls)).other s.ingestGuard hne
  cases hgossip with
  | unsubscribed _ hguard => rw [hguard]
  | stopped _ _ _ hguard => rw [hguard, hpayload]
  | made _ _ _ _ hguard =>
    rw [hguard, (IngestGuard.confined_checkGossipMessage q _ _ _).other _ hne, hpayload]

/-- Gossip of the author is checked alike in both runs. -/
theorem GossipChecked.same {s' t' : NodeRunner} {scope : String} {payload : Bytes}
    (hleft : @GossipChecked _ h.world h.codec s a scope payload s')
    (hright : @GossipChecked _ w h.codec t a scope payload t')
    (hentry : s.ingestGuard.entry a = t.ingestGuard.entry a)
    (hscopes : s.subscribedScopes = t.subscribedScopes)
    (hreadings : ∀ k, s.calls + k < s'.calls → t.calls + k < t'.calls →
      h.world.clock (s.calls + k) = w.clock (t.calls + k)) :
    s'.ingestGuard.entry a = t'.ingestGuard.entry a := by
  -- on a subscribed scope both read the clock and ask for the rate
  have hpayload : s.calls < s'.calls → t.calls < t'.calls →
      (s.ingestGuard.checkGossipPayload a payload.length (h.world.clock s.calls)).1
          = (t.ingestGuard.checkGossipPayload a payload.length (w.clock t.calls)).1
        ∧ (s.ingestGuard.checkGossipPayload a payload.length (h.world.clock s.calls)).2.entry a
          = (t.ingestGuard.checkGossipPayload a payload.length (w.clock t.calls)).2.entry a := by
    intro hs ht
    rw [show h.world.clock s.calls = w.clock t.calls from hreadings 0 hs ht]
    exact (IngestGuard.confined_checkGossipPayload a _ _).congr hentry
  cases hleft with
  | unsubscribed hno hguard =>
    rw [hscopes] at hno
    cases hright with
    | unsubscribed _ hguard' => rw [hguard, hguard', hentry]
    | stopped hyes _ _ _ => rw [hno] at hyes; cases hyes
    | made hyes _ _ _ _ => rw [hno] at hyes; cases hyes
  | stopped hyes hstop hcalls hguard =>
    rw [hscopes] at hyes
    cases hright with
    | unsubscribed hno _ => rw [hno] at hyes; cases hyes
    | stopped _ _ hcalls' hguard' =>
      rw [hguard, hguard']
      exact (hpayload hcalls hcalls').2
    | made _ hpass hbody hcalls' _ =>
      rw [(hpayload hcalls (Nat.lt_of_succ_lt hcalls')).1] at hstop
      exact absurd (hstop.resolve_left (not_not.mpr hpass)) hbody
  | made hyes hpass hbody hcalls hguard =>
    rw [hscopes] at hyes
    cases hright with
    | unsubscribed hno _ => rw [hno] at hyes; cases hyes
    | stopped _ hstop hcalls' _ =>
      rw [(hpayload (Nat.lt_of_succ_lt hcalls) hcalls').1] at hpass
      exact absurd (hstop.resolve_left (not_not.mpr hpass)) hbody
    | made _ _ _ hcalls' hguard' =>
      have hfirst : h.world.clock s.calls = w.clock t.calls :=
        hreadings 0 (Nat.lt_of_succ_lt hcalls) (Nat.lt_of_succ_lt hcalls')
      have hcreated : h.world.clock (s.calls + 1) = w.clock (t.calls + 1) :=
        hreadings 1 hcalls hcalls'
      have hid : @gossipId h.world _ s a payload = @gossipId w _ t a payload := by
        unfold gossipId gossipMessage
        rw [hcreated]
      rw [hguard, hguard', hid, hcreated, hfirst]
      rw [hfirst] at hpayload
      exact ((IngestGuard.confined_checkGossipMessage a _ _ _).congr
        (hpayload (Nat.lt_of_succ_lt hcalls) (Nat.lt_of_succ_lt hcalls')).2).2

/-! ## One arrival -/

/-- **A frame that is met alike** leaves the two runs in agreement. -/
theorem Agree.steadyFrame (hagree : Agree p a D s t) {q : String} {msg : WireMessage}
    (hsteady : Steady p a D h w s t (.frame q msg))
    (hawaited : ∀ m, Input.frame q msg = .frame p (.data m) → SignedBy a m → D m.envelope.id) :
    Agree p a D (h.after s (.frame q msg)) ((h.under w).after t (.frame q msg)) := by
  by_cases hdata : ∃ m, msg = .data m
  · obtain ⟨m, rfl⟩ := hdata
    rcases hsteady.data q m rfl with ⟨rfl, hsigned⟩ | ⟨hpeer, hleft, hright⟩ | hsame
    · exact hagree.data (hagree.sameEntries hsigned.1 (hawaited m rfl hsigned)) hsteady.readings
    · -- no effect in either run
      obtain ⟨hrep, hguard, hstored⟩ := @Harmless.same _ _ _ _ _ h.world _ _ hleft hpeer
      obtain ⟨hrep', hguard', hstored'⟩ := @Harmless.same _ _ _ _ _ w _ _ hright hpeer
      exact {
        reputation := hrep.trans (hagree.reputation.trans hrep'.symm)
        guard := hguard.trans (hagree.guard.trans hguard'.symm)
        stored := fun id hid =>
          (hstored id hid).trans ((hagree.stored id hid).trans (hstored' id hid).symm)
        kept := (@kept_frame _ h.world _ q (.data m)).finalState hagree.kept
        kept' := (@kept_frame _ w _ q (.data m)).finalState hagree.kept' }
    · exact hagree.data hsame hsteady.readings
  replace hdata : ∀ m, msg ≠ .data m := fun m hm => hdata ⟨m, hm⟩
  refine hagree.frame hdata hsteady.readings ?_
  by_cases hsync : ∃ messages, msg = .syncData messages
  · obtain ⟨messages, rfl⟩ := hsync
    intro id hid
    rcases hsteady.sync q messages rfl with ⟨hleft, hright⟩ | ⟨hrep, hleft, hright⟩
    · exact (@SyncSpares.stored _ _ _ h.world _ _ hleft _ hid).trans
        ((hagree.stored id hid).trans (@SyncSpares.stored _ _ _ w _ _ hright _ hid).symm)
    · have hfirst : h.world.clock s.calls = w.clock t.calls := hsteady.readings 0
        (@calls_throttle _ h.world s q _) (@calls_throttle _ w t q _)
      exact hagree.syncData hrep hfirst hleft hright hid
  · -- no other frame stores anything
    replace hsync : ∀ messages, msg ≠ .syncData messages := fun l hl => hsync ⟨l, hl⟩
    intro id hid
    have hleft := @store_other h.world _ q msg hdata hsync s
    have hright := @store_other w _ q msg hdata hsync t
    exact (congrArg (fun st => SledMessageStore.contains st id) hleft).trans
      ((hagree.stored id hid).trans
        (congrArg (fun st => SledMessageStore.contains st id) hright).symm)

/-- Without a frame the guard is asked by gossip only. -/
theorem Agree.guardOther (hagree : Agree p a D s t) {input : Input}
    (hsteady : Steady p a D h w s t input) (hframe : ∀ q msg, input ≠ .frame q msg) :
    (h.after s input).ingestGuard.entry a = ((h.under w).after t input).ingestGuard.entry a := by
  by_cases hscoped : ∃ q scope payload, input = .scoped q scope payload
  · obtain ⟨q, scope, payload, rfl⟩ := hscoped
    have hleft := @gossip_checked _ h.world h.codec s q scope payload
    have hright := @gossip_checked _ w h.codec t q scope payload
    by_cases hq : a = q
    · subst hq
      exact hleft.same hright hagree.guard (hsteady.gossip scope payload rfl) hsteady.readings
    · exact (@GossipChecked.other _ _ h.world h.codec _ _ _ _ _ hleft hq).trans
        (hagree.guard.trans (@GossipChecked.other _ _ w h.codec _ _ _ _ _ hright hq).symm)
  · have hunchecked : ∀ fromPeer m, input ≠ .frame fromPeer (.data m) :=
      fun fromPeer m => hframe fromPeer (.data m)
    have hnogossip : ∀ q scope payload, input ≠ .scoped q scope payload :=
      fun q scope payload hinput => hscoped ⟨q, scope, payload, hinput⟩
    refine (congrArg (fun g => IngestGuard.entry g a)
      (@guard_unchecked h.world _ h.codec input hunchecked hnogossip s)).trans
      (hagree.guard.trans ?_)
    exact (congrArg (fun g => IngestGuard.entry g a)
      (@guard_unchecked w _ h.codec input hunchecked hnogossip t)).symm

/-- **A steady input** leaves the two runs in agreement. -/
theorem Agree.step (hagree : Agree p a D s t) {input : Input}
    (hsteady : Steady p a D h w s t input) (hawaited : ∀ m, input = .frame p (.data m) →
      SignedBy a m → D m.envelope.id) :
    Agree p a D (h.after s input) ((h.under w).after t input) := by
  by_cases hframe : ∃ q msg, input = .frame q msg
  · obtain ⟨q, msg, rfl⟩ := hframe
    exact hagree.steadyFrame hsteady hawaited
  replace hframe : ∀ q msg, input ≠ .frame q msg := fun q msg hinput => hframe ⟨q, msg, hinput⟩
  obtain ⟨hleft, hright⟩ := hsteady.other hframe
  refine ⟨?_, hagree.guardOther hsteady hframe, ?_, ?_, ?_⟩
  · refine (congrArg (AList.lookup p) (@reps_input _ h.world h.codec input hframe s)).trans
      (hagree.reputation.trans ?_)
    exact (congrArg (AList.lookup p) (@reps_input _ w h.codec input hframe t)).symm
  · exact fun id hid => (hleft id hid).trans ((hagree.stored id hid).trans (hright id hid).symm)
  · exact @kept_input _ h.world _ h.codec s input hagree.kept
      fun _ id hid hstored => (hleft id hid).trans hstored
  · exact @kept_input _ w _ h.codec t input hagree.kept'
      fun _ id hid hstored => (hright id hid).trans hstored

/-! ## Two runs in agreement -/

/-- What is awaited later is awaited now. -/
theorem Awaited.cons {x : Arrival} {post : List Arrival} {id : String}
    (hawaited : Awaited p a post id) : Awaited p a (x :: post) id := by
  obtain ⟨view, m, hmem, hsigned, hid⟩ := hawaited
  exact ⟨view, m, List.mem_cons_of_mem x hmem, hsigned, hid⟩

omit [Prims] in
/-- The agreement on some ids is one on fewer. -/
theorem Agree.fewer {D' : String → Prop} (hagree : Agree p a D s t) (hfewer : ∀ id, D' id → D id) :
    Agree p a D' s t where
  reputation := hagree.reputation
  guard := hagree.guard
  stored id hid := hagree.stored id (hfewer id hid)
  kept id hid := hagree.kept id (hfewer id hid)
  kept' id hid := hagree.kept' id (hfewer id hid)

/-- The node that enters its loop has seen nothing. -/
theorem kept_start [World] [WireCodec] {c : NodeConfig} {s : NodeRunner}
    (hrun : runLoop [] (.new c) = .ok () s) : Kept D s := by
  have hkeeps : Keeps (Kept D) True (runLoop []) :=
    Keeps.bind kept_growth.startup fun _ => Keeps.pure
  have hstart : Kept D (NodeRunner.new c) := by
    intro id _ hseen
    cases hseen
  have hend := hkeeps.finalState hstart
  rwa [hrun] at hend

/-- The startup does not ask the environment. -/
theorem run_start {s₀ t₀ : NodeRunner} (hs : h.run [] = .ok () s₀)
    (ht : (h.under w).run [] = .ok () t₀) : s₀ = t₀ := by
  have hsame : (h.under w).run [] = h.run [] := by
    unfold Host.run runLoop
    simp only [List.forM_nil]
    rfl
  rw [hsame, hs] at ht
  exact (EStateM.Result.ok.inj ht).2

/-- One more input of a run. -/
theorem run_append_singleton {inputs : List (TransportView × Input)} {view : TransportView}
    {input : Input} {s : NodeRunner} (hrun : h.run (inputs ++ [(view, input)]) = .ok () s) :
    ∃ s₀, h.run inputs = .ok () s₀ ∧ s = h.after { s₀ with transport := view } input := by
  unfold Host.run at hrun ⊢
  rw [@runLoop_append_singleton _ h.world h.codec] at hrun
  cases hprefix : @runLoop _ h.world h.codec inputs (.new h.config) with
  | error e s₀ =>
    rw [run_bind_of_error hprefix] at hrun
    cases hrun
  | ok u s₀ =>
    rw [run_bind_of_ok hprefix] at hrun
    exact ⟨s₀, rfl, (congrArg finalState hrun).symm⟩

/-- **Two undisturbed runs stay in agreement.** Induction on the arrivals, from the last one. -/
theorem agree_run {arrivals : List Arrival}
    (hextra : ∀ x ∈ arrivals, x.extra = true → x.input.Unauthenticated p a)
    (hcond : ∀ {s t x post}, Meets h w arrivals s t x post → Undisturbed p a h w s t x post)
    {pre post : List Arrival} (hsplit : arrivals = pre ++ post) {s₀ t₀ : NodeRunner}
    (hs : h.run (allInputs pre) = .ok () s₀) (ht : (h.under w).run (commonInputs pre) = .ok () t₀) :
    Agree p a (Awaited p a post) s₀ t₀ := by
  induction pre using List.reverseRecOn generalizing post s₀ t₀ with
  | nil =>
    obtain rfl := run_start hs ht
    exact ⟨rfl, rfl, fun _ _ => rfl, @kept_start _ _ h.world h.codec _ _ hs,
      @kept_start _ _ h.world h.codec _ _ hs⟩
  | append_singleton pre x ih =>
    rw [allInputs, List.map_append] at hs
    obtain ⟨s₁, hs₁, rfl⟩ := run_append_singleton hs
    have hsplit' : arrivals = pre ++ x :: post := by rw [hsplit, List.append_assoc]; rfl
    cases hx : x.extra with
    | true =>
      -- the run without the extra frames does not get it
      have hcommon : commonInputs (pre ++ [x]) = commonInputs pre := by
        simp [commonInputs, List.filter_append, hx]
      rw [hcommon] at ht
      have hagree : Agree p a (Awaited p a post) s₁ t₀ :=
        (ih hsplit' hs₁ ht).fewer fun _ hid => hid.cons
      have hmeets : Meets h w arrivals { s₁ with transport := x.view }
          { t₀ with transport := x.view } x post := ⟨pre, s₁, t₀, hsplit', hs₁, ht, rfl, rfl⟩
      obtain ⟨q, m, hinput, hpeer, -⟩ := hextra x (by simp [hsplit']) hx
      have hharmless := (hcond hmeets).extra hx q m hinput
      have hview : Agree p a (Awaited p a post) { s₁ with transport := x.view } t₀ :=
        ⟨hagree.reputation, hagree.guard, hagree.stored, hagree.kept, hagree.kept'⟩
      rw [hinput]
      exact hview.extra hpeer hharmless
    | false =>
      have hcommon : commonInputs (pre ++ [x]) = commonInputs pre ++ [(x.view, x.input)] := by
        simp [commonInputs, allInputs, List.filter_append, hx]
      rw [hcommon] at ht
      obtain ⟨t₁, ht₁, rfl⟩ := run_append_singleton ht
      have hagree := ih hsplit' hs₁ ht₁
      have hmeets : Meets h w arrivals { s₁ with transport := x.view }
          { t₁ with transport := x.view } x post := ⟨pre, s₁, t₁, hsplit', hs₁, ht₁, rfl, rfl⟩
      have hview : Agree p a (Awaited p a (x :: post)) { s₁ with transport := x.view }
          { t₁ with transport := x.view } :=
        ⟨hagree.reputation, hagree.guard, hagree.stored, hagree.kept, hagree.kept'⟩
      refine (hview.step ((hcond hmeets).common hx) ?_).fewer fun _ hid => hid.cons
      intro m hinput hsigned
      refine ⟨x.view, m, ?_, hsigned, rfl⟩
      rw [← hinput, ← hx]
      exact List.mem_cons_self

end

section

attribute [local instance] symbolicPrims noCodec

/-- The node of peer 2, its clock standing still. -/
def stillHost : Host where
  world := syncWorld
  codec := noCodec
  config := symbolicConfig 2 3

/-- A frame from peer 4, which only one of the runs gets. -/
def extraFrame (m : DirectMessage) : Arrival where
  extra := true
  view := {}
  input := .frame (symbolicPeer 4) (.data m)

/-- A message of peer 1, delivered by peer 1. -/
def authorFrame : Arrival where
  extra := false
  view := {}
  input := .frame (symbolicPeer 1) (.data syncedMessage)

/-- The node in front of the message of peer 1, after these inputs. -/
def inFront (inputs : List (TransportView × Input)) : NodeRunner :=
  { finalState (stillHost.run inputs) with transport := {} }

/-- The message of peer 1 carries its signature. -/
theorem signedBy_author : SignedBy (symbolicPeer 1) syncedMessage := by
  refine ⟨by decide +kernel, ?_⟩
  have hvalid : validateDataMessageSignature syncedMessage = .ok () := by decide +kernel
  exact (validateDataMessageSignature_ok_iff.mp hvalid).resolve_left (by decide +kernel)

/-- Both runs get to the message of peer 1. -/
theorem meets_author {m : DirectMessage}
    (hrun : succeeded (stillHost.run (allInputs [extraFrame m])) = true) :
    Meets stillHost syncWorld [extraFrame m, authorFrame] (inFront (allInputs [extraFrame m]))
      (inFront []) authorFrame [] :=
  ⟨[extraFrame m], _, _, rfl, eq_ok_of_succeeded hrun, rfl, rfl, rfl⟩

/-- A message of peer 4. -/
def othersMessage : DirectMessage := symbolicMessage 4 (symbolicPeer 2) 5000000

/-- Nor is the message of peer 4 one that is awaited. -/
theorem undisturbed_others {s t : NodeRunner} {x : Arrival} {post : List Arrival}
    (hmeets : Meets stillHost syncWorld [extraFrame othersMessage, authorFrame] s t x post) :
    Undisturbed (symbolicPeer 1) (symbolicPeer 1) stillHost syncWorld s t x post := by
  obtain ⟨pre, s₀, t₀, hsplit, -, -, -, -⟩ := hmeets
  match pre with
  | [] =>
    obtain ⟨rfl, rfl⟩ : extraFrame othersMessage = x ∧ [authorFrame] = post := by simpa using hsplit
    refine ⟨fun _ q m hinput => ?_, fun hcommon => absurd hcommon (Bool.false_ne_true ·.symm)⟩
    obtain ⟨-, rfl⟩ : symbolicPeer 4 = q ∧ othersMessage = m := by
      simpa [extraFrame, Input.frame] using hinput
    refine @Harmless.mk _ stillHost.world _ _ _ _ _ ?_ ?_
    · intro hauthor
      exact absurd hauthor (by decide +kernel)
    · rintro ⟨view, m, hmem, -, hid⟩ -
      obtain ⟨-, rfl⟩ : view = {} ∧ m = syncedMessage := by
        simpa [authorFrame, Input.frame] using hmem
      exact absurd hid (by decide +kernel)
  | [_] =>
    obtain ⟨-, rfl, rfl⟩ : extraFrame othersMessage = _ ∧ authorFrame = x ∧ [] = post := by
      simpa using hsplit
    refine ⟨fun hextra => absurd hextra Bool.false_ne_true, fun _ => ?_⟩
    exact {
      readings := fun _ _ _ => rfl
      data := by
        intro q m hinput
        obtain ⟨rfl, rfl⟩ : symbolicPeer 1 = q ∧ syncedMessage = m := by
          simpa [authorFrame, Input.frame] using hinput
        exact .inl ⟨rfl, signedBy_author⟩
      sync := fun _ _ hinput => by simp [authorFrame, Input.frame] at hinput
      gossip := fun _ _ hinput => by simp [authorFrame, Input.frame, Input.scoped] at hinput
      other := fun hframe => absurd rfl (hframe _ _) }
  | _ :: _ :: _ => simp at hsplit

/-- The message of peer 1 without its signature, under a tag that needs none. -/
def unsignedCopy : DirectMessage where
  envelope := { syncedMessage.envelope with signature := none }
  body := "[appstore]"

end

end Mycelium.Node

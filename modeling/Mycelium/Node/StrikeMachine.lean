import Mycelium.Node.AtMostOnce
import Mycelium.Node.Reputation

/-!
# Mycelium node — strikes, rewards and the throttle

The three calls of the reputation table, in any order and for any peers, under a clock that does
not run backwards. An entry throttles its peer only because of a strike that was the third of three
in a row, and for five minutes from it.

* `Throttling` — what `throttled_until_ms` says about the strikes so far;
* `strike_machine` — what a throttle says about the strikes, over whole runs.
-/

namespace Mycelium.Node

/-- Three strikes in a row, each close to the one before, end at `t₃`. -/
def EndsThree (times : List UInt64) (t₃ : UInt64) : Prop :=
  ∃ pre t₁ t₂ post, times = pre ++ [t₁, t₂, t₃] ++ post ∧ Close t₁ t₂ ∧ Close t₂ t₃

theorem EndsThree.append {times : List UInt64} {t : UInt64} (h : EndsThree times t)
    (more : List UInt64) : EndsThree (times ++ more) t := by
  obtain ⟨pre, t₁, t₂, post, htimes, h₁₂, h₂₃⟩ := h
  exact ⟨pre, t₁, t₂, post ++ more, by rw [htimes]; simp, h₁₂, h₂₃⟩

/-- An entry throttles until at most five minutes after a third strike. -/
def Throttling (times : List UInt64) (rep : PeerReputation) : Prop :=
  0 < rep.throttledUntilMs.toNat →
    ∃ t, EndsThree times t ∧ rep.throttledUntilMs.toNat ≤ t.toNat + 5 * 60 * 1000

/-- What an entry says about the strikes charged so far. -/
def Accounted (times : List UInt64) (rep : PeerReputation) : Prop :=
  Justified times rep ∧ Throttling times rep

theorem accounted_default (times : List UInt64) : Accounted times {} :=
  ⟨justified_default times, fun h => absurd h (by decide)⟩

theorem Accounted.decayed {times : List UInt64} {rep : PeerReputation} (h : Accounted times rep)
    (now : UInt64) : Accounted times (rep.decayed now) := by
  refine ⟨h.1.decayed now, ?_⟩
  unfold Throttling
  rw [rep.decayed_throttledUntilMs]
  exact h.2

theorem Accounted.halved {times : List UInt64} {rep : PeerReputation} (h : Accounted times rep) :
    Accounted times { rep with strikes := rep.strikes / 2 } :=
  ⟨h.1.halved, h.2⟩

/-- A strike that makes three, or more, comes close after two that are close. -/
theorem Accounted.endsThree {times : List UInt64} {rep : PeerReputation} (h : Accounted times rep)
    {now : UInt64} (h3 : 3 ≤ (rep.struck now).strikes) : EndsThree (times ++ [now]) now := by
  rw [(struck_fields rep now).2.1, UInt8.le_iff_toNat_le] at h3
  have hkept := lt_satAdd_one (n := 1) h3
  by_cases hgap : 60 * 1000 < U64.satSub now rep.lastStrikeMs
  · rw [if_pos hgap] at hkept
    exact absurd hkept (Nat.not_lt_zero 1)
  · rw [if_neg hgap] at hkept
    obtain ⟨pre, t, htimes, hclose⟩ := h.1.two hkept
    exact ⟨pre, t, rep.lastStrikeMs, [], by rw [htimes]; simp, hclose, UInt64.not_lt.mp hgap⟩

/-- **One more strike.** -/
theorem Accounted.struck {times : List UInt64} {rep : PeerReputation} (h : Accounted times rep)
    (now : UInt64) : Accounted (times ++ [now]) (rep.struck now) := by
  refine ⟨h.1.struck now, ?_⟩
  unfold Throttling
  rw [(struck_fields rep now).2.2]
  split
  · next h3 =>
    intro _
    refine ⟨now, h.endsThree h3, ?_⟩
    rw [UInt64.toNat_add]
    exact Nat.mod_le _ _
  · intro hpos
    obtain ⟨t, hends, hle⟩ := h.2 hpos
    exact ⟨t, hends.append [now], hle⟩

theorem accounted_entry : EntryInvariant Accounted where
  fresh := accounted_default
  decayed now h := h.decayed now
  halved h := h.halved
  struck now h := h.struck now

/-! ## Runs of the three calls -/

inductive ReputationCall where
  | registerStrike (peer : String)
  | rewardPeer (peer : String)
  | isThrottled (peer : String)

section

variable [World]

def ReputationCall.run : ReputationCall → NodeM Unit
  | .registerStrike peer => Node.registerStrike peer
  | .rewardPeer peer => Node.rewardPeer peer
  | .isThrottled peer => do
    let _ ← Node.isThrottled peer

/-- The readings at which the calls charge a strike to `p`, from the `n`-th reading on. -/
def strikesOf (p : String) : Nat → List ReputationCall → List UInt64
  | _, [] => []
  | n, .registerStrike peer :: calls =>
    (if peer = p then [World.clock n] else []) ++ strikesOf p (n + 1) calls
  | n, .rewardPeer _ :: calls => strikesOf p n calls
  | n, .isThrottled _ :: calls => strikesOf p (n + 1) calls

/-- The strikes so far are in the order of the clock, which is past them, and the entry is
accounted for. -/
structure Charged (p : String) (times : List UInt64) (s : NodeRunner) : Prop where
  table : TableOf Accounted p times s.peerReputations
  sorted : times.Pairwise fun t t' => t.toNat ≤ t'.toNat
  past : ∀ t ∈ times, t.toNat ≤ (World.clock s.calls).toNat

/-- **A whole run.** Induction on the calls: each leaves the table accounted for by the strikes
up to it. -/
theorem Charged.run (hclock : ClockMonotone) {p : String} (calls : List ReputationCall) :
    ∀ {times : List UInt64} {s : NodeRunner}, Charged p times s →
      ∃ s', forM calls ReputationCall.run s = .ok () s'
        ∧ Charged p (times ++ strikesOf p s.calls calls) s' := by
  induction calls with
  | nil =>
    intro times s h
    exact ⟨s, rfl, by rw [strikesOf, List.append_nil]; exact h⟩
  | cons call calls ih =>
    intro times s h
    have hnext : (World.clock s.calls).toNat ≤ (World.clock (s.calls + 1)).toNat :=
      hclock _ _ (Nat.le_succ _)
    cases call with
    | registerStrike peer =>
      -- the strike is of this peer, or of another and leaves its entry alone
      have hcharged : Charged p (times ++ if peer = p then [World.clock s.calls] else [])
          { s with calls := s.calls + 1
                   peerReputations := strikeReps s.peerReputations peer (World.clock s.calls) } := by
        refine ⟨accounted_entry.strikeReps h.table peer _, ?_, ?_⟩
        · split
          · exact List.pairwise_append.mpr ⟨h.sorted, List.pairwise_singleton _ _, fun t ht t' ht' =>
              List.mem_singleton.mp ht' ▸ h.past t ht⟩
          · rw [List.append_nil]
            exact h.sorted
        · intro t ht
          rcases List.mem_append.mp ht with ht | ht
          · exact (h.past t ht).trans hnext
          · split at ht
            · rw [List.mem_singleton.mp ht]
              exact hnext
            · cases ht
      obtain ⟨s', hrun, hs'⟩ := ih hcharged
      refine ⟨s', ?_, by rw [strikesOf, ← List.append_assoc]; exact hs'⟩
      rw [List.forM_cons]
      exact (run_bind_of_ok (registerStrike_run peer s)).trans hrun
    | rewardPeer peer =>
      have hcharged : Charged p times
          { s with peerReputations := rewardReps s.peerReputations peer } :=
        ⟨accounted_entry.rewardReps h.table peer, h.sorted, h.past⟩
      obtain ⟨s', hrun, hs'⟩ := ih hcharged
      refine ⟨s', ?_, hs'⟩
      rw [List.forM_cons]
      exact (run_bind_of_ok (rewardPeer_run peer s)).trans hrun
    | isThrottled peer =>
      have hcharged : Charged p times
          { s with calls := s.calls + 1
                   peerReputations := throttleReps s.peerReputations peer (World.clock s.calls) } :=
        ⟨accounted_entry.throttleReps h.table peer _, h.sorted, fun t ht => (h.past t ht).trans hnext⟩
      obtain ⟨s', hrun, hs'⟩ := ih hcharged
      refine ⟨s', ?_, hs'⟩
      rw [List.forM_cons]
      show ((isThrottled peer >>= fun _ => pure ()) >>= fun _ => forM calls ReputationCall.run) s = _
      rw [bind_assoc, run_bind_of_ok (isThrottled_run peer s)]
      exact hrun

/-! ## What a throttle says -/

omit [World] in
/-- A throttle that is on comes from a strike of the last five minutes. -/
theorem TableOf.throttled {p : String} {times : List UInt64} {s : NodeRunner} {now : UInt64}
    (h : TableOf Accounted p times s.peerReputations) (hthrottled : throttledAt s p now = true) :
    ∃ t, EndsThree times t ∧ now.toNat < t.toNat + 5 * 60 * 1000 := by
  unfold throttledAt at hthrottled
  split at hthrottled
  · cases hthrottled
  · next rep hrep =>
    have hlt := U64.lt_iff.mp (of_decide_eq_true hthrottled)
    obtain ⟨t, hends, hle⟩ := (h rep hrep).2 (by omega)
    exact ⟨t, hends, by omega⟩

omit [World] in
/-- A reward leaves the end of a throttle where it is. -/
theorem throttledAt_reward (s : NodeRunner) (peer p : String) (now : UInt64) :
    throttledAt { s with peerReputations := rewardReps s.peerReputations peer } p now
      = throttledAt s p now := by
  unfold throttledAt rewardReps
  cases hpeer : s.peerReputations.lookup peer with
  | none => rfl
  | some rep =>
    by_cases hp : p = peer
    · subst hp
      simp [hpeer]
    · simp [AList.lookup_insert_ne hp]

/-- Strikes in a row, at most a minute apart, the last one within the last five minutes. -/
def RecentThree (times : List UInt64) (now : UInt64) : Prop :=
  ∃ pre t₁ t₂ t₃ post, times = pre ++ [t₁, t₂, t₃] ++ post
    ∧ t₁.toNat ≤ t₂.toNat ∧ t₂.toNat ≤ t₁.toNat + 60 * 1000
    ∧ t₂.toNat ≤ t₃.toNat ∧ t₃.toNat ≤ t₂.toNat + 60 * 1000
    ∧ t₃.toNat ≤ now.toNat ∧ now.toNat < t₃.toNat + 5 * 60 * 1000

theorem Charged.recentThree {p : String} {times : List UInt64} {s : NodeRunner}
    (h : Charged p times s) (hthrottled : throttledAt s p (World.clock s.calls) = true) :
    RecentThree times (World.clock s.calls) := by
  obtain ⟨t₃, ⟨pre, t₁, t₂, post, htimes, h₁₂, h₂₃⟩, hrecent⟩ := h.table.throttled hthrottled
  have hsorted := h.sorted
  rw [htimes, List.pairwise_append, List.pairwise_append] at hsorted
  have hthree := hsorted.1.2.1
  simp only [List.pairwise_cons, List.mem_cons, List.not_mem_nil, or_false, forall_eq_or_imp,
    forall_eq] at hthree
  have hpast := h.past t₃ (by rw [htimes]; simp)
  unfold Close at h₁₂ h₂₃
  rw [U64.le_iff, U64.toNat_satSub] at h₁₂ h₂₃
  have hminute : (60 * 1000 : UInt64).toNat = 60000 := rfl
  refine ⟨pre, t₁, t₂, t₃, post, htimes, hthree.1.1, ?_, hthree.2.1, ?_, hpast, hrecent⟩
  · omega
  · omega

/-- **The strike machine.** After every sequence of calls, under a clock that does not run
backwards: a peer that is found throttled had three strikes in a row, at most a minute apart, the
last of them within five minutes; a reward, to whomever, does not change what is found; and a peer
whose strikes all lie five minutes back is not throttled. -/
theorem strike_machine (hclock : ClockMonotone) {s : NodeRunner} (hfresh : s.peerReputations = ∅)
    (calls : List ReputationCall) (p : String) :
    ∃ r, forM calls ReputationCall.run s = .ok () r
      ∧ (∀ r', isThrottled p r = .ok true r' →
          RecentThree (strikesOf p s.calls calls) (World.clock r.calls))
      ∧ (∀ peer throttled r', isThrottled p r = .ok throttled r' →
          ∃ r₂, (rewardPeer peer >>= fun _ => isThrottled p) r = .ok throttled r₂)
      ∧ ((∀ t ∈ strikesOf p s.calls calls,
            t.toNat + 5 * 60 * 1000 ≤ (World.clock r.calls).toNat) →
          ∃ r', isThrottled p r = .ok false r') := by
  have hstart : Charged p [] s := by
    refine ⟨?_, List.Pairwise.nil, nofun⟩
    intro rep hrep
    rw [hfresh] at hrep
    cases hrep
  obtain ⟨r, hrun, hr⟩ := hstart.run hclock calls
  rw [List.nil_append] at hr
  refine ⟨r, hrun, ?_, ?_, ?_⟩
  -- throttled means that three strikes lie within the minute and the five after it
  · intro r' hthrottled
    rw [isThrottled_run] at hthrottled
    exact hr.recentThree (EStateM.Result.ok.inj hthrottled).1
  -- a reward lowers strikes but lifts no throttle
  · intro peer throttled r' hthrottled
    rw [isThrottled_run] at hthrottled
    rw [run_bind_of_ok (rewardPeer_run peer r), isThrottled_run, throttledAt_reward]
    exact ⟨_, congrArg (fun b => EStateM.Result.ok b _) (EStateM.Result.ok.inj hthrottled).1⟩
  -- five minutes after the last strike none of the three can be recent
  · intro hover
    refine ⟨_, (isThrottled_run p r).trans (congrArg (fun b => EStateM.Result.ok b _) ?_)⟩
    rw [Bool.eq_false_iff]
    intro hthrottled
    obtain ⟨pre, t₁, t₂, t₃, post, htimes, -, -, -, -, -, hrecent⟩ := hr.recentThree hthrottled
    have hlast := hover t₃ (by rw [htimes]; simp)
    omega

end

section

attribute [local instance] symbolicPrims

/-- Three strikes at once, a reward in between, and the peer is throttled. -/
theorem strike_machine_thrice :
    ∃ r r', @forM NodeM _ _ _ [.registerStrike "p", .registerStrike "p", .rewardPeer "q",
        .registerStrike "p"] (@ReputationCall.run (stillWorld 5000000)) (symbolicNode 2 3 5000000)
          = .ok () r
      ∧ @isThrottled (stillWorld 5000000) "p" r = .ok true r'
      ∧ RecentThree [5000000, 5000000, 5000000] 5000000 := by
  let _ : World := stillWorld 5000000
  have hclock : ClockMonotone := fun _ _ _ => Nat.le_refl _
  have hfresh : (symbolicNode 2 3 5000000).peerReputations = ∅ := rfl
  obtain ⟨r, hrun, hrecent, -⟩ := strike_machine hclock hfresh
    [.registerStrike "p", .registerStrike "p", .rewardPeer "q", .registerStrike "p"] "p"
  have hthrottled : throttledAt r "p" (World.clock r.calls) = true := by
    have hfinal : r = finalState (forM [.registerStrike "p", .registerStrike "p", .rewardPeer "q",
        .registerStrike "p"] ReputationCall.run (symbolicNode 2 3 5000000)) := by
      rw [hrun]
      rfl
    rw [hfinal]
    decide +kernel
  have hrun' := isThrottled_run "p" r
  rw [hthrottled] at hrun'
  exact ⟨r, _, hrun, hrun', hrecent _ hrun'⟩

end

end Mycelium.Node

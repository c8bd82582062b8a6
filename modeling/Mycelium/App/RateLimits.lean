import Mycelium.App.Bridge
import Mycelium.Lib.FixedWindow

/-!
# Mycelium app — the rate limiters

Three limiters count calls in windows that open with a call: the one of the node's ingest guard,
and those of the bridge for calls and for broadcasts. They differ in whether a window is over at
its full length or after it, and in the order of the fields of an entry. Each is a table of windows
(`Keyed`), so the bounds of `Lib.FixedWindow` are theirs.

* `windowLimiter` — `FixedWindowRateLimiter`, for any limit and length;
* `callLimiter` — `check_bridge_rate` and `check_broadcast_rate`;
* `rate_limiters_pace` — the three of them.
-/

namespace Mycelium.App

open FixedWindow Node

/-! ## The limiter of the node -/

/-- A window is over when it is `width` old. -/
def closedRule (limit width : Nat) : Rule where
  limit
  width
  ended start now := width ≤ now - start
  le_of_ended := by
    intro start now hle h
    have hwidth := of_decide_eq_true h
    omega
  ended_of_lt := by
    intro start now h
    exact decide_eq_true (by omega)

/-- The window of an entry of `FixedWindowRateLimiter`. -/
def bucketWindow (entry : Nat × UInt64) : Window := ⟨entry.2.toNat, entry.1⟩

/-- The entry a call of `FixedWindowRateLimiter` counts in. -/
def currentBucket (l : FixedWindowRateLimiter) (key : String) (now : UInt64) : Nat × UInt64 :=
  let entry := (l.buckets.lookup key).getD (0, now)
  if l.windowMs ≤ U64.satSub now entry.2 then (0, now) else entry

theorem bucketWindow_current (l : FixedWindowRateLimiter) (key : String) (now : UInt64) :
    bucketWindow (currentBucket l key now)
      = (closedRule l.limit l.windowMs.toNat).current ((l.buckets.lookup key).map bucketWindow)
          now.toNat := by
  have hfresh : bucketWindow (0, now) = ⟨now.toNat, 0⟩ := rfl
  have hended : ∀ entry, (closedRule l.limit l.windowMs.toNat).ended (bucketWindow entry).start
      now.toNat = decide (l.windowMs ≤ U64.satSub now entry.2) := by
    intro entry
    unfold closedRule bucketWindow
    rw [decide_eq_decide, U64.le_iff, U64.toNat_satSub]
  exact Rule.current_entry _ bucketWindow hfresh hended _

theorem allow_eq (l : FixedWindowRateLimiter) (key : String) (now : UInt64) :
    l.allow key now = if l.limit ≤ (currentBucket l key now).1 then
        (false, { l with buckets := l.buckets.insert key (currentBucket l key now) })
      else
        let entry := ((currentBucket l key now).1 + 1, (currentBucket l key now).2)
        (true, { l with buckets := l.buckets.insert key entry }) := rfl

/-- One call, as a call of the rule. -/
theorem allow_call (l : FixedWindowRateLimiter) (key : String) (now : UInt64) :
    ∃ entry, (l.allow key now).2 = { l with buckets := l.buckets.insert key entry }
      ∧ ((l.allow key now).1, bucketWindow entry)
        = (closedRule l.limit l.windowMs.toNat).call ((l.buckets.lookup key).map bucketWindow)
            now.toNat := by
  unfold Rule.call
  rw [allow_eq, ← bucketWindow_current]
  by_cases hfull : l.limit ≤ (currentBucket l key now).1
  · rw [if_pos hfull]
    exact ⟨_, rfl, (if_pos hfull).symm⟩
  · rw [if_neg hfull]
    exact ⟨_, rfl, (if_neg hfull).symm⟩

/-- The limiter as a table of windows. -/
def windowLimiter (limit : Nat) (windowMs : UInt64) :
    Keyed (closedRule limit windowMs.toNat) FixedWindowRateLimiter String UInt64 where
  allow := FixedWindowRateLimiter.allow
  instant := UInt64.toNat
  view l key := (l.buckets.lookup key).map bucketWindow
  Setup l := l.limit = limit ∧ l.windowMs = windowMs
  setup_allow := by
    intro l hl key now
    obtain ⟨entry, hnext, -⟩ := allow_call l key now
    rw [hnext]
    exact hl
  allow_fst := by
    rintro l ⟨rfl, rfl⟩ key now
    obtain ⟨entry, -, hcall⟩ := allow_call l key now
    exact congrArg Prod.fst hcall
  view_same := by
    rintro l ⟨rfl, rfl⟩ key now
    obtain ⟨entry, hnext, hcall⟩ := allow_call l key now
    rw [hnext]
    simp only [AList.lookup_insert, Option.map_some]
    exact congrArg (some ·.2) hcall
  view_other := by
    intro l _ key now key' hne
    obtain ⟨entry, hnext, -⟩ := allow_call l key now
    rw [hnext]
    simp only [AList.lookup_insert_ne hne]

/-! ## The limiters of the bridge -/

/-- A window is over when it is older than `width`. -/
def openRule (limit width : Nat) : Rule where
  limit
  width
  ended start now := width < now - start
  le_of_ended := by
    intro start now hle h
    have hwidth := of_decide_eq_true h
    omega
  ended_of_lt := by
    intro start now h
    exact decide_eq_true (by omega)

/-- The window of an entry of the bridge's tables. -/
def countWindow (entry : UInt64 × Nat) : Window := ⟨entry.1.toNat, entry.2⟩

/-- The entry a call counts in. -/
def currentCount (windowMs : UInt64) (counts : CallCounts) (appId : String) (now : UInt64) :
    UInt64 × Nat :=
  let entry := (counts.lookup appId).getD (now, 0)
  if windowMs < U64.satSub now entry.1 then (now, 0) else entry

variable {windowMs : UInt64} {most : Nat}

theorem countWindow_current (counts : CallCounts) (appId : String) (now : UInt64) :
    countWindow (currentCount windowMs counts appId now)
      = (openRule most windowMs.toNat).current ((counts.lookup appId).map countWindow)
          now.toNat := by
  have hfresh : countWindow (now, 0) = ⟨now.toNat, 0⟩ := rfl
  have hended : ∀ entry, (openRule most windowMs.toNat).ended (countWindow entry).start now.toNat
      = decide (windowMs < U64.satSub now entry.1) := by
    intro entry
    unfold openRule countWindow
    rw [decide_eq_decide, U64.lt_iff, U64.toNat_satSub]
  exact Rule.current_entry _ countWindow hfresh hended _

theorem checkRate_eq (text : String) (counts : CallCounts) (appId : String) (now : UInt64) :
    checkRate windowMs most text counts appId now
      = if most ≤ (currentCount windowMs counts appId now).2 then
          (.error text, counts.insert appId (currentCount windowMs counts appId now))
        else
          let entry := ((currentCount windowMs counts appId now).1,
            (currentCount windowMs counts appId now).2 + 1)
          (.ok (), counts.insert appId entry) := rfl

theorem checkRate_call (text : String) (counts : CallCounts) (appId : String) (now : UInt64) :
    ∃ entry, (checkRate windowMs most text counts appId now).2 = counts.insert appId entry
      ∧ ((checkRate windowMs most text counts appId now).1.toBool, countWindow entry)
        = (openRule most windowMs.toNat).call ((counts.lookup appId).map countWindow) now.toNat := by
  unfold Rule.call
  rw [checkRate_eq, ← countWindow_current]
  by_cases hfull : most ≤ (currentCount windowMs counts appId now).2
  · rw [if_pos hfull]
    exact ⟨_, rfl, (if_pos hfull).symm⟩
  · rw [if_neg hfull]
    exact ⟨_, rfl, (if_neg hfull).symm⟩

/-- The counts of a table of the bridge as a table of windows. -/
def callLimiter (windowMs : UInt64) (most : Nat) (text : String) :
    Keyed (openRule most windowMs.toNat) CallCounts String UInt64 where
  allow counts appId now :=
    ((checkRate windowMs most text counts appId now).1.toBool,
      (checkRate windowMs most text counts appId now).2)
  instant := UInt64.toNat
  view counts appId := (counts.lookup appId).map countWindow
  Setup _ := True
  setup_allow _ _ _ := trivial
  allow_fst := by
    intro counts _ appId now
    obtain ⟨entry, -, hcall⟩ := checkRate_call text counts appId now
    exact congrArg Prod.fst hcall
  view_same := by
    intro counts _ appId now
    obtain ⟨entry, hnext, hcall⟩ := checkRate_call text counts appId now
    rw [hnext]
    simp only [AList.lookup_insert, Option.map_some]
    exact congrArg (some ·.2) hcall
  view_other := by
    intro counts _ appId now appId' hne
    obtain ⟨entry, hnext, -⟩ := checkRate_call text counts appId now
    rw [hnext]
    simp only [AList.lookup_insert_ne hne]

/-- `check_bridge_rate`. -/
def bridgeLimiter : Keyed (openRule 120 60000) CallCounts String UInt64 :=
  callLimiter 60000 120 "bridge rate limit exceeded (120/min)"

/-- `check_broadcast_rate`. -/
def broadcastLimiter : Keyed (openRule 10 3600000) CallCounts String UInt64 :=
  callLimiter 3600000 10 "broadcast rate limit exceeded (10/hour)"

theorem bridgeLimiter_allow (counts : CallCounts) (appId : String) (now : UInt64) :
    bridgeLimiter.allow counts appId now
      = ((checkBridgeRate counts appId now).1.toBool, (checkBridgeRate counts appId now).2) := rfl

theorem broadcastLimiter_allow (counts : CallCounts) (appId : String) (now : UInt64) :
    broadcastLimiter.allow counts appId now
      = ((checkBroadcastRate counts appId now).1.toBool, (checkBroadcastRate counts appId now).2) :=
  rfl

/-- **The rate limits.** Each of the three limiters, from an empty table: in every interval of its
length at most twice its limit of calls of one key are admitted, a call is refused only in a window
in which the limit was admitted, and after a silence longer than its length the next calls up to
the limit are admitted. -/
theorem rate_limiters_pace :
    (∀ limit windowMs, (windowLimiter limit windowMs).Paces { limit, windowMs })
      ∧ bridgeLimiter.Paces ∅ ∧ broadcastLimiter.Paces ∅ := by
  refine ⟨?_, ?_, ?_⟩
  · intro limit windowMs
    exact Keyed.paces ⟨rfl, rfl⟩ fun key => rfl
  · exact Keyed.paces trivial fun appId => rfl
  · exact Keyed.paces trivial fun appId => rfl

end Mycelium.App

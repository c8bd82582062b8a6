import Mycelium.Lib.Trail
import Mycelium.Node.GossipReplay

/-!
# Mycelium node — what a Replay verdict means

`allow_direct` asks for the duplicate before it asks for the rate, and asking for the duplicate
records the id. A message that its author's rate refuses is recorded with the accepted ones, and
is a replay when it is sent again.

* `judged` — one call, case by case;
* `GuardHistory.recorded` — a recorded id was accepted, or refused for the rate;
* `replay_means_accepted_iff` — when a Replay verdict means that the message was accepted.
-/

namespace Mycelium.Node

open Trail

structure DirectCall where
  author : String
  msg : DirectMessage
  now : UInt64

/-- What the replay window knows of a message. -/
def DirectCall.key (c : DirectCall) : String × String := (c.author, c.msg.envelope.id)

def DirectCall.fresh (c : DirectCall) : Bool :=
  checkEnvelopeFreshness c.msg.envelope.createdAtMs c.now

/-- No bucket of the key that is still open is full. -/
def FixedWindowRateLimiter.HasRoom (l : FixedWindowRateLimiter) (key : String) (now : UInt64) :
    Prop :=
  ∀ count start, l.buckets.lookup key = some (count, start) →
    U64.satSub now start < l.windowMs → count < l.limit

namespace FixedWindowRateLimiter

/-- A call is allowed exactly while there is room. -/
theorem allow_fst_iff {l : FixedWindowRateLimiter} (hlimit : 0 < l.limit) (key : String)
    (now : UInt64) : (l.allow key now).1 = true ↔ l.HasRoom key now := by
  have hcount : ∀ entry : Nat × UInt64, (if l.limit ≤ entry.1 then
        (false, { l with buckets := l.buckets.insert key entry })
      else (true, { l with buckets := l.buckets.insert key (entry.1 + 1, entry.2) })).1 = true
      ↔ entry.1 < l.limit := by
    intro entry
    split
    · next hfull => simp [Nat.not_lt.mpr hfull]
    · next hfree => simp [Nat.not_le.mp hfree]
  unfold allow HasRoom
  simp only
  rw [hcount]
  cases l.buckets.lookup key with
  | none => simp [hlimit]
  | some entry =>
    obtain ⟨count, start⟩ := entry
    by_cases hopen : l.windowMs ≤ U64.satSub now start
    · simp [hopen, hlimit]
    · simp [hopen, UInt64.not_le.mp hopen]

/-- The limit stays. -/
theorem allow_limit (l : FixedWindowRateLimiter) (key : String) (now : UInt64) :
    (l.allow key now).2.limit = l.limit := by
  unfold allow
  simp only
  split
  · split
    · rfl
    · rfl
  · split
    · rfl
    · rfl

end FixedWindowRateLimiter

namespace IdCache

variable {cap : Nat} {c : IdCache} {new : String}

/-- A cache recognises the id it has just taken. -/
theorem Sound.contains_push (h : c.Sound cap) (hcap : 0 < cap) (hnew : c.contains new = false) :
    (c.push cap new).contains new = true :=
  (h.since_push hcap).contains (h.push hcap hnew)

end IdCache

namespace IngestGuard

/-- A guard as `IngestGuard::new` makes it and calls leave it. -/
structure Standing (g : IngestGuard) : Prop where
  sound : g.Sound
  limit : g.rateDirect.limit = directRatePerMinute

/-- What a call of `allow_direct` answers, and what it leaves behind. -/
inductive Judged (g : IngestGuard) (c : DirectCall) : Except IngestReject Unit → IngestGuard → Prop
  | stale (hfresh : c.fresh = false) : Judged g c (.error .stale) g
  | replay {g' : IngestGuard} (hfresh : c.fresh = true)
      (hold : (g.window c.author).contains c.msg.envelope.id = true)
      (hwindow : ∀ p, g'.window p = g.window p) (hrate : g'.rateDirect = g.rateDirect) :
      Judged g c (.error .replay) g'
  | rateLimit {g' : IngestGuard} (hfresh : c.fresh = true)
      (hnew : (g.window c.author).contains c.msg.envelope.id = false)
      (hroom : ¬ g.rateDirect.HasRoom c.author c.now)
      (hwindow : ∀ p, g'.window p = if p = c.author then
        (g.window p).push authorIdWindow c.msg.envelope.id else g.window p) :
      Judged g c (.error .rateLimit) g'
  | ok {g' : IngestGuard} (hfresh : c.fresh = true)
      (hnew : (g.window c.author).contains c.msg.envelope.id = false)
      (hroom : g.rateDirect.HasRoom c.author c.now)
      (hwindow : ∀ p, g'.window p = if p = c.author then
        (g.window p).push authorIdWindow c.msg.envelope.id else g.window p) :
      Judged g c (.ok ()) g'

/-- `allow_direct` on the message of a call. -/
def answer (g : IngestGuard) (c : DirectCall) : Except IngestReject Unit × IngestGuard :=
  g.allowDirect c.author c.msg c.now

variable {g : IngestGuard}

/-- What one call of `allow_direct` asks and does. -/
theorem judged (h : g.Standing) (c : DirectCall) : Judged g c (g.answer c).1 (g.answer c).2 := by
  unfold answer allowDirect
  cases hfresh : checkEnvelopeFreshness c.msg.envelope.createdAtMs c.now with
  | false => exact .stale hfresh
  | true =>
    have hwindow := window_isDuplicate (g := g) c.author c.msg.envelope.id
    have hdup := isDuplicate_fst (g := g) c.author c.msg.envelope.id
    cases hcontains : (g.window c.author).contains c.msg.envelope.id with
    | true =>
      rw [hcontains] at hdup
      simp only [hdup, Bool.not_true, Bool.false_eq_true, if_false, if_true]
      refine .replay hfresh hcontains ?_ rfl
      intro p
      rw [hwindow, hcontains]
      simp
    | false =>
      rw [hcontains] at hdup
      -- the id goes into the window before the rate is looked at
      have hroom := FixedWindowRateLimiter.allow_fst_iff (l := g.rateDirect)
        (by rw [h.limit]; decide) c.author c.now
      have hpushed : ∀ p rateDirect, ({ g with
            replay := (g.replay.isDuplicate c.author c.msg.envelope.id).2, rateDirect } :
              IngestGuard).window p
          = if p = c.author then (g.window p).push authorIdWindow c.msg.envelope.id
            else g.window p := by
        intro p rateDirect
        refine (window_congr rfl p).trans ((hwindow p).trans ?_)
        rw [hcontains, h.sound.max]
        simp
      cases hallow : (g.rateDirect.allow c.author c.now).1 with
      | true =>
        simp only [hdup, hallow, Bool.not_true, Bool.false_eq_true, if_false]
        exact .ok hfresh hcontains (hroom.mp hallow) fun p => hpushed p _
      | false =>
        simp only [hdup, hallow, Bool.not_true, Bool.not_false, Bool.false_eq_true, if_false,
          if_true]
        refine .rateLimit hfresh hcontains (fun h => ?_) fun p => hpushed p _
        rw [hroom.mpr h] at hallow
        cases hallow

/-- The guard stays in order. -/
theorem Standing.answer (h : g.Standing) (c : DirectCall) : (g.answer c).2.Standing := by
  refine ⟨h.sound.steps (g.steps_allowDirect c.author c.msg c.now), ?_⟩
  unfold IngestGuard.answer allowDirect
  split
  · exact h.limit
  · simp only
    split
    · exact h.limit
    · split
      · exact (g.rateDirect.allow_limit _ _).trans h.limit
      · exact (g.rateDirect.allow_limit _ _).trans h.limit

/-- A new guard is in order. -/
theorem standing_new : Standing {} := ⟨sound_new, rfl⟩

end IngestGuard

/-! ## Sequences of calls -/

/-- A guard, and what it answered so far: the messages it accepted, and those it refused for the
rate of their author and has not accepted since. -/
structure GuardHistory where
  guard : IngestGuard := {}
  accepted : List (String × String) := []
  limited : List (String × String) := []

namespace GuardHistory

/-- What an answer about a message adds. -/
def record (h : GuardHistory) (key : String × String) (verdict : Except IngestReject Unit)
    (guard : IngestGuard) : GuardHistory :=
  match verdict with
  | .ok () =>
    { guard, accepted := h.accepted ++ [key], limited := h.limited.filter fun key' => key' ≠ key }
  | .error .rateLimit => { h with guard, limited := h.limited ++ [key] }
  | .error _ => { h with guard }

def call (h : GuardHistory) (c : DirectCall) : GuardHistory :=
  h.record c.key (h.guard.answer c).1 (h.guard.answer c).2

/-- The answer that depends on rate and freshness alone. -/
def rateAndFreshness (h : GuardHistory) (c : DirectCall) : Except IngestReject Unit :=
  if !c.fresh then .error .stale
  else if !(h.guard.rateDirect.allow c.author c.now).1 then .error .rateLimit
  else .ok ()

/-- A Replay verdict is about an accepted message, a refused call leaves the replay window as it
was, and a message that the rate refused is judged on rate and freshness when it comes again. -/
structure Faithful (h : GuardHistory) (c : DirectCall) : Prop where
  replay : (h.guard.answer c).1 = .error .replay → c.key ∈ h.accepted
  unchanged : (h.guard.answer c).1 ≠ .ok () → ∀ p, (h.call c).guard.window p = h.guard.window p
  again : c.key ∈ h.limited → (h.guard.answer c).1 = h.rateAndFreshness c

/-- A fresh message that is not recorded finds room in the bucket of its author. -/
def FindsRoom (h : GuardHistory) (c : DirectCall) : Prop :=
  c.fresh = true → (h.guard.window c.author).contains c.msg.envelope.id = false →
    h.guard.rateDirect.HasRoom c.author c.now

/-- The record keeps the guard it is given. -/
theorem guard_record (h : GuardHistory) (key : String × String)
    (verdict : Except IngestReject Unit) (guard : IngestGuard) :
    (h.record key verdict guard).guard = guard := by
  unfold record
  split
  · rfl
  · rfl
  · rfl

/-- What holds of every history: a recorded id was accepted, or refused for the rate. -/
structure Recorded (h : GuardHistory) : Prop where
  standing : h.guard.Standing
  key : ∀ p id, (h.guard.window p).contains id = true → (p, id) ∈ h.accepted ∨ (p, id) ∈ h.limited

variable {h : GuardHistory} {c : DirectCall} {v : Except IngestReject Unit} {g' : IngestGuard}

/-- Nothing is recorded yet. -/
theorem recorded_new : Recorded {} := by
  refine ⟨IngestGuard.standing_new, ?_⟩
  intro p id hid
  exact absurd hid (by simp [IngestGuard.window, IdCache.contains])

/-- **Every answer** keeps what holds of the history. -/
theorem Recorded.record (hrec : h.Recorded) (hjudged : h.guard.Judged c v g')
    (hstanding : g'.Standing) : (h.record c.key v g').Recorded := by
  -- an id in a window that took the id of the call
  have hpushed : (∀ p, g'.window p = if p = c.author then
        (h.guard.window p).push authorIdWindow c.msg.envelope.id else h.guard.window p) →
      ∀ p id, (g'.window p).contains id = true →
        (p, id) = c.key ∨ (p, id) ∈ h.accepted ∨ (p, id) ∈ h.limited := by
    intro hwindow p id hid
    rw [hwindow] at hid
    by_cases hp : p = c.author
    · rw [if_pos hp] at hid
      rcases IdCache.contains_of_push hid with rfl | hold
      · exact .inl (by rw [hp, DirectCall.key])
      · exact .inr (hrec.key p id hold)
    · rw [if_neg hp] at hid
      exact .inr (hrec.key p id hid)
  cases hjudged with
  | stale => exact ⟨hstanding, hrec.key⟩
  | replay _ _ hwindow _ =>
    refine ⟨hstanding, ?_⟩
    intro p id hid
    exact hrec.key p id (hwindow p ▸ hid)
  | rateLimit _ _ _ hwindow =>
    refine ⟨hstanding, ?_⟩
    intro p id hid
    rcases hpushed hwindow p id hid with hkey | hacc | hlim
    · exact .inr (List.mem_append_right _ (List.mem_singleton.mpr hkey))
    · exact .inl hacc
    · exact .inr (List.mem_append_left _ hlim)
  | ok _ _ _ hwindow =>
    refine ⟨hstanding, ?_⟩
    intro p id hid
    by_cases hkey : (p, id) = c.key
    · exact .inl (List.mem_append_right _ (List.mem_singleton.mpr hkey))
    · rcases (hpushed hwindow p id hid).resolve_left hkey with hacc | hlim
      · exact .inl (List.mem_append_left _ hacc)
      · exact .inr (List.mem_filter.mpr ⟨hlim, by simpa using hkey⟩)

/-- A message that finds room is not refused for the rate. -/
theorem limited_record (hroom : h.FindsRoom c) (hnone : h.limited = [])
    (hjudged : h.guard.Judged c v g') : (h.record c.key v g').limited = [] := by
  cases hjudged with
  | stale => exact hnone
  | replay => exact hnone
  | rateLimit hfresh hnew hfull => exact absurd (hroom hfresh hnew) hfull
  | ok =>
    show h.limited.filter _ = []
    rw [hnone, List.filter_nil]

/-- While nothing was refused for the rate, the recorded ids are the accepted ones. -/
theorem Recorded.accepted (hrec : h.Recorded) (hnone : h.limited = [])
    (hjudged : h.guard.Judged c v g') (hreplay : v = .error .replay) : c.key ∈ h.accepted := by
  subst hreplay
  cases hjudged with
  | replay _ hold =>
    rcases hrec.key _ _ hold with hacc | hlim
    · exact hacc
    · rw [hnone] at hlim
      cases hlim

/-- A refused call records no id when there is room. -/
theorem windows_of_refused (hroom : h.FindsRoom c) (hjudged : h.guard.Judged c v g')
    (hrefused : v ≠ .ok ()) (p : String) : g'.window p = h.guard.window p := by
  cases hjudged with
  | stale => rfl
  | replay _ _ hwindow _ => exact hwindow p
  | rateLimit hfresh hnew hfull => exact absurd (hroom hfresh hnew) hfull
  | ok => exact absurd rfl hrefused

/-- A message that is refused for the rate is recorded. -/
theorem room_of_windows (hstanding : h.guard.Standing) (hjudged : h.guard.Judged c v g')
    (hunchanged : v ≠ .ok () → ∀ p, g'.window p = h.guard.window p) : h.FindsRoom c := by
  intro hfresh hnew
  cases hjudged with
  | stale hstale => cases hfresh.symm.trans hstale
  | replay _ hold => cases hold.symm.trans hnew
  | ok _ _ hroom => exact hroom
  | rateLimit _ _ _ hwindow =>
    have htaken : (g'.window c.author).contains c.msg.envelope.id = true := by
      rw [hwindow, if_pos rfl]
      exact (hstanding.sound.window c.author).contains_push (by decide) hnew
    rw [hunchanged (by simp) c.author, hnew] at htaken
    cases htaken

/-- A call is recorded. -/
theorem Recorded.call (hrec : h.Recorded) (c : DirectCall) : (h.call c).Recorded :=
  hrec.record (IngestGuard.judged hrec.standing c) (hrec.standing.answer c)

/-- As long as nothing was refused for its rate, the answer is that of the history. -/
theorem Recorded.faithful (hrec : h.Recorded) (hnone : h.limited = []) (hroom : h.FindsRoom c) :
    h.Faithful c where
  replay := hrec.accepted hnone (IngestGuard.judged hrec.standing c)
  unchanged := by
    intro hrefused p
    rw [GuardHistory.call, guard_record]
    exact windows_of_refused hroom (IngestGuard.judged hrec.standing c) hrefused p
  again := by
    intro hlim
    rw [hnone] at hlim
    cases hlim

/-- A call that is answered so has found room. -/
theorem Faithful.findsRoom (hstanding : h.guard.Standing) (hc : h.Faithful c) : h.FindsRoom c := by
  refine room_of_windows hstanding (IngestGuard.judged hstanding c) ?_
  intro hrefused p
  have hsame := hc.unchanged hrefused p
  rwa [GuardHistory.call, guard_record] at hsame

/-- **When a Replay verdict means that the message was accepted**, in every sequence of calls of
`allow_direct`: exactly if no message was refused for the rate, every fresh message that was not
recorded having found room in the bucket of its author. -/
theorem replay_means_accepted_iff (calls : List DirectCall) :
    Each GuardHistory.call Faithful {} calls ↔ Each GuardHistory.call FindsRoom {} calls := by
  refine ⟨?_, ?_⟩
  · refine each_of_invariant Recorded ?_ ?_ recorded_new
    · exact fun hrec hc => hc.findsRoom hrec.standing
    · exact fun hrec _ => hrec.call _
  · refine each_of_invariant (fun h => Recorded h ∧ h.limited = []) ?_ ?_ ⟨recorded_new, rfl⟩
    · exact fun hrec hroom => hrec.1.faithful hrec.2 hroom
    · exact fun hrec hroom =>
        ⟨hrec.1.call _, limited_record hroom hrec.2 (IngestGuard.judged hrec.1.standing _)⟩

/-- A message of an author, with its number for an id. -/
def numberedCall (n : Nat) (now : UInt64) : DirectCall where
  author := "author"
  msg :=
    { envelope :=
        { id := String.singleton (Char.ofNat n), fromPeer := "author", toPeer := none, payload := []
          createdAtMs := 1000, ttlSecs := 604800, priority := .normal }
      body := "" }
  now

/-- An author sends 121 messages within a minute. The last of them is refused for the rate, and
when it comes again after the minute it is a replay. -/
theorem replay_of_refused :
    ¬ Each GuardHistory.call Faithful {}
        ((List.range 121).map (numberedCall · 1000) ++ [numberedCall 120 61000]) := by
  intro h
  have hagain := h.found
  have hrun : (((((List.range 121).map (numberedCall · 1000)).foldl GuardHistory.call {}).guard.answer
        (numberedCall 120 61000)).1 = .error .replay)
      ∧ (numberedCall 120 61000).key
        ∉ (((List.range 121).map (numberedCall · 1000)).foldl GuardHistory.call {}).accepted := by
    decide +kernel
  exact hrun.2 (hagain.replay hrun.1)

end GuardHistory

end Mycelium.Node

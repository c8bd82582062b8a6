import Mathlib.Tactic

/-!
# Lib — fixed-window rate limits

A limiter admits at most `limit` calls in a window. A window opens with the first call after the
one before is over, and is over after `width`; whether exactly at `width` or after it is left open
(`Rule`). A window that opens with a call is not aligned to anything, so a sliding interval of
length `width` can meet two windows, and no more.

* `Rule.call` — one call; `Rule.current` is the window it falls into;
* `Paced` — what a window says about the instants at which calls were admitted before it and in it;
* `Keyed` — a table of windows, one for each key, behind whatever implements it;
* `Keyed.sliding`, `Keyed.refused`, `Keyed.silence` — the bounds, over every sequence of calls.
-/

namespace FixedWindow

structure Window where
  start : Nat
  count : Nat

/-- How many calls a window admits, and when it is over. -/
structure Rule where
  limit : Nat
  width : Nat
  ended : Nat → Nat → Bool
  le_of_ended : ∀ {start now}, start ≤ now → ended start now = true → start + width ≤ now
  ended_of_lt : ∀ {start now}, start + width < now → ended start now = true

namespace Rule

variable (r : Rule)

/-- The window a call falls into: the one there is, or a new one. -/
def current (w : Option Window) (now : Nat) : Window :=
  match w with
  | none => ⟨now, 0⟩
  | some w => if r.ended w.start now then ⟨now, 0⟩ else w

/-- Whether the call is admitted, and the window after it. -/
def call (w : Option Window) (now : Nat) : Bool × Window :=
  if r.limit ≤ (r.current w now).count then (false, r.current w now)
  else (true, { r.current w now with count := (r.current w now).count + 1 })

/-- The window a call falls into, where windows are kept as entries of a table. -/
theorem current_entry {β : Type} (window : β → Window) {fresh : β} {now : Nat}
    (hfresh : window fresh = ⟨now, 0⟩) {isOver : β → Prop} [DecidablePred isOver]
    (hover : ∀ e, r.ended (window e).start now = decide (isOver e)) (o : Option β) :
    window (if isOver (o.getD fresh) then fresh else o.getD fresh)
      = r.current (o.map window) now := by
  unfold current
  cases o with
  | none =>
    simp only [Option.getD_none, Option.map_none, ite_self]
    exact hfresh
  | some e =>
    simp only [Option.getD_some, Option.map_some, hover, decide_eq_true_eq]
    split
    · exact hfresh
    · rfl

end Rule

/-- How many of the instants lie in `[a, b)`. -/
def among (times : List Nat) (a b : Nat) : Nat := times.countP fun t => a ≤ t ∧ t < b

/-- The calls admitted so far, before the window (`old`) and in it (`cur`). Of those before it, an
interval that ends in the window holds at most one window's. -/
structure Paced (r : Rule) (old cur : List Nat) (w : Window) : Prop where
  count : w.count = cur.length
  limit : w.count ≤ r.limit
  before : ∀ t ∈ old, t ≤ w.start
  within : ∀ t ∈ cur, w.start ≤ t
  sliding : ∀ a, among old a (a + r.width) ≤ 2 * r.limit
  recent : ∀ a, w.start < a + r.width → old.countP (a ≤ ·) ≤ r.limit

variable {r : Rule} {old cur : List Nat} {w : Window} {now : Nat}

/-- Calls of two stretches of time. -/
theorem among_append (xs ys : List Nat) (a b : Nat) :
    among (xs ++ ys) a b = among xs a b + among ys a b := List.countP_append

/-- No more than all. -/
theorem among_le_length (times : List Nat) (a b : Nat) : among times a b ≤ times.length :=
  List.countP_le_length

/-- No more than those since the start. -/
theorem among_le_countP (times : List Nat) (a b : Nat) : among times a b ≤ times.countP (a ≤ ·) := by
  refine List.countP_mono_left ?_
  intro t _ h
  simp only [decide_eq_true_eq] at h ⊢
  exact h.1

/-- Earlier calls are not counted. -/
theorem countP_eq_zero_of_lt {times : List Nat} {a : Nat} (h : ∀ t ∈ times, t < a) :
    times.countP (a ≤ ·) = 0 := by
  refine List.countP_eq_zero.mpr ?_
  intro t ht
  have hlt := h t ht
  simp only [decide_eq_true_eq]
  omega

/-- **Two windows.** An interval that starts before the window meets it and one before. -/
theorem Paced.among (h : Paced r old cur w) (a : Nat) :
    among (old ++ cur) a (a + r.width) ≤ 2 * r.limit := by
  rw [among_append]
  have hcur := among_le_length cur a (a + r.width)
  have hcount := h.count
  have hlimit := h.limit
  by_cases hreach : w.start < a + r.width
  · have hold := among_le_countP old a (a + r.width)
    have hrecent := h.recent a hreach
    omega
  · -- the interval ends before the window starts
    have hnone : FixedWindow.among cur a (a + r.width) = 0 := by
      refine List.countP_eq_zero.mpr ?_
      intro t ht
      have hle := h.within t ht
      simp only [decide_eq_true_eq]
      omega
    have hold := h.sliding a
    omega

/-- A new window, when the last one is over. -/
theorem Paced.opens (h : Paced r old cur w) (hnow : w.start ≤ now) (hpast : ∀ t ∈ cur, t ≤ now)
    (hended : r.ended w.start now = true) : Paced r (old ++ cur) [] ⟨now, 0⟩ where
  count := rfl
  limit := Nat.zero_le _
  before := by
    intro t ht
    rcases List.mem_append.mp ht with ht | ht
    · exact (h.before t ht).trans hnow
    · exact hpast t ht
  within := nofun
  sliding := h.among
  recent := by
    intro a ha
    have hwidth := r.le_of_ended hnow hended
    simp only at ha
    -- what was admitted from `a` on was admitted in the window that is over
    rw [List.countP_append, countP_eq_zero_of_lt (a := a)]
    · have hlength : cur.countP (a ≤ ·) ≤ cur.length := List.countP_le_length
      have hcount := h.count
      have hlimit := h.limit
      omega
    · intro t ht
      have hle := h.before t ht
      omega

/-- Before the first call the window is empty. -/
theorem paced_first (r : Rule) (now : Nat) : Paced r [] [] ⟨now, 0⟩ where
  count := rfl
  limit := Nat.zero_le _
  before := nofun
  within := nofun
  sliding _ := Nat.zero_le _
  recent _ _ := Nat.zero_le _

/-! ## One call -/

/-- The window a call falls into is paced, with the calls admitted so far. -/
theorem Paced.current (h : Paced r old cur w) (hnow : w.start ≤ now) (hpast : ∀ t ∈ cur, t ≤ now) :
    ∃ old' cur', old' ++ cur' = old ++ cur ∧ Paced r old' cur' (r.current (some w) now)
      ∧ (r.current (some w) now).start ≤ now := by
  unfold Rule.current
  by_cases hended : r.ended w.start now = true
  · simp only [if_pos hended]
    exact ⟨old ++ cur, [], List.append_nil _, h.opens hnow hpast hended, Nat.le_refl _⟩
  · simp only [if_neg hended]
    exact ⟨old, cur, rfl, h, hnow⟩

/-- A call is refused with a full window; else it is one more in the window. -/
theorem Paced.counted (h : Paced r old cur w) (hnow : w.start ≤ now) (hfree : w.count < r.limit) :
    Paced r old (cur ++ [now]) { w with count := w.count + 1 } where
  count := by
    rw [List.length_append, ← h.count]
    rfl
  limit := hfree
  before := h.before
  within := by
    intro t ht
    rcases List.mem_append.mp ht with ht | ht
    · exact h.within t ht
    · rw [List.mem_singleton.mp ht]
      exact hnow
  sliding := h.sliding
  recent := h.recent

/-- What is known of a key: the calls admitted so far, and the window it is in, if any. -/
def Holds (r : Rule) (times : List Nat) (now : Nat) : Option Window → Prop
  | none => times = []
  | some w => w.start ≤ now ∧ (∀ t ∈ times, t ≤ now) ∧ ∃ old cur, times = old ++ cur ∧ Paced r old cur w

/-- Time goes by. -/
theorem Holds.mono {times : List Nat} {w : Option Window} (h : Holds r times now w) {later : Nat}
    (hle : now ≤ later) : Holds r times later w := by
  cases w with
  | none => exact h
  | some w =>
    obtain ⟨hstart, hpast, hpaced⟩ := h
    exact ⟨hstart.trans hle, fun t ht => (hpast t ht).trans hle, hpaced⟩

/-- No call is in the future. -/
theorem Holds.past {times : List Nat} {w : Option Window} (h : Holds r times now w) :
    ∀ t ∈ times, t ≤ now := by
  cases w with
  | none =>
    have hnone : times = [] := h
    subst hnone
    exact nofun
  | some w => exact h.2.1

/-- The current window counts the calls since its start. -/
theorem Holds.current {times : List Nat} {w : Option Window} (h : Holds r times now w) :
    (r.current w now).start ≤ now ∧ ∃ old cur, times = old ++ cur ∧ Paced r old cur (r.current w now) := by
  cases w with
  | none =>
    have hnone : times = [] := h
    subst hnone
    exact ⟨Nat.le_refl _, [], [], rfl, paced_first r now⟩
  | some w =>
    obtain ⟨hstart, hpast, old, cur, rfl, hpaced⟩ := h
    obtain ⟨old', cur', heq, hpaced', hstart'⟩ := hpaced.current hstart
      fun t ht => hpast t (List.mem_append_right _ ht)
    exact ⟨hstart', old', cur', heq.symm, hpaced'⟩

/-- **One call** keeps what is known. -/
theorem Holds.call {times : List Nat} {w : Option Window} (h : Holds r times now w) :
    Holds r (times ++ if (r.call w now).1 then [now] else []) now (some (r.call w now).2) := by
  have hpast := h.past
  obtain ⟨hstart, old, cur, rfl, hpaced⟩ := h.current
  unfold Rule.call
  by_cases hfull : r.limit ≤ (r.current w now).count
  · simp only [if_pos hfull, Bool.false_eq_true, if_false, List.append_nil]
    exact ⟨hstart, hpast, old, cur, rfl, hpaced⟩
  · simp only [if_neg hfull, if_true]
    refine ⟨hstart, ?_, old, cur ++ [now], (List.append_assoc _ _ _), ?_⟩
    · intro t ht
      rcases List.mem_append.mp ht with ht | ht
      · exact hpast t ht
      · rw [List.mem_singleton.mp ht]
    · exact hpaced.counted hstart (Nat.not_le.mp hfull)

/-- Within the width of a window there are at most two windows' worth. -/
theorem Holds.among {times : List Nat} {w : Option Window} (h : Holds r times now w) (a : Nat) :
    FixedWindow.among times a (a + r.width) ≤ 2 * r.limit := by
  cases w with
  | none =>
    have hnone : times = [] := h
    subst hnone
    exact Nat.zero_le _
  | some w =>
    obtain ⟨-, -, old, cur, rfl, hpaced⟩ := h
    exact hpaced.among a

/-- A refused call finds a window in which the limit was admitted. -/
theorem Holds.refused {times : List Nat} {w : Option Window} (h : Holds r times now w)
    (hrefused : (r.call w now).1 = false) :
    r.limit ≤ times.countP ((r.current w now).start ≤ ·) := by
  obtain ⟨-, old, cur, rfl, hpaced⟩ := h.current
  unfold Rule.call at hrefused
  by_cases hfull : r.limit ≤ (r.current w now).count
  · have hall : cur.countP ((r.current w now).start ≤ ·) = cur.length := by
      refine List.countP_eq_length.mpr ?_
      intro t ht
      exact decide_eq_true (hpaced.within t ht)
    rw [List.countP_append, hall, ← hpaced.count]
    omega
  · rw [if_neg hfull] at hrefused
    cases hrefused

/-- Of a window with `n` admitted calls, or one that is over, `limit - n` more are admitted. -/
theorem Rule.call_of_room {w : Option Window} {n : Nat} (hroom : (r.current w now).count ≤ n)
    (hn : n < r.limit) : (r.call w now).1 = true ∧ (r.call w now).2.count ≤ n + 1 := by
  unfold Rule.call
  rw [if_neg (by omega)]
  exact ⟨rfl, Nat.succ_le_succ hroom⟩

/-- A window starts with the call that opens it. -/
theorem Rule.call_start (r : Rule) (w : Option Window) (now : Nat) :
    (r.call w now).2.start = now ∨ ∃ w₀, w = some w₀ ∧ (r.call w now).2.start = w₀.start := by
  have hcurrent : (r.call w now).2.start = (r.current w now).start := by
    unfold Rule.call
    split
    · rfl
    · rfl
  rw [hcurrent]
  unfold Rule.current
  cases w with
  | none => exact .inl rfl
  | some w₀ =>
    by_cases hended : r.ended w₀.start now = true
    · simp only [if_pos hended]
      exact .inl trivial
    · simp only [if_neg hended]
      exact .inr ⟨w₀, rfl, rfl⟩

/-! ## A window for each key -/

/-- A table of windows behind an operation that counts one call of a key. -/
structure Keyed (r : Rule) (σ κ τ : Type) where
  allow : σ → κ → τ → Bool × σ
  instant : τ → Nat
  view : σ → κ → Option Window
  Setup : σ → Prop
  setup_allow : ∀ {s}, Setup s → ∀ k t, Setup (allow s k t).2
  allow_fst : ∀ {s}, Setup s → ∀ k t, (allow s k t).1 = (r.call (view s k) (instant t)).1
  view_same : ∀ {s}, Setup s → ∀ k t,
    view (allow s k t).2 k = some (r.call (view s k) (instant t)).2
  view_other : ∀ {s}, Setup s → ∀ k t k', k' ≠ k → view (allow s k t).2 k' = view s k'

namespace Keyed

variable {σ κ τ : Type} [DecidableEq κ] (L : Keyed r σ κ τ)

/-- The table after a sequence of calls. -/
def after (s : σ) (calls : List (κ × τ)) : σ := calls.foldl (fun s c => (L.allow s c.1 c.2).2) s

/-- The verdicts on the calls of one key. -/
def verdicts (key : κ) : σ → List (κ × τ) → List Bool
  | _, [] => []
  | s, (k, t) :: calls =>
    (if k = key then [(L.allow s k t).1] else []) ++ verdicts key (L.allow s k t).2 calls

/-- The instants of the admitted calls of one key. -/
def admitted (key : κ) : σ → List (κ × τ) → List Nat
  | _, [] => []
  | s, (k, t) :: calls =>
    (if k = key ∧ (L.allow s k t).1 = true then [L.instant t] else [])
      ++ admitted key (L.allow s k t).2 calls

/-- The clock does not run backwards. -/
def Ordered (calls : List (κ × τ)) : Prop := calls.Pairwise fun c d => L.instant c.2 ≤ L.instant d.2

variable {L} {key : κ}

omit [DecidableEq κ] in
/-- The limiter is set up as before after any calls. -/
theorem setup_after {s : σ} (hs : L.Setup s) (calls : List (κ × τ)) : L.Setup (L.after s calls) := by
  induction calls generalizing s with
  | nil => exact hs
  | cons c calls ih => exact ih (L.setup_allow hs c.1 c.2)

/-- **A whole run** keeps what is known of a key. Induction on the calls: those of other keys do
not touch its window. -/
theorem holds_after (calls : List (κ × τ)) :
    ∀ {s : σ} {times : List Nat} {now later : Nat}, L.Setup s → Holds r times now (L.view s key) →
      (∀ c ∈ calls, now ≤ L.instant c.2 ∧ L.instant c.2 ≤ later) → L.Ordered calls → now ≤ later →
      Holds r (times ++ L.admitted key s calls) later (L.view (L.after s calls) key) := by
  induction calls with
  | nil =>
    intro s times now later _ h _ _ hle
    rw [admitted, List.append_nil]
    exact h.mono hle
  | cons c calls ih =>
    obtain ⟨k, t⟩ := c
    intro s times now later hs h hbounds hordered hle
    obtain ⟨hfirst, hrest⟩ := List.pairwise_cons.mp hordered
    obtain ⟨hnow, hlater⟩ := hbounds (k, t) List.mem_cons_self
    have hbounds' : ∀ c ∈ calls, L.instant t ≤ L.instant c.2 ∧ L.instant c.2 ≤ later :=
      fun c hc => ⟨hfirst c hc, (hbounds c (List.mem_cons_of_mem _ hc)).2⟩
    rw [admitted, ← List.append_assoc]
    refine ih (L.setup_allow hs k t) ?_ hbounds' hrest hlater
    -- a call for this key is one step of the rule, another key's leaves the view
    by_cases hk : k = key
    · subst hk
      have hcalled := (h.mono hnow).call
      rw [L.view_same hs, L.allow_fst hs]
      simp only [true_and]
      exact hcalled
    · rw [if_neg fun hand => hk hand.1, List.append_nil, L.view_other hs k t key fun heq => hk heq.symm]
      exact h.mono hnow

/-- A window starts with a call of its key. -/
theorem start_mem (calls : List (κ × τ)) :
    ∀ {s : σ} {w : Window}, L.Setup s → L.view (L.after s calls) key = some w →
      (∃ w', L.view s key = some w' ∧ w'.start = w.start)
      ∨ ∃ t, (key, t) ∈ calls ∧ L.instant t = w.start := by
  induction calls with
  | nil => exact fun _ h => .inl ⟨_, h, rfl⟩
  | cons c calls ih =>
    obtain ⟨k, t⟩ := c
    intro s w hs hview
    rcases ih (L.setup_allow hs k t) hview with ⟨w', hw', hstart⟩ | ⟨t', hmem, hstart⟩
    · by_cases hk : k = key
      · subst hk
        rw [L.view_same hs] at hw'
        obtain rfl := Option.some.inj hw'
        rcases r.call_start (L.view s k) (L.instant t) with hnew | ⟨w₀, hw₀, hold⟩
        · exact .inr ⟨t, List.mem_cons_self, hnew.symm.trans hstart⟩
        · exact .inl ⟨w₀, hw₀, hold.symm.trans hstart⟩
      · rw [L.view_other hs k t key fun heq => hk heq.symm] at hw'
        exact .inl ⟨w', hw', hstart⟩
    · exact .inr ⟨t', List.mem_cons_of_mem _ hmem, hstart⟩

/-- In a window with at most `n` admitted calls, the next `limit - n` calls are admitted, also if
it ends in between. Induction on the calls. -/
theorem verdicts_room (calls : List (κ × τ)) :
    ∀ {s : σ} {w : Window} {n : Nat}, L.Setup s → L.view s key = some w → w.count ≤ n →
      ∀ b ∈ (L.verdicts key s calls).take (r.limit - n), b = true := by
  induction calls with
  | nil =>
    intro s w n _ _ _ b hb
    rw [verdicts, List.take_nil] at hb
    cases hb
  | cons c calls ih =>
    obtain ⟨k, t⟩ := c
    intro s w n hs hview hcount b hb
    by_cases hk : k = key
    · subst hk
      by_cases hn : n < r.limit
      · have hroom : (r.current (L.view s k) (L.instant t)).count ≤ n := by
          rw [hview]
          unfold Rule.current
          simp only
          split
          · exact Nat.zero_le n
          · exact hcount
        obtain ⟨hok, hnext⟩ := Rule.call_of_room hroom hn
        have hlimit : r.limit - n = (r.limit - (n + 1)) + 1 := by omega
        rw [verdicts, if_pos rfl, hlimit, List.singleton_append, List.take_succ_cons] at hb
        rcases List.mem_cons.mp hb with rfl | hb
        · rw [L.allow_fst hs]
          exact hok
        · exact ih (L.setup_allow hs k t) (L.view_same hs k t) hnext b hb
      · rw [show r.limit - n = 0 by omega, List.take_zero] at hb
        cases hb
    · rw [verdicts, if_neg hk, List.nil_append] at hb
      refine ih (L.setup_allow hs k t) ?_ hcount b hb
      rw [L.view_other hs k t key fun heq => hk heq.symm]
      exact hview

/-- If the window is over at the next call of the key, or there is none, the next `limit` calls are
admitted. -/
theorem verdicts_ended (calls : List (κ × τ)) :
    ∀ {s : σ}, L.Setup s → (∀ w t, L.view s key = some w → (key, t) ∈ calls →
        r.ended w.start (L.instant t) = true) →
      ∀ b ∈ (L.verdicts key s calls).take r.limit, b = true := by
  induction calls with
  | nil =>
    intro s _ _ b hb
    rw [verdicts, List.take_nil] at hb
    cases hb
  | cons c calls ih =>
    obtain ⟨k, t⟩ := c
    intro s hs hended b hb
    by_cases hk : k = key
    · subst hk
      by_cases hlimit : 0 < r.limit
      · have hroom : (r.current (L.view s k) (L.instant t)).count ≤ 0 := by
          unfold Rule.current
          cases hview : L.view s k with
          | none => exact Nat.le_refl 0
          | some w =>
            simp only [if_pos (hended w t hview List.mem_cons_self)]
            exact Nat.le_refl 0
        obtain ⟨hok, hnext⟩ := Rule.call_of_room hroom hlimit
        have hsucc : r.limit = (r.limit - 1) + 1 := by omega
        rw [verdicts, if_pos rfl, hsucc, List.singleton_append, List.take_succ_cons] at hb
        rcases List.mem_cons.mp hb with rfl | hb
        · rw [L.allow_fst hs]
          exact hok
        · exact verdicts_room calls (L.setup_allow hs k t) (L.view_same hs k t) hnext b hb
      · rw [show r.limit = 0 by omega, List.take_zero] at hb
        cases hb
    · rw [verdicts, if_neg hk, List.nil_append] at hb
      refine ih (L.setup_allow hs k t) ?_ b hb
      intro w t' hview hmem
      rw [L.view_other hs k t key fun heq => hk heq.symm] at hview
      exact hended w t' hview (List.mem_cons_of_mem _ hmem)

/-- What a rate limit promises of the calls of each key, other keys interleaved, from a table with
no windows: no interval of the width admits more than twice the limit; a refused call finds a
window in which the limit was admitted; and after a silence longer than the width the next `limit`
calls are admitted. -/
structure Paces (L : Keyed r σ κ τ) (s₀ : σ) : Prop where
  sliding : ∀ calls, L.Ordered calls → ∀ key a,
    FixedWindow.among (L.admitted key s₀ calls) a (a + r.width) ≤ 2 * r.limit
  refused : ∀ calls key t, L.Ordered (calls ++ [(key, t)]) →
    (L.allow (L.after s₀ calls) key t).1 = false →
    r.limit ≤ (L.admitted key s₀ calls).countP
      ((r.current (L.view (L.after s₀ calls) key) (L.instant t)).start ≤ ·)
  silence : ∀ calls more key, (∀ t t', (key, t) ∈ calls → (key, t') ∈ more →
      L.instant t + r.width < L.instant t') →
    ∀ b ∈ (L.verdicts key (L.after s₀ calls) more).take r.limit, b = true

/-- Keys that were never seen have an empty window. -/
theorem paces {s₀ : σ} (hsetup : L.Setup s₀) (hempty : ∀ key, L.view s₀ key = none) :
    L.Paces s₀ where
  sliding := by
    intro calls hordered key a
    obtain ⟨later, hlater⟩ : ∃ later, ∀ c ∈ calls, L.instant c.2 ≤ later := by
      refine ⟨(calls.map fun c => L.instant c.2).sum, ?_⟩
      intro c hc
      exact List.single_le_sum (fun _ _ => Nat.zero_le _) _ (List.mem_map_of_mem hc)
    have hstart : Holds r [] 0 (L.view s₀ key) := by
      rw [hempty]
      rfl
    have hholds := holds_after calls hsetup hstart (fun c hc => ⟨Nat.zero_le _, hlater c hc⟩) hordered
      (Nat.zero_le later)
    rw [List.nil_append] at hholds
    exact hholds.among a
  refused := by
    intro calls key t hordered hrefused
    obtain ⟨hordered, -, hlast⟩ := List.pairwise_append.mp hordered
    have hstart : Holds r [] 0 (L.view s₀ key) := by
      rw [hempty]
      rfl
    have hholds := holds_after calls hsetup hstart
      (fun c hc => ⟨Nat.zero_le _, hlast c hc (key, t) (List.mem_singleton.mpr rfl)⟩) hordered
      (Nat.zero_le (L.instant t))
    rw [List.nil_append] at hholds
    rw [L.allow_fst (setup_after hsetup calls)] at hrefused
    exact hholds.refused hrefused
  silence := by
    intro calls more key hsilence
    refine verdicts_ended more (setup_after hsetup calls) ?_
    intro w t' hview hmem
    rcases start_mem calls hsetup hview with ⟨w', hw', -⟩ | ⟨t, ht, hstart⟩
    · rw [hempty] at hw'
      cases hw'
    · rw [← hstart]
      exact r.ended_of_lt (hsilence t t' ht hmem)

end Keyed

end FixedWindow

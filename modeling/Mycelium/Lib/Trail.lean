import Mathlib.Tactic

/-!
# Lib — runs of a step function, state by state

A machine takes events one after the other. `Always` says that a property holds at the start and
after every event; `Each` says that every event meets a condition on the state it finds. With an
invariant between the two, a property that holds all along is a condition on the events:

* `always_of_each` — events that meet the condition keep the property;
* `always_iff_each` — if moreover an event that does not meet it breaks the property at once, the
  condition is exact;
* `each_of_invariant` — what the invariant says about an event that meets the condition;
* `always_iff_prefixes` — `Always`, in terms of the states that are reached.
-/

namespace Trail

variable {σ ε : Type}

section

variable (step : σ → ε → σ)

/-- `P` holds at the start and after every event. -/
def Always (P : σ → Prop) : σ → List ε → Prop
  | s, [] => P s
  | s, e :: es => P s ∧ Always P (step s e) es

/-- Every event meets `C` in the state it finds. -/
def Each (C : σ → ε → Prop) : σ → List ε → Prop
  | _, [] => True
  | s, e :: es => C s e ∧ Each C (step s e) es

end

variable {step : σ → ε → σ} {P : σ → Prop} {Ok C : σ → ε → Prop}

instance instDecidableEach [∀ s e, Decidable (C s e)] : ∀ (s : σ) (es : List ε), Decidable (Each step C s es)
  | _, [] => isTrue trivial
  | s, e :: es =>
    have := instDecidableEach (step s e) es
    inferInstanceAs (Decidable (C s e ∧ Each step C (step s e) es))

theorem Each.and {s : σ} {es : List ε} (h : Each step Ok s es) (h' : Each step C s es) :
    Each step (fun s e => Ok s e ∧ C s e) s es := by
  induction es generalizing s with
  | nil => trivial
  | cons e es ih => exact ⟨⟨h.1, h'.1⟩, ih h.2 h'.2⟩

theorem Each.imp {s : σ} {es : List ε} (himp : ∀ s e, Ok s e → C s e) (h : Each step Ok s es) :
    Each step C s es := by
  induction es generalizing s with
  | nil => trivial
  | cons e es ih => exact ⟨himp s e h.1, ih h.2⟩

/-- What a single event finds. -/
theorem Each.found {pre post : List ε} {e : ε} {s : σ} (h : Each step C s (pre ++ e :: post)) :
    C (pre.foldl step s) e := by
  induction pre generalizing s with
  | nil => exact h.1
  | cons e' pre ih => exact ih h.2

theorem each_true (s : σ) (es : List ε) : Each step (fun _ _ => True) s es := by
  induction es generalizing s with
  | nil => trivial
  | cons e es ih => exact ⟨trivial, ih _⟩

/-- Events that meet `Ok` keep the invariant, so each of them finds it. -/
theorem each_of_invariant (Inv : σ → Prop) (hC : ∀ {s e}, Inv s → Ok s e → C s e)
    (hkeep : ∀ {s e}, Inv s → Ok s e → Inv (step s e)) {es : List ε} :
    ∀ {s : σ}, Inv s → Each step Ok s es → Each step C s es := by
  induction es with
  | nil => exact fun _ _ => trivial
  | cons e es ih =>
    intro s hs hok
    exact ⟨hC hs hok.1, ih (hkeep hs hok.1) hok.2⟩

/-- `Always`, state by state. -/
theorem always_iff_prefixes (s : σ) (es : List ε) :
    Always step P s es ↔ ∀ pre, pre <+: es → P (pre.foldl step s) := by
  induction es generalizing s with
  | nil =>
    refine ⟨?_, fun h => h [] (List.prefix_refl _)⟩
    intro h pre hpre
    rw [List.prefix_nil.mp hpre]
    exact h
  | cons e es ih =>
    refine ⟨?_, ?_⟩
    · intro h pre hpre
      cases pre with
      | nil => exact h.1
      | cons e' pre =>
        obtain ⟨rfl, hrest⟩ := List.cons_prefix_cons.mp hpre
        exact (ih _).mp h.2 pre hrest
    · intro h
      refine ⟨h [] List.nil_prefix, (ih _).mpr ?_⟩
      intro pre hpre
      exact h (e :: pre) (List.cons_prefix_cons.mpr ⟨rfl, hpre⟩)

/-- Events that meet the condition keep the invariant, and the property with it. Induction on the
events. -/
theorem always_of_each (Inv : σ → Prop) (hInv : ∀ {s}, Inv s → P s)
    (hkeep : ∀ {s e}, Inv s → Ok s e → C s e → Inv (step s e)) {es : List ε} :
    ∀ {s : σ}, Inv s → Each step Ok s es → Each step C s es → Always step P s es := by
  induction es with
  | nil =>
    intro s hs _ _
    exact hInv hs
  | cons e es ih =>
    intro s hs hok hc
    exact ⟨hInv hs, ih (hkeep hs hok.1 hc.1) hok.2 hc.2⟩

/-- **An exact condition.** If an event that does not meet the condition breaks the property, the
property holds all along exactly if every event meets the condition. -/
theorem always_iff_each (Inv : σ → Prop) (hInv : ∀ {s}, Inv s → P s)
    (hkeep : ∀ {s e}, Inv s → Ok s e → C s e → Inv (step s e))
    (hbreak : ∀ {s e}, Inv s → Ok s e → P (step s e) → C s e) {es : List ε} :
    ∀ {s : σ}, Inv s → Each step Ok s es → (Always step P s es ↔ Each step C s es) := by
  intro s hs hok
  refine ⟨?_, always_of_each Inv hInv hkeep hs hok⟩
  induction es generalizing s with
  | nil => exact fun _ => trivial
  | cons e es ih =>
    intro h
    -- the property after the event is the first thing the rest of the run says
    have hnext : P (step s e) := by
      cases es with
      | nil => exact h.2
      | cons e' es => exact h.2.1
    have hc : C s e := hbreak hs hok.1 hnext
    exact ⟨hc, ih (hkeep hs hok.1 hc) hok.2 h.2⟩

end Trail

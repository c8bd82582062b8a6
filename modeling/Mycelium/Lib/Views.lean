import Mathlib.Tactic

/-!
# Lib — what one party sees of a shared system

Several parties work on one state: `step o s` is the result of the operation `o` and the state it
leaves. One party is singled out by its operations, `mine`, and by the part of the state that is
its own, `view`.

* `Isolated` — two conditions on single steps of the operations that are `allowed`: what one of
  the party returns and leaves of the view depends on the view alone, and one of the others leaves
  the view as it is;
* `Isolated.run` — from these, for every run: the party gets the results, and ends with the view,
  of the run in which the others did nothing.
-/

variable {Op S R V : Type}

/-- Run a list of operations; each result is kept with its operation. -/
def runOps (step : Op → S → R × S) : List Op → S → List (Op × R) × S
  | [], s => ([], s)
  | o :: ops, s =>
    let rest := runOps step ops (step o s).2
    ((o, (step o s).1) :: rest.1, rest.2)

/-- Steps of the party see its view only, and steps of the others do not change it. -/
structure Isolated (step : Op → S → R × S) (allowed : Op → Prop) (mine : Op → Bool)
    (view : S → V) : Prop where
  own : ∀ o, allowed o → mine o = true → ∀ s t, view s = view t →
    (step o s).1 = (step o t).1 ∧ view (step o s).2 = view (step o t).2
  other : ∀ o, allowed o → mine o = false → ∀ s, view (step o s).2 = view s

/-- **Whole runs.** Induction on the operations; the two runs agree on the view throughout. -/
theorem Isolated.run {step : Op → S → R × S} {allowed : Op → Prop} {mine : Op → Bool}
    {view : S → V} (h : Isolated step allowed mine view) (ops : List Op)
    (hallowed : ∀ o ∈ ops, allowed o) :
    ∀ s t, view s = view t →
      (runOps step ops s).1.filter (fun e => mine e.1) = (runOps step (ops.filter mine) t).1
      ∧ view (runOps step ops s).2 = view (runOps step (ops.filter mine) t).2 := by
  induction ops with
  | nil => exact fun s t hview => ⟨rfl, hview⟩
  | cons o ops ih =>
    intro s t hview
    have hhead := hallowed o List.mem_cons_self
    replace ih := ih fun o' ho' => hallowed o' (List.mem_cons_of_mem o ho')
    -- an own step is seen alike by both runs, another's changes nothing of the view
    by_cases ho : mine o = true
    · obtain ⟨hresult, hnext⟩ := h.own o hhead ho s t hview
      obtain ⟨hresults, hend⟩ := ih _ _ hnext
      rw [List.filter_cons_of_pos ho]
      refine ⟨?_, hend⟩
      show List.filter _ ((o, (step o s).1) :: (runOps step ops (step o s).2).1)
        = (o, (step o t).1) :: (runOps step (ops.filter mine) (step o t).2).1
      rw [List.filter_cons_of_pos (by simpa using ho), hresult, hresults]
    · have hother : view (step o s).2 = view t :=
        (h.other o hhead (by simpa using ho) s).trans hview
      obtain ⟨hresults, hend⟩ := ih _ _ hother
      rw [List.filter_cons_of_neg ho]
      refine ⟨?_, hend⟩
      show List.filter _ ((o, (step o s).1) :: (runOps step ops (step o s).2).1) = _
      rw [List.filter_cons_of_neg (by simpa using ho), hresults]

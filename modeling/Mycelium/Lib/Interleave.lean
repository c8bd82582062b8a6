import Mycelium.Lib.Free

/-!
# Lib — two programs on one store

Two clients run programs `p` and `q` of `Free` on one store, each operation being atomic and
nothing else: `interleave h sched p q` lets a schedule choose who goes next.

A store is seen through its rows (`Rowwise`): an operation addresses one row, and its answer and
its effect depend on that row only. For programs on such a store there are two criteria under
which no schedule can be told from a serial order:

* `NoConflict` — neither program, run alone, changes a row that the other, run alone, touches.
  The proof runs three stores side by side, the shared one and one for each program alone
  (`Beside`): the shared store agrees with a program's own store wherever the *other* program
  changes nothing, and these are all the rows the program looks at (`interleave_beside`);
* `Yields` — `q` first looks at rows without changing any. Whatever the other program has done
  by each of these looks, `q` either ends there, or goes on only if all it has seen is what the
  other program found, or all of it what the other program leaves, and from then on the two do
  not meet (`yields_serial`).
-/

namespace Free

variable {Op : Type → Type} {α β σ R V : Type}

/-- Two programs on one store: `true` lets the first perform its next operation, `false` the
second. After the schedule the first is run to its end and then the second. -/
def interleave (h : ∀ {β : Type}, Op β → σ → β × σ) :
    List Bool → Free Op α → Free Op β → σ → (α × β) × σ
  | [], p, q, s => (((p.run h s).1, (q.run h (p.run h s).2).1), (q.run h (p.run h s).2).2)
  | true :: sched, call op k, q, s => interleave h sched (k (h op s).1) q (h op s).2
  | true :: sched, done a, q, s => interleave h sched (done a) q s
  | false :: sched, p, call op k, s => interleave h sched p (k (h op s).1) (h op s).2
  | false :: sched, p, done b, s => interleave h sched p (done b) s

/-- A store made of rows. -/
structure Rowwise (h : ∀ {β : Type}, Op β → σ → β × σ) (row : ∀ {β : Type}, Op β → R)
    (view : R → σ → V) : Prop where
  answer : ∀ {β : Type} (op : Op β) {s t : σ}, view (row op) s = view (row op) t →
    (h op s).1 = (h op t).1
  own : ∀ {β : Type} (op : Op β) {s t : σ}, view (row op) s = view (row op) t →
    view (row op) (h op s).2 = view (row op) (h op t).2
  other : ∀ {β : Type} (op : Op β) (s : σ) (r : R), r ≠ row op → view r (h op s).2 = view r s

section Footprint

variable (h : ∀ {β : Type}, Op β → σ → β × σ) (row : ∀ {β : Type}, Op β → R) (view : R → σ → V)
  [DecidableEq V]

/-- The rows a program reads or writes when it is run alone. -/
def touched : Free Op α → σ → List R
  | done _, _ => []
  | call op k, s => row op :: touched (k (h op s).1) (h op s).2

/-- The rows in which a program, run alone, puts something else than it finds. -/
def changed : Free Op α → σ → List R
  | done _, _ => []
  | call op k, s =>
    if view (row op) (h op s).2 = view (row op) s then changed (k (h op s).1) (h op s).2
    else row op :: changed (k (h op s).1) (h op s).2

/-- Neither program, alone on `s`, changes a row that the other, alone on `s`, touches. -/
def NoConflict (p : Free Op α) (q : Free Op β) (s : σ) : Prop :=
  (∀ r ∈ changed h row view p s, r ∉ touched h row q s)
  ∧ ∀ r ∈ changed h row view q s, r ∉ touched h row p s

instance [DecidableEq R] (p : Free Op α) (q : Free Op β) (s : σ) :
    Decidable (NoConflict h row view p q s) :=
  inferInstanceAs (Decidable (_ ∧ _))

/-- A program and what is left of it later on, each with the store it has got to alone. -/
def stages : Free Op α → σ → List (Free Op α × σ)
  | done a, s => [(done a, s)]
  | call op k, s => (call op k, s) :: stages (k (h op s).1) (h op s).2

/-- The second program changes nothing, before the first or after it. -/
def Quiet (p : Free Op α) (q : Free Op β) (s : σ) : Prop :=
  changed h row view q s = [] ∨ changed h row view q (p.run h s).2 = []

instance [DecidableEq R] (p : Free Op α) (q : Free Op β) (s : σ) :
    Decidable (Quiet h row view p q s) :=
  inferInstanceAs (Decidable (_ ∨ _))

/-- `Yields` in the middle: of `q₀` there is `q` left, and `p₀` has got to `p` on `s`. `old` says
that `q₀` has seen only what `p₀` found, and `new` that it has seen only what `p₀` leaves. -/
def YieldsFrom (p₀ : Free Op α) (q₀ : Free Op β) (s₀ : σ) :
    Free Op β → Free Op α → σ → Bool → Bool → Prop
  | done _, _, _, old, new => old = true ∨ new = true ∨ Quiet h row view p₀ q₀ s₀
  | call op k, p, s, old, new =>
    (old = true ∧ NoConflict h row view p₀ (call op k) s₀)
    ∨ (new = true ∧ NoConflict h row view p (call op k) s)
    ∨ ∀ stage ∈ stages h p s, view (row op) (h op stage.2).2 = view (row op) stage.2
        ∧ YieldsFrom p₀ q₀ s₀ (k (h op stage.2).1) stage.1 stage.2
            (old && decide (view (row op) stage.2 = view (row op) s₀))
            (new && decide (view (row op) stage.2 = view (row op) (p₀.run h s₀).2))

/-- As long as `q` may still see some of what `p` does, `q` only looks. -/
def Yields (p : Free Op α) (q : Free Op β) (s : σ) : Prop :=
  YieldsFrom h row view p q s q p s true true

/-- Induction on what is left of the second program. -/
def decideYieldsFrom [DecidableEq R] (p₀ : Free Op α) (q₀ : Free Op β) (s₀ : σ) :
    ∀ (q : Free Op β) (p : Free Op α) (s : σ) (old new : Bool),
      Decidable (YieldsFrom h row view p₀ q₀ s₀ q p s old new)
  | done _, _, _, _, _ => inferInstanceAs (Decidable (_ ∨ _ ∨ _))
  | call op k, p, s, old, new =>
    have : ∀ stage : Free Op α × σ, Decidable (YieldsFrom h row view p₀ q₀ s₀
        (k (h op stage.2).1) stage.1 stage.2
        (old && decide (view (row op) stage.2 = view (row op) s₀))
        (new && decide (view (row op) stage.2 = view (row op) (p₀.run h s₀).2))) :=
      fun _ => decideYieldsFrom p₀ q₀ s₀ _ _ _ _ _
    inferInstanceAs (Decidable (_ ∨ _ ∨ ∀ stage ∈ stages h p s, _ ∧ _))

instance [DecidableEq R] (p : Free Op α) (q : Free Op β) (s : σ) :
    Decidable (Yields h row view p q s) :=
  decideYieldsFrom h row view p q s q p s true true

end Footprint

variable {h : ∀ {β : Type}, Op β → σ → β × σ} {row : ∀ {β : Type}, Op β → R} {view : R → σ → V}

/-! ## What a program alone does to the rows -/

/-- Stores with the same rows are told apart by no program. -/
theorem Rowwise.run_congr (hrows : Rowwise h row view) (p : Free Op α) {s t : σ}
    (hst : ∀ r, view r s = view r t) :
    (p.run h s).1 = (p.run h t).1 ∧ ∀ r, view r (p.run h s).2 = view r (p.run h t).2 := by
  refine Free.run_congr h (R := fun s t => ∀ r, view r s = view r t) ?_ p hst
  intro γ op s t hst
  refine ⟨hrows.answer op (hst _), fun r => ?_⟩
  by_cases hr : r = row op
  · rw [hr]
    exact hrows.own op (hst _)
  · rw [hrows.other op s r hr, hrows.other op t r hr, hst]

/-- An operation that leaves its own row leaves all of them. -/
theorem Rowwise.view_of_same (hrows : Rowwise h row view) {op : Op β} {s : σ}
    (hsame : view (row op) (h op s).2 = view (row op) s) (r : R) : view r (h op s).2 = view r s := by
  by_cases hr : r = row op
  · rw [hr, hsame]
  · exact hrows.other op s r hr

variable [DecidableEq V]

theorem changed_subset_touched (p : Free Op α) (s : σ) :
    changed h row view p s ⊆ touched h row p s := by
  induction p generalizing s with
  | done a => exact List.Subset.refl _
  | call op k ih =>
    unfold changed touched
    split
    · exact List.Subset.trans (ih _ _) (List.subset_cons_self _ _)
    · exact List.cons_subset_cons _ (ih _ _)

/-- What the first operation changes, the program changes. -/
theorem mem_changed_of_ne {op : Op β} {k : β → Free Op α} {s : σ}
    (hne : view (row op) (h op s).2 ≠ view (row op) s) :
    row op ∈ changed h row view (call op k) s := by
  unfold changed
  rw [if_neg hne]
  exact List.mem_cons_self

theorem changed_next_subset (op : Op β) (k : β → Free Op α) (s : σ) :
    changed h row view (k (h op s).1) (h op s).2 ⊆ changed h row view (call op k) s := by
  intro r hr
  unfold changed
  split
  · exact hr
  · exact List.mem_cons_of_mem _ hr

/-- The other rows stay. Induction on the program. -/
theorem Rowwise.view_run (hrows : Rowwise h row view) (p : Free Op α) {s : σ} {r : R}
    (hr : r ∉ changed h row view p s) : view r (p.run h s).2 = view r s := by
  induction p generalizing s with
  | done a => rfl
  | call op k ih =>
    have hrest := ih _ (fun hmem => hr (changed_next_subset op k s hmem))
    refine hrest.trans ?_
    by_cases hrow : r = row op
    · subst hrow
      by_contra hne
      exact hr (mem_changed_of_ne hne)
    · exact hrows.other op s r hrow

/-! ## Programs that do not meet -/

/-- The stores of the two programs alone, beside the one they share: `W` and `W'` are the
rows they have yet to change or have changed. -/
structure Beside (view : R → σ → V) (W W' : Set R) (s₁ s₂ s : σ) : Prop where
  left : ∀ r ∉ W', view r s = view r s₁
  right : ∀ r ∉ W, view r s = view r s₂

namespace Beside

variable {W W' : Set R} {s₁ s₂ s : σ}

omit [DecidableEq V] in
theorem symm (hb : Beside view W W' s₁ s₂ s) : Beside view W' W s₂ s₁ s :=
  ⟨hb.right, hb.left⟩

omit [DecidableEq V] in
/-- The first program performs an operation on the shared store and on its own: it gets the
same answer, and the stores stay side by side. -/
theorem step (hrows : Rowwise h row view) (hb : Beside view W W' s₁ s₂ s)
    (op : Op β) (hforeign : row op ∉ W')
    (hchange : view (row op) (h op s₁).2 ≠ view (row op) s₁ → row op ∈ W) :
    (h op s).1 = (h op s₁).1 ∧ Beside view W W' (h op s₁).2 s₂ (h op s).2 := by
  have hview : view (row op) s = view (row op) s₁ := hb.left _ hforeign
  refine ⟨hrows.answer op hview, fun r hr => ?_, fun r hr => ?_⟩
  · by_cases hrow : r = row op
    · rw [hrow]
      exact hrows.own op hview
    · rw [hrows.other op s r hrow, hrows.other op s₁ r hrow]
      exact hb.left r hr
  · -- the other program's store does not move, and the shared one does not move outside `W`
    have hsame : view r (h op s).2 = view r s := by
      by_cases hrow : r = row op
      · subst hrow
        have hstay : view (row op) (h op s₁).2 = view (row op) s₁ := by
          by_contra hne
          exact hr (hchange hne)
        rw [hrows.own op hview, hstay, hview]
      · exact hrows.other op s r hrow
    rw [hsame]
    exact hb.right r hr

/-- The first program is run to its end. Induction on the program. -/
theorem run (hrows : Rowwise h row view) (p : Free Op α)
    (hb : Beside view W W' s₁ s₂ s) (htouched : ∀ r ∈ touched h row p s₁, r ∉ W')
    (hchanged : ∀ r ∈ changed h row view p s₁, r ∈ W) :
    (p.run h s).1 = (p.run h s₁).1 ∧ Beside view W W' (p.run h s₁).2 s₂ (p.run h s).2 := by
  induction p generalizing s s₁ with
  | done a => exact ⟨rfl, hb⟩
  | call op k ih =>
    unfold touched at htouched
    obtain ⟨hanswer, hnext⟩ := hb.step hrows op (htouched _ List.mem_cons_self)
      fun hne => hchanged _ (mem_changed_of_ne hne)
    show ((k (h op s).1).run h (h op s).2).1 = ((k (h op s₁).1).run h (h op s₁).2).1
      ∧ Beside view W W' ((k (h op s₁).1).run h (h op s₁).2).2 s₂ ((k (h op s).1).run h (h op s).2).2
    rw [hanswer]
    exact ih _ hnext (fun r hr => htouched r (List.mem_cons_of_mem _ hr))
      fun r hr => hchanged r (changed_next_subset op k s₁ hr)

omit [DecidableEq V] in
/-- A row is changed by one program at most, so the two stores alone fix every row. -/
theorem view_eq {s' : σ} (hb : Beside view W W' s₁ s₂ s) (hapart : ∀ r ∈ W', r ∉ W)
    (hb' : Beside view W W' s₁ s₂ s') (r : R) : view r s = view r s' := by
  by_cases hr : r ∈ W'
  · rw [hb.right r (hapart r hr), hb'.right r (hapart r hr)]
  · rw [hb.left r hr, hb'.left r hr]

end Beside

omit [DecidableEq V] in
/-- The turn of the second program, when it has operations left. -/
theorem interleave_false_call {γ : Type} (sched : List Bool) (p : Free Op α) (op : Op γ)
    (k : γ → Free Op β) (s : σ) :
    interleave h (false :: sched) p (call op k) s
      = interleave h sched p (k (h op s).1) (h op s).2 := by
  cases p <;> rfl

omit [DecidableEq V] in
/-- The turn of the second program passes when it has ended. -/
theorem interleave_false_done (sched : List Bool) (p : Free Op α) (b : β) (s : σ) :
    interleave h (false :: sched) p (done b) s = interleave h sched p (done b) s := by
  cases p <;> rfl

/-- **Every schedule**: both programs get the answers they get alone, and the shared store
ends beside the two they leave alone. Induction on the schedule. -/
theorem interleave_beside (hrows : Rowwise h row view) {W W' : Set R}
    (sched : List Bool) (p : Free Op α) (q : Free Op β) {s₁ s₂ s : σ}
    (hb : Beside view W W' s₁ s₂ s)
    (htouched : ∀ r ∈ touched h row p s₁, r ∉ W')
    (hchanged : ∀ r ∈ changed h row view p s₁, r ∈ W)
    (htouched' : ∀ r ∈ touched h row q s₂, r ∉ W)
    (hchanged' : ∀ r ∈ changed h row view q s₂, r ∈ W') :
    (interleave h sched p q s).1 = ((p.run h s₁).1, (q.run h s₂).1)
    ∧ Beside view W W' (p.run h s₁).2 (q.run h s₂).2 (interleave h sched p q s).2 := by
  induction sched generalizing p q s₁ s₂ s with
  | nil =>
    -- the schedule is used up: the first program runs to its end, then the second
    obtain ⟨hp, hb'⟩ := hb.run hrows p htouched hchanged
    obtain ⟨hq, hb''⟩ := hb'.symm.run hrows q htouched' hchanged'
    exact ⟨Prod.ext hp hq, hb''.symm⟩
  | cons turn sched ih =>
    cases turn with
    | true =>
      cases p with
      | done a => exact ih (done a) q hb htouched hchanged htouched' hchanged'
      | call op k =>
        -- a step of the first
        unfold touched at htouched
        obtain ⟨hanswer, hnext⟩ := hb.step hrows op (htouched _ List.mem_cons_self)
          fun hne => hchanged _ (mem_changed_of_ne hne)
        show (interleave h sched (k (h op s).1) q (h op s).2).1 = _
          ∧ Beside view W W' _ _ (interleave h sched (k (h op s).1) q (h op s).2).2
        rw [hanswer]
        exact ih (k (h op s₁).1) q hnext (fun r hr => htouched r (List.mem_cons_of_mem _ hr))
          (fun r hr => hchanged r (changed_next_subset op k s₁ hr)) htouched' hchanged'
    | false =>
      cases q with
      | done b =>
        rw [interleave_false_done]
        exact ih p (done b) hb htouched hchanged htouched' hchanged'
      | call op k =>
        -- a step of the second
        unfold touched at htouched'
        obtain ⟨hanswer, hnext⟩ := hb.symm.step hrows op (htouched' _ List.mem_cons_self)
          fun hne => hchanged' _ (mem_changed_of_ne hne)
        rw [interleave_false_call, hanswer]
        exact ih p (k (h op s₂).1) hnext.symm htouched hchanged
          (fun r hr => htouched' r (List.mem_cons_of_mem _ hr))
          fun r hr => hchanged' r (changed_next_subset op k s₂ hr)

/-- **Without a conflict every schedule is serial**, in either order: the same answers, and
the same view of every row. -/
theorem interleave_serial (hrows : Rowwise h row view) {p : Free Op α} {q : Free Op β}
    {s : σ} (hfree : NoConflict h row view p q s) (sched : List Bool) :
    (interleave h sched p q s).1 = ((p.run h s).1, (q.run h (p.run h s).2).1)
    ∧ (∀ r, view r (interleave h sched p q s).2 = view r (q.run h (p.run h s).2).2)
    ∧ (interleave h sched p q s).1 = ((p.run h (q.run h s).2).1, (q.run h s).1)
    ∧ ∀ r, view r (interleave h sched p q s).2 = view r (p.run h (q.run h s).2).2 := by
  set W : Set R := {r | r ∈ changed h row view p s}
  set W' : Set R := {r | r ∈ changed h row view q s}
  have hstart : Beside view W W' s s s := ⟨fun _ _ => rfl, fun _ _ => rfl⟩
  have htouched : ∀ r ∈ touched h row p s, r ∉ W' := fun r hr hw => hfree.2 r hw hr
  have htouched' : ∀ r ∈ touched h row q s, r ∉ W := fun r hr hw => hfree.1 r hw hr
  have hapart : ∀ r ∈ W', r ∉ W := fun r hr => htouched' r (changed_subset_touched q s hr)
  obtain ⟨hany, hbany⟩ := interleave_beside hrows sched p q hstart htouched (fun _ hr => hr)
    htouched' (fun _ hr => hr)
  obtain ⟨hpq, hbpq⟩ := interleave_beside hrows [] p q hstart htouched (fun _ hr => hr)
    htouched' (fun _ hr => hr)
  obtain ⟨hqp, hbqp⟩ := interleave_beside hrows [] q p hstart.symm htouched' (fun _ hr => hr)
    htouched (fun _ hr => hr)
  obtain ⟨hq, hp⟩ := Prod.mk.inj hqp
  refine ⟨hany.trans hpq.symm, hbany.view_eq hapart hbpq, ?_, hbany.view_eq hapart hbqp.symm⟩
  rw [hany, ← hp, ← hq]

/-! ## A program that looks first -/

theorem self_mem_stages (p : Free Op α) (s : σ) : (p, s) ∈ stages h p s := by
  cases p with
  | done a => exact List.mem_singleton.mpr rfl
  | call op k => exact List.mem_cons_self

/-- The last stage: the program has ended. Induction on the program. -/
theorem end_mem_stages (p : Free Op α) (s : σ) :
    (done (p.run h s).1, (p.run h s).2) ∈ stages h p s := by
  induction p generalizing s with
  | done a => exact List.mem_singleton.mpr rfl
  | call op k ih => exact List.mem_cons_of_mem _ (ih _ _)

/-- Where the two programs are while `q₀` only looks: `q` is left of it, `p₀` has got to `p`,
alone on `s₁`, and the shared store `s` has the same rows. -/
structure Looking (h : ∀ {β : Type}, Op β → σ → β × σ) (row : ∀ {β : Type}, Op β → R)
    (view : R → σ → V) [DecidableEq V] (p₀ : Free Op α) (q₀ : Free Op β) (s₀ : σ) (q : Free Op β)
    (p : Free Op α) (s₁ s : σ) (old new : Bool) : Prop where
  same : ∀ r, view r s = view r s₁
  finish : p.run h s₁ = p₀.run h s₀
  moved : ∀ r ∉ changed h row view p₀ s₀, view r s₁ = view r s₀
  touched : touched h row p s₁ ⊆ touched h row p₀ s₀
  changed : changed h row view p s₁ ⊆ changed h row view p₀ s₀
  old : old = true → ∀ r, view r (q.run h s₀).2 = view r (q₀.run h s₀).2
  new : new = true → ∀ r, view r (q.run h (p₀.run h s₀).2).2 = view r (q₀.run h (p₀.run h s₀).2).2

/-- The rows are those of a serial order. -/
def SerialRows (h : ∀ {β : Type}, Op β → σ → β × σ) (view : R → σ → V) (p : Free Op α)
    (q : Free Op β) (s s' : σ) : Prop :=
  (∀ r, view r s' = view r (q.run h (p.run h s).2).2)
  ∨ ∀ r, view r s' = view r (p.run h (q.run h s).2).2

namespace Looking

variable {p₀ p : Free Op α} {q₀ q : Free Op β} {s₀ s₁ s : σ} {old new : Bool}

theorem start (p₀ : Free Op α) (q₀ : Free Op β) (s₀ : σ) :
    Looking h row view p₀ q₀ s₀ q₀ p₀ s₀ s₀ true true :=
  ⟨fun _ => rfl, rfl, fun _ _ => rfl, List.Subset.refl _, List.Subset.refl _, fun _ _ => rfl,
    fun _ _ => rfl⟩

/-- The first program goes on. -/
theorem first {γ : Type} (hrows : Rowwise h row view) {op : Op γ} {k : γ → Free Op α}
    (hl : Looking h row view p₀ q₀ s₀ q (call op k) s₁ s old new) :
    (h op s).1 = (h op s₁).1
      ∧ Looking h row view p₀ q₀ s₀ q (k (h op s₁).1) (h op s₁).2 (h op s).2 old new := by
  refine ⟨hrows.answer op (hl.same _), fun r => ?_, hl.finish, fun r hr => ?_, fun r hr => ?_,
    fun r hr => hl.changed (changed_next_subset op k s₁ hr), hl.old, hl.new⟩
  · by_cases hrow : r = row op
    · rw [hrow]
      exact hrows.own op (hl.same _)
    · rw [hrows.other op s r hrow, hrows.other op s₁ r hrow, hl.same]
  · refine Eq.trans ?_ (hl.moved r hr)
    by_cases hrow : r = row op
    · subst hrow
      by_contra hne
      exact hr (hl.changed (mem_changed_of_ne hne))
    · exact hrows.other op s₁ r hrow
  · exact hl.touched (List.mem_cons_of_mem _ hr)

/-- The first program is run to its end. Induction on the program. -/
theorem toEnd (hrows : Rowwise h row view)
    (hl : Looking h row view p₀ q₀ s₀ q p s₁ s old new) :
    Looking h row view p₀ q₀ s₀ q (done (p.run h s₁).1) (p.run h s₁).2 (p.run h s).2 old new := by
  induction p generalizing s₁ s with
  | done a => exact hl
  | call op k ih =>
    obtain ⟨hanswer, hnext⟩ := hl.first hrows
    have hend := ih _ hnext
    show Looking h row view p₀ q₀ s₀ q (done ((k (h op s₁).1).run h (h op s₁).2).1)
      ((k (h op s₁).1).run h (h op s₁).2).2 ((k (h op s).1).run h (h op s).2).2 old new
    rw [hanswer]
    exact hend

/-- The second program looks at a row. It still has seen what `p₀` found if this row is as then,
and what `p₀` leaves if this row is as in the end. -/
theorem look {γ : Type} (hrows : Rowwise h row view) {op : Op γ} {k : γ → Free Op β}
    (hl : Looking h row view p₀ q₀ s₀ (call op k) p s₁ s old new)
    (hsame : view (row op) (h op s₁).2 = view (row op) s₁) :
    (h op s).1 = (h op s₁).1
      ∧ Looking h row view p₀ q₀ s₀ (k (h op s₁).1) p s₁ (h op s).2
          (old && decide (view (row op) s₁ = view (row op) s₀))
          (new && decide (view (row op) s₁ = view (row op) (p₀.run h s₀).2)) := by
  -- on a store where the row is the same, the answer is the same and no row moves
  have helsewhere : ∀ t, view (row op) s₁ = view (row op) t →
      (h op t).1 = (h op s₁).1 ∧ ∀ r, view r (h op t).2 = view r t := by
    intro t ht
    refine ⟨hrows.answer op ht.symm, hrows.view_of_same ?_⟩
    rw [hrows.own op ht.symm, hsame, ht]
  have hrest : ∀ t, view (row op) s₁ = view (row op) t → ∀ r,
      view r ((k (h op s₁).1).run h t).2 = view r ((call op k).run h t).2 := by
    intro t ht r
    obtain ⟨hanswer, hviews⟩ := helsewhere t ht
    show _ = view r ((k (h op t).1).run h (h op t).2).2
    rw [hanswer]
    exact ((hrows.run_congr _ hviews).2 r).symm
  obtain ⟨hanswer, hviews⟩ := helsewhere s (hl.same _).symm
  refine ⟨hanswer, fun r => (hviews r).trans (hl.same r), hl.finish, hl.moved, hl.touched,
    hl.changed, fun h => ?_, fun h => ?_⟩
  · rw [Bool.and_eq_true, decide_eq_true_eq] at h
    exact fun r => (hrest s₀ h.2 r).trans (hl.old h.1 r)
  · rw [Bool.and_eq_true, decide_eq_true_eq] at h
    exact fun r => (hrest _ h.2 r).trans (hl.new h.1 r)

/-- The second program has ended: the rows are those that the first one leaves. -/
theorem done (hrows : Rowwise h row view) {b : β} (sched : List Bool)
    (hl : Looking h row view p₀ q₀ s₀ (done b) p s₁ s old new)
    (hend : old = true ∨ new = true ∨ Quiet h row view p₀ q₀ s₀) :
    SerialRows h view p₀ q₀ s₀ (interleave h sched p (.done b) s).2 := by
  have hrun : ∀ r, view r (interleave h sched p (.done b) s).2 = view r (p₀.run h s₀).2 := by
    intro r
    have hstart : Beside view Set.univ ∅ s₁ s₁ s := ⟨fun r _ => hl.same r, fun r _ => hl.same r⟩
    have hb := (interleave_beside hrows sched p (.done b) hstart (fun _ _ => Set.notMem_empty _)
      (fun _ _ => Set.mem_univ _) (fun _ hr => absurd hr List.not_mem_nil)
      (fun _ hr => absurd hr List.not_mem_nil)).2
    rw [hb.left r (Set.notMem_empty _), hl.finish]
  rcases hend with hold | hnew | hquiet | hquiet
  · refine .inr fun r => (hrun r).trans ((hrows.run_congr p₀ fun r => ?_).2 r)
    exact hl.old hold r
  · exact .inl fun r => (hrun r).trans (hl.new hnew r)
  · refine .inr fun r => (hrun r).trans ((hrows.run_congr p₀ fun r => ?_).2 r)
    exact (hrows.view_run q₀ (by rw [hquiet]; exact List.not_mem_nil)).symm
  · refine .inl fun r => (hrun r).trans ?_
    exact (hrows.view_run q₀ (by rw [hquiet]; exact List.not_mem_nil)).symm

/-- What is left of the second program does not meet the first, and it has seen what that found:
it comes first. -/
theorem oldApart (hrows : Rowwise h row view) (sched : List Bool)
    (hl : Looking h row view p₀ q₀ s₀ q p s₁ s old new) (hold : old = true)
    (hfree : NoConflict h row view p₀ q s₀) :
    SerialRows h view p₀ q₀ s₀ (interleave h sched p q s).2 := by
  set W : Set R := {r | r ∈ Free.changed h row view p₀ s₀}
  set W' : Set R := {r | r ∈ Free.changed h row view q s₀}
  have hapart : ∀ r ∈ W', r ∉ W := fun r hr hw =>
    hfree.1 r hw (changed_subset_touched q s₀ hr)
  have hb : Beside view W W' s₁ s₀ s :=
    ⟨fun r _ => hl.same r, fun r hr => (hl.same r).trans (hl.moved r hr)⟩
  have hstart : Beside view W W' s₀ s₀ s₀ := ⟨fun _ _ => rfl, fun _ _ => rfl⟩
  obtain ⟨-, hbany⟩ := interleave_beside hrows sched p q hb
    (fun r hr hw => hfree.2 r hw (hl.touched hr)) (fun r hr => hl.changed hr)
    (fun r hr hw => hfree.1 r hw hr) (fun _ hr => hr)
  obtain ⟨-, hbqp⟩ := interleave_beside hrows [] q p₀ hstart.symm
    (fun r hr hw => hfree.1 r hw hr) (fun _ hr => hr)
    (fun r hr hw => hfree.2 r hw hr) (fun _ hr => hr)
  rw [hl.finish] at hbany
  refine .inr fun r => (hbany.view_eq hapart hbqp.symm r).trans ?_
  exact (hrows.run_congr p₀ (hl.old hold)).2 r

/-- What is left of the second program does not meet what is left of the first, and it has seen
what that leaves: it comes second. -/
theorem newApart (hrows : Rowwise h row view) (sched : List Bool)
    (hl : Looking h row view p₀ q₀ s₀ q p s₁ s old new) (hnew : new = true)
    (hfree : NoConflict h row view p q s₁) :
    SerialRows h view p₀ q₀ s₀ (interleave h sched p q s).2 := by
  set W : Set R := {r | r ∈ Free.changed h row view p s₁}
  set W' : Set R := {r | r ∈ Free.changed h row view q s₁}
  have hapart : ∀ r ∈ W', r ∉ W := fun r hr hw =>
    hfree.1 r hw (changed_subset_touched q s₁ hr)
  have hb : Beside view W W' s₁ s₁ s := ⟨fun r _ => hl.same r, fun r _ => hl.same r⟩
  have hstart : Beside view W W' s₁ s₁ s₁ := ⟨fun _ _ => rfl, fun _ _ => rfl⟩
  obtain ⟨-, hbany⟩ := interleave_beside hrows sched p q hb
    (fun r hr hw => hfree.2 r hw hr) (fun _ hr => hr) (fun r hr hw => hfree.1 r hw hr)
    (fun _ hr => hr)
  obtain ⟨-, hbpq⟩ := interleave_beside hrows [] p q hstart
    (fun r hr hw => hfree.2 r hw hr) (fun _ hr => hr) (fun r hr hw => hfree.1 r hw hr)
    (fun _ hr => hr)
  refine .inl fun r => (hbany.view_eq hapart hbpq r).trans ?_
  show view r (q.run h (p.run h s₁).2).2 = _
  rw [hl.finish]
  exact hl.new hnew r

/-- When the schedule is used up, the first program runs to its end, and the second looks at what
it leaves. Induction on the second. -/
theorem rest (hrows : Rowwise h row view) (hl : Looking h row view p₀ q₀ s₀ q p s₁ s old new)
    (hyields : YieldsFrom h row view p₀ q₀ s₀ q p s₁ old new) :
    SerialRows h view p₀ q₀ s₀ (interleave h [] p q s).2 := by
  induction q generalizing p s₁ s old new with
  | done b => exact hl.done hrows [] hyields
  | call op k ih =>
    rcases hyields with ⟨hold, hfree⟩ | ⟨hnew, hfree⟩ | hlook
    · exact hl.oldApart hrows [] hold hfree
    · exact hl.newApart hrows [] hnew hfree
    · obtain ⟨hsame, hnext⟩ := hlook _ (end_mem_stages p s₁)
      obtain ⟨hanswer, hl'⟩ := (hl.toEnd hrows).look hrows hsame
      have hserial := ih _ hl' hnext
      rw [← hanswer] at hserial
      exact hserial

end Looking

/-- **A program that only looks while it matters.** Under every schedule the rows end as in one of
the two serial orders. Induction on the schedule. -/
theorem yields_serial (hrows : Rowwise h row view) {p₀ : Free Op α} {q₀ : Free Op β} {s₀ : σ}
    (hyields : Yields h row view p₀ q₀ s₀) (sched : List Bool) :
    SerialRows h view p₀ q₀ s₀ (interleave h sched p₀ q₀ s₀).2 := by
  suffices hany : ∀ (q : Free Op β) (p : Free Op α) (s₁ s : σ) (old new : Bool),
      Looking h row view p₀ q₀ s₀ q p s₁ s old new →
      YieldsFrom h row view p₀ q₀ s₀ q p s₁ old new →
      SerialRows h view p₀ q₀ s₀ (interleave h sched p q s).2 from
    hany q₀ p₀ s₀ s₀ true true (.start p₀ q₀ s₀) hyields
  clear hyields
  induction sched with
  | nil => exact fun q p s₁ s old new hl hyields => hl.rest hrows hyields
  | cons turn sched ih =>
    intro q p s₁ s old new hl hyields
    cases q with
    | done b => exact hl.done hrows _ hyields
    | call op k =>
      rcases hyields with ⟨hold, hfree⟩ | ⟨hnew, hfree⟩ | hlook
      · exact hl.oldApart hrows _ hold hfree
      · exact hl.newApart hrows _ hnew hfree
      · cases turn with
        | false =>
          -- the second looks, at the stage that the first is at
          obtain ⟨hsame, hnext⟩ := hlook _ (self_mem_stages p s₁)
          obtain ⟨hanswer, hl'⟩ := hl.look hrows hsame
          rw [interleave_false_call, hanswer]
          exact ih _ _ _ _ _ _ hl' hnext
        | true =>
          cases p with
          | done a => exact ih _ _ _ _ _ _ hl (.inr (.inr hlook))
          | call op' k' =>
            -- the first goes on to its next stage
            obtain ⟨hanswer, hl'⟩ := hl.first hrows
            show SerialRows h view p₀ q₀ s₀ (interleave h sched (k' (h op' s).1) _ (h op' s).2).2
            rw [hanswer]
            exact ih _ _ _ _ _ _ hl' (.inr (.inr fun stage hstage =>
              hlook stage (List.mem_cons_of_mem _ hstage)))

/-! ## The other way round -/

omit [DecidableEq V] in
/-- Exchanging the programs is a matter of the schedule: at its end the first program still goes
first. Induction on the schedule, and at its end on the first program. -/
theorem interleave_swap (sched : List Bool) (p : Free Op α) (q : Free Op β) (s : σ) :
    ∃ sched', (interleave h sched p q s).2 = (interleave h sched' q p s).2 := by
  -- the same turns with the sides exchanged; a side that is done passes its turn on
  induction sched generalizing p q s with
  | nil =>
    induction p generalizing s with
    | done a => exact ⟨[], rfl⟩
    | call op k ih =>
      obtain ⟨sched', heq⟩ := ih (h op s).1 (h op s).2
      exact ⟨false :: sched', heq.trans (by rw [interleave_false_call])⟩
  | cons turn sched ih =>
    cases turn with
    | true =>
      cases p with
      | done a => exact ih _ _ _
      | call op k =>
        obtain ⟨sched', heq⟩ := ih (k (h op s).1) q (h op s).2
        exact ⟨false :: sched', heq.trans (by rw [interleave_false_call])⟩
    | false =>
      cases q with
      | done b =>
        rw [interleave_false_done]
        exact ih _ _ _
      | call op k =>
        rw [interleave_false_call]
        obtain ⟨sched', heq⟩ := ih p (k (h op s).1) (h op s).2
        exact ⟨true :: sched', heq⟩

end Free

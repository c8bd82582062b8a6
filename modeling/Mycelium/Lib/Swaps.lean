import Mathlib.Data.List.Sort

/-!
# Lib — independent neighbours

Two lists are the same up to swaps if one becomes the other by exchanging neighbours that are
independent. A fold whose steps commute on independent elements does not tell such lists apart.

An agenda is a list of entries with times. `enter` puts an entry behind all that are not later, so
entries of one time stay in the order in which they were entered. If entries of one time are
independent of each other, the order in which they are entered makes no difference.

* `Swaps` — the relation;
* `Swaps.foldl_eq` — a commuting fold;
* `Swaps.enterAll_perm` — an agenda whose last entries come in another order.
-/

namespace Mycelium

variable {α σ τ : Type}

/-- Equal up to exchanging independent neighbours. -/
inductive Swaps (ind : α → α → Prop) : List α → List α → Prop where
  | nil : Swaps ind [] []
  | cons (x : α) {l l' : List α} (h : Swaps ind l l') : Swaps ind (x :: l) (x :: l')
  | swap (x y : α) (l : List α) (h : ind x y) : Swaps ind (x :: y :: l) (y :: x :: l)
  | trans {l l' l'' : List α} (h : Swaps ind l l') (h' : Swaps ind l' l'') : Swaps ind l l''

namespace Swaps

variable {ind : α → α → Prop} {l l' : List α}

theorem refl (l : List α) : Swaps ind l l := by
  induction l with
  | nil => exact .nil
  | cons x l ih => exact ih.cons x

theorem perm (h : Swaps ind l l') : l.Perm l' := by
  induction h with
  | nil => exact .nil
  | cons x _ ih => exact ih.cons x
  | swap x y l _ => exact .swap y x l
  | trans _ _ ih ih' => exact ih.trans ih'

/-- **A fold that commutes on independent elements.** Induction on the swaps. -/
theorem foldl_eq {f : σ → α → σ} (hf : ∀ s x y, ind x y → f (f s x) y = f (f s y) x)
    (h : Swaps ind l l') (s : σ) : l.foldl f s = l'.foldl f s := by
  induction h generalizing s with
  | nil => rfl
  | cons x _ ih => exact ih (f s x)
  | swap x y l hxy =>
    show l.foldl f (f (f s x) y) = l.foldl f (f (f s y) x)
    rw [hf s x y hxy]
  | trans _ _ ih ih' => exact (ih s).trans (ih' s)

/-- Independent elements that a predicate does not tell apart are cut off together. -/
theorem takeWhile {p : α → Bool} (hp : ∀ x y, ind x y → p x = p y) (h : Swaps ind l l') :
    Swaps ind (l.takeWhile p) (l'.takeWhile p) := by
  induction h with
  | nil => exact .nil
  | cons x _ ih =>
    rw [List.takeWhile_cons, List.takeWhile_cons]
    split
    · exact ih.cons x
    · exact .nil
  | swap x y l hxy =>
    simp only [List.takeWhile_cons, hp x y hxy]
    split
    · exact .swap x y _ hxy
    · exact .nil
  | trans _ _ ih ih' => exact ih.trans ih'

theorem dropWhile {p : α → Bool} (hp : ∀ x y, ind x y → p x = p y) (h : Swaps ind l l') :
    Swaps ind (l.dropWhile p) (l'.dropWhile p) := by
  induction h with
  | nil => exact .nil
  | cons x h ih =>
    rw [List.dropWhile_cons, List.dropWhile_cons]
    split
    · exact ih
    · exact h.cons x
  | swap x y l hxy =>
    simp only [List.dropWhile_cons, hp x y hxy]
    split
    · exact refl _
    · exact .swap x y _ hxy
  | trans _ _ ih ih' => exact ih.trans ih'

end Swaps

/-! ## Agendas -/

variable [LinearOrder τ]

/-- An entry goes behind all that are not later. -/
def enter (agenda : List (τ × α)) (x : τ × α) : List (τ × α) :=
  agenda.orderedInsert (fun x y => x.1 < y.1) x

theorem enter_cons_of_lt {x y : τ × α} (h : x.1 < y.1) (l : List (τ × α)) :
    enter (y :: l) x = x :: y :: l := if_pos h

theorem enter_cons_of_le {x y : τ × α} (h : y.1 ≤ x.1) (l : List (τ × α)) :
    enter (y :: l) x = y :: enter l x := if_neg (not_lt.mpr h)

namespace Swaps

variable {ind : τ × α → τ × α → Prop} {l l' : List (τ × α)}

/-- Independent entries of one time are passed together. -/
theorem enter (htime : ∀ x y, ind x y → x.1 = y.1) (h : Swaps ind l l') (x : τ × α) :
    Swaps ind (Mycelium.enter l x) (Mycelium.enter l' x) := by
  induction h with
  | nil => exact refl _
  | cons y h ih =>
    rcases lt_or_ge x.1 y.1 with hlt | hle
    · rw [enter_cons_of_lt hlt, enter_cons_of_lt hlt]
      exact (h.cons y).cons x
    · rw [enter_cons_of_le hle, enter_cons_of_le hle]
      exact ih.cons y
  | swap y z l hyz =>
    have heq := htime y z hyz
    rcases lt_or_ge x.1 y.1 with hlt | hle
    · rw [enter_cons_of_lt hlt, enter_cons_of_lt (heq ▸ hlt)]
      exact (Swaps.swap y z l hyz).cons x
    · have hle' : z.1 ≤ x.1 := heq ▸ hle
      rw [enter_cons_of_le hle, enter_cons_of_le hle', enter_cons_of_le hle', enter_cons_of_le hle]
      exact .swap y z _ hyz
  | trans _ _ ih ih' => exact ih.trans ih'

/-- Two entries may be entered in either order, if they are independent or of different times. -/
theorem enter_comm {x y : τ × α} (hxy : x.1 = y.1 → ind x y) (l : List (τ × α)) :
    Swaps ind (Mycelium.enter (Mycelium.enter l x) y) (Mycelium.enter (Mycelium.enter l y) x) := by
  induction l with
  | nil =>
    rcases lt_trichotomy x.1 y.1 with hlt | heq | hgt
    · show Swaps ind (Mycelium.enter [x] y) (Mycelium.enter [y] x)
      rw [enter_cons_of_le hlt.le, enter_cons_of_lt hlt]
      exact refl _
    · show Swaps ind (Mycelium.enter [x] y) (Mycelium.enter [y] x)
      rw [enter_cons_of_le heq.le, enter_cons_of_le heq.ge]
      exact .swap x y [] (hxy heq)
    · show Swaps ind (Mycelium.enter [x] y) (Mycelium.enter [y] x)
      rw [enter_cons_of_lt hgt, enter_cons_of_le hgt.le]
      exact refl _
  | cons z l ih =>
    rcases lt_or_ge x.1 z.1 with hx | hx
    · rcases lt_or_ge y.1 z.1 with hy | hy
      · rw [enter_cons_of_lt hx, enter_cons_of_lt hy]
        rcases lt_trichotomy x.1 y.1 with hlt | heq | hgt
        · rw [enter_cons_of_le hlt.le, enter_cons_of_lt hy, enter_cons_of_lt hlt]
          exact refl _
        · rw [enter_cons_of_le heq.le, enter_cons_of_lt hy, enter_cons_of_le heq.ge,
            enter_cons_of_lt hx]
          exact .swap x y _ (hxy heq)
        · rw [enter_cons_of_lt hgt, enter_cons_of_le hgt.le, enter_cons_of_lt hx]
          exact refl _
      · -- the later of the two goes behind the first of the agenda
        rw [enter_cons_of_lt hx, enter_cons_of_le hy, enter_cons_of_le (hx.le.trans hy),
          enter_cons_of_le hy, enter_cons_of_lt hx]
        exact refl _
    · rcases lt_or_ge y.1 z.1 with hy | hy
      · rw [enter_cons_of_le hx, enter_cons_of_lt hy, enter_cons_of_lt hy,
          enter_cons_of_le (hy.le.trans hx), enter_cons_of_le hx]
        exact refl _
      · rw [enter_cons_of_le hx, enter_cons_of_le hy, enter_cons_of_le hy, enter_cons_of_le hx]
        exact ih.cons z

theorem enterAll (htime : ∀ x y, ind x y → x.1 = y.1) (h : Swaps ind l l') (xs : List (τ × α)) :
    Swaps ind (xs.foldl Mycelium.enter l) (xs.foldl Mycelium.enter l') := by
  induction xs generalizing l l' with
  | nil => exact h
  | cons x xs ih => exact ih (h.enter htime x)

/-- **Entries in another order.** Induction on the permutation. -/
theorem enterAll_perm (htime : ∀ x y, ind x y → x.1 = y.1) {xs ys : List (τ × α)}
    (hperm : xs.Perm ys) (hind : ∀ x ∈ xs, ∀ y ∈ xs, x ≠ y → x.1 = y.1 → ind x y)
    (h : Swaps ind l l') :
    Swaps ind (xs.foldl Mycelium.enter l) (ys.foldl Mycelium.enter l') := by
  induction hperm generalizing l l' with
  | nil => exact h
  | cons x _ ih =>
    refine ih (fun y hy z hz => hind y (List.mem_cons_of_mem x hy) z (List.mem_cons_of_mem x hz)) ?_
    exact h.enter htime x
  | swap x y xs =>
    refine enterAll htime ?_ xs
    refine Swaps.trans ?_ ((h.enter htime x).enter htime y)
    by_cases hne : y = x
    · subst hne
      exact refl _
    · exact enter_comm (fun heq => hind y (by simp) x (by simp) hne heq) l
  | trans hab hbc ih ih' =>
    refine (ih hind h).trans (ih' (fun x hx y hy => ?_) (refl _))
    exact hind x (hab.symm.subset hx) y (hab.symm.subset hy)

end Swaps

end Mycelium

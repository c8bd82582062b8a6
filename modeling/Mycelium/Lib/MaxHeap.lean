import Mathlib.Data.List.Sort
import Mathlib.Order.Defs.Unbundled

/-!
# Lib — a max-heap

A heap is its elements, the greatest first; how they lie in memory does not matter to what it
answers. `peek` shows a greatest element and `tail` is what a pop leaves.

* `isLE_of_peek` — what is shown is a greatest element;
* `perm_push` — what goes in;
* `items_of_peek` — what comes out.
-/

namespace Mycelium

/-- The elements of a heap, greatest first. -/
@[ext] structure MaxHeap (α : Type) [Ord α] where
  items : List α
  sorted : items.Pairwise fun x y => (compare y x).isLE = true

namespace MaxHeap

variable {α : Type} [Ord α]

def empty : MaxHeap α := ⟨[], List.Pairwise.nil⟩

instance : Inhabited (MaxHeap α) := ⟨empty⟩

def peek (h : MaxHeap α) : Option α := h.items.head?

/-- The heap without the element that `peek` shows. -/
def tail (h : MaxHeap α) : MaxHeap α := ⟨h.items.tail, h.sorted.tail⟩

/-- The heap without its first elements, as long as they satisfy `p`. -/
def dropWhile (p : α → Bool) (h : MaxHeap α) : MaxHeap α :=
  ⟨h.items.dropWhile p, h.sorted.sublist (List.dropWhile_sublist p)⟩

@[simp] theorem items_dropWhile (p : α → Bool) (h : MaxHeap α) :
    (h.dropWhile p).items = h.items.dropWhile p := rfl

/-- Nothing is dropped where nothing satisfies `p`. -/
theorem dropWhile_eq_self {p : α → Bool} {h : MaxHeap α} (hp : ∀ x ∈ h.items, p x = false) :
    h.dropWhile p = h := by
  ext1
  rw [items_dropWhile]
  cases hitems : h.items with
  | nil => rfl
  | cons x rest =>
    have hx := hp x (hitems ▸ List.mem_cons_self)
    exact List.dropWhile_cons_of_neg (by rw [hx]; exact Bool.false_ne_true)

section

variable [Std.TransOrd α]

instance : Std.Total fun x y : α => (compare y x).isLE = true where
  total x y := by
    cases h : compare y x with
    | lt => exact .inl rfl
    | eq => exact .inl rfl
    | gt =>
      rw [Std.OrientedCmp.gt_iff_lt.mp h]
      exact .inr rfl

instance : IsTrans α fun x y : α => (compare y x).isLE = true where
  trans _ _ _ hxy hyz := Std.TransOrd.isLE_trans hyz hxy

def push (h : MaxHeap α) (x : α) : MaxHeap α where
  items := h.items.orderedInsert (fun x y => (compare y x).isLE = true) x
  sorted := h.sorted.orderedInsert x h.items

theorem perm_push (h : MaxHeap α) (x : α) : (h.push x).items.Perm (x :: h.items) :=
  List.perm_orderedInsert _ _ _

end

theorem peek_eq_none_iff {h : MaxHeap α} : h.peek = none ↔ h.items = [] := List.head?_eq_none_iff

theorem items_of_peek {h : MaxHeap α} {x : α} (hx : h.peek = some x) :
    h.items = x :: h.tail.items := by
  obtain ⟨rest, hrest⟩ := List.head?_eq_some_iff.mp hx
  show h.items = x :: h.items.tail
  rw [hrest]
  rfl

theorem mem_of_peek {h : MaxHeap α} {x : α} (hx : h.peek = some x) : x ∈ h.items := by
  rw [items_of_peek hx]
  exact List.mem_cons_self

/-- **What is shown is greatest.** -/
theorem isLE_of_peek [Std.ReflOrd α] {h : MaxHeap α} {x y : α} (hx : h.peek = some x)
    (hy : y ∈ h.items) : (compare y x).isLE = true := by
  have hsorted := h.sorted
  rw [items_of_peek hx] at hsorted hy
  rcases List.mem_cons.mp hy with rfl | hrest
  · exact Std.ReflOrd.isLE_rfl
  · exact List.rel_of_pairwise_cons hsorted hrest

end MaxHeap

end Mycelium

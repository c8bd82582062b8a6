import Mycelium.Lib.Fields

/-!
# Lib — named contents written one behind the other

An entry is a name, a separator, the length of the contents in a fixed width, and the contents.
The length tells where the contents end; where the name ends, only the separator does. So a row of
entries is read back in one way when the names are known, or when none holds the separator, and in
general not.

* `flatMap_frame_inj_of_names` — the names determine the rest;
* `flatMap_frame_inj_of_not_mem` — names without the separator are determined themselves.
-/

namespace Mycelium

/-- A separator, and an encoding of the lengths below a bound in a fixed width. -/
structure Framing (α : Type) where
  sep : α
  bound : Nat
  width : Nat
  encodeLength : Nat → List α
  length_encodeLength : ∀ n, (encodeLength n).length = width
  encodeLength_inj : ∀ {n m}, n < bound → m < bound → encodeLength n = encodeLength m → n = m

namespace Framing

variable {α : Type} (F : Framing α)

/-- One entry. -/
def frame (e : List α × List α) : List α := e.1 ++ F.sep :: (F.encodeLength e.2.length ++ e.2)

/-- Contents of every entry that are not too long for their length. -/
def Bounded (entries : List (List α × List α)) : Prop := ∀ e ∈ entries, e.2.length < F.bound

variable {F}

/-- Behind the name, the length says where the contents end. -/
theorem contents_inj {data data' rest rest' : List α} (hdata : data.length < F.bound)
    (hdata' : data'.length < F.bound)
    (h : F.encodeLength data.length ++ data ++ rest
      = F.encodeLength data'.length ++ data' ++ rest') : data = data' ∧ rest = rest' := by
  rw [List.append_assoc, List.append_assoc] at h
  obtain ⟨hlength, hrest⟩ := List.append_inj h
    (by rw [F.length_encodeLength, F.length_encodeLength])
  exact List.append_inj hrest (F.encodeLength_inj hdata hdata' hlength)

theorem flatMap_frame_cons (e : List α × List α) (entries : List (List α × List α)) :
    (e :: entries).flatMap F.frame
      = e.1 ++ F.sep :: (F.encodeLength e.2.length ++ e.2 ++ entries.flatMap F.frame) := by
  rw [List.flatMap_cons, frame, List.append_assoc, List.cons_append]

/-- **The names determine the contents.** Induction on both rows. -/
theorem flatMap_frame_inj_of_names {entries entries' : List (List α × List α)}
    (hbound : F.Bounded entries) (hbound' : F.Bounded entries')
    (hnames : entries.map Prod.fst = entries'.map Prod.fst)
    (h : entries.flatMap F.frame = entries'.flatMap F.frame) : entries = entries' := by
  induction entries generalizing entries' with
  | nil =>
    rw [List.map_nil] at hnames
    exact (List.map_eq_nil_iff.mp hnames.symm).symm
  | cons e entries ih =>
    cases entries' with
    | nil => cases hnames
    | cons e' entries' =>
      obtain ⟨hname, hnames⟩ := List.cons.inj hnames
      -- the same name and separator come off, then the contents
      rw [flatMap_frame_cons, flatMap_frame_cons, hname] at h
      obtain ⟨hdata, hrest⟩ := contents_inj (hbound e List.mem_cons_self)
        (hbound' e' List.mem_cons_self) (List.cons.inj (List.append_cancel_left h)).2
      rw [ih (fun x hx => hbound x (List.mem_cons_of_mem _ hx))
        (fun x hx => hbound' x (List.mem_cons_of_mem _ hx)) hnames hrest, Prod.ext hname hdata]

/-- **Without the separator, the names are determined too.** -/
theorem flatMap_frame_inj_of_not_mem [DecidableEq α] {entries entries' : List (List α × List α)}
    (hbound : F.Bounded entries) (hbound' : F.Bounded entries')
    (hsep : ∀ e ∈ entries, F.sep ∉ e.1) (hsep' : ∀ e ∈ entries', F.sep ∉ e.1)
    (h : entries.flatMap F.frame = entries'.flatMap F.frame) : entries = entries' := by
  induction entries generalizing entries' with
  | nil =>
    cases entries' with
    | nil => rfl
    | cons e' entries' =>
      rw [flatMap_frame_cons] at h
      exact absurd h.symm (List.append_ne_nil_of_right_ne_nil _ (List.cons_ne_nil _ _))
  | cons e entries ih =>
    cases entries' with
    | nil =>
      rw [flatMap_frame_cons] at h
      exact absurd h (List.append_ne_nil_of_right_ne_nil _ (List.cons_ne_nil _ _))
    | cons e' entries' =>
      rw [flatMap_frame_cons, flatMap_frame_cons] at h
      -- both rows end their first name at the first separator
      have hsplit := congrArg (splitOnce F.sep) h
      rw [splitOnce_append (hsep e List.mem_cons_self),
        splitOnce_append (hsep' e' List.mem_cons_self)] at hsplit
      obtain ⟨hname, htail⟩ := Prod.mk.inj (Option.some.inj hsplit)
      obtain ⟨hdata, hrest⟩ := contents_inj (hbound e List.mem_cons_self)
        (hbound' e' List.mem_cons_self) htail
      rw [ih (fun x hx => hbound x (List.mem_cons_of_mem _ hx))
        (fun x hx => hbound' x (List.mem_cons_of_mem _ hx))
        (fun x hx => hsep x (List.mem_cons_of_mem _ hx))
        (fun x hx => hsep' x (List.mem_cons_of_mem _ hx)) hrest, Prod.ext hname hdata]

end Framing

end Mycelium

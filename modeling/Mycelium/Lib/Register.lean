import Mathlib.Tactic

/-!
# A register with two kinds of writers

A register holds at most one value, and values carry a stamp. Some writers look at the stamp of
what is there (`merge`: keep the later one), others do not (`force`). With merging writers alone
the register ends with the latest value in any order; a forcing writer undoes that exactly when
it comes with something older than what was written before it (`settles_iff`).
-/

namespace Register

variable {α κ : Type} [LinearOrder κ]

inductive Write (α : Type) where
  | force (a : α)
  | merge (a : α)

/-- The value written. -/
def Write.value : Write α → α
  | .force a => a
  | .merge a => a

/-- One write; of two values with one stamp the new one stays. -/
def write (stamp : α → κ) : Option α → Write α → Option α
  | _, .force a => some a
  | none, .merge a => some a
  | some c, .merge a => if stamp c ≤ stamp a then some a else some c

def writeAll (stamp : α → κ) (ws : List (Write α)) : Option α := ws.foldl (write stamp) none

theorem writeAll_concat (stamp : α → κ) (ws : List (Write α)) (w : Write α) :
    writeAll stamp (ws ++ [w]) = write stamp (writeAll stamp ws) w := by
  rw [writeAll, List.foldl_append]
  rfl

/-- The register holds a value at least as late as every written one. -/
def Latest (stamp : α → κ) (ws : List (Write α)) : Prop :=
  ∃ c, writeAll stamp ws = some c ∧ (∃ w ∈ ws, w.value = c) ∧ ∀ w ∈ ws, stamp w.value ≤ stamp c

/-- No write makes the register older. -/
def NeverBack (stamp : α → κ) (ws : List (Write α)) : Prop :=
  ∀ pre w post, ws = pre ++ w :: post → ∀ c c', writeAll stamp pre = some c →
    writeAll stamp (pre ++ [w]) = some c' → stamp c ≤ stamp c'

/-- Every forcing write comes with something at least as late as what was written before it. -/
def InOrder (stamp : α → κ) (ws : List (Write α)) : Prop :=
  ∀ pre a post, ws = pre ++ .force a :: post → ∀ w ∈ pre, stamp w.value ≤ stamp a

/-- What a write leaves is the new value, or an old one that is later. -/
theorem write_cases (stamp : α → κ) (c : Option α) (w : Write α) :
    write stamp c w = some w.value
      ∨ ∃ old new, w = .merge new ∧ c = some old ∧ write stamp c w = some old
        ∧ stamp new < stamp old := by
  cases w with
  | force a => exact .inl (by cases c <;> rfl)
  | merge a =>
    cases c with
    | none => exact .inl rfl
    | some old =>
      by_cases hle : stamp old ≤ stamp a
      · exact .inl (if_pos hle)
      · exact .inr ⟨old, a, rfl, rfl, if_neg hle, lt_of_not_ge hle⟩

/-- A register that was written is not empty. -/
theorem exists_writeAll (stamp : α → κ) {ws : List (Write α)} (hne : ws ≠ []) :
    ∃ c, writeAll stamp ws = some c := by
  obtain ⟨pre, w, rfl⟩ := (List.eq_nil_or_concat ws).resolve_left hne
  rw [List.concat_eq_append, writeAll_concat]
  rcases write_cases stamp (writeAll stamp pre) w with hnew | ⟨old, -, -, -, hkept, -⟩
  · exact ⟨w.value, hnew⟩
  · exact ⟨old, hkept⟩

/-- A merging write is only taken if it is late enough. -/
theorem le_of_merged {stamp : α → κ} {c a : α} (h : write stamp (some c) (.merge a) = some a) :
    stamp c ≤ stamp a := by
  by_contra hback
  have hskip : write stamp (some c) (.merge a) = some c := if_neg hback
  obtain rfl : c = a := Option.some.inj (hskip.symm.trans h)
  exact hback le_rfl

variable {stamp : α → κ}

theorem InOrder.of_concat {ws : List (Write α)} {w : Write α} (h : InOrder stamp (ws ++ [w])) :
    InOrder stamp ws := by
  intro pre a post hsplit
  exact h pre a (post ++ [w]) (by rw [hsplit, List.append_assoc, List.cons_append])

theorem NeverBack.of_concat {ws : List (Write α)} {w : Write α}
    (h : NeverBack stamp (ws ++ [w])) : NeverBack stamp ws := by
  intro pre v post hsplit
  exact h pre v (post ++ [w]) (by rw [hsplit, List.append_assoc, List.cons_append])

/-- In order, the register always holds the latest value. -/
theorem latest_of_inOrder {ws : List (Write α)} (h : InOrder stamp ws) (hne : ws ≠ []) :
    Latest stamp ws := by
  induction ws using List.reverseRecOn with
  | nil => exact absurd rfl hne
  | append_singleton ws w ih =>
    have hmem : w ∈ ws ++ [w] := List.mem_append_right ws (List.mem_singleton_self w)
    have hrun := writeAll_concat stamp ws w
    by_cases hws : ws = []
    · subst hws
      refine ⟨w.value, ?_, ⟨w, hmem, rfl⟩, fun v hv => ?_⟩
      · rw [hrun]
        cases w <;> rfl
      · rw [List.mem_singleton.mp hv]
    obtain ⟨c, hc, ⟨v, hv, hvc⟩, hlatest⟩ := ih h.of_concat hws
    rcases write_cases stamp (writeAll stamp ws) w with hnew | ⟨old, new, hw, hold, hkept, hlt⟩
    · refine ⟨w.value, hrun.trans hnew, ⟨w, hmem, rfl⟩, fun u hin => ?_⟩
      rcases List.mem_append.mp hin with hu | hu
      · -- what is written stays ahead of everything before: by order, or by the comparison
        match w with
        | .force a => exact h ws a [] rfl u hu
        | .merge a =>
          rw [hc] at hnew
          exact (hlatest u hu).trans (le_of_merged hnew)
      · rw [List.mem_singleton.mp hu]
    · obtain rfl : c = old := Option.some.inj (hc.symm.trans hold)
      refine ⟨c, hrun.trans hkept, ⟨v, List.mem_append_left _ hv, hvc⟩, fun u hu => ?_⟩
      rcases List.mem_append.mp hu with hu | hu
      · exact hlatest u hu
      · rw [List.mem_singleton.mp hu, hw]
        exact hlt.le

theorem neverBack_of_inOrder {ws : List (Write α)} (h : InOrder stamp ws) :
    NeverBack stamp ws := by
  intro pre w post hsplit c c' hc hc'
  rw [writeAll_concat, hc] at hc'
  rcases write_cases stamp (some c) w with hnew | ⟨old, new, -, hold, hkept, -⟩
  · obtain rfl : w.value = c' := Option.some.inj (hnew.symm.trans hc')
    cases w with
    | force a =>
      have hpre : InOrder stamp pre := by
        intro p a' q hp
        exact h p a' (q ++ .force a :: post) (by rw [hsplit, hp, List.append_assoc, List.cons_append])
      have hne : pre ≠ [] := by
        rintro rfl
        cases hc
      obtain ⟨c₀, hc₀, ⟨v, hv, hvc⟩, -⟩ := latest_of_inOrder hpre hne
      obtain rfl : c = c₀ := Option.some.inj (hc.symm.trans hc₀)
      rw [← hvc]
      exact h pre a post hsplit v hv
    | merge a => exact le_of_merged hnew
  · obtain rfl : c = old := Option.some.inj hold
    obtain rfl : c = c' := Option.some.inj (hkept.symm.trans hc')
    exact le_rfl

/-- If the register never goes back, it stays ahead of all that was written. -/
theorem le_of_neverBack {ws : List (Write α)} (h : NeverBack stamp ws) {c : α}
    (hc : writeAll stamp ws = some c) : ∀ w ∈ ws, stamp w.value ≤ stamp c := by
  induction ws using List.reverseRecOn generalizing c with
  | nil => simp
  | append_singleton ws w ih =>
    intro v hv
    rcases List.mem_append.mp hv with hv | hv
    · cases hws : writeAll stamp ws with
      | none =>
        obtain ⟨c₀, hc₀⟩ := exists_writeAll stamp (List.ne_nil_of_mem hv)
        cases hws.symm.trans hc₀
      | some c₀ => exact (ih h.of_concat hws v hv).trans (h ws w [] rfl c₀ c hws hc)
    · rw [List.mem_singleton.mp hv]
      rw [writeAll_concat] at hc
      rcases write_cases stamp (writeAll stamp ws) w with hnew | ⟨old, new, hw, -, hkept, hlt⟩
      · obtain rfl : w.value = c := Option.some.inj (hnew.symm.trans hc)
        exact le_rfl
      · obtain rfl : old = c := Option.some.inj (hkept.symm.trans hc)
        rw [hw]
        exact hlt.le

/-- **When the order of the writes does not matter.** The register ends with the latest value
and never goes back exactly when every forcing write comes in order. -/
theorem settles_iff {ws : List (Write α)} (hne : ws ≠ []) :
    Latest stamp ws ∧ NeverBack stamp ws ↔ InOrder stamp ws := by
  constructor
  · rintro ⟨-, hback⟩ pre a post hsplit w hw
    have hpre : NeverBack stamp pre := by
      intro p v q hp
      exact hback p v (q ++ .force a :: post)
        (by rw [hsplit, hp, List.append_assoc, List.cons_append])
    obtain ⟨c, hc⟩ := exists_writeAll stamp (List.ne_nil_of_mem hw)
    have hforced : writeAll stamp (pre ++ [.force a]) = some a := by
      rw [writeAll_concat]
      cases writeAll stamp pre <;> rfl
    exact (le_of_neverBack hpre hc w hw).trans (hback pre _ post hsplit c a hc hforced)
  · intro h
    exact ⟨latest_of_inOrder h hne, neverBack_of_inOrder h⟩

/-! ## Writes that come from events -/

variable {β : Type} {f : β → Write α} {events : List β}

theorem latest_map : Latest stamp (events.map f)
    ↔ ∃ e ∈ events, writeAll stamp (events.map f) = some (f e).value
        ∧ ∀ e' ∈ events, stamp (f e').value ≤ stamp (f e).value := by
  constructor
  · rintro ⟨c, hc, ⟨w, hw, rfl⟩, hle⟩
    obtain ⟨e, he, rfl⟩ := List.mem_map.mp hw
    exact ⟨e, he, hc, fun e' he' => hle _ (List.mem_map_of_mem he')⟩
  · rintro ⟨e, he, hc, hle⟩
    refine ⟨_, hc, ⟨f e, List.mem_map_of_mem he, rfl⟩, fun w hw => ?_⟩
    obtain ⟨e', he', rfl⟩ := List.mem_map.mp hw
    exact hle e' he'

theorem neverBack_map : NeverBack stamp (events.map f)
    ↔ ∀ pre e post, events = pre ++ e :: post → ∀ c c', writeAll stamp (pre.map f) = some c →
        writeAll stamp ((pre ++ [e]).map f) = some c' → stamp c ≤ stamp c' := by
  constructor
  · intro h pre e post hsplit c c' hc hc'
    refine h (pre.map f) (f e) (post.map f) (by rw [hsplit, List.map_append, List.map_cons]) c c' hc ?_
    rw [List.map_append] at hc'
    exact hc'
  · intro h pre w post hsplit c c' hc hc'
    obtain ⟨pre, rest, rfl, rfl, hrest⟩ := List.map_eq_append_iff.mp hsplit
    obtain ⟨e, post, rfl, rfl, rfl⟩ := List.map_eq_cons_iff.mp hrest
    refine h pre e post rfl c c' hc ?_
    rw [List.map_append]
    exact hc'

theorem inOrder_map : InOrder stamp (events.map f)
    ↔ ∀ pre e post, events = pre ++ e :: post → ∀ a, f e = .force a →
        ∀ e' ∈ pre, stamp (f e').value ≤ stamp a := by
  constructor
  · intro h pre e post hsplit a ha e' he'
    exact h (pre.map f) a (post.map f) (by rw [hsplit, List.map_append, List.map_cons, ha]) (f e')
      (List.mem_map_of_mem he')
  · intro h pre a post hsplit w hw
    obtain ⟨pre, rest, rfl, rfl, hrest⟩ := List.map_eq_append_iff.mp hsplit
    obtain ⟨e, post, rfl, ha, rfl⟩ := List.map_eq_cons_iff.mp hrest
    obtain ⟨e', he', rfl⟩ := List.mem_map.mp hw
    exact h pre e post rfl a ha e' he'

end Register

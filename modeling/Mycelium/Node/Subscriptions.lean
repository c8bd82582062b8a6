import Mycelium.Lib.Trail
import Mycelium.Node.Symbolic

/-!
# Mycelium node — the two sets of subscriptions

The scopes a node listens to are one set, and the bulletin scopes among them are listed again. Of
the four commands that edit them, the two plain ones look at the set only, and of the two for
bulletins only the one that subscribes trims its argument.

* `Listed` — the bulletin scopes are listed once, and are in the set;
* `subscriptions_iff` — they stay so exactly if no plain command unsubscribes a bulletin scope, and
  subscribing to a bulletin scope is undone exactly for the arguments that trimming leaves alone.
-/

namespace Mycelium.Node

open Trail

/-- The commands that edit the subscriptions. -/
inductive ScopeCommand where
  | subscribeScope (scope : String)
  | unsubscribeScope (scope : String)
  | subscribeBulletinScope (scope : String)
  | unsubscribeBulletinScope (scope : String)
deriving DecidableEq, Repr

def ScopeCommand.command : ScopeCommand → NodeCommand
  | .subscribeScope scope => .subscribeScope scope
  | .unsubscribeScope scope => .unsubscribeScope scope
  | .subscribeBulletinScope scope => .subscribeBulletinScope scope
  | .unsubscribeBulletinScope scope => .unsubscribeBulletinScope scope

/-- The bulletin scopes are listed once, and are among the scopes. -/
structure Listed (s : NodeRunner) : Prop where
  nodup : s.bulletinSubscriptions.Nodup
  subscribed : ∀ scope ∈ s.bulletinSubscriptions, scope ∈ s.subscribedScopes

/-- The scope, as it was given and trimmed, is in neither of the two. -/
structure Dropped (scope : String) (s : NodeRunner) : Prop where
  given : scope ∉ s.bulletinSubscriptions ∧ scope ∉ s.subscribedScopes
  trimmed : trim scope ∉ s.bulletinSubscriptions ∧ trim scope ∉ s.subscribedScopes

/-- The command does not unsubscribe a bulletin scope behind the back of the list. -/
def SparesBulletins (s : NodeRunner) : ScopeCommand → Prop
  | .unsubscribeScope scope => scope ∉ s.bulletinSubscriptions
  | _ => True

/-- Trimming leaves the scope alone, or leaves nothing of it and the empty scope is in neither. -/
def Undoable (scope : String) (s : NodeRunner) : Prop :=
  trim scope = scope
    ∨ trim scope = "" ∧ "" ∉ s.bulletinSubscriptions ∧ "" ∉ s.subscribedScopes

instance (s : NodeRunner) : (cmd : ScopeCommand) → Decidable (SparesBulletins s cmd)
  | .unsubscribeScope scope => inferInstanceAs (Decidable (scope ∉ s.bulletinSubscriptions))
  | .subscribeScope _ => .isTrue trivial
  | .subscribeBulletinScope _ => .isTrue trivial
  | .unsubscribeBulletinScope _ => .isTrue trivial

/-! ## The commands -/

section

variable [Prims] [World]

/-- The runner after a command. -/
def afterScope (s : NodeRunner) (cmd : ScopeCommand) : NodeRunner :=
  finalState (handleCommand cmd.command s)

variable (s : NodeRunner) (scope : String)

theorem afterScope_eq {s s' : NodeRunner} (cmd : ScopeCommand)
    (h : handleCommand cmd.command s = .ok () s') : afterScope s cmd = s' := congrArg finalState h

omit [Prims] [World] in
theorem subscribeTopic_run :
    ∃ out, subscribeTopic scope s = .ok () { s with out } := by
  unfold subscribeTopic
  split
  · exact ⟨s.out, rfl⟩
  · exact ⟨_, rfl⟩

omit [Prims] [World] in
theorem unsubscribeTopic_run :
    ∃ out, unsubscribeTopic scope s = .ok () { s with out } := by
  unfold unsubscribeTopic
  split
  · exact ⟨s.out, rfl⟩
  · exact ⟨_, rfl⟩

theorem subscribeScope_run :
    ∃ out, handleCommand (.subscribeScope scope) s
      = .ok () { s with subscribedScopes := setInsert s.subscribedScopes scope, out } :=
  subscribeTopic_run { s with subscribedScopes := setInsert s.subscribedScopes scope } scope

theorem unsubscribeScope_run :
    ∃ out, handleCommand (.unsubscribeScope scope) s
      = .ok () { s with subscribedScopes := s.subscribedScopes.erase scope, out } :=
  unsubscribeTopic_run { s with subscribedScopes := s.subscribedScopes.erase scope } scope

theorem unsubscribeBulletinScope_run :
    ∃ out, handleCommand (.unsubscribeBulletinScope scope) s
      = .ok () { s with
          bulletinSubscriptions := s.bulletinSubscriptions.filter (· != scope)
          subscribedScopes := s.subscribedScopes.erase scope
          out } :=
  unsubscribeTopic_run { s with
    bulletinSubscriptions := s.bulletinSubscriptions.filter (· != scope)
    subscribedScopes := s.subscribedScopes.erase scope } scope

/-- A scope of white space is ignored. -/
theorem subscribeBulletinScope_blank (hblank : trim scope = "") :
    handleCommand (.subscribeBulletinScope scope) s = .ok () s := by
  show handleSubscribeBulletin scope s = _
  unfold handleSubscribeBulletin
  rw [hblank]
  rfl

theorem subscribeBulletinScope_run (hscope : trim scope ≠ "") :
    ∃ out, handleCommand (.subscribeBulletinScope scope) s
      = .ok () { s with
          bulletinSubscriptions := setInsert s.bulletinSubscriptions (trim scope)
          subscribedScopes := setInsert s.subscribedScopes (trim scope)
          out } := by
  show ∃ out, handleSubscribeBulletin scope s = _
  unfold handleSubscribeBulletin
  generalize trim scope = scope at *
  obtain ⟨out, hrun⟩ := subscribeTopic_run { s with
    bulletinSubscriptions := setInsert s.bulletinSubscriptions scope
    subscribedScopes := setInsert s.subscribedScopes scope } scope
  refine ⟨out, ?_⟩
  rw [if_neg hscope]
  exact hrun

/-- None of the commands fails. -/
theorem afterScope_run (cmd : ScopeCommand) :
    handleCommand cmd.command s = .ok () (afterScope s cmd) := by
  have hrun : ∀ {r : EStateM.Result String NodeRunner Unit} {f : List Output → NodeRunner},
      (∃ out, r = .ok () (f out)) → r = .ok () (finalState r) := by
    rintro r f ⟨out, rfl⟩
    rfl
  cases cmd with
  | subscribeScope scope => exact hrun (subscribeScope_run s scope)
  | unsubscribeScope scope => exact hrun (unsubscribeScope_run s scope)
  | unsubscribeBulletinScope scope => exact hrun (unsubscribeBulletinScope_run s scope)
  | subscribeBulletinScope scope =>
    by_cases hblank : trim scope = ""
    · exact hrun (f := fun _ => s) ⟨[], subscribeBulletinScope_blank s scope hblank⟩
    · exact hrun (subscribeBulletinScope_run s scope hblank)

/-! ## The invariant -/

variable {s scope}

/-- The scopes stay a set. -/
theorem nodup_afterScope (hset : s.subscribedScopes.Nodup) (cmd : ScopeCommand) :
    (afterScope s cmd).subscribedScopes.Nodup := by
  cases cmd with
  | subscribeScope scope =>
    obtain ⟨out, hrun⟩ := subscribeScope_run s scope
    rw [afterScope_eq (.subscribeScope scope) hrun]
    exact nodup_setInsert hset _
  | unsubscribeScope scope =>
    obtain ⟨out, hrun⟩ := unsubscribeScope_run s scope
    rw [afterScope_eq (.unsubscribeScope scope) hrun]
    exact hset.erase _
  | unsubscribeBulletinScope scope =>
    obtain ⟨out, hrun⟩ := unsubscribeBulletinScope_run s scope
    rw [afterScope_eq (.unsubscribeBulletinScope scope) hrun]
    exact hset.erase _
  | subscribeBulletinScope scope =>
    by_cases hblank : trim scope = ""
    · rw [afterScope_eq (.subscribeBulletinScope scope) (subscribeBulletinScope_blank s scope hblank)]
      exact hset
    · obtain ⟨out, hrun⟩ := subscribeBulletinScope_run s scope hblank
      rw [afterScope_eq (.subscribeBulletinScope scope) hrun]
      exact nodup_setInsert hset _

theorem Listed.after {cmd : ScopeCommand} (h : Listed s) (hspares : SparesBulletins s cmd) :
    Listed (afterScope s cmd) := by
  -- scopes are added and taken away one at a time; a bulletin scope is in both lists
  cases cmd with
  | subscribeScope scope =>
    obtain ⟨out, hrun⟩ := subscribeScope_run s scope
    rw [afterScope_eq (.subscribeScope scope) hrun]
    refine ⟨h.nodup, ?_⟩
    intro b hb
    exact mem_setInsert.mpr (.inr (h.subscribed b hb))
  | unsubscribeScope scope =>
    obtain ⟨out, hrun⟩ := unsubscribeScope_run s scope
    rw [afterScope_eq (.unsubscribeScope scope) hrun]
    refine ⟨h.nodup, ?_⟩
    intro b hb
    have hne : b ≠ scope := by
      rintro rfl
      exact hspares hb
    exact (List.mem_erase_of_ne hne).mpr (h.subscribed b hb)
  | unsubscribeBulletinScope scope =>
    obtain ⟨out, hrun⟩ := unsubscribeBulletinScope_run s scope
    rw [afterScope_eq (.unsubscribeBulletinScope scope) hrun]
    refine ⟨h.nodup.filter _, ?_⟩
    intro b hb
    obtain ⟨hb, hne⟩ := List.mem_filter.mp hb
    exact (List.mem_erase_of_ne (bne_iff_ne.mp hne)).mpr (h.subscribed b hb)
  | subscribeBulletinScope scope =>
    by_cases hblank : trim scope = ""
    · rw [afterScope_eq (.subscribeBulletinScope scope) (subscribeBulletinScope_blank s scope hblank)]
      exact h
    · obtain ⟨out, hrun⟩ := subscribeBulletinScope_run s scope hblank
      rw [afterScope_eq (.subscribeBulletinScope scope) hrun]
      refine ⟨nodup_setInsert h.nodup _, ?_⟩
      intro b hb
      rcases mem_setInsert.mp hb with rfl | hb
      · exact mem_setInsert.mpr (.inl rfl)
      · exact mem_setInsert.mpr (.inr (h.subscribed b hb))

/-- A bulletin scope that the plain command unsubscribes is still listed, and not in the set. -/
theorem sparesBulletins_of_listed {cmd : ScopeCommand} (hset : s.subscribedScopes.Nodup)
    (hlisted : Listed (afterScope s cmd)) : SparesBulletins s cmd := by
  cases cmd with
  | unsubscribeScope scope =>
    intro hb
    obtain ⟨out, hrun⟩ := unsubscribeScope_run s scope
    rw [afterScope_eq (.unsubscribeScope scope) hrun] at hlisted
    exact hset.not_mem_erase (hlisted.subscribed scope hb)
  | subscribeScope scope => trivial
  | subscribeBulletinScope scope => trivial
  | unsubscribeBulletinScope scope => trivial

/-! ## Subscribing and unsubscribing -/

/-- What is left of a scope that is unsubscribed untrimmed. -/
theorem dropped_unsubscribe_iff (hset : s.subscribedScopes.Nodup) :
    Dropped scope (afterScope s (.unsubscribeBulletinScope scope))
      ↔ trim scope = scope ∨ trim scope ∉ s.bulletinSubscriptions ∧ trim scope ∉ s.subscribedScopes := by
  obtain ⟨out, hrun⟩ := unsubscribeBulletinScope_run s scope
  have hgone : ∀ x, (x ∉ s.bulletinSubscriptions.filter (· != scope)
        ∧ x ∉ s.subscribedScopes.erase scope)
      ↔ x = scope ∨ x ∉ s.bulletinSubscriptions ∧ x ∉ s.subscribedScopes := by
    intro x
    rw [List.mem_filter, bne_iff_ne, hset.mem_erase_iff]
    tauto
  rw [afterScope_eq (.unsubscribeBulletinScope scope) hrun]
  constructor
  · intro hdropped
    exact (hgone _).mp hdropped.trimmed
  · intro hleft
    exact ⟨(hgone scope).mpr (.inl rfl), (hgone (trim scope)).mpr hleft⟩

/-- Subscribing to a bulletin scope and unsubscribing it. -/
theorem dropped_iff (hset : s.subscribedScopes.Nodup) :
    Dropped scope (afterScope (afterScope s (.subscribeBulletinScope scope))
      (.unsubscribeBulletinScope scope)) ↔ Undoable scope s := by
  rw [dropped_unsubscribe_iff (nodup_afterScope hset _)]
  unfold Undoable
  refine or_congr_right ?_
  by_cases hblank : trim scope = ""
  · rw [afterScope_eq (.subscribeBulletinScope scope) (subscribeBulletinScope_blank s scope hblank)]
    simp only [hblank, true_and]
  · -- the trimmed scope has just been put in both
    obtain ⟨out, hrun⟩ := subscribeBulletinScope_run s scope hblank
    rw [afterScope_eq (.subscribeBulletinScope scope) hrun]
    refine iff_of_false ?_ fun hempty => hblank hempty.1
    intro hleft
    exact hleft.2 (mem_setInsert.mpr (.inl rfl))

end

/-! ## Runs -/

/-- Before the loop starts, the scopes are subscribed one by one. Induction on them. -/
theorem subscribeAll_run (scopes : List String) (s : NodeRunner) (hset : s.subscribedScopes.Nodup) :
    ∃ s', (forM scopes fun scope => do
          emit (.subscribe scope)
          modify fun s => { s with subscribedScopes := setInsert s.subscribedScopes scope } : NodeM Unit)
        s = .ok () s'
      ∧ s'.bulletinSubscriptions = s.bulletinSubscriptions ∧ s'.subscribedScopes.Nodup
      ∧ ∀ x, x ∈ s.subscribedScopes ∨ x ∈ scopes → x ∈ s'.subscribedScopes := by
  induction scopes generalizing s with
  | nil => exact ⟨s, rfl, rfl, hset, fun x hx => hx.resolve_right List.not_mem_nil⟩
  | cons scope scopes ih =>
    obtain ⟨s', hrun, hlist, hset', hmem⟩ := ih
      { s with
        out := s.out ++ [.subscribe scope]
        subscribedScopes := setInsert s.subscribedScopes scope } (nodup_setInsert hset scope)
    refine ⟨s', ?_, hlist, hset', ?_⟩
    · rw [List.forM_cons]
      exact hrun
    · rintro x (hold | hx)
      · exact hmem x (.inl (mem_setInsert.mpr (.inr hold)))
      · rcases List.mem_cons.mp hx with rfl | hx
        · exact hmem x (.inl (mem_setInsert.mpr (.inl rfl)))
        · exact hmem x (.inr hx)

theorem startup_listed {c : NodeConfig} (hnodup : c.bulletinSubscriptions.Nodup) :
    ∃ s₀, startup (.new c) = .ok () s₀ ∧ s₀.subscribedScopes.Nodup ∧ Listed s₀ := by
  obtain ⟨s₁, hsystem⟩ : ∃ out, (forM systemScopes fun scope => emit (.subscribe scope) : NodeM Unit)
      (.new c) = .ok () { NodeRunner.new c with out } := ⟨_, rfl⟩
  obtain ⟨s', hrun, hlist, hset, hmem⟩ := subscribeAll_run c.bulletinSubscriptions
    { NodeRunner.new c with out := s₁ }
    (show (systemScopes ++ ["mycelium/group/*"]).Nodup by decide)
  refine ⟨{ s' with out := s'.out ++ [.redialStoredTargets] }, ?_, hset, ⟨hlist ▸ hnodup, ?_⟩⟩
  · unfold startup
    rw [run_bind_of_ok hsystem]
    exact run_bind_of_ok hrun
  · intro scope hscope
    rw [hlist] at hscope
    exact hmem scope (.inr hscope)

/-- **The two sets.** From a configuration that lists no bulletin scope twice, in every sequence of
the four commands, the bulletin scopes stay listed once and subscribed exactly if no plain command
unsubscribes one of them; and in every state a sequence leads to, a bulletin scope that is
subscribed and unsubscribed is gone exactly if trimming leaves it alone, or leaves nothing of it
and the empty scope is in neither set. -/
theorem subscriptions_iff [Prims] [World] {c : NodeConfig} (hnodup : c.bulletinSubscriptions.Nodup) :
    ∃ s₀, startup (.new c) = .ok () s₀ ∧ ∀ cmds,
      (Always afterScope Listed s₀ cmds ↔ Each afterScope SparesBulletins s₀ cmds)
      ∧ ∀ scope, Dropped scope (afterScope (afterScope (cmds.foldl afterScope s₀)
          (.subscribeBulletinScope scope)) (.unsubscribeBulletinScope scope))
        ↔ Undoable scope (cmds.foldl afterScope s₀) := by
  obtain ⟨s₀, hrun, hset, hlisted⟩ := startup_listed hnodup
  refine ⟨s₀, hrun, fun cmds => ⟨?_, fun scope => ?_⟩⟩
  · have hkeep : ∀ {s : NodeRunner} {cmd : ScopeCommand}, s.subscribedScopes.Nodup ∧ Listed s →
        True → SparesBulletins s cmd →
        (afterScope s cmd).subscribedScopes.Nodup ∧ Listed (afterScope s cmd) :=
      fun hs _ hspares => ⟨nodup_afterScope hs.1 _, hs.2.after hspares⟩
    exact always_iff_each (fun s => s.subscribedScopes.Nodup ∧ Listed s) And.right hkeep
      (fun hs _ hnext => sparesBulletins_of_listed hs.1 hnext) ⟨hset, hlisted⟩ (each_true s₀ cmds)
  · refine dropped_iff ?_
    clear hrun hlisted
    induction cmds generalizing s₀ with
    | nil => exact hset
    | cons cmd cmds ih => exact ih _ (nodup_afterScope hset cmd)

section

attribute [local instance] symbolicPrims

/-- The plain command takes a bulletin scope out of the set and leaves it listed; and white space
around a bulletin scope is trimmed when it is subscribed only. -/
theorem bulletin_left_listed :
    let _ := stillWorld 5000000
    ¬ Listed (afterScope (afterScope (symbolicNode 2 3 5000000) (.subscribeBulletinScope "news"))
        (.unsubscribeScope "news"))
      ∧ ¬ Dropped " news" (afterScope (afterScope (symbolicNode 2 3 5000000)
        (.subscribeBulletinScope " news")) (.unsubscribeBulletinScope " news")) := by
  intro _
  refine ⟨?_, ?_⟩
  · intro h
    have hin := h.subscribed "news" (by decide +kernel)
    revert hin
    decide +kernel
  · intro h
    have hin := h.trimmed.1
    revert hin
    decide +kernel

/-- A node whose configuration lists one bulletin scope keeps it listed over two commands. -/
theorem subscriptions_iff_of_one :
    let _ := stillWorld 5000000
    let c := { symbolicConfig 2 3 with bulletinSubscriptions := ["news"] }
    c.bulletinSubscriptions.Nodup ∧ ∃ s₀, startup (.new c) = .ok () s₀
      ∧ Always afterScope Listed s₀ [.subscribeScope "berlin", .unsubscribeScope "berlin"] := by
  intro _ c
  obtain ⟨s₀, hrun, hall⟩ := subscriptions_iff (c := c) (by decide)
  refine ⟨by decide, s₀, hrun, (hall _).1.mpr ?_⟩
  obtain rfl : s₀ = finalState (startup (.new c)) := by rw [hrun]; rfl
  exact ⟨trivial, by decide +kernel, trivial⟩

end

end Mycelium.Node

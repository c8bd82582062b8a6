import Mycelium.Node.Frames

/-!
# Mycelium node — runs, one input at a time

`outputs` is what a whole run did. To say which input did what, `Handles c inputs s input`
names the inputs the loop gets to and the state it handles each of them in, and
`inputOutputs` is what one input makes the node do.

* `outSince_quiet` — outputs only grow, and an input without an accepted `Data` message
  delivers none;
* `mem_outputs_iff` — what a run did is what its startup and its inputs did.
-/

namespace Mycelium.Node

/-- The frame arrives from the peer. -/
abbrev Input.frame (fromPeer : String) (msg : WireMessage) : Input :=
  .transportEvent (.directReceived fromPeer msg)

/-! ## Outputs only grow -/

/-- Seen from `s₀`, the new outputs all satisfy `G`. -/
def OutSince (s₀ : NodeRunner) (G : Output → Prop) (s : NodeRunner) : Prop :=
  ∃ new, s.out = s₀.out ++ new ∧ ∀ o ∈ new, G o

section

variable {s₀ : NodeRunner} {G : Output → Prop}

theorem outSince_refl : OutSince s₀ G s₀ := ⟨[], by simp, by simp⟩

theorem OutSince.congr {s s' : NodeRunner} (h : OutSince s₀ G s) (hout : s'.out = s.out) :
    OutSince s₀ G s' := by
  obtain ⟨new, hnew, hG⟩ := h
  exact ⟨new, hout.trans hnew, hG⟩

/-- The new outputs, as the ones behind the old ones. -/
theorem OutSince.drop {s : NodeRunner} (h : OutSince s₀ G s) :
    s.out = s₀.out ++ s.out.drop s₀.out.length ∧ ∀ o ∈ s.out.drop s₀.out.length, G o := by
  obtain ⟨new, hnew, hG⟩ := h
  rw [hnew, List.drop_left]
  exact ⟨rfl, hG⟩

theorem outSince_core : CoreInvariant (OutSince s₀ G) where
  congr _ _ hcore _ h := h.congr (congrArg NodeCore.out hcore)

theorem outSince_emit {E : Prop} {o : Output} (ho : G o) : Keeps (OutSince s₀ G) E (emit o) := by
  refine Keeps.modify fun s hs => ?_
  obtain ⟨new, hout, hnew⟩ := hs
  refine ⟨new ++ [o], ?_, ?_⟩
  · show s.out ++ [o] = s₀.out ++ (new ++ [o])
    rw [hout, List.append_assoc]
  · intro o' ho'
    rcases List.mem_append.mp ho' with hold | hlast
    · exact hnew o' hold
    · rw [List.mem_singleton.mp hlast]
      exact ho

variable [World]

theorem outSince_frame {E : Prop} (hE : E) (hplain : ∀ o, o.Plain → G o) :
    FrameInvariant (OutSince s₀ G) E G where
  toCoreInvariant := outSince_core
  ingestUnseen _ := outSince_core.ingestUnseen_keeps fun _ hs _ => hs
  enqueue _ _ hG := outSince_core.enqueue_of_pending (fun _ _ hs => hs) hE (outSince_emit hG)
  emit _ hG := outSince_emit hG
  plain := hplain

theorem outSince_quiet [Prims] (hother : ∀ o, (∀ m, o ≠ .deliver .data m) → G o) :
    QuietInvariant (OutSince s₀ G) G where
  toFrameInvariant := outSince_frame trivial fun o ho => hother o fun m hm => by
    rw [hm] at ho
    exact ho
  gcExpired := Keeps.bind outSince_core.nowMs fun _ => Keeps.modifyGet fun _ hs => hs
  evictExpired := outSince_core.evictExpired_of_pending fun _ _ hs => hs
  pop _ _ _ _ hs := hs
  rotate _ _ hs := hs
  view _ _ hs := hs
  other := hother

/-- Whatever happens, outputs are only added. -/
theorem outSince_loop [Prims] : LoopInvariant (OutSince s₀ fun _ => True) (fun _ => True) where
  toQuietInvariant := outSince_quiet fun _ _ => trivial
  data _ _ := (outSince_frame trivial fun _ _ => trivial).ingestData trivial
    fun _ _ _ _ => trivial

end

/-! ## The inputs of a run -/

section

variable [Prims] [World] [WireCodec]

/-- The loop gets to `input` in this run, and handles it in state `s`. -/
def Handles (c : NodeConfig) (inputs : List (TransportView × Input)) (s : NodeRunner)
    (input : Input) : Prop :=
  ∃ pre view post s₀, inputs = pre ++ (view, input) :: post
    ∧ runLoop pre (.new c) = .ok () s₀ ∧ s = { s₀ with transport := view }

theorem Handles.append {c : NodeConfig} {inputs : List (TransportView × Input)} {s : NodeRunner}
    {input : Input} (h : Handles c inputs s input) (more : List (TransportView × Input)) :
    Handles c (inputs ++ more) s input := by
  obtain ⟨pre, view, post, s₀, hsplit, hrun, hs⟩ := h
  exact ⟨pre, view, post ++ more, s₀, by simp [hsplit], hrun, hs⟩

/-- The only input of a run is handled when the loop begins. -/
theorem handles_singleton {c : NodeConfig} {i : TransportView × Input} {s : NodeRunner}
    {input : Input} (h : Handles c [i] s input) :
    input = i.2 ∧ ∃ s₀, runLoop [] (.new c) = .ok () s₀ ∧ s = { s₀ with transport := i.1 } := by
  obtain ⟨pre, view, post, s₀, hsplit, hrun, hs⟩ := h
  match pre with
  | [] =>
    obtain ⟨rfl, -⟩ : i = (view, input) ∧ [] = post := by simpa using hsplit
    exact ⟨rfl, s₀, hrun, hs⟩
  | _ :: _ => simp at hsplit

/-- What the node does while it handles the input, whether or not that fails. -/
def inputOutputs (s : NodeRunner) (input : Input) : List Output :=
  (finalState (handleInput input s)).out.drop s.out.length

theorem inputOutputs_frame (s : NodeRunner) (fromPeer : String) (msg : WireMessage) :
    inputOutputs s (.frame fromPeer msg) = frameOutputs s fromPeer msg := by
  unfold inputOutputs frameOutputs
  show (finalState (handleIncomingDirect fromPeer msg s)).out.drop _ = _
  cases handleIncomingDirect fromPeer msg s <;> rfl

/-- Adding an input to a run. -/
theorem runLoop_append_singleton (inputs : List (TransportView × Input)) (i : TransportView × Input) :
    runLoop (inputs ++ [i]) = runLoop inputs >>= fun _ => step i.1 i.2 := by
  simp only [runLoop, List.forM_append, List.forM_cons, List.forM_nil, bind_assoc, bind_pure_unit]

theorem outputs_eq_finalState (c : NodeConfig) (inputs : List (TransportView × Input)) :
    outputs c inputs = (finalState (runLoop inputs (.new c))).out := by
  unfold outputs
  cases runLoop inputs (.new c) <;> rfl

/-- The state an input leaves, with its outputs split off. -/
theorem out_handleInput (s : NodeRunner) (input : Input) :
    (finalState (handleInput input s)).out = s.out ++ inputOutputs s input := by
  have h : Keeps (OutSince s fun _ => True) True (handleInput input) :=
    outSince_loop.host.handleInput fun fromPeer _ _ =>
      outSince_loop.frame fromPeer fun m _ _ _ => outSince_loop.data fromPeer m
  exact (h.finalState outSince_refl).drop.1

/-- A further input adds its outputs, if the run gets to it. -/
theorem outputs_append_singleton (c : NodeConfig) (inputs : List (TransportView × Input))
    (view : TransportView) (input : Input) :
    outputs c (inputs ++ [(view, input)]) = outputs c inputs
      ++ match runLoop inputs (.new c) with
        | .ok _ s => inputOutputs { s with transport := view } input
        | .error _ _ => [] := by
  rw [outputs_eq_finalState, outputs_eq_finalState, runLoop_append_singleton]
  cases hrun : runLoop inputs (.new c) with
  | ok u s =>
    rw [run_bind_of_ok hrun]
    show (finalState (handleInput input { s with transport := view })).out = _
    rw [out_handleInput]
    rfl
  | error e s =>
    rw [run_bind_of_error hrun, List.append_nil]

/-- **What a run did**, input by input. Induction on the run, from its end. -/
theorem mem_outputs_iff {c : NodeConfig} {inputs : List (TransportView × Input)} {o : Output} :
    o ∈ outputs c inputs
      ↔ o ∈ outputs c [] ∨ ∃ s input, Handles c inputs s input ∧ o ∈ inputOutputs s input := by
  induction inputs using List.reverseRecOn with
  | nil =>
    refine ⟨.inl, ?_⟩
    rintro (h | ⟨s, input, ⟨pre, view, post, _, hnil, -⟩, -⟩)
    · exact h
    · exact absurd hnil (by simp)
  | append_singleton inputs i ih =>
    obtain ⟨view, input⟩ := i
    rw [outputs_append_singleton, List.mem_append, ih, or_assoc]
    refine or_congr_right ?_
    constructor
    · -- an output of the last input needs a run that got there
      rintro (⟨s, input', hhandles, ho⟩ | hlast)
      · exact ⟨s, input', hhandles.append _, ho⟩
      · cases hrun : runLoop inputs (.new c) with
        | ok u s₀ =>
          rw [hrun] at hlast
          exact ⟨_, input, ⟨inputs, view, [], s₀, rfl, hrun, rfl⟩, hlast⟩
        | error e s₀ =>
          rw [hrun] at hlast
          exact absurd hlast (by simp)
    · rintro ⟨s, input', ⟨pre, view', post, s₀, hsplit, hrun, hs⟩, ho⟩
      rcases List.eq_nil_or_concat post with rfl | ⟨post', last, rfl⟩
      · -- the input is the last one
        obtain ⟨rfl, hlast⟩ := List.append_inj' hsplit rfl
        obtain ⟨rfl, rfl⟩ : view = view' ∧ input = input' := by simpa using hlast
        right
        rw [hrun]
        rw [hs] at ho
        exact ho
      · left
        have hsplit' : inputs ++ [(view, input)] = (pre ++ (view', input') :: post') ++ [last] := by
          simpa using hsplit
        obtain ⟨hinit, -⟩ := List.append_inj' hsplit' rfl
        exact ⟨s, input', ⟨pre, view', post', s₀, hinit, hrun, hs⟩, ho⟩

/-- **Where a fact about a reached state comes from.** It held when the loop began, or an input
of the run brought it about. Induction on the run, from its end. -/
theorem origin {Q : NodeRunner → Prop} (hview : ∀ s transport, Q { s with transport } → Q s)
    {c : NodeConfig} {inputs : List (TransportView × Input)} {s : NodeRunner}
    (hrun : runLoop inputs (.new c) = .ok () s) (hQ : Q s) :
    Q (finalState (runLoop [] (.new c)))
      ∨ ∃ s' input, Handles c inputs s' input ∧ ¬ Q s' ∧ Q (finalState (handleInput input s')) := by
  induction inputs using List.reverseRecOn generalizing s with
  | nil =>
    left
    rw [hrun]
    exact hQ
  | append_singleton inputs i ih =>
    obtain ⟨view, input⟩ := i
    rw [runLoop_append_singleton] at hrun
    cases hinit : runLoop inputs (.new c) with
    | error e s₀ =>
      rw [run_bind_of_error hinit] at hrun
      cases hrun
    | ok u s₀ =>
      rw [run_bind_of_ok hinit] at hrun
      by_cases hold : Q { s₀ with transport := view }
      · rcases ih hinit (hview s₀ view hold) with hstart | ⟨s', input', hhandles, hnew⟩
        · exact .inl hstart
        · exact .inr ⟨s', input', hhandles.append _, hnew⟩
      · -- the last input brought it about
        refine .inr ⟨{ s₀ with transport := view }, input, ⟨inputs, view, [], s₀, rfl, hinit, rfl⟩,
          hold, ?_⟩
        have hlast : handleInput input { s₀ with transport := view } = .ok () s := hrun
        rw [hlast]
        exact hQ

end

end Mycelium.Node

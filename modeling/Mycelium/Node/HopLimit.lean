import Mycelium.Node.Network
import Mycelium.Node.Symbolic

/-!
# Mycelium node — the hop limit

`Data` and `EncryptedDirect` frames carry a hop counter and a limit. `Data` messages wait in
the queue before they leave, `EncryptedDirect` frames are sent on at once.

* `onward_frame` — what a frame makes the node pass on has one more hop and does not go back;
* `onward_tick`, `queued_loop` — the forward tick sends what was queued;
* `forwards_hop_bounded` — in every network a chain of forwards is as long as the hops left.
-/

namespace Mycelium

/-- The hop counter and the limit of a frame that has them. -/
def WireMessage.hops : WireMessage → Option (UInt8 × UInt8)
  | .data m => some (m.envelope.hopCount, m.envelope.maxHops)
  | .encryptedDirect _ _ _ _ hop maxHops => some (hop, maxHops)
  | _ => none

/-- How many more times the frame may be passed on. -/
def WireMessage.hopsLeft (w : WireMessage) : Nat :=
  match w.hops with
  | some (hop, maxHops) => maxHops.toNat - hop.toNat
  | none => 0

theorem WireMessage.hopsLeft_le (w : WireMessage) : w.hopsLeft ≤ 255 := by
  unfold hopsLeft
  split
  · next hop maxHops _ =>
    have := maxHops.toNat_lt
    omega
  · exact Nat.zero_le _

namespace Node

/-- The frame with a hop counter that an output puts on its way, and to whom: now, or when the
queue is worked off. -/
def Output.onward : Output → Option (String × WireMessage)
  | .enqueued p m => some (p, .data m)
  | .sendDirect p w => w.hops.map fun _ => (p, w)
  | _ => none

theorem Output.Plain.onward {o : Output} (h : o.Plain) : o.onward = none := by
  cases o with
  | enqueued p m => exact h.elim
  | sendDirect p w =>
    cases w with
    | data m => exact h.elim
    | encryptedDirect toPeer key payload sig hop maxHops => exact h.elim
    | _ => rfl
  | _ => rfl

/-- `f'` is `f` one hop further. The counter is a number of hops: it has not saturated. -/
def OneHop (f f' : WireMessage) : Prop :=
  ∃ hop hop' maxHops, f.hops = some (hop, maxHops) ∧ f'.hops = some (hop', maxHops)
    ∧ hop'.toNat = hop.toNat + 1 ∧ hop' ≤ maxHops

theorem OneHop.hopsLeft {f f' : WireMessage} (h : OneHop f f') : f'.hopsLeft + 1 = f.hopsLeft := by
  obtain ⟨hop, hop', maxHops, hf, hf', hadd, hle⟩ := h
  unfold WireMessage.hopsLeft
  rw [hf, hf']
  have hle' := UInt8.le_iff_toNat_le.mp hle
  show maxHops.toNat - hop'.toNat + 1 = maxHops.toNat - hop.toNat
  omega

/-- Below the limit there is room for one more hop. -/
theorem oneHop_of_lt {f f' : WireMessage} {hop maxHops : UInt8} (hf : f.hops = some (hop, maxHops))
    (hf' : f'.hops = some (U8.satAdd hop 1, maxHops)) (hlt : hop < maxHops) : OneHop f f' := by
  have hadd : (U8.satAdd hop 1).toNat = hop.toNat + 1 := U8.toNat_satAdd_one_of_lt hlt
  refine ⟨hop, U8.satAdd hop 1, maxHops, hf, hf', hadd, ?_⟩
  rw [UInt8.le_iff_toNat_le, hadd]
  exact UInt8.lt_iff_toNat_lt.mp hlt

section

variable [Prims]

/-- Signing does not touch the counters. -/
theorem hops_forwardEncrypted {relay : RelayIdentity} {toPeer key : String} {payload : Bytes}
    {sig : Option Bytes} {hop maxHops : UInt8} :
    (forwardEncrypted relay toPeer key payload sig hop maxHops).hops
      = some (U8.satAdd hop 1, maxHops) := by
  unfold forwardEncrypted signEncryptedDirect
  simp only
  split <;> rfl

variable [World] [WireCodec] {s : NodeRunner} {o : Output}

/-! ## One input -/

omit [Prims] [WireCodec] in
theorem outSince_event {s₀ : NodeRunner} {G : Output → Prop} (hplain : ∀ o, o.Plain → G o) :
    EventInvariant (OutSince s₀ G) G where
  toSendInvariant := (outSince_frame trivial hplain).send
  ingestUnseen := (outSince_frame trivial hplain).ingestUnseen
  guardCheck := outSince_core.guardCheck
  gcExpired := Keeps.bind outSince_core.nowMs fun _ => Keeps.modifyGet fun _ hs => hs
  peerDown _ := outSince_core.bookkeeping (fun _ => rfl) (fun _ => rfl)
  peers _ _ hs := hs
  listenAddrs _ _ hs := hs
  scopes _ _ _ hs := hs

/-- **A frame** passes on only itself, one hop further, and not to where it came from. -/
theorem onward_frame {fromPeer p : String} {f f' : WireMessage}
    (ho : o ∈ inputOutputs s (.frame fromPeer f)) (honward : o.onward = some (p, f')) :
    p ≠ fromPeer ∧ OneHop f f' := by
  let G : Output → Prop := fun o => ∀ p f', o.onward = some (p, f') → p ≠ fromPeer ∧ OneHop f f'
  have hframe : FrameInvariant (OutSince s G) True G := by
    refine outSince_frame trivial fun o hplain p f' hsome => ?_
    rw [hplain.onward] at hsome
    cases hsome
  have hkeeps : Keeps (OutSince s G) True (handleIncomingDirect fromPeer f) := by
    refine hframe.handleIncomingDirect (.inr trivial) ?_ ?_
    · -- `Data`: the copies that are queued
      intro m hm _ hhops
      refine hframe.ingestData (fun _ _ hsome => by cases hsome) fun s' _ q hq p f' hsome => ?_
      obtain ⟨rfl, rfl⟩ : q = p ∧ .data (forwardCopy s'.relayIdentity m) = f' := by
        simpa [Output.onward] using hsome
      exact ⟨hq, oneHop_of_lt (by rw [hm]; rfl) rfl hhops⟩
    · -- `EncryptedDirect`: the frames that are sent on
      intro toPeer key payload sig hop maxHops hf _
      refine hframe.handleEncryptedDirect (fun _ _ _ _ _ => trivial)
        fun s' _ _ hlt q hq p f' hsome => ?_
      simp only [Output.onward, hops_forwardEncrypted, Option.map_some, Option.some.injEq,
        Prod.mk.injEq] at hsome
      obtain ⟨rfl, rfl⟩ := hsome
      exact ⟨hq, oneHop_of_lt (by rw [hf]; rfl) hops_forwardEncrypted hlt⟩
  exact (hkeeps.finalState outSince_refl).drop.2 o ho p f' honward

/-- The forward tick sends what is in the queue. -/
theorem onward_tick (ho : o ∈ inputOutputs s .forwardTick) :
    o.onward = none ∨ ∃ item ∈ s.pending, o = .sendDirect item.toPeer (.data item.message) := by
  -- the tick sends messages of the queue, which only shrinks while it runs
  let G : Output → Prop := fun o =>
    o.onward = none ∨ ∃ item ∈ s.pending, o = .sendDirect item.toPeer (.data item.message)
  let J : NodeRunner → Prop := fun s' => OutSince s G s' ∧ s'.pending ⊆ s.pending
  have hcall : ∀ {α : Type} (f : Nat → α), Keeps J True (worldCall f) := fun f =>
    Keeps.modifyGet fun _ hs => hs
  have hkeeps : Keeps J True forwardOnce := by
    refine forwardOnce_keeps hcall (fun _ _ hs => hs) (fun _ _ hs => hs)
      (evictExpired_keeps hcall fun _ _ hsub hs => ⟨hs.1, fun _ h => hs.2 (hsub h)⟩) ?_
    -- one item taken off the queue: sent as it is, put back, or dropped
    intro s' item rest hp hs
    have hmem : item ∈ s.pending := hs.2 (by rw [hp]; exact List.mem_cons_self)
    have hrest : J { s' with pending := rest } :=
      ⟨hs.1, fun _ h => hs.2 (by rw [hp]; exact List.mem_cons_of_mem _ h)⟩
    have hemit : Keeps J True (emit (.sendDirect item.toPeer (.data item.message))) :=
      ⟨fun s'' hs'' => ⟨(outSince_emit (E := True) (.inr ⟨item, hmem, rfl⟩)).run s'' hs''.1, hs''.2⟩⟩
    have hitem : Keeps J True (forwardItem s'.nodeState item) := by
      refine Keeps.bind (hcall _) fun now => Keeps.ite (fun _ => Keeps.pure) fun _ => ?_
      refine Keeps.ite (fun _ => Keeps.pure) fun _ => Keeps.bind ?_ fun _ => ?_
      · exact Keeps.bind (hcall _) fun _ =>
          Keeps.ite (fun _ => Keeps.bind hemit fun _ => Keeps.pure) (fun _ => Keeps.pure)
      · exact Keeps.ite (fun _ => Keeps.modify fun _ hs => hs) (fun _ => Keeps.pure)
    exact hitem.imp (fun _ h => h ▸ hrest) (fun _ _ h => h) (fun _ _ h => h)
  have hend := hkeeps.finalState (s := s) ⟨outSince_refl, fun _ h => h⟩
  exact hend.1.drop.2 o ho

/-- Everything else passes on nothing. -/
theorem onward_event {input : Input} (ho : o ∈ inputOutputs s input)
    (hframe : ∀ fromPeer f, input ≠ .frame fromPeer f) (hcommand : ∀ cmd, input ≠ .command cmd)
    (htick : input ≠ .forwardTick) : o.onward = none := by
  have hevent : EventInvariant (OutSince s fun o => o.onward = none) fun o => o.onward = none :=
    outSince_event fun _ hplain => hplain.onward
  have hkeeps := hevent.handleInput (fun fromPeer f h => absurd h (hframe fromPeer f))
    (fun cmd h => absurd h (hcommand cmd)) (fun h => absurd h htick)
  exact (hkeeps.finalState outSince_refl).drop.2 o ho

/-! ## The queue -/

/-- What waits in the queue was put there. -/
def Queued (s : NodeRunner) : Prop :=
  ∀ item ∈ s.pending, .enqueued item.toPeer item.message ∈ s.out

omit [World] [WireCodec] [Prims] in
theorem queued_core : CoreInvariant Queued where
  congr s s' hcore _ h := by
    have hpending : s'.pending = s.pending := congrArg NodeCore.pending hcore
    have hout : s'.out = s.out := congrArg NodeCore.out hcore
    unfold Queued
    rw [hpending, hout]
    exact h

omit [World] [WireCodec] [Prims] in
theorem Queued.drop {s : NodeRunner} (h : Queued s) {pending : List PendingMessage}
    (hsub : pending ⊆ s.pending) : Queued { s with pending } :=
  fun item hitem => h item (hsub hitem)

omit [World] [WireCodec] [Prims] in
theorem queued_emit (o : Output) : Keeps Queued True (emit o) :=
  Keeps.modify fun _ hs item hitem => List.mem_append_left _ (hs item hitem)

omit [WireCodec] in
theorem queued_loop : LoopInvariant Queued (fun _ => True) := by
  have hcore := queued_core
  have hframe : FrameInvariant Queued True (fun _ => True) :=
    { toCoreInvariant := hcore
      ingestUnseen := fun _ => hcore.ingestUnseen_keeps fun _ hs _ => hs
      enqueue := fun toPeer m _ => by
        refine enqueue_push_keeps hcore.worldCall (fun _ _ hsub hs => hs.drop hsub)
          (fun _ _ hs => hs) trivial fun s hs item hitem => ?_
        rcases List.mem_append.mp hitem with hold | hlast
        · exact List.mem_append_left _ (hs item hold)
        · rw [List.mem_singleton.mp hlast]
          exact List.mem_append_right _ List.mem_cons_self
      emit := fun o _ => queued_emit o
      plain := fun _ _ => trivial }
  exact
    { toFrameInvariant := hframe
      gcExpired := Keeps.bind hcore.nowMs fun _ => Keeps.modifyGet fun _ hs => hs
      evictExpired := evictExpired_keeps hcore.worldCall fun _ _ hsub hs => hs.drop hsub
      pop := fun s item rest hp hs => hs.drop (by rw [hp]; exact List.subset_cons_self _ _)
      rotate := fun _ _ hs => hs
      view := fun _ _ hs => hs
      other := fun _ _ => trivial
      data := fun _ _ => hframe.ingestData trivial fun _ _ _ _ => trivial }

/-- Starting up passes on nothing. -/
theorem onward_startup {c : NodeConfig} (ho : o ∈ outputs c []) : o.onward = none := by
  have hevent : EventInvariant (OutSince (.new c) fun o => o.onward = none)
      fun o => o.onward = none :=
    outSince_event fun _ hplain => hplain.onward
  have hend := (hevent.startup.finalState outSince_refl).drop.2
  rw [outputs_eq_finalState] at ho
  refine hend o ?_
  have hrun : runLoop [] = startup >>= fun _ => pure () := rfl
  rw [hrun, bind_pure_unit] at ho
  exact ho

/-- The input is a frame or a command. -/
def Input.Causes (input : Input) : Prop :=
  (∃ fromPeer f, input = .frame fromPeer f) ∨ ∃ cmd, input = .command cmd

/-- **Whatever leaves** was put on its way by a frame or a command; the forward tick only works
off the queue. -/
theorem onward_of_sent {c : NodeConfig} {inputs : List (TransportView × Input)} {p : String}
    {f : WireMessage} (hsent : .sendDirect p f ∈ outputs c inputs) (hf : f.hops.isSome = true) :
    ∃ s input o, Handles c inputs s input ∧ o ∈ inputOutputs s input ∧ o.onward = some (p, f)
      ∧ input.Causes := by
  have honward : (Output.sendDirect p f).onward = some (p, f) := by
    obtain ⟨hops, hhops⟩ := Option.isSome_iff_exists.mp hf
    simp only [Output.onward, hhops, Option.map_some]
  -- an input that is neither a tick nor idle is a frame or a command
  have hcauses : ∀ s input o, o ∈ inputOutputs s input → o.onward = some (p, f) →
      input ≠ .forwardTick → input.Causes := by
    intro s input o ho hsome htick
    by_contra hno
    have hnone := onward_event ho (fun fromPeer f h => hno (.inl ⟨fromPeer, f, h⟩))
      (fun cmd h => hno (.inr ⟨cmd, h⟩)) htick
    rw [hnone] at hsome
    cases hsome
  rcases mem_outputs_iff.mp hsent with hstart | ⟨s, input, hhandles, ho⟩
  · rw [onward_startup hstart] at honward
    cases honward
  by_cases htick : input = .forwardTick
  · -- the entry was queued earlier in the run, and not by a tick
    subst htick
    rcases onward_tick ho with hnone | ⟨item, hitem, heq⟩
    · rw [hnone] at honward
      cases honward
    obtain ⟨rfl, rfl⟩ : p = item.toPeer ∧ f = .data item.message := by simpa using heq
    obtain ⟨pre, view, post, s₀, hsplit, hrun, rfl⟩ := hhandles
    have hqueued := queued_loop.reachable (c := c) (by intro _ h; cases h) ⟨pre, hrun⟩ item hitem
    have hearlier : .enqueued item.toPeer item.message ∈ outputs c pre := by
      rw [outputs_eq_finalState, hrun]
      exact hqueued
    rcases mem_outputs_iff.mp hearlier with hstart | ⟨s, input, hhandles, ho⟩
    · cases onward_startup hstart
    · refine ⟨s, input, _, ?_, ho, rfl, hcauses s input _ ho rfl ?_⟩
      · rw [hsplit]
        exact hhandles.append _
      · rintro rfl
        rcases onward_tick ho with hnone | ⟨_, _, heq⟩
        · cases hnone
        · cases heq
  · exact ⟨s, input, _, hhandles, ho, honward, hcauses s input _ ho honward htick⟩

end

/-! ## Networks -/

section

variable [Prims]

/-- Some node, wherever it is and whatever it has done before, gets `f` from `fromPeer` and puts
`f'` on its way to `toPeer`. -/
def Relays (f : WireMessage) (fromPeer : String) (f' : WireMessage) (toPeer : String) : Prop :=
  ∃ (h : Host) (inputs : List (TransportView × Input)) (s : NodeRunner) (o : Output),
    h.Handles inputs s (.frame fromPeer f) ∧ o ∈ h.inputOutputs s (.frame fromPeer f)
      ∧ o.onward = some (toPeer, f')

theorem Relays.oneHop {f f' : WireMessage} {fromPeer toPeer : String}
    (h : Relays f fromPeer f' toPeer) : toPeer ≠ fromPeer ∧ OneHop f f' := by
  obtain ⟨host, inputs, s, o, -, ho, honward⟩ := h
  let _ := host.world
  let _ := host.codec
  exact onward_frame ho honward

/-- Each hop uses up one of those that are left. Induction on the path. -/
theorem length_le_hopsLeft {f : WireMessage} {path : List WireMessage}
    (h : List.IsChain (fun f f' => ∃ fromPeer toPeer, Relays f fromPeer f' toPeer) (f :: path)) :
    path.length ≤ f.hopsLeft := by
  induction path generalizing f with
  | nil => exact Nat.zero_le _
  | cons f' path ih =>
    rw [List.isChain_cons_cons] at h
    obtain ⟨⟨fromPeer, toPeer, hrelays⟩, hrest⟩ := h
    have hlen := ih hrest
    have hleft := hrelays.oneHop.2.hopsLeft
    rw [List.length_cons]
    omega

/-- **The hop limit.** In every network of nodes and along every run: a `Data` or
`EncryptedDirect` frame that leaves a node was put on its way by a command or as a forward of a
received frame `f`; a forward has exactly one hop more than `f`, the same limit and a counter
within it, and does not go where `f` came from; and a chain of forwards is never longer than the
hops that are left, at most 255. -/
theorem forwards_hop_bounded :
    (∀ (h : Host) (inputs : List (TransportView × Input)) (p : String) (f' : WireMessage),
      .sendDirect p f' ∈ h.outputs inputs → f'.hops.isSome = true →
      ∃ s input o, h.Handles inputs s input ∧ o ∈ h.inputOutputs s input
        ∧ o.onward = some (p, f') ∧ input.Causes)
    ∧ (∀ f fromPeer f' toPeer, Relays f fromPeer f' toPeer → toPeer ≠ fromPeer ∧ OneHop f f')
    ∧ ∀ f path, List.IsChain (fun f f' => ∃ fromPeer toPeer, Relays f fromPeer f' toPeer) (f :: path) →
      path.length ≤ f.hopsLeft ∧ f.hopsLeft ≤ 255 := by
  refine ⟨fun h inputs p f' hsent hf => ?_, fun f fromPeer f' toPeer hrelays => hrelays.oneHop,
    fun f path hchain => ⟨length_le_hopsLeft hchain, f.hopsLeft_le⟩⟩
  let _ := h.world
  let _ := h.codec
  exact onward_of_sent hsent hf

end

section

attribute [local instance] symbolicPrims

/-- A frame of peer 1 for peer 9 before its last hop, under the highest limit there is. -/
def lastHopFrame : WireMessage :=
  (signEncryptedDirect (.encryptedDirect (symbolicPeer 9) "" [] none 254 255) (symbolicKey 1)).2

/-- The frame as the relay with relay key 3 sends it on. -/
def lastHopCopy : WireMessage :=
  forwardEncrypted { keypair := symbolicKey 3, createdAt := 0 } (symbolicPeer 9) "" [] none 254 255

/-- The last hop under the highest limit is made, and counted. -/
theorem last_hop_counted :
    Relays lastHopFrame (symbolicPeer 1) lastHopCopy (symbolicPeer 9)
    ∧ OneHop lastHopFrame lastHopCopy ∧ [lastHopCopy].length ≤ lastHopFrame.hopsLeft := by
  let view : TransportView := { knownPeers := [symbolicPeer 1, symbolicPeer 9] }
  have hrelays : Relays lastHopFrame (symbolicPeer 1) lastHopCopy (symbolicPeer 9) := by
    refine ⟨⟨stillWorld 5000000, noCodec, symbolicConfig 2 3⟩,
      [(view, .frame (symbolicPeer 1) lastHopFrame)],
      { symbolicNode 2 3 5000000 with transport := view },
      .sendDirect (symbolicPeer 9) lastHopCopy, ?_, by decide +kernel, by decide +kernel⟩
    exact ⟨[], view, [], symbolicNode 2 3 5000000, rfl, rfl, rfl⟩
  have hchain : List.IsChain (fun f f' => ∃ fromPeer toPeer, Relays f fromPeer f' toPeer)
      [lastHopFrame, lastHopCopy] :=
    List.isChain_cons_cons.mpr ⟨⟨_, _, hrelays⟩, List.isChain_singleton _⟩
  exact ⟨hrelays, (forwards_hop_bounded.2.1 _ _ _ _ hrelays).2,
    (forwards_hop_bounded.2.2 _ _ hchain).1⟩

end

end Node

end Mycelium

import Mycelium.Node.AtMostOnce
import Mycelium.Node.Delivery

/-!
# Mycelium node — where stored messages come from

Two frames write the message store. A `Data` frame is checked (signature, freshness, replay,
rate) and what it stores is handed to the app; a `SyncData` frame goes straight to the
pipeline. Both leave the id in the seen cache and in the store, so whichever copy of a
message comes first decides what happens to the others.

* `store_origin` — every stored message was there at the start or was stored by an input;
* `stores_frame` — what a frame stores, it stores as an accepted `Data` message or as a
  message of `SyncData` that was new to the pipeline (`SyncIngests`);
* `store_authentic` — a run stores only checked messages exactly if no `SyncData` frame brings in
  a message;
* `ingested_delivered_once` — when what is stored is delivered.
-/

namespace Mycelium.Node

section

variable [World] [Prims]

/-- Started in `s` on the messages of a frame, the pipeline gets to `m` in state `sᵢ`, where the
message is neither expired nor known. -/
structure NewTo (s : NodeRunner) (messages : List DirectMessage) (sᵢ : NodeRunner)
    (m : DirectMessage) : Prop where
  reached : ∃ pre post, messages = pre ++ m :: post ∧ handleSyncData pre s = .ok () sᵢ
  unexpired : m.isExpired (World.clock sᵢ.calls) = false
  unknown : sᵢ.knows m.envelope.id = false

/-- A `SyncData` frame of a peer that is not throttled brings the message in, in state `sᵢ`. -/
def SyncIngests (s : NodeRunner) (fromPeer : String) (messages : List DirectMessage)
    (sᵢ : NodeRunner) (m : DirectMessage) : Prop :=
  throttledAt s fromPeer (World.clock s.calls) = false
    ∧ NewTo (afterThrottle s fromPeer) messages sᵢ m

/-! ## What `SyncData` stores -/

theorem NewTo.append {s sᵢ : NodeRunner} {messages : List DirectMessage} {m : DirectMessage}
    (h : NewTo s messages sᵢ m) (more : List DirectMessage) : NewTo s (messages ++ more) sᵢ m := by
  obtain ⟨pre, post, hsplit, hpre⟩ := h.reached
  exact ⟨⟨pre, post ++ more, by simp [hsplit], hpre⟩, h.unexpired, h.unknown⟩

theorem handleSyncData_cons {m : DirectMessage} {new : Bool} {s s₁ : NodeRunner}
    (h : ingest m false s = .ok new s₁) (messages : List DirectMessage) :
    handleSyncData (m :: messages) s = handleSyncData messages s₁ := by
  have hcons : handleSyncData (m :: messages) s
      = (ingest m false >>= fun _ => handleSyncData messages) s := by
    simp only [handleSyncData, List.forM_cons, bind_assoc, pure_bind]
  rw [hcons, run_bind_of_ok h]

theorem handleSyncData_append {pre : List DirectMessage} {s s₁ : NodeRunner}
    (h : handleSyncData pre s = .ok () s₁) (post : List DirectMessage) :
    handleSyncData (pre ++ post) s = handleSyncData post s₁ := by
  have happend : handleSyncData (pre ++ post) s
      = (handleSyncData pre >>= fun _ => handleSyncData post) s := by
    simp only [handleSyncData, List.forM_append]
  rw [happend, run_bind_of_ok h]

/-- The pipeline on a whole frame: it returns, and what is new in the store was new to the
pipeline. Induction on the messages, from the last one. -/
theorem handleSyncData_run (messages : List DirectMessage) (s : NodeRunner) :
    ∃ s', handleSyncData messages s = .ok () s'
      ∧ ∀ id m, s'.store.loadById id = some m → s.store.loadById id = some m
        ∨ id = m.envelope.id ∧ ∃ sᵢ, NewTo s messages sᵢ m := by
  induction messages using List.reverseRecOn with
  | nil => exact ⟨s, rfl, fun _ _ h => .inl h⟩
  | append_singleton messages x ih =>
    obtain ⟨s₁, hrun, hstored⟩ := ih
    have hstep : handleSyncData (messages ++ [x]) s = handleSyncData [x] s₁ :=
      handleSyncData_append hrun [x]
    -- what an earlier message stored, it stored in this run too
    have hearlier : ∀ id m, s₁.store.loadById id = some m → s.store.loadById id = some m
        ∨ id = m.envelope.id ∧ ∃ sᵢ, NewTo s (messages ++ [x]) sᵢ m := by
      intro id m hm
      rcases hstored id m hm with hold | ⟨hid, sᵢ, hnew⟩
      · exact .inl hold
      · exact .inr ⟨hid, sᵢ, hnew.append [x]⟩
    have hingest := ingest_run x s₁
    by_cases hdrop : (x.isExpired (World.clock s₁.calls) || s₁.knows x.envelope.id) = true
    · rw [if_pos hdrop] at hingest
      exact ⟨_, hstep.trans (handleSyncData_cons hingest []), hearlier⟩
    · rw [if_neg hdrop] at hingest
      simp only [Bool.or_eq_true, not_or, Bool.not_eq_true] at hdrop
      refine ⟨_, hstep.trans (handleSyncData_cons hingest []), fun id m hm => ?_⟩
      rw [SledMessageStore.loadById_persist] at hm
      by_cases hid : id = x.envelope.id
      · rw [if_pos hid] at hm
        obtain rfl := Option.some.inj hm
        exact .inr ⟨hid, s₁, ⟨messages, [], rfl, hrun⟩, hdrop.1, hdrop.2⟩
      · rw [if_neg hid] at hm
        exact hearlier id m hm

omit [World] [Prims] in
theorem knows_of_loadById {s : NodeRunner} {id : String} {m : DirectMessage}
    (h : s.store.loadById id = some m) : s.knows id = true := by
  have hstored : s.store.contains id = true := Option.isSome_iff_exists.mpr ⟨m, h⟩
  simp [NodeRunner.knows, hstored]

/-- The pipeline does not overwrite what is stored. Induction on the messages. -/
theorem handleSyncData_keeps (messages : List DirectMessage) {s : NodeRunner} {id : String}
    {m : DirectMessage} (h : s.store.loadById id = some m) :
    (finalState (handleSyncData messages s)).store.loadById id = some m := by
  induction messages generalizing s with
  | nil => exact h
  | cons x messages ih =>
    have hingest := ingest_run x s
    by_cases hdrop : (x.isExpired (World.clock s.calls) || s.knows x.envelope.id) = true
    · rw [if_pos hdrop] at hingest
      rw [handleSyncData_cons hingest]
      exact ih h
    · rw [if_neg hdrop] at hingest
      rw [handleSyncData_cons hingest]
      refine ih ?_
      -- the new message has another id, since the store does not know it
      simp only [Bool.or_eq_true, not_or, Bool.not_eq_true] at hdrop
      have hne : id ≠ x.envelope.id := by
        rintro rfl
        exact absurd (knows_of_loadById h) (by simp [hdrop.2])
      rw [SledMessageStore.loadById_persist, if_neg hne]
      exact h

/-- A message that is new to the pipeline is in the store after the frame, and was not before. -/
theorem NewTo.stores {s sᵢ : NodeRunner} {messages : List DirectMessage} {m : DirectMessage}
    (h : NewTo s messages sᵢ m) :
    s.store.loadById m.envelope.id ≠ some m
      ∧ (finalState (handleSyncData messages s)).store.loadById m.envelope.id = some m := by
  obtain ⟨pre, post, rfl, hpre⟩ := h.reached
  have hfinal : finalState (handleSyncData pre s) = sᵢ := by rw [hpre]; rfl
  refine ⟨fun hold => ?_, ?_⟩
  · -- it would be there still when the pipeline gets to it
    have hstill := handleSyncData_keeps pre hold
    rw [hfinal] at hstill
    cases (knows_of_loadById hstill).symm.trans h.unknown
  · have hingest := ingest_run m sᵢ
    rw [if_neg (by simp [h.unexpired, h.unknown])] at hingest
    rw [handleSyncData_append hpre, handleSyncData_cons hingest]
    refine handleSyncData_keeps post ?_
    rw [SledMessageStore.loadById_persist, if_pos rfl]

/-! ## What a frame stores -/

omit [Prims] in
/-- Programs that only send and queue leave the store alone. -/
theorem store_send (st : SledMessageStore) :
    SendInvariant (fun s => s.store = st) True (fun _ => True) := by
  have hcore : CoreInvariant fun s => s.store = st :=
    ⟨fun _ _ hcore _ hs => (congrArg NodeCore.store hcore).trans hs⟩
  have hemit : ∀ o, Keeps (fun s => s.store = st) True (emit o) := fun _ => Keeps.modify fun _ hs => hs
  exact hcore.send (fun _ _ _ => hcore.enqueue_of_pending (fun _ _ hs => hs) trivial (hemit _))
    (fun o _ => hemit o) (fun _ _ => trivial)

omit [World] [Prims] in
/-- Storing an encryption key is not storing a message. -/
theorem store_storeEncKey (st : SledMessageStore) (peer key : String) :
    Keeps (fun s => s.store = st) True (storeEncKey peer key) := by
  unfold storeEncKey
  split
  · exact Keeps.modify fun _ hs => hs
  · exact Keeps.pure

/-- Frames that carry no message to store leave the store alone. -/
theorem store_other {fromPeer : String} {msg : WireMessage} (hdata : ∀ m, msg ≠ .data m)
    (hsync : ∀ messages, msg ≠ .syncData messages) (s : NodeRunner) :
    (finalState (handleIncomingDirect fromPeer msg s)).store = s.store := by
  have hsend := store_send s.store
  refine (hsend.handleIncomingDirect (.inr trivial) (fun m hm => absurd hm (hdata m))
    (fun messages hm => absurd hm (hsync messages)) (fun _ _ _ _ => store_storeEncKey _ _ _)
    (fun _ _ _ _ _ _ _ _ => ?_)).finalState rfl
  exact hsend.handleEncryptedDirect (fun _ _ _ _ _ => trivial)
    (fun _ _ _ _ _ => store_storeEncKey _ _ _) (fun _ _ _ _ _ _ => trivial)

/-- The store changes with an accepted message only. -/
theorem store_afterData (s : NodeRunner) (fromPeer : String) (m : DirectMessage) :
    (afterData s fromPeer m).store = if dataVerdict s fromPeer m = .accepted then
        s.store.persist (World.clock (s.calls + 4)) m
      else s.store := by
  split
  · next hv =>
    unfold afterData
    rw [hv]
  · unfold afterData
    split <;> first | rfl | contradiction

/-- A `Data` frame stores its message if it is accepted, and nothing else. -/
theorem store_data (fromPeer : String) (m : DirectMessage) (s : NodeRunner) :
    (finalState (handleIncomingDirect fromPeer (.data m) s)).store = s.store
      ∨ Admits s fromPeer m
        ∧ (finalState (handleIncomingDirect fromPeer (.data m) s)).store
          = s.store.persist (World.clock (s.calls + 4)) m := by
  have hafter := store_afterData s fromPeer m
  rw [handleIncomingDirect_data]
  by_cases hv : dataVerdict s fromPeer m = .accepted
  · right
    rw [if_pos hv] at hafter
    rw [if_pos hv]
    refine ⟨dataVerdict_accepted_iff.mp hv, ?_⟩
    exact ((store_send _).routeData fun _ _ _ _ => trivial).finalState hafter
  · left
    rw [if_neg hv] at hafter
    rw [if_neg hv]
    exact hafter

/-- A `SyncData` frame, past the throttle, is the pipeline on its messages. -/
theorem handleIncomingDirect_syncData (fromPeer : String) (messages : List DirectMessage)
    (s : NodeRunner) :
    handleIncomingDirect fromPeer (.syncData messages) s
      = if throttledAt s fromPeer (World.clock s.calls) then .ok () (afterThrottle s fromPeer)
        else handleSyncData messages (afterThrottle s fromPeer) := by
  rw [handleIncomingDirect_eq]
  rfl

variable [WireCodec]

/-- The message is in the store under `id` after the input, and was not before. -/
def Stores (s : NodeRunner) (input : Input) (id : String) (m : DirectMessage) : Prop :=
  s.store.loadById id ≠ some m
    ∧ (finalState (handleInput input s)).store.loadById id = some m

/-- **What a frame stores**: an accepted `Data` message, or a message of `SyncData` that is new
to the pipeline. -/
theorem stores_frame {s : NodeRunner} {fromPeer : String} {msg : WireMessage} {id : String}
    {m : DirectMessage} (h : Stores s (.frame fromPeer msg) id m) :
    id = m.envelope.id
      ∧ ((msg = .data m ∧ Admits s fromPeer m)
        ∨ ∃ messages sᵢ, msg = .syncData messages ∧ SyncIngests s fromPeer messages sᵢ m) := by
  obtain ⟨hnew, hload⟩ := h
  -- the frames that store are Data and SyncData; the former only what it admits
  replace hload : (finalState (handleIncomingDirect fromPeer msg s)).store.loadById id = some m :=
    hload
  cases msg with
  | data m' =>
    rcases store_data fromPeer m' s with hsame | ⟨hadmits, hstored⟩
    · rw [hsame] at hload
      exact absurd hload hnew
    · rw [hstored] at hload
      rw [SledMessageStore.loadById_persist] at hload
      by_cases hid : id = m'.envelope.id
      · rw [if_pos hid] at hload
        obtain rfl := Option.some.inj hload
        exact ⟨hid, .inl ⟨rfl, hadmits⟩⟩
      · rw [if_neg hid] at hload
        exact absurd hload hnew
  | syncData messages =>
    rw [handleIncomingDirect_syncData] at hload
    by_cases hthrottled : throttledAt s fromPeer (World.clock s.calls) = true
    · rw [if_pos hthrottled] at hload
      exact absurd hload hnew
    · rw [if_neg hthrottled] at hload
      obtain ⟨s', hrun, hstored⟩ := handleSyncData_run messages (afterThrottle s fromPeer)
      rw [hrun] at hload
      rcases hstored id m hload with hold | ⟨hid, sᵢ, hsync⟩
      · exact absurd hold hnew
      -- a batch stores message by message, each with an id that was not there
      · exact ⟨hid, .inr ⟨messages, sᵢ, rfl, by simpa using hthrottled, hsync⟩⟩
  | _ =>
    rw [store_other (by simp) (by simp)] at hload
    exact absurd hload hnew

/-! ## Runs -/

/-- The startup leaves the store as it was opened. -/
theorem store_startup (c : NodeConfig) :
    (finalState (runLoop [] (.new c))).store = (NodeRunner.new c).store := by
  have hemit : ∀ o, Keeps (fun s => s.store = (NodeRunner.new c).store) True (emit o) :=
    fun _ => Keeps.modify fun _ hs => hs
  have hstartup : Keeps (fun s => s.store = (NodeRunner.new c).store) True startup := by
    refine Keeps.bind (Keeps.forM fun _ _ => hemit _) fun _ => Keeps.get_bind fun _ _ => ?_
    refine Keeps.bind (Keeps.forM fun _ _ => ?_) fun _ => hemit _
    exact Keeps.bind (hemit _) fun _ => Keeps.modify fun _ hs => hs
  exact (Keeps.bind hstartup fun _ => Keeps.pure).finalState rfl

/-- **Where stored messages come from.** -/
theorem store_origin {c : NodeConfig} {inputs : List (TransportView × Input)} {s : NodeRunner}
    (hrun : runLoop inputs (.new c) = .ok () s) {id : String} {m : DirectMessage}
    (hm : s.store.loadById id = some m) :
    c.db.lookup id = some m ∨ ∃ s' input, Handles c inputs s' input ∧ Stores s' input id m := by
  rcases origin (Q := fun s => s.store.loadById id = some m) (fun _ _ h => h) hrun hm with
    hstart | hinput
  · rw [store_startup] at hstart
    exact .inl hstart
  · exact .inr hinput

/-! ## Authenticity -/

/-- Both checks let the message through at time `now`, with the guard as it is. -/
def Vetted (g : IngestGuard) (m : DirectMessage) (now : UInt64) : Prop :=
  validateDataMessageSignature m = .ok ()
    ∧ (g.allowDirect m.envelope.signatureAuthorPeer m now).1 = .ok ()

omit [Prims] [WireCodec] in
/-- Whatever a frame makes the node do, the clock moves on. -/
theorem calls_frame (k : Nat) : FrameInvariant (fun s => k ≤ s.calls) True (fun _ => True) := by
  have hcore : CoreInvariant fun s => k ≤ s.calls := ⟨fun _ _ _ hle hs => hs.trans hle⟩
  have hemit : ∀ o, Keeps (fun s => k ≤ s.calls) True (emit o) := fun _ => Keeps.modify fun _ hs => hs
  exact {
    toCoreInvariant := hcore
    ingestUnseen := fun _ => hcore.ingestUnseen_keeps fun _ hs _ => Nat.le_succ_of_le hs
    enqueue := fun _ _ _ => hcore.enqueue_of_pending (fun _ _ hs => hs) trivial (hemit _)
    emit := fun o _ => hemit o
    plain := fun _ _ => trivial }

omit [WireCodec] in
/-- An accepted message was vetted while its frame was handled. -/
theorem Admits.vetted {s : NodeRunner} {fromPeer : String} {m : DirectMessage}
    (h : Admits s fromPeer m) :
    ∃ n, s.calls ≤ n ∧ n < (finalState (handleIncomingDirect fromPeer (.data m) s)).calls
      ∧ Vetted s.ingestGuard m (World.clock n) := by
  refine ⟨s.calls + 2, Nat.le_add_right _ 2, ?_, h.validated, h.allowed⟩
  have hv := dataVerdict_accepted_iff.mpr h
  have hcalls : s.calls + 5 ≤ (afterData s fromPeer m).calls := by
    unfold afterData
    rw [hv]
  rw [handleIncomingDirect_data, if_pos hv]
  have hroute : Keeps _ True (routeData fromPeer m) :=
    (calls_frame (s.calls + 5)).send.routeData fun _ _ _ _ => trivial
  have hrouted := hroute.finalState hcalls
  omega

/-- The message was let through by both checks while the frame was handled, with the guard as the
frame found it. Only the `Data` branch makes the checks. -/
def CheckedIn (s : NodeRunner) (fromPeer : String) (msg : WireMessage) (m : DirectMessage) : Prop :=
  msg = .data m
    ∧ ∃ n, s.calls ≤ n ∧ n < (finalState (handleIncomingDirect fromPeer msg s)).calls
      ∧ Vetted s.ingestGuard m (World.clock n)

/-- What `SyncData` brings in is stored. -/
theorem SyncIngests.stores {s sᵢ : NodeRunner} {fromPeer : String} {messages : List DirectMessage}
    {m : DirectMessage} (h : SyncIngests s fromPeer messages sᵢ m) :
    Stores s (.frame fromPeer (.syncData messages)) m.envelope.id m := by
  obtain ⟨hunthrottled, hnew⟩ := h
  obtain ⟨hbefore, hafter⟩ := hnew.stores
  refine ⟨hbefore, ?_⟩
  show (finalState (handleIncomingDirect fromPeer (.syncData messages) s)).store.loadById _ = _
  rw [handleIncomingDirect_syncData, if_neg (by simp [hunthrottled])]
  exact hafter

/-- **When the store is authentic.** In a run, every message that a frame stores was let through
by both checks exactly if no `SyncData` frame brings a message in; and what is in the store was
there at the start or was stored by an input of the run. -/
theorem store_authentic (c : NodeConfig) (inputs : List (TransportView × Input)) :
    ((∀ s fromPeer msg id m, Handles c inputs s (.frame fromPeer msg) →
        Stores s (.frame fromPeer msg) id m → CheckedIn s fromPeer msg m)
      ↔ ∀ s fromPeer messages sᵢ m, Handles c inputs s (.frame fromPeer (.syncData messages)) →
        ¬ SyncIngests s fromPeer messages sᵢ m)
    ∧ ∀ s id m, runLoop inputs (.new c) = .ok () s → s.store.loadById id = some m →
        c.db.lookup id = some m ∨ ∃ s' input, Handles c inputs s' input ∧ Stores s' input id m := by
  refine ⟨⟨fun hchecked s fromPeer messages sᵢ m hhandles hingests => ?_,
    fun hsync s fromPeer msg id m hhandles hstores => ?_⟩, fun s id m hrun hm => store_origin hrun hm⟩
  · obtain ⟨hdata, -⟩ := hchecked s fromPeer _ _ m hhandles hingests.stores
    cases hdata
  · rcases (stores_frame hstores).2 with ⟨rfl, hadmits⟩ | ⟨messages, sᵢ, rfl, hingests⟩
    · exact ⟨rfl, hadmits.vetted⟩
    · exact absurd hingests (hsync s fromPeer messages sᵢ m hhandles)

end

section

attribute [local instance] symbolicPrims noCodec

@[reducible] def syncWorld : World := stillWorld 5000000

attribute [local instance] syncWorld

/-- A message of peer 1 for peer 2, made and signed just now. -/
def syncedMessage : DirectMessage := symbolicMessage 1 (symbolicPeer 2) 5000000

/-- The same message without its signature. -/
def forgedMessage : DirectMessage :=
  { syncedMessage with envelope := { syncedMessage.envelope with signature := none } }

/-- A message as a frame from its author. -/
def dataCopy (m : DirectMessage) : TransportView × Input :=
  ({}, .frame (symbolicPeer 1) (.data m))

/-- A message inside `SyncData` from peer 4. -/
def syncCopy (m : DirectMessage) : TransportView × Input :=
  ({}, .frame (symbolicPeer 4) (.syncData [m]))

/-- The node of peer 2 after the message has arrived from its author. -/
def holdingNode : NodeRunner :=
  finalState (runLoop [dataCopy syncedMessage] (.new (symbolicConfig 2 3)))

/-- `SyncData` with a message that was received before brings nothing in. -/
theorem not_syncIngests_holding {s sᵢ : NodeRunner} {fromPeer : String}
    {messages : List DirectMessage} {m : DirectMessage}
    (h : Handles (symbolicConfig 2 3) [dataCopy syncedMessage, syncCopy syncedMessage] s
      (.frame fromPeer (.syncData messages))) : ¬ SyncIngests s fromPeer messages sᵢ m := by
  rintro ⟨-, ⟨pre', post', hmessages, hpre'⟩, -, hunknown⟩
  -- the batch is the second event of the run, so the node holds the message already
  obtain ⟨pre, view, post, s₀, hsplit, hrun, rfl⟩ := h
  match pre with
  | [] => simp [dataCopy, Input.frame] at hsplit
  | [first] =>
    obtain ⟨rfl, ⟨rfl, -, rfl⟩, rfl⟩ : dataCopy syncedMessage = first
        ∧ (view = {} ∧ fromPeer = symbolicPeer 4 ∧ messages = [syncedMessage]) ∧ post = [] := by
      simpa [syncCopy, Input.frame, eq_comm, and_assoc] using hsplit
    have hs₀ : holdingNode = s₀ := congrArg finalState hrun
    obtain ⟨rfl, rfl, rfl⟩ : pre' = [] ∧ m = syncedMessage ∧ post' = [] := by
      match pre' with
      | [] => simpa [eq_comm] using hmessages
      | _ :: _ => simp at hmessages
    have hsᵢ : sᵢ = afterThrottle { s₀ with transport := {} } fromPeer :=
      (EStateM.Result.ok.inj hpre').2.symm
    have hknown : holdingNode.knows syncedMessage.envelope.id = true := by decide +kernel
    rw [hsᵢ] at hunknown
    replace hunknown : s₀.knows syncedMessage.envelope.id = false := hunknown
    rw [← hs₀, hknown] at hunknown
    cases hunknown
  | _ :: _ :: _ => simp at hsplit

/-- The node when it gets to the first input of a run. -/
theorem handles_first (first : TransportView × Input) (rest : List (TransportView × Input)) :
    Handles (symbolicConfig 2 3) (first :: rest)
      { symbolicNode 2 3 5000000 with transport := first.1 } first.2 :=
  ⟨[], first.1, rest, symbolicNode 2 3 5000000, rfl, rfl, rfl⟩

/-- A message that arrives from its author, and later inside `SyncData`, was checked. -/
theorem store_authentic_holding :
    Stores { symbolicNode 2 3 5000000 with transport := {} } (dataCopy syncedMessage).2
        syncedMessage.envelope.id syncedMessage
    ∧ CheckedIn { symbolicNode 2 3 5000000 with transport := {} } (symbolicPeer 1)
        (.data syncedMessage) syncedMessage := by
  have hstores : Stores { symbolicNode 2 3 5000000 with transport := {} }
      (dataCopy syncedMessage).2 syncedMessage.envelope.id syncedMessage :=
    ⟨by decide +kernel, by decide +kernel⟩
  refine ⟨hstores, (store_authentic (symbolicConfig 2 3)
    [dataCopy syncedMessage, syncCopy syncedMessage]).1.mpr ?_ _ _ _ _ _
    (handles_first (dataCopy syncedMessage) [syncCopy syncedMessage]) hstores⟩
  exact fun _ _ _ _ _ hhandles => not_syncIngests_holding hhandles

/-- Peer 4 puts a message without a signature into `SyncData`, and it is stored; as a `Data`
frame the node refuses it. -/
theorem unsigned_message_stored :
    Handles (symbolicConfig 2 3) [syncCopy forgedMessage]
        { symbolicNode 2 3 5000000 with transport := {} } (syncCopy forgedMessage).2
    ∧ Stores { symbolicNode 2 3 5000000 with transport := {} } (syncCopy forgedMessage).2
        forgedMessage.envelope.id forgedMessage
    ∧ validateDataMessageSignature forgedMessage = .error .noSignature :=
  ⟨handles_first (syncCopy forgedMessage) [], ⟨by decide +kernel, by decide +kernel⟩,
    by decide +kernel⟩

end

section

variable [World] [Prims] [WireCodec]

/-! ## Delivery -/

/-- **When what is ingested is delivered.** In every run in which no `SyncData` frame brings in a
message with this id, if a frame stores a copy of a message, exactly one message with its id
and creation time is handed to the app. -/
theorem ingested_delivered_once (hclock : ClockMonotone) {c : NodeConfig}
    {inputs : List (TransportView × Input)} {id : String}
    (hsync : ∀ s fromPeer messages sᵢ m, Handles c inputs s (.frame fromPeer (.syncData messages)) →
      SyncIngests s fromPeer messages sᵢ m → m.envelope.id ≠ id)
    {s : NodeRunner} {fromPeer : String} {msg : WireMessage} {m : DirectMessage}
    (hhandles : Handles c inputs s (.frame fromPeer msg))
    (hstores : Stores s (.frame fromPeer msg) id m) :
    (outputs c inputs).countP (Output.isDataDelivery id m.envelope.createdAtMs) = 1 := by
  have hatMost : (outputs c inputs).countP (Output.isDataDelivery id m.envelope.createdAtMs) ≤ 1 := by
    obtain ⟨s', hout, honce⟩ := once_final hclock c inputs
    exact hout ▸ honce.once id m.envelope.createdAtMs
  have hdelivered : .deliver .data m ∈ outputs c inputs ∧ m.envelope.id = id := by
    obtain ⟨hid, ⟨rfl, hadmits⟩ | ⟨messages, sᵢ, rfl, hingests⟩⟩ := stores_frame hstores
    · refine ⟨mem_outputs_iff.mpr (.inr ⟨s, _, hhandles, ?_⟩), hid.symm⟩
      exact deliver_data_iff.mpr ⟨fromPeer, rfl, hadmits⟩
    · exact absurd hid.symm (hsync s fromPeer messages sᵢ m hhandles hingests)
  have hatLeast : 0 < (outputs c inputs).countP
      (Output.isDataDelivery id m.envelope.createdAtMs) := by
    rw [List.countP_pos_iff]
    exact ⟨_, hdelivered.1, by simp [Output.isDataDelivery, hdelivered.2]⟩
  omega

end

section

attribute [local instance] symbolicPrims noCodec syncWorld

/-- A message that arrives from its author, and later inside `SyncData`, is delivered once. -/
theorem ingested_delivered_once_holding :
    ClockMonotone
    ∧ (outputs (symbolicConfig 2 3) [dataCopy syncedMessage, syncCopy syncedMessage]).countP
        (Output.isDataDelivery syncedMessage.envelope.id 5000000) = 1 := by
  have hclock : ClockMonotone := fun _ _ _ => Nat.le_refl _
  refine ⟨hclock, ingested_delivered_once hclock (m := syncedMessage) ?_
    (handles_first (dataCopy syncedMessage) [syncCopy syncedMessage])
    ⟨by decide +kernel, by decide +kernel⟩⟩
  intro s fromPeer messages sᵢ m hhandles hingests
  exact absurd hingests (not_syncIngests_holding hhandles)

/-- The copy inside `SyncData` comes first: the message is stored, the copy from its author is
dropped, and the app never sees it. -/
theorem synced_message_not_delivered :
    validateDataMessageSignature syncedMessage = .ok ()
    ∧ Addressed (symbolicConfig 2 3).localPeerId syncedMessage
    ∧ Handles (symbolicConfig 2 3) [syncCopy syncedMessage, dataCopy syncedMessage]
        { symbolicNode 2 3 5000000 with transport := {} } (syncCopy syncedMessage).2
    ∧ Stores { symbolicNode 2 3 5000000 with transport := {} } (syncCopy syncedMessage).2
        syncedMessage.envelope.id syncedMessage
    ∧ (outputs (symbolicConfig 2 3) [syncCopy syncedMessage, dataCopy syncedMessage]).countP
        (Output.isDataDelivery syncedMessage.envelope.id 5000000) = 0 := by
  refine ⟨by decide +kernel, .inr (by decide +kernel), ?_, ⟨by decide +kernel, by decide +kernel⟩,
    by decide +kernel⟩
  exact handles_first (syncCopy syncedMessage) [dataCopy syncedMessage]

end

end Mycelium.Node

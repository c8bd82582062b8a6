import Mycelium.App.Dispatch

/-!
# Mycelium app — contacts and consent

A stranger who writes becomes a pending contact, and only the user accepts a contact. What
arrives can do no more than that: over every sequence of messages the rows that were there stay
as they were, the rows that appear are pending, and a chat reaches the app's channel only when its
sender was an accepted contact already. Groups have a branch of their own, where the group's key
and not the contact list decides.

* `KeepsContacts` — rows are kept and new ones are pending; every message keeps contacts;
* `Dispatched.chat_accepted` — what a message of a peer shows;
* `contacts_consent` — over every sequence of messages.
-/

namespace Mycelium.App

/-- From `app` to `app'` the contacts were kept, and rows appeared under `senders` only. -/
structure KeepsContacts (senders : List String) (app app' : AppNode) : Prop where
  kept : ∀ {peer c}, app.storage.contactById peer = some c →
    app'.storage.contactById peer = some c
  appeared : ∀ {peer c}, app.storage.contactById peer = none →
    app'.storage.contactById peer = some c → c.status = .pending ∧ peer ∈ senders

namespace KeepsContacts

variable {senders senders' : List String} {app app' app'' : AppNode}

theorem of_contacts (h : app'.storage.contacts = app.storage.contacts) :
    KeepsContacts senders app app' where
  kept := by
    intro peer c hrow
    rw [AppStorage.contactById, h]
    exact hrow
  appeared := by
    intro peer c hnone hrow
    rw [AppStorage.contactById, h] at hrow
    cases hnone.symm.trans hrow

theorem trans (h : KeepsContacts senders app app') (h' : KeepsContacts senders' app' app'') :
    KeepsContacts (senders ++ senders') app app'' where
  kept := fun hrow => h'.kept (h.kept hrow)
  appeared := by
    intro peer c hnone hrow
    -- the row appeared in the first half or in the second
    cases hmid : app'.storage.contactById peer with
    | some c' =>
      obtain ⟨hstatus, hsender⟩ := h.appeared hnone hmid
      cases (h'.kept hmid).symm.trans hrow
      exact ⟨hstatus, List.mem_append_left _ hsender⟩
    | none =>
      obtain ⟨hstatus, hsender⟩ := h'.appeared hmid hrow
      exact ⟨hstatus, List.mem_append_right _ hsender⟩

end KeepsContacts

/-! ## One message -/

/-- A pending row is written for a sender without one, and nothing else. -/
theorem handleChatContact_keepsContacts (now : UInt64) (peer : String) (m : ChatMessage)
    (app : AppNode) : KeepsContacts [peer] app (app.handleChatContact now peer m) := by
  unfold AppNode.handleChatContact
  cases hrow : app.storage.contactById peer with
  | some c =>
    cases hstatus : c.status with
    | accepted =>
      simp only [hstatus]
      exact .of_contacts rfl
    | pending =>
      simp only [hstatus]
      exact .of_contacts rfl
  | none =>
    -- an unknown peer becomes a pending contact, and no other contact changes
    have hcontacts : (app.storage.upsertContact now peer (AppNode.pendingName peer m) .pending).contacts
        = app.storage.contacts.insert peer ⟨peer, AppNode.pendingName peer m, now, .pending⟩ := by
      unfold AppStorage.upsertContact
      rw [hrow]
      rfl
    have hlookup : ∀ other, (app.storage.upsertContact now peer (AppNode.pendingName peer m)
          .pending).contactById other
        = if other = peer then some ⟨peer, AppNode.pendingName peer m, now, .pending⟩
          else app.storage.contactById other := by
      intro other
      rw [AppStorage.contactById, hcontacts]
      split
      · next heq =>
        subst heq
        exact AList.lookup_insert _
      · next hne => exact AList.lookup_insert_ne hne
    refine ⟨?_, ?_⟩
    · intro other c hother
      have hne : other ≠ peer := by
        intro heq
        subst heq
        cases hrow.symm.trans hother
      exact (hlookup other).trans ((if_neg hne).trans hother)
    · intro other c hnone hsome
      have hinsert := (hlookup other).symm.trans hsome
      split at hinsert
      · next heq =>
        cases hinsert
        exact ⟨rfl, by simp [heq]⟩
      · cases hnone.symm.trans hinsert

/-- The user may be asked about the sender; no chat is shown. -/
theorem handleChatContact_out (now : UInt64) (peer : String) (m : ChatMessage) (app : AppNode) :
    ∃ new, (app.handleChatContact now peer m).out = app.out ++ new
      ∧ ∀ p m', .chatIncoming p m' ∉ new := by
  unfold AppNode.handleChatContact
  split
  · next c _ =>
    split
    · exact ⟨[], by simp, by simp⟩
    · exact ⟨[.onContactRequest peer c.displayName], rfl, by simp⟩
  · exact ⟨[.onContactRequest peer (AppNode.pendingName peer m)], rfl, by simp⟩

theorem chatAccepted_iff {app : AppNode} {peer : String} :
    app.chatAccepted peer = true
      ↔ ∃ c, app.storage.contactById peer = some c ∧ c.status = .accepted := by
  unfold AppNode.chatAccepted
  cases app.storage.contactById peer with
  | some c => simp
  | none => simp

theorem handleGroupChat_contacts (groupId fromPeer : String) (m : ChatMessage) (app : AppNode) :
    (app.handleGroupChat groupId fromPeer m).storage.contacts = app.storage.contacts := by
  show ((app.storage.saveGroupChat groupId m).groupRecordPeerSeen groupId fromPeer).contacts = _
  unfold AppStorage.groupRecordPeerSeen
  split
  · rfl
  · rfl

theorem saveAndShowChat_contacts (accepted : Bool) (peer : String) (m : ChatMessage)
    (app : AppNode) :
    (app.saveAndShowChat accepted peer m).storage.contacts = app.storage.contacts := by
  cases accepted with
  | true => rfl
  | false => rfl

section

variable [Prims] [AppCodec] [Node.WireCodec]

omit [Node.WireCodec] in
theorem handleProximityPayload_out (now : UInt64) (payload : Bytes) (app : AppNode) :
    ∃ new, (app.handleProximityPayload now payload).out = app.out ++ new
      ∧ ∀ p m, .chatIncoming p m ∉ new := by
  unfold AppNode.handleProximityPayload AppNode.handleProximityDirect AppNode.handlePresence
    AppNode.handleMatchIntent
  repeat' split
  -- a message that opens is announced, the other branches say nothing
  all_goals first
    | exact ⟨[.onChatReceived "proximity" _], rfl, by simp⟩
    | exact ⟨[], by simp, by simp⟩

namespace Dispatched

variable {now : UInt64} {msg : DirectMessage} {app app' : AppNode}

theorem keepsContacts (h : Dispatched now msg app app') :
    KeepsContacts [msg.envelope.fromPeer] app app' := by
  cases h with
  | nothing => exact .of_contacts rfl
  | groupChat groupId encrypted m _ _ _ => exact .of_contacts (handleGroupChat_contacts _ _ _ _)
  | proximity _ => exact .of_contacts (by rw [handleProximityPayload_storage])
  | chat m _ _ =>
    have hcontact := handleChatContact_keepsContacts now msg.envelope.fromPeer m app
    have hshow : KeepsContacts [] (app.handleChatContact now msg.envelope.fromPeer m)
        ((app.handleChatContact now msg.envelope.fromPeer m).saveAndShowChat
          (app.chatAccepted msg.envelope.fromPeer) msg.envelope.fromPeer m) :=
      .of_contacts (saveAndShowChat_contacts _ _ _ _)
    exact hcontact.trans hshow
  | bulletin post => exact .of_contacts rfl
  | mail m => exact .of_contacts rfl
  | calls new _ => exact .of_contacts rfl

/-- **Outside the groups, a message shows at most a chat of its sender**, and only when the
sender was an accepted contact. -/
theorem chat_accepted (h : Dispatched now msg app app') (hbody : msg.body ≠ "[mycelium:group]") :
    ∃ new, app'.out = app.out ++ new ∧ ∀ peer m, .chatIncoming peer m ∈ new →
      peer = msg.envelope.fromPeer ∧ app.chatAccepted peer = true := by
  cases h with
  | nothing => exact ⟨[], by simp, by simp⟩
  | groupChat _ _ _ hgroup _ _ => exact absurd hgroup hbody
  | proximity _ =>
    obtain ⟨new, hout, hnew⟩ := handleProximityPayload_out now msg.envelope.payload app
    exact ⟨new, hout, fun peer m hmem => absurd hmem (hnew peer m)⟩
  -- the contact may be asked for first; shown is the chat of an accepted one only
  | chat m _ _ =>
    obtain ⟨asked, hout, hasked⟩ := handleChatContact_out now msg.envelope.fromPeer m app
    unfold AppNode.saveAndShowChat
    cases haccepted : app.chatAccepted msg.envelope.fromPeer with
    | false =>
      refine ⟨asked, ?_, fun peer m' hmem => absurd hmem (hasked peer m')⟩
      simpa [AppNode.updateStorage] using hout
    | true =>
      refine ⟨asked ++ [.onChatReceived msg.envelope.fromPeer (AppNode.takeChars m.body 40),
        .chatIncoming msg.envelope.fromPeer m], ?_, ?_⟩
      · simp [AppNode.updateStorage, AppNode.emit, hout]
      · intro peer m' hmem
        rcases List.mem_append.mp hmem with hmem | hmem
        · exact absurd hmem (hasked peer m')
        · have hpeer : peer = msg.envelope.fromPeer := by
            simp at hmem
            exact hmem.1
          exact ⟨hpeer, hpeer ▸ haccepted⟩
  | bulletin post => exact ⟨[.onBulletinPosted post.scope post.title, .bulletinIncoming post],
      by simp [AppNode.handleBulletin, AppNode.emit, AppNode.updateStorage], by simp⟩
  | mail m => exact ⟨[.onMailReceived m.fromDisplayName m.subject, .mailIncoming m],
      by simp [AppNode.handleMail, AppNode.emit, AppNode.updateStorage], by simp⟩
  | calls new hnew => exact ⟨new, rfl, fun peer m hmem => absurd hmem (hnew peer m)⟩

end Dispatched

/-! ## Every sequence of messages -/

theorem dispatchAll_keepsContacts (msgs : List (UInt64 × DirectMessage)) : ∀ app : AppNode,
    KeepsContacts (msgs.map fun e => e.2.envelope.fromPeer) app (dispatchAll msgs app) := by
  induction msgs with
  | nil => exact fun app => .of_contacts rfl
  | cons e msgs ih =>
    exact fun app => (dispatchIncoming_dispatched e.1 e.2 app).keepsContacts.trans (ih _)

/-- **Nothing that arrives gives consent.** Over every sequence of messages: a contact that was
there stays as it was; a contact that appears is a pending one, of somebody who sent a message;
whoever is accepted at the end was accepted at the start; and a chat that a message shows outside
the groups is one of its sender, who was an accepted contact before the message. -/
theorem contacts_consent (app : AppNode) (msgs : List (UInt64 × DirectMessage)) :
    (∀ peer c, app.storage.contactById peer = some c →
      (dispatchAll msgs app).storage.contactById peer = some c)
    ∧ (∀ peer c, app.storage.contactById peer = none →
      (dispatchAll msgs app).storage.contactById peer = some c →
        c.status = .pending ∧ ∃ e ∈ msgs, e.2.envelope.fromPeer = peer)
    ∧ (∀ peer c, (dispatchAll msgs app).storage.contactById peer = some c →
      c.status = .accepted → app.storage.contactById peer = some c)
    ∧ ∀ before now msg after, msgs = before ++ (now, msg) :: after →
      msg.body ≠ "[mycelium:group]" →
        ∃ new, ((dispatchAll before app).dispatchIncoming now msg).out
            = (dispatchAll before app).out ++ new
          ∧ ∀ peer m, .chatIncoming peer m ∈ new → peer = msg.envelope.fromPeer
            ∧ ∃ c, (dispatchAll before app).storage.contactById peer = some c
              ∧ c.status = .accepted := by
  have hkeeps := dispatchAll_keepsContacts msgs app
  refine ⟨fun peer c => hkeeps.kept, ?_, ?_, ?_⟩
  · intro peer c hnone hrow
    obtain ⟨hstatus, hsender⟩ := hkeeps.appeared hnone hrow
    exact ⟨hstatus, List.mem_map.mp hsender⟩
  · intro peer c hrow haccepted
    -- a row that was not there before is pending, hence not accepted
    cases hbefore : app.storage.contactById peer with
    | some c' => rw [← hrow, hkeeps.kept hbefore]
    | none =>
      have hpending := (hkeeps.appeared hbefore hrow).1
      rw [haccepted] at hpending
      cases hpending
  · intro before now msg after _ hbody
    obtain ⟨new, hout, hnew⟩ :=
      (dispatchIncoming_dispatched now msg (dispatchAll before app)).chat_accepted hbody
    refine ⟨new, hout, ?_⟩
    intro peer m hmem
    obtain ⟨hpeer, haccepted⟩ := hnew peer m hmem
    exact ⟨hpeer, chatAccepted_iff.mp haccepted⟩

end

end Mycelium.App

import Mycelium.App.Attribution
import Mycelium.App.Dispatch

/-!
# Mycelium app — posts under a scope with a key

A scope may have a key; posts on it then travel sealed, behind the mark `enc1:`. A post reaches
the storage under its tag, sealed or not, or untagged as a plain message, and it is filed under
the scope it *names*, whatever the tag said and whichever key opened it.

* `Files` — the ways a message files a post, and `route_files`: there are no others;
* `Unsealed` — the message names the scope without the key of the scope;
* `scope_closed` — where no message does, a scope with a key takes sealed posts only.
-/

namespace Mycelium.App

section

variable [Prims] [AppCodec]

/-- The post of a payload that is a plain message. -/
def openPost (raw : Bytes) : Option BulletinPost :=
  match AppCodec.decodeAppMessage raw with
  | some { payload := .bulletin post } => some post
  | _ => none

/-- The post sealed in a payload under a key, behind the mark. -/
def sealedPost (key : Bytes32) (raw : Bytes) : Option BulletinPost :=
  if (asBytes "enc1:").isPrefixOf raw then
    match decryptGroup (raw.drop 5) key with
    | .ok plaintext => openPost plaintext
    | .error _ => none
  else none

omit [Prims] in
theorem openPost_of_decodeBulletin {raw : Bytes} {post : BulletinPost}
    (h : AppNode.decodeBulletin raw = some (some post)) : openPost raw = some post := by
  unfold AppNode.decodeBulletin at h
  unfold openPost
  split at h
  · cases h
  · next hraw =>
    rw [hraw]
    exact Option.some.inj h
  · cases h

/-- How a message comes to file a post. -/
inductive Files (st : AppStorage) (msg : DirectMessage) (post : BulletinPost) : Prop where
  | opened (h : openPost msg.envelope.payload = some post)
  | unsealed (scope : String) (sk : ScopeKey)
      (htag : AppNode.bulletinScope msg.body = some scope)
      (hkey : st.getScopeKey scope = some sk)
      (h : sealedPost sk.key msg.envelope.payload = some post)

theorem handleBulletinPayload_files {app : AppNode} {msg : DirectMessage} {scope : String}
    {post : BulletinPost} (htag : AppNode.bulletinScope msg.body = some scope)
    (h : app.handleBulletinPayload msg.envelope.payload scope = some (some post)) :
    Files app.storage msg post := by
  unfold AppNode.handleBulletinPayload at h
  split at h
  case isFalse => exact .opened (openPost_of_decodeBulletin h)
  case isTrue hmark =>
    split at h
    · cases h
    next sk hkey =>
    split at h
    · cases h
    next plaintext hopen =>
    split at h
    · cases h
    · next post' hplain =>
      obtain rfl : post' = post := by simpa using h
      refine .unsealed scope sk htag hkey ?_
      rw [sealedPost, if_pos hmark, hopen]
      exact openPost_of_decodeBulletin hplain
    -- what was sealed is no post; the payload as it came is tried once more
    · exact .opened (openPost_of_decodeBulletin h)

/-- **A message files a post in one of these ways.** -/
theorem route_files {app : AppNode} {msg : DirectMessage} {post : BulletinPost}
    (h : app.route msg.body msg.envelope.payload = .payload (.bulletin post)) :
    Files app.storage msg post ∧ msg.body ≠ "[mycelium:group]" ∧ msg.body ≠ "[proximity]" := by
  unfold AppNode.route at h
  split at h
  · cases h
  next hgroup =>
  split at h
  · cases h
  next hproximity =>
  refine ⟨?_, hgroup, hproximity⟩
  -- a bulletin tag takes the post out of the tagged payload, no tag out of the plain one
  split at h
  · next scope htag =>
    split at h
    · next post' hpost =>
      obtain rfl : post' = post := by simpa using h
      exact handleBulletinPayload_files htag hpost
    · cases h
  · split at h
    · next appMsg hdecode =>
      refine .opened ?_
      obtain ⟨p⟩ := appMsg
      obtain rfl : p = .bulletin post := by simpa using h
      rw [openPost, hdecode]
    · cases h

/-- The message names `s` in a post that is in the open, or sealed under the key of another
scope. -/
def Unsealed (st : AppStorage) (s : String) (msg : DirectMessage) : Prop :=
  msg.body ≠ "[mycelium:group]" ∧ msg.body ≠ "[proximity]" ∧
  ∃ post : BulletinPost, post.scope = s ∧
    (openPost msg.envelope.payload = some post
    ∨ ∃ t sk, t ≠ s ∧ AppNode.bulletinScope msg.body = some t ∧ st.getScopeKey t = some sk
        ∧ sealedPost sk.key msg.envelope.payload = some post)

/-- Whatever a message files under `s`, if it does not name it unsealed, it came tagged with `s`
and sealed under the key of `s`. -/
theorem Files.sealed {st : AppStorage} {msg : DirectMessage} {post : BulletinPost} {s : String}
    {sk : ScopeKey} (h : Files st msg post) (hgroup : msg.body ≠ "[mycelium:group]")
    (hproximity : msg.body ≠ "[proximity]") (hscope : post.scope = s)
    (hkey : st.getScopeKey s = some sk) (hsealed : ¬ Unsealed st s msg) :
    AppNode.bulletinScope msg.body = some s ∧ sealedPost sk.key msg.envelope.payload = some post := by
  cases h with
  | opened hopen => exact absurd ⟨hgroup, hproximity, post, hscope, .inl hopen⟩ hsealed
  | unsealed t sk' htag hkey' hpost =>
    by_cases ht : t = s
    · subst ht
      obtain rfl : sk' = sk := Option.some.inj (hkey'.symm.trans hkey)
      exact ⟨htag, hpost⟩
    · exact absurd ⟨hgroup, hproximity, post, hscope, .inr ⟨t, sk', ht, htag, hkey', hpost⟩⟩ hsealed

end

/-! ## One message -/

/-- The rows of a scope. -/
def AppStorage.scopeRows (st : AppStorage) (s : String) : KvTree.Of (String × String) BulletinPost :=
  KvTree.restrict (fun k => k.1 = s) st.bulletins

theorem lookup_scopeRows (st : AppStorage) (s k : String) :
    (st.scopeRows s).lookup (s, k) = st.bulletins.lookup (s, k) :=
  KvTree.lookup_restrict (by simp) _

theorem bulletinsForScope_congr {s : String} {st st' : AppStorage}
    (h : st'.scopeRows s = st.scopeRows s) (now : UInt64) :
    st'.bulletinsForScope now s = st.bulletinsForScope now s := by
  have hrows : st'.bulletins.entries.filter (fun e => e.1.1 = s)
      = st.bulletins.entries.filter fun e => e.1.1 = s := congrArg AList.entries h
  unfold AppStorage.bulletinsForScope
  rw [hrows]

/-- A post that names another scope is not filed under `s`. -/
theorem saveBulletin_scopeRows {s : String} {post : BulletinPost} (h : post.scope ≠ s)
    (st : AppStorage) : (st.saveBulletin post).scopeRows s = st.scopeRows s := by
  unfold AppStorage.scopeRows AppStorage.saveBulletin
  rw [KvTree.restrict_insert, if_neg (by simpa using h)]

section

variable [Prims] [AppCodec] [Node.WireCodec]

/-- What a message that does not name `s` unsealed does to `s`. -/
theorem dispatchIncoming_scope {app : AppNode} {s : String} {sk : ScopeKey}
    (hkey : app.storage.getScopeKey s = some sk) (now : UInt64) {msg : DirectMessage}
    (hsealed : ¬ Unsealed app.storage s msg) :
    (app.dispatchIncoming now msg).storage.scopeKeys = app.storage.scopeKeys
    ∧ ((app.dispatchIncoming now msg).storage.scopeRows s = app.storage.scopeRows s
      ∨ ∃ post, (app.dispatchIncoming now msg).storage.bulletins
            = app.storage.bulletins.insert (s, tsUuidKey post.expiresAtMs post.id) post
          ∧ AppNode.bulletinScope msg.body = some s
          ∧ sealedPost sk.key msg.envelope.payload = some post) := by
  rw [dispatchIncoming_eq_run]
  obtain hsame | ⟨post, hroute, hstorage⟩ :=
    Handler.run_board now msg app (app.route msg.body msg.envelope.payload)
  · refine ⟨hsame.scopeKeys, .inl ?_⟩
    unfold AppStorage.scopeRows
    rw [hsame.bulletins]
  · rw [hstorage]
    refine ⟨rfl, ?_⟩
    by_cases hscope : post.scope = s
    · obtain ⟨hfiles, hgroup, hproximity⟩ := route_files hroute
      refine .inr ⟨post, ?_, hfiles.sealed hgroup hproximity hscope hkey hsealed⟩
      rw [← hscope]
      rfl
    · exact .inl (saveBulletin_scopeRows hscope _)

/-! ## Every sequence of messages -/

/-- The post filed under `s` was there before, or came on `s` sealed under the key. -/
def FiledSealed (st : AppStorage) (s : String) (key : Bytes32)
    (msgs : List (UInt64 × DirectMessage)) (k : String) (post : BulletinPost) : Prop :=
  st.bulletins.lookup (s, k) = some post
  ∨ ∃ e ∈ msgs, AppNode.bulletinScope e.2.body = some s
      ∧ sealedPost key e.2.envelope.payload = some post

omit [Node.WireCodec] in
/-- Keys do not change, so the condition on the messages can be read off the first state. -/
theorem unsealed_congr {st st' : AppStorage} (h : st'.scopeKeys = st.scopeKeys) (s : String)
    (msg : DirectMessage) : Unsealed st' s msg ↔ Unsealed st s msg := by
  unfold Unsealed AppStorage.getScopeKey
  rw [h]

/-- A run of messages that do not name `s` unsealed: every post under `s` came sealed, and the
rows are untouched where no message carries a sealed post. -/
theorem dispatchAll_scope {s : String} {sk : ScopeKey} (msgs : List (UInt64 × DirectMessage)) :
    ∀ app : AppNode, app.storage.getScopeKey s = some sk →
      (∀ e ∈ msgs, ¬ Unsealed app.storage s e.2) →
      (∀ k post, (dispatchAll msgs app).storage.bulletins.lookup (s, k) = some post →
        FiledSealed app.storage s sk.key msgs k post)
      ∧ ((∀ e ∈ msgs, sealedPost sk.key e.2.envelope.payload = none) →
        (dispatchAll msgs app).storage.scopeRows s = app.storage.scopeRows s) := by
  -- induction on the messages; the scope keys do not change, so the key stays that of the first
  -- state
  induction msgs with
  | nil => exact fun app _ _ => ⟨fun k post h => .inl h, fun _ => rfl⟩
  | cons e msgs ih =>
    intro app hkey hsealed
    obtain ⟨hkeys, hstep⟩ := dispatchIncoming_scope hkey e.1 (hsealed e List.mem_cons_self)
    obtain ⟨hfiled, hrows⟩ := ih (app.dispatchIncoming e.1 e.2)
      (by rw [AppStorage.getScopeKey, hkeys]; exact hkey)
      (fun e' he' => (unsealed_congr hkeys s e'.2).not.mpr (hsealed e' (List.mem_cons_of_mem e he')))
    refine ⟨fun k post h => ?_, fun hnone => ?_⟩
    · obtain hbefore | ⟨e', he', hcame⟩ := hfiled k post h
      · obtain hsame | ⟨post', hinsert, htag, hpost'⟩ := hstep
        · left
          rw [← lookup_scopeRows, ← hsame, lookup_scopeRows]
          exact hbefore
        -- the row is the new post's, or one that was there before
        · by_cases hk : k = tsUuidKey post'.expiresAtMs post'.id
          · subst hk
            rw [hinsert, AList.lookup_insert] at hbefore
            obtain rfl : post' = post := Option.some.inj hbefore
            exact .inr ⟨e, List.mem_cons_self, htag, hpost'⟩
          · left
            rw [hinsert, AList.lookup_insert_ne (by simpa using hk)] at hbefore
            exact hbefore
      · exact .inr ⟨e', List.mem_cons_of_mem e he', hcame⟩
    · obtain hsame | ⟨post', -, -, hpost'⟩ := hstep
      · exact (hrows fun e' he' => hnone e' (List.mem_cons_of_mem e he')).trans hsame
      · rw [hnone e List.mem_cons_self] at hpost'
        cases hpost'

omit [Node.WireCodec] in
/-- A payload without a ciphertext of a holder of the key opens to nothing. -/
theorem sealedPost_eq_none {key : Bytes32} {made : Set Bytes} {raw : Bytes}
    (hunforgeable : ∀ ct plain, decryptGroup ct key = .ok plain → ct ∈ made)
    (h : raw.drop 5 ∉ made) : sealedPost key raw = none := by
  unfold sealedPost
  split
  · split
    · next plain hopen => exact absurd (hunforgeable _ _ hopen) h
    · rfl
  · rfl

/-- **Sealed scopes.** A key is stored for `s`, and `made` are the ciphertexts its holders made.
In every run of messages none of which names `s` unsealed, each post under `s` that was not there
before came on `s` sealed under the key; where moreover no message carries a ciphertext of a
holder, what `bulletins_for_scope` returns for `s` at any time does not change. -/
theorem scope_closed {app : AppNode} {s : String} {sk : ScopeKey}
    (hkey : app.storage.getScopeKey s = some sk) (made : Set Bytes)
    (hunforgeable : ∀ ct plain, decryptGroup ct sk.key = .ok plain → ct ∈ made)
    (msgs : List (UInt64 × DirectMessage))
    (hsealed : ∀ e ∈ msgs, ¬ Unsealed app.storage s e.2) :
    (∀ k post, (dispatchAll msgs app).storage.bulletins.lookup (s, k) = some post →
      FiledSealed app.storage s sk.key msgs k post)
    ∧ ((∀ e ∈ msgs, e.2.envelope.payload.drop 5 ∉ made) →
      ∀ now, (dispatchAll msgs app).storage.bulletinsForScope now s
        = app.storage.bulletinsForScope now s) := by
  obtain ⟨hfiled, hrows⟩ := dispatchAll_scope msgs app hkey hsealed
  refine ⟨hfiled, fun houtside now => bulletinsForScope_congr (hrows fun e he => ?_) now⟩
  exact sealedPost_eq_none hunforgeable (houtside e he)

end

section

attribute [local instance] symbolicPrims Node.noCodec

/-- A post on the scope `s`. -/
def symbolicPost : BulletinPost :=
  { id := ⟨Vector.replicate 16 0⟩, fromDisplayName := "", title := "t", body := "b", scope := "s"
    timestampMs := 5, expiresAtMs := 9 }

/-- One payload is the post, another is a chat message. -/
@[reducible] def boardCodec : AppCodec :=
  { chatCodec with
    decodeAppMessage := fun raw =>
      match raw with
      | [1] => some { payload := .bulletin symbolicPost }
      | [0] => some { payload := .chat symbolicChat }
      | _ => none }

attribute [local instance] boardCodec

/-- An app with a key for the scope `s`. -/
def keyedApp : AppNode :=
  { freshApp with storage := { scopeKeys := AList.singleton "s" ⟨"s", "", Vector.replicate 32 7, 0⟩ } }

/-- The ciphertexts under the key. -/
def madeUnderKey : Set Bytes := { ct | (ct.drop 12).take 32 = List.replicate 32 7 }

/-- A message of peer 9. -/
def boardMessage (body : String) (payload : Bytes) : UInt64 × DirectMessage :=
  (5, { envelope := .newUnsigned 5 (Node.symbolicPeer 9) none payload, body })

theorem madeUnderKey_unforgeable (ct plain : Bytes)
    (h : decryptGroup ct (Vector.replicate 32 7) = .ok plain) : ct ∈ madeUnderKey := by
  unfold decryptGroup at h
  split at h
  · cases h
  split at h
  · cases h
  · next plain' hplain =>
    have hopen : (if (ct.drop 12).take 32 = (Vector.replicate 32 (7 : UInt8)).toList
        then some ((ct.drop 12).drop 32) else none) = some plain' := hplain
    split at hopen
    · next hkey => exact hkey
    · cases hopen

/-- The post as a holder of the key sends it. -/
def sealedArrival : UInt64 × DirectMessage :=
  boardMessage "[bulletin:s]" (asBytes "enc1:" ++ List.replicate 12 0 ++ List.replicate 32 7 ++ [1])

/-- The sealed post is filed, and what peer 9 sends without the key changes nothing. -/
theorem scope_closed_keyed :
    (dispatchAll [sealedArrival] keyedApp).storage.bulletins.lookup
        ("s", tsUuidKey 9 symbolicPost.id) = some symbolicPost
    ∧ FiledSealed keyedApp.storage "s" (Vector.replicate 32 7) [sealedArrival]
        (tsUuidKey 9 symbolicPost.id) symbolicPost
    ∧ ∀ now, (dispatchAll [boardMessage "hi" [0], boardMessage "[bulletin:s]" [0]] keyedApp
        ).storage.bulletinsForScope now "s" = keyedApp.storage.bulletinsForScope now "s" := by
  have hfiled : (dispatchAll [sealedArrival] keyedApp).storage.bulletins.lookup
      ("s", tsUuidKey 9 symbolicPost.id) = some symbolicPost := by
    decide +kernel
  have hkey : keyedApp.storage.getScopeKey "s" = some ⟨"s", "", Vector.replicate 32 7, 0⟩ := by
    decide +kernel
  refine ⟨hfiled, (scope_closed hkey madeUnderKey madeUnderKey_unforgeable _ ?_).1 _ _ hfiled,
    (scope_closed hkey madeUnderKey madeUnderKey_unforgeable _ ?_).2 ?_⟩
  · intro e he
    obtain rfl := List.mem_singleton.mp he
    rintro ⟨-, -, post, -, hopen | ⟨t, sk, ht, htag, -⟩⟩
    · have hnone : openPost sealedArrival.2.envelope.payload = none := by decide +kernel
      cases hnone.symm.trans hopen
    · have hs : AppNode.bulletinScope sealedArrival.2.body = some "s" := by decide +kernel
      exact ht (Option.some.inj (htag.symm.trans hs))
  · -- neither payload is a post
    have hnone : openPost [0] = none := by decide +kernel
    have hunsealed : ∀ key, sealedPost key [0] = none := fun key => rfl
    intro e he
    have hpayload : e.2.envelope.payload = [0] := by
      simp only [List.mem_cons, List.not_mem_nil, or_false] at he
      rcases he with rfl | rfl <;> rfl
    rintro ⟨-, -, post, -, hopen | ⟨t, sk, -, -, -, hpost⟩⟩
    · rw [hpayload, hnone] at hopen
      cases hopen
    · rw [hpayload, hunsealed] at hpost
      cases hpost
  · intro e he
    have hpayload : e.2.envelope.payload = [0] := by
      simp only [List.mem_cons, List.not_mem_nil, or_false] at he
      rcases he with rfl | rfl <;> rfl
    rw [hpayload]
    show ¬ (_ = List.replicate 32 (7 : UInt8))
    decide

/-- Peer 9, without the key, sends the post as a plain message, and it is filed under `s`. -/
theorem open_post_filed :
    (keyedApp.storage.getScopeKey "s").isSome = true
    ∧ (boardMessage "hi" [1]).2.envelope.payload.drop 5 ∉ madeUnderKey
    ∧ (dispatchAll [boardMessage "hi" [1]] keyedApp).storage.bulletinsForScope 5 "s"
        = [symbolicPost]
    ∧ keyedApp.storage.bulletinsForScope 5 "s" = []
    ∧ ¬ ∃ key : Bytes32, sealedPost key (boardMessage "hi" [1]).2.envelope.payload = some symbolicPost := by
  refine ⟨by decide +kernel, ?_, by decide +kernel, by decide +kernel, ?_⟩
  · show ¬ (_ = List.replicate 32 (7 : UInt8))
    decide
  · rintro ⟨key, hpost⟩
    have hunmarked : sealedPost key [1] = none := rfl
    cases hunmarked.symm.trans hpost

end

end Mycelium.App

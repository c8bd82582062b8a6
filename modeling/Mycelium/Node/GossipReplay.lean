import Mycelium.Node.AtMostOnce
import Mycelium.Node.Broadcast
import Mycelium.Node.DataFrames
import Mycelium.Node.Symbolic
import Mycelium.Node.Tables

/-!
# Mycelium node — replayed gossip

The window of ids that the guard keeps for an author forgets an id only after 512 others, so a
message that comes back under its old id is recognised. But a gossip payload has no id of its own:
the node makes an envelope for it when it arrives, and the id of the envelope hashes the time it
was made at. The same payload has its old id only in the millisecond it had it first.

* `IdCache.Since` — how many ids a cache has taken since it took one;
* `guard_input` — what one input does to the windows;
* `deliver_gossip_iff` — when a gossip payload is delivered;
* `gossip_replay_iff` — a payload that was delivered is recognised in that millisecond only.
-/

namespace Mycelium.Node

/-! ## Caches -/

namespace IdCache

/-- The set holds what the order lists, each id once, and at most `cap` ids. -/
structure Sound (cap : Nat) (c : IdCache) : Prop where
  set_eq : c.set = c.order.toFinset
  nodup : c.order.Nodup
  bound : c.order.length ≤ cap

/-- The cache holds `id`, and has taken `k` ids since. -/
def Since (c : IdCache) (id : String) (k : Nat) : Prop :=
  ∃ pre post, c.order = pre ++ id :: post ∧ post.length = k

variable {cap : Nat} {c : IdCache} {id new : String}

/-- A cache within its bound is not trimmed. -/
theorem trimLoop_of_le {set : Finset String} {order : List String} (h : order.length ≤ cap) :
    trimLoop cap set order = { set, order } := by
  cases order with
  | nil => rfl
  | cons oldest rest =>
    unfold trimLoop
    rw [if_neg (by simpa using h)]

/-- One id too many. -/
theorem trimLoop_of_full {set : Finset String} {oldest : String} {rest : List String}
    (h : rest.length = cap) :
    trimLoop cap set (oldest :: rest) = { set := set.erase oldest, order := rest } := by
  unfold trimLoop
  rw [if_pos (by omega)]
  exact trimLoop_of_le (by omega)

/-- An empty cache is sound. -/
theorem sound_empty : Sound cap {} := ⟨rfl, List.nodup_nil, Nat.zero_le _⟩

/-- An id that is not in the set is not in the order. -/
theorem Sound.notMem_order (h : c.Sound cap) (hnew : c.contains new = false) : new ∉ c.order := by
  intro hmem
  have hset : new ∉ c.set := by simpa [contains] using hnew
  rw [h.set_eq, List.mem_toFinset] at hset
  exact hset hmem

/-- A new id, and the oldest one gone when the cache was full. -/
theorem Sound.push_eq (h : c.Sound cap) (hcap : 0 < cap) (new : String) :
    (c.order.length < cap
      ∧ c.push cap new = { set := insert new c.set, order := c.order ++ [new] })
    ∨ ∃ oldest rest, c.order = oldest :: rest ∧ c.order.length = cap
        ∧ c.push cap new = { set := (insert new c.set).erase oldest, order := rest ++ [new] } := by
  unfold push
  rcases Nat.lt_or_ge c.order.length cap with hroom | hfull
  · exact .inl ⟨hroom, trimLoop_of_le (by simpa using hroom)⟩
  · have hlen : c.order.length = cap := Nat.le_antisymm h.bound hfull
    obtain ⟨oldest, rest, horder⟩ := List.exists_cons_of_length_pos (hlen ▸ hcap)
    refine .inr ⟨oldest, rest, horder, hlen, ?_⟩
    rw [horder] at hlen ⊢
    exact trimLoop_of_full (by simpa using hlen)

/-- A new id keeps the cache sound. -/
theorem Sound.push (h : c.Sound cap) (hcap : 0 < cap) (hnew : c.contains new = false) :
    (c.push cap new).Sound cap := by
  have hnot := h.notMem_order hnew
  -- with room the id is appended, in a full window it takes the place of the oldest
  rcases h.push_eq hcap new with ⟨hroom, hpush⟩ | ⟨oldest, rest, horder, hlen, hpush⟩
  · rw [hpush]
    refine ⟨?_, ?_, by simpa using hroom⟩
    · ext x
      simp [h.set_eq]
    · exact List.nodup_append.mpr ⟨h.nodup, by simp, by
        intro a ha b hb
        rw [List.mem_singleton.mp hb]
        exact fun heq => hnot (heq ▸ ha)⟩
  · rw [hpush]
    have hnodup := h.nodup
    rw [horder] at hnodup hnot hlen
    obtain ⟨holdest, hrest⟩ := List.nodup_cons.mp hnodup
    obtain ⟨hne, hnot⟩ := not_or.mp (fun hmem => hnot (List.mem_cons.mpr hmem))
    refine ⟨?_, ?_, by simpa using hlen.le⟩
    · ext x
      rw [h.set_eq, horder]
      simp only [Finset.mem_erase, Finset.mem_insert, List.mem_toFinset, List.mem_cons,
        List.mem_append, List.not_mem_nil, or_false]
      refine ⟨?_, ?_⟩
      · rintro ⟨hx, rfl | rfl | hmem⟩
        · exact .inr rfl
        · exact absurd rfl hx
        · exact .inl hmem
      · rintro (hmem | rfl)
        · exact ⟨fun heq => holdest (heq ▸ hmem), .inr (.inr hmem)⟩
        · exact ⟨hne, .inl rfl⟩
    · exact List.nodup_append.mpr ⟨hrest, by simp, by
        intro a ha b hb
        rw [List.mem_singleton.mp hb]
        exact fun heq => hnot (heq ▸ ha)⟩

/-- The id that a cache has just taken. -/
theorem Sound.since_push (h : c.Sound cap) (hcap : 0 < cap) : (c.push cap id).Since id 0 := by
  rcases h.push_eq hcap id with ⟨-, hpush⟩ | ⟨oldest, rest, -, -, hpush⟩
  · rw [hpush]
    exact ⟨c.order, [], rfl, rfl⟩
  · rw [hpush]
    exact ⟨rest, [], rfl, rfl⟩

/-- One more id, while there are fewer than `cap`: the older ones go first. -/
theorem Since.push {k : Nat} (h : c.Sound cap) (hsince : c.Since id k) (hk : k + 1 < cap) :
    (c.push cap new).Since id (k + 1) := by
  obtain ⟨pre, post, hsplit, hlength⟩ := hsince
  rcases h.push_eq (by omega) new with ⟨-, hpush⟩ | ⟨oldest, rest, horder, hfull, hpush⟩
  · rw [hpush]
    exact ⟨pre, post ++ [new], by simp [hsplit], by simp [hlength]⟩
  · rw [hpush]
    cases pre with
    | nil =>
      -- the id would be the oldest one of a full cache
      rw [hsplit] at hfull
      simp only [List.nil_append, List.length_cons] at hfull
      omega
    | cons x pre =>
      rw [hsplit] at horder
      obtain ⟨-, rfl⟩ := List.cons.inj horder
      exact ⟨pre, post ++ [new], by simp, by simp [hlength]⟩

/-- An id that was taken and not yet pushed out is recognised. -/
theorem Since.contains {k : Nat} (h : c.Sound cap) (hsince : c.Since id k) :
    c.contains id = true := by
  obtain ⟨pre, post, hsplit, -⟩ := hsince
  have hmem : id ∈ c.set := by
    rw [h.set_eq, hsplit]
    simp
  simpa [IdCache.contains] using hmem

end IdCache

/-! ## The windows of the guard -/

namespace IngestGuard

/-- The ids recorded under an author. -/
def window (g : IngestGuard) (author : String) : IdCache :=
  (g.replay.byAuthor.lookup author).getD {}

/-- What a check may do to the windows: every author's window is as before, or has taken a new
id. -/
structure Steps (g g' : IngestGuard) : Prop where
  max : g'.replay.maxPerAuthor = g.replay.maxPerAuthor
  window : ∀ p, g'.window p = g.window p
    ∨ ∃ id, (g.window p).contains id = false
        ∧ g'.window p = (g.window p).push g.replay.maxPerAuthor id

/-- A guard with windows of 512 ids. -/
structure Sound (g : IngestGuard) : Prop where
  max : g.replay.maxPerAuthor = authorIdWindow
  window : ∀ p, (g.window p).Sound authorIdWindow

variable {g g' : IngestGuard}

/-- The windows are those of the replay table. -/
theorem window_congr (h : g'.replay = g.replay) (p : String) : g'.window p = g.window p := by
  unfold IngestGuard.window
  rw [h]

/-- A check that does not touch the windows. -/
theorem Steps.refl : Steps g g := ⟨rfl, fun _ => .inl rfl⟩

/-- What happens to the rates afterwards does not matter. -/
theorem Steps.congr (h : Steps g g') {g'' : IngestGuard} (hreplay : g''.replay = g'.replay) :
    Steps g g'' := by
  refine ⟨hreplay ▸ h.max, ?_⟩
  intro p
  rw [window_congr hreplay]
  exact h.window p

/-- Nor does what happened to them before. -/
theorem Steps.congr_left (h : Steps g g') {g₀ : IngestGuard} (hreplay : g.replay = g₀.replay) :
    Steps g₀ g' := by
  refine ⟨hreplay ▸ h.max, ?_⟩
  intro p
  rw [← window_congr hreplay, ← hreplay]
  exact h.window p

/-- Steps keep the guard sound. -/
theorem Sound.steps (h : g.Sound) (hsteps : Steps g g') : g'.Sound := by
  refine ⟨hsteps.max.trans h.max, ?_⟩
  intro p
  rcases hsteps.window p with hsame | ⟨id, hnew, hpush⟩
  · rw [hsame]
    exact h.window p
  · rw [hpush, h.max]
    exact (h.window p).push (by decide) hnew

/-- The guard of a new node is sound. -/
theorem sound_new : Sound {} := by
  refine ⟨rfl, ?_⟩
  intro p
  exact IdCache.sound_empty

/-- `is_duplicate`, on the window it is about and on the others. -/
theorem window_isDuplicate (author id p : String) :
    ({ g with replay := (g.replay.isDuplicate author id).2 } : IngestGuard).window p
      = if p = author ∧ (g.window author).contains id = false then
          (g.window p).push g.replay.maxPerAuthor id
        else g.window p := by
  unfold AuthorReplayWindow.isDuplicate IngestGuard.window
  simp only
  by_cases hp : p = author
  · subst hp
    cases hcontains : ((g.replay.byAuthor.lookup p).getD {}).contains id with
    | true => simp
    | false => simp
  · split
    · simp [hp, AList.lookup_insert_ne hp]
    · simp [hp, AList.lookup_insert_ne hp]

/-- A duplicate is an id that the author's window has. -/
theorem isDuplicate_fst (author id : String) :
    (g.replay.isDuplicate author id).1 = (g.window author).contains id := by
  unfold AuthorReplayWindow.isDuplicate IngestGuard.window
  simp only
  split
  · next h => exact h.symm
  · next h => simpa using h

/-- `is_duplicate` records a new id, under its author only. -/
theorem steps_isDuplicate (author id : String) :
    Steps g { g with replay := (g.replay.isDuplicate author id).2 } := by
  refine ⟨?_, ?_⟩
  · unfold AuthorReplayWindow.isDuplicate
    simp only
    split
    · rfl
    · rfl
  · intro p
    rw [window_isDuplicate]
    split
    · next h =>
      obtain ⟨rfl, hnew⟩ := h
      exact .inr ⟨id, hnew, rfl⟩
    · exact .inl rfl

/-- So does the check of a `Data` frame. -/
theorem steps_allowDirect (author : String) (m : DirectMessage) (now : UInt64) :
    Steps g (g.allowDirect author m now).2 := by
  unfold allowDirect
  split
  · exact .refl
  · simp only
    split
    · exact steps_isDuplicate author m.envelope.id
    · split
      · exact (steps_isDuplicate author m.envelope.id).congr rfl
      · exact (steps_isDuplicate author m.envelope.id).congr rfl

/-- The check of a payload counts, and records no id. -/
theorem replay_checkGossipPayload (fromPeer : String) (payloadLen : Nat) (now : UInt64) :
    (g.checkGossipPayload fromPeer payloadLen now).2.replay = g.replay := by
  unfold checkGossipPayload
  split
  · rfl
  · simp only
    split
    · rfl
    · rfl

/-- The check of a gossip message records a new id. -/
theorem steps_checkGossipMessage (fromPeer id : String) (created now : UInt64) :
    Steps g (g.checkGossipMessage fromPeer id created now).2 := by
  unfold checkGossipMessage
  split
  · exact .refl
  · simp only
    split
    · exact steps_isDuplicate fromPeer id
    · exact steps_isDuplicate fromPeer id

/-- What the check of a gossip message asks. -/
theorem checkGossipMessage_ok_iff (fromPeer id : String) (created now : UInt64) :
    (g.checkGossipMessage fromPeer id created now).1 = .ok ()
      ↔ checkEnvelopeFreshness created now = true ∧ (g.window fromPeer).contains id = false := by
  unfold checkGossipMessage
  rw [← isDuplicate_fst]
  cases checkEnvelopeFreshness created now with
  | false => simp
  | true =>
    cases hdup : (g.replay.isDuplicate fromPeer id).1 with
    | false => simp [hdup]
    | true => simp [hdup]

/-- A gossip message that passes is recorded. -/
theorem window_checkGossipMessage {fromPeer id : String} {created now : UInt64}
    (h : (g.checkGossipMessage fromPeer id created now).1 = .ok ()) :
    (g.checkGossipMessage fromPeer id created now).2.window fromPeer
      = (g.window fromPeer).push g.replay.maxPerAuthor id := by
  obtain ⟨hfresh, hnew⟩ := (checkGossipMessage_ok_iff fromPeer id created now).mp h
  have hguard : (g.checkGossipMessage fromPeer id created now).2
      = { g with replay := (g.replay.isDuplicate fromPeer id).2 } := by
    unfold checkGossipMessage
    rw [hfresh]
    simp only [Bool.not_true, Bool.false_eq_true, if_false]
    split
    · rfl
    · rfl
  rw [hguard, window_isDuplicate, if_pos ⟨rfl, hnew⟩]

end IngestGuard

/-! ## One input -/

section

variable [World]

/-- The guard is `g`. -/
def GuardIs (g : IngestGuard) (s : NodeRunner) : Prop := s.ingestGuard = g

section

variable {g : IngestGuard}

omit [World] in
/-- The guard is one of the tables of the runner. -/
theorem guardIs_tables : TablesInvariant (GuardIs g) where
  congr _ _ htables hs := (congrArg NodeTables.ingestGuard htables).trans hs

/-- The pipeline does not ask the guard. -/
theorem guardIs_ingestUnseen (m : DirectMessage) : Keeps (GuardIs g) True (ingestUnseen m) := by
  refine Keeps.get_bind fun _ _ => Keeps.ite (fun _ => Keeps.pure) fun _ => ?_
  refine Keeps.bind (Keeps.modify fun _ hs => hs) fun _ => ?_
  exact Keeps.bind (guardIs_tables.worldCall _) fun _ =>
    Keeps.bind (Keeps.modify fun _ hs => hs) fun _ => Keeps.pure

/-- Nor does the throttle. -/
theorem guardIs_isThrottled (peer : String) : Keeps (GuardIs g) True (isThrottled peer) := by
  refine ⟨fun s hs => ?_⟩
  rw [isThrottled_run]
  exact hs

/-- What the node does by itself leaves the guard alone. -/
theorem guardIs_own : OwnInvariant (GuardIs g) (fun _ => True) :=
  guardIs_tables.own guardIs_isThrottled guardIs_ingestUnseen
    (Keeps.bind (guardIs_tables.worldCall _) fun _ => Keeps.modifyGet fun _ hs => hs)
    fun _ _ hs => hs

omit [World] in
/-- So does storing a key. -/
theorem guardIs_storeEncKey (peer key : String) : Keeps (GuardIs g) True (storeEncKey peer key) := by
  unfold storeEncKey
  split
  · exact Keeps.modify fun _ hs => hs
  · exact Keeps.pure

end

variable [Prims]

/-- A frame that is no `Data` frame leaves the guard alone. -/
theorem guardIs_frame {g : IngestGuard} {fromPeer : String} {msg : WireMessage}
    (hmsg : ∀ m, msg ≠ .data m) : Keeps (GuardIs g) True (handleIncomingDirect fromPeer msg) := by
  refine guardIs_own.handleIncomingDirect (.inr trivial) ?_ ?_ ?_ ?_
  · intro m hdata
    exact absurd hdata (hmsg m)
  · intro messages _
    exact Keeps.forM fun m _ => Keeps.bind (guardIs_own.ingest m false) fun _ => Keeps.pure
  · intro key displayName scopes _
    exact guardIs_storeEncKey fromPeer key
  · intro toPeer key payload sig hop maxHops _ _
    exact guardIs_own.handleEncryptedDirect (fun _ _ _ _ _ => trivial)
      (fun _ _ _ _ _ => guardIs_storeEncKey _ _) (fun _ _ _ _ _ _ => trivial)

/-- A `Data` frame changes the guard by its check, or not at all. -/
theorem steps_afterData (s : NodeRunner) (fromPeer : String) (m : DirectMessage) :
    s.ingestGuard.Steps (afterData s fromPeer m).ingestGuard := by
  -- the guard after the check is a variable, so that it is never compared by running the check
  obtain ⟨g, hg⟩ : ∃ g, (s.ingestGuard.allowDirect m.envelope.signatureAuthorPeer m
      (World.clock (s.calls + 2))).2 = g := ⟨_, rfl⟩
  have hallow : s.ingestGuard.Steps g :=
    hg ▸ s.ingestGuard.steps_allowDirect m.envelope.signatureAuthorPeer m (World.clock (s.calls + 2))
  unfold afterData
  rw [hg]
  cases dataVerdict s fromPeer m with
  | throttled => exact .refl
  | refused reason =>
    cases reason with
    | noSignature => exact .refl
    | invalidSignature => exact .refl
    | unparseableAuthor => exact .refl
  | hopLimit => exact .refl
  | guarded reason =>
    cases reason with
    | stale => exact hallow
    | replay => exact hallow
    | rateLimit => exact hallow
    | oversize => exact hallow
  | absorbed => exact hallow
  | accepted => exact hallow

/-- A `Data` frame. -/
theorem guard_data (s : NodeRunner) (fromPeer : String) (m : DirectMessage) :
    s.ingestGuard.Steps (finalState (handleIncomingDirect fromPeer (.data m) s)).ingestGuard := by
  rw [handleIncomingDirect_data]
  have hafter := steps_afterData s fromPeer m
  split
  · have hroute : Keeps (GuardIs (afterData s fromPeer m).ingestGuard) True (routeData fromPeer m) :=
      guardIs_own.routeData fun _ _ _ _ => trivial
    have hsame : (finalState (routeData fromPeer m (afterData s fromPeer m))).ingestGuard
        = (afterData s fromPeer m).ingestGuard := hroute.finalState rfl
    rw [hsame]
    exact hafter
  · exact hafter

/-! ## A gossip payload -/

/-- `acceptGossip`: what the guard, the expiry and the pipeline ask, and what is left. -/
theorem acceptGossip_run (s : NodeRunner) (fromPeer : String) (stored : DirectMessage)
    (now : UInt64) {res : Except IngestReject Unit} {g : IngestGuard}
    (hres : s.ingestGuard.checkGossipMessage fromPeer stored.envelope.id stored.envelope.createdAtMs
      now = (res, g)) :
    (finalState (acceptGossip fromPeer stored now s)).ingestGuard = g
    ∧ (finalState (acceptGossip fromPeer stored now s)).out
      = if res = .ok () ∧ stored.isExpired (World.clock s.calls) = false
            ∧ s.knows stored.envelope.id = false then
          s.out ++ [.deliver .gossip stored]
        else s.out := by
  unfold acceptGossip
  rw [run_guardCheck_bind hres]
  -- a refusal changes the guard only; an admitted id is delivered unless stale or in the table
  cases res with
  | error reason =>
    rw [if_neg (by simp)]
    exact ⟨rfl, rfl⟩
  | ok u =>
    have hingest := ingest_run stored { s with ingestGuard := g }
    by_cases hknown : (stored.isExpired (World.clock s.calls) || s.knows stored.envelope.id) = true
    · have hnot : ¬ (Except.ok u = (.ok () : Except IngestReject Unit)
          ∧ stored.isExpired (World.clock s.calls) = false
          ∧ s.knows stored.envelope.id = false) := by
        rintro ⟨-, hexpired, hknows⟩
        simp [hexpired, hknows] at hknown
      rw [if_neg hnot]
      simp only
      rw [run_bind_of_ok (hingest.trans (if_pos hknown))]
      exact ⟨rfl, rfl⟩
    · have hall : Except.ok u = (.ok () : Except IngestReject Unit)
          ∧ stored.isExpired (World.clock s.calls) = false
          ∧ s.knows stored.envelope.id = false := by
        simpa using hknown
      rw [if_pos hall]
      simp only
      rw [run_bind_of_ok (hingest.trans (if_neg hknown))]
      exact ⟨rfl, rfl⟩

/-- The message that a gossip payload becomes: the clock is read once for the guard and once for
the envelope. -/
def gossipMessage (s : NodeRunner) (fromPeer : String) (payload : Bytes) (body : String) :
    DirectMessage :=
  { envelope := .newUnsigned (World.clock (s.calls + 1)) fromPeer none payload, body }

/-- Its id, which does not depend on the body. -/
def gossipId (s : NodeRunner) (fromPeer : String) (payload : Bytes) : String :=
  (gossipMessage s fromPeer payload "").envelope.id

/-- The id is none that is recorded under the sender, seen or stored. -/
def NewId (s : NodeRunner) (fromPeer : String) (payload : Bytes) : Prop :=
  (s.ingestGuard.window fromPeer).contains (gossipId s fromPeer payload) = false
    ∧ s.knows (gossipId s fromPeer payload) = false

variable [WireCodec]

/-- The checks that do not look at the id. -/
structure LetIn (s : NodeRunner) (fromPeer scope : String) (payload : Bytes) : Prop where
  subscribed : s.subscribedScopes.any (scopeMatches scope) = true
  allowed : (s.ingestGuard.checkGossipPayload fromPeer payload.length (World.clock s.calls)).1 = .ok ()
  body : (gossipBody scope payload).isSome
  fresh : checkEnvelopeFreshness (World.clock (s.calls + 1)) (World.clock s.calls) = true
  unexpired : (gossipMessage s fromPeer payload "").isExpired (World.clock (s.calls + 2)) = false

/-- What an arriving payload leaves: nothing is delivered, or it is let in under a new id, which
is recorded, and delivered. -/
inductive Arrived (s : NodeRunner) (fromPeer scope : String) (payload : Bytes) (s' : NodeRunner) :
    Prop where
  | silent (hnot : ¬ (LetIn s fromPeer scope payload ∧ NewId s fromPeer payload))
      (hout : s'.out = s.out) (hsteps : s.ingestGuard.Steps s'.ingestGuard)
  | delivered (body : String) (hletIn : LetIn s fromPeer scope payload)
      (hnew : NewId s fromPeer payload)
      (hout : s'.out = s.out ++ [.deliver .gossip (gossipMessage s fromPeer payload body)])
      (hsteps : s.ingestGuard.Steps s'.ingestGuard)
      (hwindow : s'.ingestGuard.window fromPeer = (s.ingestGuard.window fromPeer).push
        s.ingestGuard.replay.maxPerAuthor (gossipId s fromPeer payload))

/-- **What becomes of a gossip payload.** -/
theorem handleScopedReceived_arrived (s : NodeRunner) (fromPeer scope : String) (payload : Bytes) :
    Arrived s fromPeer scope payload (finalState (handleScopedReceived fromPeer scope payload s)) := by
  rw [handleScopedReceived_eq]
  by_cases hsubscribed : s.subscribedScopes.any (scopeMatches scope) = true
  swap
  · rw [if_neg hsubscribed]
    exact .silent (fun h => hsubscribed h.1.subscribed) rfl .refl
  rw [if_pos hsubscribed, run_bind_of_ok (nowMs_run s)]
  obtain ⟨res, g, hres⟩ : ∃ res g, s.ingestGuard.checkGossipPayload fromPeer payload.length
      (World.clock s.calls) = (res, g) := ⟨_, _, Prod.mk.eta.symm⟩
  have hreplay : g.replay = s.ingestGuard.replay := by
    have h := s.ingestGuard.replay_checkGossipPayload fromPeer payload.length (World.clock s.calls)
    rwa [hres] at h
  rw [run_guardCheck_bind (s := { s with calls := s.calls + 1 }) hres]
  cases res with
  | error reason =>
    -- too long, or too many of this peer
    refine .silent ?_ rfl (IngestGuard.Steps.refl.congr hreplay)
    rintro ⟨hletIn, -⟩
    have hallowed := hletIn.allowed
    rw [hres] at hallowed
    cases hallowed
  | ok u =>
    cases hbody : gossipBody scope payload with
    | none =>
      -- no text in the payload
      rw [gossipVerdict_of_none hbody]
      refine .silent ?_ rfl (IngestGuard.Steps.refl.congr hreplay)
      rintro ⟨hletIn, -⟩
      have hsome := hletIn.body
      rw [hbody] at hsome
      cases hsome
    | some body =>
      obtain ⟨res, g', hres'⟩ : ∃ res g', g.checkGossipMessage fromPeer
          (gossipMessage s fromPeer payload body).envelope.id
          (gossipMessage s fromPeer payload body).envelope.createdAtMs (World.clock s.calls)
          = (res, g') := ⟨_, _, Prod.mk.eta.symm⟩
      have hrun := acceptGossip_run { s with calls := s.calls + 2, ingestGuard := g } fromPeer
        (gossipMessage s fromPeer payload body) (World.clock s.calls) hres'
      have hwindow := IngestGuard.window_congr hreplay fromPeer
      -- the guard lets the message in if it is fresh and not in the window of the peer
      have hok : res = .ok ()
          ↔ checkEnvelopeFreshness (World.clock (s.calls + 1)) (World.clock s.calls) = true
            ∧ (s.ingestGuard.window fromPeer).contains (gossipId s fromPeer payload) = false := by
        have h := g.checkGossipMessage_ok_iff fromPeer
          (gossipMessage s fromPeer payload body).envelope.id
          (gossipMessage s fromPeer payload body).envelope.createdAtMs (World.clock s.calls)
        rw [hres', hwindow] at h
        exact h
      have hsteps : s.ingestGuard.Steps g' := by
        have h := g.steps_checkGossipMessage fromPeer
          (gossipMessage s fromPeer payload body).envelope.id
          (gossipMessage s fromPeer payload body).envelope.createdAtMs (World.clock s.calls)
        rw [hres'] at h
        exact h.congr_left hreplay
      have hcreated : ingestGossip fromPeer payload body (World.clock s.calls)
            { s with calls := s.calls + 1, ingestGuard := g }
          = acceptGossip fromPeer (gossipMessage s fromPeer payload body) (World.clock s.calls)
            { s with calls := s.calls + 2, ingestGuard := g } := run_bind_of_ok (nowMs_run _)
      rw [gossipVerdict_of_some hbody]
      show Arrived _ _ _ _ (finalState (ingestGossip fromPeer payload body (World.clock s.calls)
        { s with calls := s.calls + 1, ingestGuard := g }))
      rw [hcreated]
      obtain ⟨hguard, hout⟩ := hrun
      by_cases hall : res = .ok ()
          ∧ (gossipMessage s fromPeer payload body).isExpired (World.clock (s.calls + 2)) = false
          ∧ s.knows (gossipMessage s fromPeer payload body).envelope.id = false
      · -- let in, and new to the node
        obtain ⟨hpass, hunexpired, hunknown⟩ := hall
        obtain ⟨hfresh, hunrecorded⟩ := hok.mp hpass
        refine .delivered body ⟨hsubscribed, by rw [hres], by rw [hbody]; rfl, hfresh, hunexpired⟩
          ⟨hunrecorded, hunknown⟩ (hout.trans (if_pos ⟨hpass, hunexpired, hunknown⟩))
          (hguard ▸ hsteps) ?_
        have hrecord := g.window_checkGossipMessage (by rw [hres']; exact hpass)
        rw [hres', hwindow, hreplay] at hrecord
        rw [hguard]
        exact hrecord
      · refine .silent ?_ (hout.trans (if_neg hall)) (hguard ▸ hsteps)
        rintro ⟨hletIn, hnew⟩
        exact hall ⟨hok.mpr ⟨hletIn.fresh, hnew.1⟩, hletIn.unexpired, hnew.2⟩

/-- Gossip changes the guard by its two checks. -/
theorem Arrived.steps {s s' : NodeRunner} {fromPeer scope : String} {payload : Bytes}
    (h : Arrived s fromPeer scope payload s') : s.ingestGuard.Steps s'.ingestGuard := by
  cases h with
  | silent _ _ hsteps => exact hsteps
  | delivered _ _ _ _ hsteps _ => exact hsteps

/-- The arrival of a gossip payload. -/
abbrev Input.scoped (fromPeer scope : String) (payload : Bytes) : Input :=
  .transportEvent (.scopedReceived fromPeer scope payload)

/-- **When a gossip payload is delivered.** -/
theorem deliver_gossip_iff (s : NodeRunner) (fromPeer scope : String) (payload : Bytes) :
    (∃ m, .deliver .gossip m ∈ inputOutputs s (.scoped fromPeer scope payload))
      ↔ LetIn s fromPeer scope payload ∧ NewId s fromPeer payload := by
  have harrived := handleScopedReceived_arrived s fromPeer scope payload
  have hout : inputOutputs s (.scoped fromPeer scope payload)
      = (finalState (handleScopedReceived fromPeer scope payload s)).out.drop s.out.length := rfl
  rw [hout]
  cases harrived with
  | silent hnot hsame _ =>
    rw [hsame, List.drop_length]
    simp [hnot]
  | delivered body hletIn hnew hlast _ _ =>
    rw [hlast, List.drop_left]
    exact iff_of_true ⟨_, List.mem_singleton.mpr rfl⟩ ⟨hletIn, hnew⟩

/-- Only `Data` frames and gossip are checked. -/
theorem guard_unchecked {input : Input} (hdata : ∀ fromPeer m, input ≠ .frame fromPeer (.data m))
    (hscoped : ∀ fromPeer scope payload, input ≠ .scoped fromPeer scope payload) (s : NodeRunner) :
    (finalState (handleInput input s)).ingestGuard = s.ingestGuard := by
  have hkeeps : Keeps (GuardIs s.ingestGuard) True (handleInput input) := by
    refine guardIs_own.handleInput ?_ ?_
    · rintro fromPeer msg rfl
      refine guardIs_frame ?_
      rintro m rfl
      exact hdata fromPeer m rfl
    · rintro fromPeer scope payload rfl
      exact absurd rfl (hscoped fromPeer scope payload)
  exact hkeeps.finalState rfl

/-- **What one input does to the windows.** -/
theorem guard_input (s : NodeRunner) (input : Input) :
    s.ingestGuard.Steps (finalState (handleInput input s)).ingestGuard := by
  by_cases hdata : ∃ fromPeer m, input = .frame fromPeer (.data m)
  · obtain ⟨fromPeer, m, rfl⟩ := hdata
    exact guard_data s fromPeer m
  by_cases hscoped : ∃ fromPeer scope payload, input = .scoped fromPeer scope payload
  · obtain ⟨fromPeer, scope, payload, rfl⟩ := hscoped
    exact (handleScopedReceived_arrived s fromPeer scope payload).steps
  rw [guard_unchecked (fun fromPeer m h => hdata ⟨fromPeer, m, h⟩)
    (fun fromPeer scope payload h => hscoped ⟨fromPeer, scope, payload, h⟩)]
  exact .refl

/-! ## Runs -/

/-- How many messages of `p` are recorded while the inputs are handled: the inputs that change the
window of `p`. -/
def recorded (p : String) : NodeRunner → List (TransportView × Input) → Nat
  | _, [] => 0
  | s, (view, input) :: rest =>
    let s' := finalState (step view input s)
    (if (s'.ingestGuard.window p).order = (s.ingestGuard.window p).order then 0 else 1)
      + recorded p s' rest

/-- A run in two parts. -/
theorem runLoop_append (pre rest : List (TransportView × Input)) :
    runLoop (pre ++ rest) = runLoop pre >>= fun _ => forM rest fun i => step i.1 i.2 := by
  simp only [runLoop, List.forM_append, bind_assoc]

/-- One input of a run that goes on. -/
theorem run_cons {view : TransportView} {input : Input} {rest : List (TransportView × Input)}
    {s s' : NodeRunner}
    (h : (forM ((view, input) :: rest) fun i => step i.1 i.2) s = .ok () s') :
    (forM rest fun i => step i.1 i.2) (finalState (step view input s)) = .ok () s' := by
  rw [List.forM_cons] at h
  cases hstep : step view input s with
  | error e s₁ =>
    rw [run_bind_of_error hstep] at h
    cases h
  | ok u s₁ =>
    rw [run_bind_of_ok hstep] at h
    exact h

/-- The windows stay sound along a run. Induction on the inputs. -/
theorem sound_run {inputs : List (TransportView × Input)} {s s' : NodeRunner}
    (h : s.ingestGuard.Sound) (hrun : (forM inputs fun i => step i.1 i.2) s = .ok () s') :
    s'.ingestGuard.Sound := by
  induction inputs generalizing s with
  | nil =>
    obtain rfl : s = s' := (EStateM.Result.ok.inj hrun).2
    exact h
  | cons i rest ih =>
    obtain ⟨view, input⟩ := i
    exact ih (h.steps (guard_input { s with transport := view } input)) (run_cons hrun)

/-- The guard is sound in every state of the loop. -/
theorem sound_reachable {c : NodeConfig} {inputs : List (TransportView × Input)} {s : NodeRunner}
    (hrun : runLoop inputs (.new c) = .ok () s) : s.ingestGuard.Sound := by
  unfold runLoop at hrun
  have hstart : (finalState (startup (.new c))).ingestGuard = {} :=
    guardIs_own.startup.finalState (s := NodeRunner.new c) rfl
  cases hstartup : startup (.new c) with
  | error e s₀ =>
    rw [run_bind_of_error hstartup] at hrun
    cases hrun
  | ok u s₀ =>
    rw [run_bind_of_ok hstartup] at hrun
    rw [hstartup] at hstart
    have hguard : s₀.ingestGuard = {} := hstart
    exact sound_run (hguard ▸ IngestGuard.sound_new) hrun

/-- **An id is in the window until 512 others have been recorded.** Induction on the inputs. -/
theorem since_run {p id : String} {k : Nat} {inputs : List (TransportView × Input)}
    {s s' : NodeRunner} (hsound : s.ingestGuard.Sound) (hsince : (s.ingestGuard.window p).Since id k)
    (hfew : k + recorded p s inputs < authorIdWindow)
    (hrun : (forM inputs fun i => step i.1 i.2) s = .ok () s') :
    (s'.ingestGuard.window p).contains id = true := by
  induction inputs generalizing s k with
  | nil =>
    obtain rfl : s = s' := (EStateM.Result.ok.inj hrun).2
    exact hsince.contains (hsound.window p)
  | cons i rest ih =>
    obtain ⟨view, input⟩ := i
    have hsteps : s.ingestGuard.Steps (finalState (step view input s)).ingestGuard :=
      guard_input { s with transport := view } input
    have hcount : recorded p s ((view, input) :: rest)
        = (if ((finalState (step view input s)).ingestGuard.window p).order
            = (s.ingestGuard.window p).order then 0 else 1)
          + recorded p (finalState (step view input s)) rest := rfl
    rw [hcount] at hfew
    rcases hsteps.window p with hsame | ⟨new, hnew, hpush⟩
    · refine ih (hsound.steps hsteps) (hsame ▸ hsince) ?_ (run_cons hrun)
      omega
    · -- a new id is in the order, so the input counts
      have hne : ((finalState (step view input s)).ingestGuard.window p).order
          ≠ (s.ingestGuard.window p).order := by
        intro heq
        have hlast : ((s.ingestGuard.window p).push authorIdWindow new).Since new 0 :=
          (hsound.window p).since_push (by decide)
        obtain ⟨pre, post, hsplit, -⟩ := hlast
        rw [hpush, hsound.max, hsplit] at heq
        exact (hsound.window p).notMem_order hnew (heq ▸ by simp)
      rw [if_neg hne] at hfew
      refine ih (k := k + 1) (hsound.steps hsteps) ?_ ?_ (run_cons hrun)
      · rw [hpush, hsound.max]
        exact hsince.push (hsound.window p) (by omega)
      · omega

omit [WireCodec] in
/-- The id depends on the sender, the payload and the time only. -/
theorem gossipId_congr {s s' : NodeRunner} {fromPeer : String} {payload : Bytes}
    (h : World.clock (s'.calls + 1) = World.clock (s.calls + 1)) :
    gossipId s' fromPeer payload = gossipId s fromPeer payload := by
  unfold gossipId gossipMessage
  rw [h]

/-- **When a replayed payload is recognised.** A payload was delivered, and fewer than 512 messages
of its sender were recorded since. When it arrives again with its envelope made in the same
millisecond, it is not delivered again. And that is the only way to recognise it: if it passes the
checks that do not look at ids, and no other message has the id that it gets, then it is delivered
again at every other millisecond. -/
theorem gossip_replay_iff {c : NodeConfig} {pre mid : List (TransportView × Input)}
    {view₁ view₂ : TransportView} {fromPeer scope₁ scope₂ : String} {payload : Bytes}
    {s₁ s₂ : NodeRunner} (hfirst : runLoop pre (.new c) = .ok () s₁)
    (hdelivered : ∃ m, .deliver .gossip m
      ∈ inputOutputs { s₁ with transport := view₁ } (.scoped fromPeer scope₁ payload))
    (hrun : runLoop (pre ++ (view₁, .scoped fromPeer scope₁ payload) :: mid) (.new c) = .ok () s₂)
    (hfew : recorded fromPeer (finalState (step view₁ (.scoped fromPeer scope₁ payload) s₁)) mid
      < authorIdWindow) :
    (World.clock (s₂.calls + 1) = World.clock (s₁.calls + 1) →
      ¬ ∃ m, .deliver .gossip m
        ∈ inputOutputs { s₂ with transport := view₂ } (.scoped fromPeer scope₂ payload))
    ∧ (LetIn { s₂ with transport := view₂ } fromPeer scope₂ payload →
      (World.clock (s₂.calls + 1) ≠ World.clock (s₁.calls + 1) →
        NewId { s₂ with transport := view₂ } fromPeer payload) →
      ((¬ ∃ m, .deliver .gossip m
          ∈ inputOutputs { s₂ with transport := view₂ } (.scoped fromPeer scope₂ payload))
        ↔ World.clock (s₂.calls + 1) = World.clock (s₁.calls + 1))) := by
  have hsound := sound_reachable hfirst
  rw [runLoop_append, run_bind_of_ok hfirst] at hrun
  have hmid := run_cons hrun
  -- the delivery recorded the id
  have hsince : ((finalState (step view₁ (.scoped fromPeer scope₁ payload) s₁)).ingestGuard.window
      fromPeer).Since (gossipId s₁ fromPeer payload) 0 := by
    have harrived :=
      handleScopedReceived_arrived { s₁ with transport := view₁ } fromPeer scope₁ payload
    cases harrived with
    | silent hnot _ _ => exact absurd ((deliver_gossip_iff _ _ _ _).mp hdelivered) hnot
    | delivered body _ _ _ _ hwindow =>
      have hpush : ((s₁.ingestGuard.window fromPeer).push authorIdWindow
          (gossipId s₁ fromPeer payload)).Since (gossipId s₁ fromPeer payload) 0 :=
        (hsound.window fromPeer).since_push (by decide)
      rw [← hsound.max] at hpush
      exact hwindow ▸ hpush
  have hsteps : s₁.ingestGuard.Steps
      (finalState (step view₁ (.scoped fromPeer scope₁ payload) s₁)).ingestGuard :=
    guard_input { s₁ with transport := view₁ } (.scoped fromPeer scope₁ payload)
  have hcontains := since_run (hsound.steps hsteps) hsince (by omega) hmid
  -- within the millisecond, the id is the old one, which is still in the window
  have hrecognised : World.clock (s₂.calls + 1) = World.clock (s₁.calls + 1) →
      ¬ ∃ m, .deliver .gossip m
        ∈ inputOutputs { s₂ with transport := view₂ } (.scoped fromPeer scope₂ payload) := by
    intro hsame hagain
    obtain ⟨-, hunrecorded, -⟩ := (deliver_gossip_iff _ _ _ _).mp hagain
    have hid : gossipId { s₂ with transport := view₂ } fromPeer payload
        = gossipId s₁ fromPeer payload := gossipId_congr hsame
    rw [hid] at hunrecorded
    cases hcontains.symm.trans hunrecorded
  refine ⟨hrecognised, fun hletIn hown => ⟨fun hnot => ?_, hrecognised⟩⟩
  by_contra hlater
  exact hnot ((deliver_gossip_iff _ _ _ _).mpr ⟨hletIn, hown hlater⟩)

end

section

attribute [local instance] hashingPrims noCodec

/-- A listing arrives from peer 1. -/
abbrev listingGossip : Input := .scoped (symbolicPeer 1) "mycelium/appstore/v1" [7, 7, 7]

/-- Node 2 after these inputs. -/
def listingNode [World] (inputs : List (TransportView × Input)) : NodeRunner :=
  finalState (runLoop inputs (.new (symbolicConfig 2 3)))

section

@[reducible] def oneMsWorld : World := stillWorld 5000000

attribute [local instance] oneMsWorld

/-- Within one millisecond, a listing that arrives twice is delivered once. -/
theorem gossip_replay_same_ms :
    (∃ m, .deliver .gossip m ∈ inputOutputs { listingNode [] with transport := {} } listingGossip)
      ∧ ¬ ∃ m, .deliver .gossip m
        ∈ inputOutputs { listingNode [({}, listingGossip)] with transport := {} } listingGossip := by
  have hfirst : runLoop [] (.new (symbolicConfig 2 3)) = .ok () (listingNode []) :=
    eq_ok_of_succeeded (by decide +kernel)
  have hdelivered : ∃ m, .deliver .gossip m
      ∈ inputOutputs { listingNode [] with transport := {} } listingGossip :=
    ⟨gossipMessage (listingNode []) (symbolicPeer 1) [7, 7, 7] "[appstore]", by decide +kernel⟩
  have hrun : runLoop ([] ++ (({} : TransportView), listingGossip) :: [])
      (.new (symbolicConfig 2 3)) = .ok () (listingNode [({}, listingGossip)]) :=
    eq_ok_of_succeeded (by decide +kernel)
  have hfew : recorded (symbolicPeer 1) (finalState (step {} listingGossip (listingNode []))) []
      < authorIdWindow := by
    rw [recorded]
    decide
  exact ⟨hdelivered, (gossip_replay_iff hfirst hdelivered hrun hfew).1 rfl⟩

end

/-- The clock goes on by a millisecond after its fourth reading. -/
@[reducible] def tickingWorld : World :=
  { stillWorld 0 with clock := fun n => if n < 4 then 5000000 else 5000001 }

attribute [local instance] tickingWorld

/-- The clock goes on once. -/
theorem tickingWorld_monotone : ClockMonotone := by
  intro i j hij
  show (if i < 4 then 5000000 else 5000001 : UInt64).toNat
    ≤ (if j < 4 then 5000000 else 5000001 : UInt64).toNat
  split
  · split
    · exact Nat.le_refl _
    · decide
  · rw [if_neg (by omega)]

/-- The listing arrives a second time, nothing having been recorded in between, and is delivered
again. -/
theorem gossip_replayed :
    ClockMonotone
    ∧ (∃ m, .deliver .gossip m ∈ inputOutputs { listingNode [] with transport := {} } listingGossip)
    ∧ recorded (symbolicPeer 1) (finalState (step {} listingGossip (listingNode []))) [] = 0
    ∧ ∃ m, .deliver .gossip m
        ∈ inputOutputs { listingNode [({}, listingGossip)] with transport := {} } listingGossip := by
  refine ⟨tickingWorld_monotone, ?_, by rw [recorded], ?_⟩
  · exact ⟨gossipMessage (listingNode []) (symbolicPeer 1) [7, 7, 7] "[appstore]", by decide +kernel⟩
  · rw [deliver_gossip_iff]
    refine ⟨⟨?_, ?_, ?_, ?_, ?_⟩, ?_, ?_⟩
    · decide +kernel
    · decide +kernel
    · decide +kernel
    · decide +kernel
    · decide +kernel
    · decide +kernel
    · decide +kernel

end

end Mycelium.Node

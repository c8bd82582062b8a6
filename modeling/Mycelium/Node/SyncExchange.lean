import Mycelium.Lib.Countdown
import Mycelium.Node.StoreOrigin

/-!
# Mycelium node — anti-entropy between two nodes comes to rest

A `SyncBloom` frame is answered with the ids the other side lacks, or, by a node that has less
than 0.8 times as many, with a filter of its own. The second filter is never answered with a
third: the node it goes to is the one that had more. What is left is ids, request, data.

* `answersBack_of_answered` — of two nodes, at most one answers with a filter. It holds for the
  comparison over the rationals and for the one the hardware makes;
* `Due` — the stages of the exchange, a countdown from five;
* `sync_bloom_quiesces` — the exchange, for any two nodes.
-/

namespace Mycelium.Node

/-! ## The comparison -/

/-- How far rounding can move a number; in truth, far less. -/
theorem f64Round_bounds (n : Nat) : 63 * n ≤ 64 * f64Round n ∧ 64 * f64Round n ≤ 65 * n := by
  unfold f64Round
  split
  · omega
  · next hbig =>
    have hn : n ≠ 0 := by omega
    have hlog : 53 ≤ n.log2 := (Nat.le_log2 hn).mpr (Nat.not_lt.mp hbig)
    have hpow : 2 ^ n.log2 ≤ n := Nat.log2_self_le hn
    have hsplit : 2 ^ n.log2 = 2 ^ (n.log2 - 52) * 2 ^ 52 := by
      rw [← pow_add]
      congr 1
      omega
    have hdiv := Nat.div_add_mod n (2 ^ (n.log2 - 52))
    have hmod := Nat.mod_lt n (Nat.two_pow_pos (n.log2 - 52))
    rw [Nat.mul_comm] at hdiv
    simp only
    generalize 2 ^ (n.log2 - 52) = ulp at *
    generalize n / ulp = q at *
    generalize n % ulp = r at *
    split
    · rw [Nat.add_mul]
      omega
    · omega

/-- A node that is below what the other announced announces less than the other has. -/
theorem answersBack_of_answered (a : Arithmetic) {own other : Nat}
    (h : a.below own (UInt64.ofNat other) = true) : a.below other (UInt64.ofNat own) = false := by
  have hother : (UInt64.ofNat other).toNat ≤ other := Nat.mod_le _ _
  have hown : (UInt64.ofNat own).toNat ≤ own := Nat.mod_le _ _
  cases a with
  | rational =>
    simp only [Arithmetic.below, decide_eq_true_eq, decide_eq_false_iff_not, not_lt] at h ⊢
    have hother' : ((UInt64.ofNat other).toNat : ℚ) ≤ other := Nat.cast_le.mpr hother
    have hown' : ((UInt64.ofNat own).toNat : ℚ) ≤ own := Nat.cast_le.mpr hown
    linarith
  | binary64 =>
    simp only [Arithmetic.below, belowSyncThreshold, decide_eq_true_eq, decide_eq_false_iff_not,
      not_lt] at h ⊢
    unfold syncThreshold at h ⊢
    have h1 := f64Round_bounds (UInt64.ofNat other).toNat
    have h2 := f64Round_bounds (f64Round (UInt64.ofNat other).toNat * f64Eight10ths)
    have h3 := f64Round_bounds (UInt64.ofNat own).toNat
    have h4 := f64Round_bounds (f64Round (UInt64.ofNat own).toNat * f64Eight10ths)
    have h5 := f64Round_bounds own
    have h6 := f64Round_bounds other
    unfold f64Eight10ths at *
    omega

/-! ## What a node answers -/

section

variable [Prims] [World]

/-- `handleIncomingDirect`, with the comparison as a parameter. -/
def receive (a : Arithmetic) (fromPeer : String) (message : WireMessage) : NodeM Unit := do
  if ← isThrottled fromPeer then pure ()
  else
    match message with
    | .syncBloom bloom count => handleSyncBloomBy a fromPeer bloom count
    | message => afterGate (hopGate fromPeer message) (handleWireMessage fromPeer message)

/-- Over `f64` it is the handler of the node. -/
theorem receive_binary64 (fromPeer : String) (message : WireMessage) :
    receive .binary64 fromPeer message = handleIncomingDirect fromPeer message := by
  unfold receive handleIncomingDirect
  congr 1
  funext throttled
  cases message <;> rfl

/-- The handler returns and sends `reply` back, if anything. -/
structure Replies (m : NodeM Unit) (peer : String) (s : NodeRunner) (reply : Option WireMessage)
    (s' : NodeRunner) : Prop where
  run : m s = .ok () s'
  out : s'.out = s.out ++ (reply.map (Output.sendDirect peer)).toList

/-- The clock stands at `now`, and every frame can be sent. -/
def Still (now : UInt64) : Prop :=
  (∀ n, World.clock n = now) ∧ ∀ n peer, World.sendOk n peer = true

variable {now : UInt64} {peer : String} {s : NodeRunner}

omit [Prims] [World] in
theorem replies_none : Replies (pure ()) peer s none s := ⟨rfl, (List.append_nil _).symm⟩

omit [Prims] in
theorem replies_sendDirect (hstill : Still now) (peer : String) (w : WireMessage) :
    ∃ s', Replies (sendDirect peer w) peer s (some w) s' ∧ s'.store = s.store := by
  refine ⟨{ s with calls := s.calls + 1, out := s.out ++ [.sendDirect peer w] }, ⟨?_, rfl⟩, rfl⟩
  rw [sendDirect_run, hstill.2, if_pos rfl]

/-- A filter is answered with ids, with the own filter of a node that is below, or not at all. -/
theorem handleSyncBloomBy_replies (hstill : Still now) (a : Arithmetic) (bloom : Bytes)
    (count : UInt64) :
    ∃ reply s', Replies (handleSyncBloomBy a peer bloom count) peer s reply s'
      ∧ ∀ w ∈ reply, (∃ ids, w = .syncIds ids)
        ∨ a.below (s.store.listIdsWindow now 600000).length count = true
          ∧ ∃ filter, w = .syncBloom filter
              (UInt64.ofNat (s.store.listIdsWindow now 600000).length) := by
  unfold handleSyncBloomBy
  split
  · exact ⟨none, s, replies_none, nofun⟩
  · next remoteBloom _ =>
    -- the window is read once, at a clock that stands still
    have hlist : listIdsWindow s
        = .ok (s.store.listIdsWindow now 600000) { s with calls := s.calls + 1 } := by
      unfold listIdsWindow
      rw [run_bind_of_ok (nowMs_run s), hstill.1]
      rfl
    have hthrough : ∀ (f : List String → NodeM Unit) reply s',
        Replies (f (s.store.listIdsWindow now 600000)) peer { s with calls := s.calls + 1 } reply s' →
        Replies (listIdsWindow >>= f) peer s reply s' :=
      fun f reply s' h => ⟨(run_bind_of_ok hlist).trans h.run, h.out⟩
    generalize s.store.listIdsWindow now 600000 = ownIds at *
    -- more here: ids, fewer here: the own filter, in any other case nothing
    by_cases habove : (a.above ownIds.length count
        && !(ownIds.filter fun id => !remoteBloom.contains id).isEmpty) = true
    · obtain ⟨s', hs', -⟩ := replies_sendDirect (s := { s with calls := s.calls + 1 }) hstill
        peer (.syncIds ((ownIds.filter fun id => !remoteBloom.contains id).take 256))
      refine ⟨_, s', hthrough _ _ _ (by rw [if_pos habove]; exact hs'), ?_⟩
      rintro w ⟨⟩
      exact .inl ⟨_, rfl⟩
    · by_cases hbelow : a.below ownIds.length count = true
      · obtain ⟨s', hs', -⟩ := replies_sendDirect (s := { s with calls := s.calls + 1 }) hstill
          peer (.syncBloom (BloomFilter.ofIds ownIds).toBytes (UInt64.ofNat ownIds.length))
        refine ⟨_, s', hthrough _ _ _ (by rw [if_neg habove, if_pos hbelow]; exact hs'), ?_⟩
        rintro w ⟨⟩
        exact .inr ⟨hbelow, _, rfl⟩
      · refine ⟨none, _, hthrough _ _ _ (by rw [if_neg habove, if_neg hbelow]; exact replies_none), ?_⟩
        exact nofun

omit [Prims] in
/-- A list that is not empty is sent. -/
theorem replies_unless_empty (hstill : Still now) {α : Type} (l : List α) (w : WireMessage) :
    ∃ reply s', Replies (if l.isEmpty then pure () else sendDirect peer w) peer s reply s'
      ∧ ∀ v ∈ reply, v = w := by
  by_cases hempty : l.isEmpty = true
  · exact ⟨none, s, by rw [if_pos hempty]; exact replies_none, nofun⟩
  · obtain ⟨s', hs', -⟩ := replies_sendDirect hstill peer w
    refine ⟨some w, s', by rw [if_neg hempty]; exact hs', ?_⟩
    rintro v ⟨⟩
    rfl

omit [Prims] in
theorem handleSyncIds_replies (hstill : Still now) (ids : List String) :
    ∃ reply s', Replies (handleSyncIds peer ids) peer s reply s'
      ∧ ∀ w ∈ reply, ∃ missing, w = .syncRequest missing := by
  obtain ⟨reply, s', hreply, hw⟩ := replies_unless_empty (s := s) hstill
    ((ids.take 256).filter fun id => !s.store.contains id)
    (.syncRequest ((ids.take 256).filter fun id => !s.store.contains id))
  exact ⟨reply, s', ⟨hreply.run, hreply.out⟩, fun w hmem => ⟨_, hw w hmem⟩⟩

omit [Prims] in
theorem handleSyncRequest_replies (hstill : Still now) (ids : List String) :
    ∃ reply s', Replies (handleSyncRequest peer ids) peer s reply s'
      ∧ ∀ w ∈ reply, ∃ messages, w = .syncData messages := by
  obtain ⟨reply, s', hreply, hw⟩ := replies_unless_empty (s := s) hstill
    ((ids.take 128).filterMap s.store.loadById)
    (.syncData ((ids.take 128).filterMap s.store.loadById))
  exact ⟨reply, s', ⟨hreply.run, hreply.out⟩, fun w hmem => ⟨_, hw w hmem⟩⟩

/-- Data is taken in silently. Induction on the messages. -/
theorem handleSyncData_replies (messages : List DirectMessage) :
    ∀ s, ∃ s', Replies (handleSyncData messages) peer s none s' := by
  induction messages with
  | nil => exact fun s => ⟨s, replies_none⟩
  | cons m messages ih =>
    intro s
    have hstep : ∀ ok s₁, ingest m false s = .ok ok s₁ → s₁.out = s.out →
        ∃ s', Replies (handleSyncData (m :: messages)) peer s none s' := by
      intro ok s₁ hrun hout
      obtain ⟨s', hs'⟩ := ih s₁
      exact ⟨s', (handleSyncData_cons hrun messages).trans hs'.run, hout ▸ hs'.out⟩
    have hingest := ingest_run m s
    split at hingest
    · exact hstep _ _ hingest rfl
    · exact hstep _ _ hingest rfl

/-- The throttle in front: a frame of a throttled peer is not answered. -/
theorem receive_replies {a : Arithmetic} {w : WireMessage} {P : Option WireMessage → Prop}
    (hnone : P none) {m : NodeM Unit}
    (hm : ∀ s', (match w with
      | .syncBloom bloom count => handleSyncBloomBy a peer bloom count
      | w => afterGate (hopGate peer w) (handleWireMessage peer w)) s' = m s')
    (h : ∃ reply s', Replies m peer (afterThrottle s peer) reply s' ∧ P reply) :
    ∃ reply s', Replies (receive a peer w) peer s reply s' ∧ P reply := by
  have hrun : receive a peer w s = if throttledAt s peer (World.clock s.calls) then
      .ok () (afterThrottle s peer) else m (afterThrottle s peer) := by
    unfold receive
    rw [run_bind_of_ok (isThrottled_run peer s), ← hm]
    by_cases hthrottled : throttledAt s peer (World.clock s.calls) = true
    · rw [if_pos hthrottled, if_pos hthrottled]
      rfl
    · rw [if_neg hthrottled, if_neg hthrottled]
      rfl
  by_cases hthrottled : throttledAt s peer (World.clock s.calls) = true
  · rw [if_pos hthrottled] at hrun
    exact ⟨none, _, ⟨hrun, (List.append_nil _).symm⟩, hnone⟩
  · rw [if_neg hthrottled] at hrun
    obtain ⟨reply, s', hreply, hP⟩ := h
    exact ⟨reply, s', ⟨hrun.trans hreply.run, hreply.out⟩, hP⟩

end

/-! ## Two nodes -/

inductive Side where
  | left
  | right
deriving DecidableEq, Repr

def Side.other : Side → Side
  | .left => .right
  | .right => .left

/-- A node's name and its environment, in which the clock stands and nothing is lost. -/
structure Party where
  peerId : String
  world : World
  now : UInt64
  still : @Still world now

/-- The ids of the messages stored in the last ten minutes. -/
def Party.window (party : Party) (s : NodeRunner) : List String :=
  s.store.listIdsWindow party.now 600000

/-- Two nodes and the frames between them, each with the side it goes to. -/
structure Pair where
  node : Side → NodeRunner
  flight : List (Side × WireMessage)

inductive FrameKind where
  | syncBloom
  | syncIds
  | syncRequest
  | syncData
  | other
deriving DecidableEq, Repr

def frameKind : WireMessage → FrameKind
  | .syncBloom _ _ => .syncBloom
  | .syncIds _ => .syncIds
  | .syncRequest _ => .syncRequest
  | .syncData _ => .syncData
  | _ => .other

/-- The frames to `peer` among what a node has done since it had done `before`. -/
def framesTo (peer : String) (before after : List Output) : List WireMessage :=
  (after.drop before.length).filterMap fun o =>
    match o with
    | .sendDirect toPeer w => if toPeer = peer then some w else none
    | _ => none

theorem framesTo_append (peer : String) (out : List Output) (reply : Option WireMessage) :
    framesTo peer out (out ++ (reply.map (Output.sendDirect peer)).toList) = reply.toList := by
  cases reply <;> simp [framesTo]

section

variable [Prims] (a : Arithmetic) (party : Side → Party)

/-- What the two nodes and the frames between them are after node `x` has come to `s'`: what it
sent goes to the other. -/
def Pair.after (p : Pair) (x : Side) (s' : NodeRunner) (flight : List (Side × WireMessage)) : Pair where
  node := Function.update p.node x s'
  flight := flight ++ (framesTo (party x.other).peerId (p.node x).out s'.out).map fun w => (x.other, w)

/-- One of the frames arrives. The label is what its receiver sends. -/
inductive Exchanges : Pair → List FrameKind → Pair → Prop
  | deliver {p : Pair} {pre post : List (Side × WireMessage)} {x : Side} {w : WireMessage}
      {s' : NodeRunner} (hflight : p.flight = pre ++ (x, w) :: post)
      (hrun : @receive _ (party x).world a (party x.other).peerId w (p.node x) = .ok () s') :
      Exchanges p ((framesTo (party x.other).peerId (p.node x).out s'.out).map frameKind)
        (p.after party x s' (pre ++ post))

/-- With no frame between them, node `x` runs `send_sync_bloom` for the other. -/
inductive Opens (x : Side) : Pair → Pair → Prop
  | send {p : Pair} {s' : NodeRunner} (hflight : p.flight = [])
      (hrun : @sendSyncBloom _ (party x).world (party x.other).peerId (p.node x) = .ok () s') :
      Opens x p (p.after party x s' [])

/-- The stages of an exchange, by the frame that is under way. -/
inductive Due : Nat → Pair → Prop
  | silent {p : Pair} (hflight : p.flight = []) : Due 0 p
  | data {p : Pair} {x : Side} {messages : List DirectMessage}
      (hflight : p.flight = [(x, .syncData messages)]) : Due 1 p
  | request {p : Pair} {x : Side} {ids : List String}
      (hflight : p.flight = [(x, .syncRequest ids)]) : Due 2 p
  | ids {p : Pair} {x : Side} {ids : List String}
      (hflight : p.flight = [(x, .syncIds ids)]) : Due 3 p
  /-- A filter for a node that is not below the count it says. -/
  | answer {p : Pair} {x : Side} {bloom : Bytes} {count : UInt64}
      (hflight : p.flight = [(x, .syncBloom bloom count)])
      (habove : a.below ((party x).window (p.node x)).length count = false) : Due 4 p
  /-- A filter with the count of the node it comes from. -/
  | opened {p : Pair} {x : Side} {bloom : Bytes}
      (hflight : p.flight = [(x, .syncBloom bloom
        (UInt64.ofNat ((party x.other).window (p.node x.other)).length))]) : Due 5 p

/-- What may still be sent. -/
def stillDue : Nat → List FrameKind
  | 5 => [.syncBloom, .syncIds, .syncRequest, .syncData]
  | 4 => [.syncIds, .syncRequest, .syncData]
  | 3 => [.syncRequest, .syncData]
  | 2 => [.syncData]
  | _ => []

variable {a party} {p : Pair} {x : Side} {w : WireMessage} {P : Option WireMessage → Prop}

/-- When one frame is under way, one step is possible, and it is the receiver's answer. -/
theorem delivers_single (hflight : p.flight = [(x, w)])
    (h : ∃ reply s', @Replies (@receive _ (party x).world a (party x.other).peerId w)
      (party x.other).peerId (p.node x) reply s' ∧ P reply) :
    (∃ out q, Exchanges a party p out q)
    ∧ ∀ out q, Exchanges a party p out q → ∃ reply s', P reply
        ∧ out = reply.toList.map frameKind ∧ q.node = Function.update p.node x s'
        ∧ q.flight = reply.toList.map fun w => (x.other, w) := by
  obtain ⟨reply, s', hreply, hP⟩ := h
  have hstep : Exchanges a party p _ _ :=
    .deliver (show p.flight = [] ++ (x, w) :: [] from hflight) hreply.run
  refine ⟨⟨_, _, hstep⟩, ?_⟩
  rintro _ _ ⟨hsplit, hrun⟩
  rename_i pre post x' w' s''
  -- one frame is in flight, so the delivered one is that one
  have hone : pre = [] ∧ (x', w') = (x, w) ∧ post = [] := by
    rw [hflight] at hsplit
    cases pre with
    | nil =>
      obtain ⟨hhead, htail⟩ := List.cons.inj hsplit
      exact ⟨rfl, hhead.symm, htail.symm⟩
    | cons f pre => simp at hsplit
  obtain ⟨rfl, heq, rfl⟩ := hone
  obtain ⟨rfl, rfl⟩ := Prod.mk.inj heq
  obtain rfl : s'' = s' := (EStateM.Result.ok.inj (hrun.symm.trans hreply.run)).2
  refine ⟨reply, s'', hP, ?_, rfl, ?_⟩
  · rw [hreply.out, framesTo_append]
  · simp only [Pair.after]
    rw [hreply.out, framesTo_append]
    rfl

/-- So the stage goes down if it does after every answer that is one. -/
theorem advance_of_answers {k : Nat} (hflight : p.flight = [(x, w)])
    (h : ∃ reply s', @Replies (@receive _ (party x).world a (party x.other).peerId w)
      (party x.other).peerId (p.node x) reply s' ∧ P reply)
    (hanswer : ∀ v s' q, P (some v) → q.node = Function.update p.node x s' →
      q.flight = [(x.other, v)] →
      ∃ j < k + 1, Due a party j q ∧ (frameKind v :: stillDue j).Sublist (stillDue (k + 1))) :
    (∃ out q, Exchanges a party p out q)
    ∧ ∀ out q, Exchanges a party p out q →
      ∃ j < k + 1, Due a party j q ∧ (out ++ stillDue j).Sublist (stillDue (k + 1)) := by
  obtain ⟨hfires, hnext⟩ := delivers_single hflight h
  refine ⟨hfires, ?_⟩
  intro out q hq
  obtain ⟨reply, s', hP, rfl, hnode, hflight'⟩ := hnext out q hq
  cases reply with
  | none => exact ⟨0, Nat.succ_pos k, .silent hflight', List.nil_sublist _⟩
  | some v => exact hanswer v s' q hP hnode hflight'

/-- The frame under way is handled, and what it leads to is at most what was still due. -/
theorem due_advance {k : Nat} (h : Due a party (k + 1) p) :
    (∃ out q, Exchanges a party p out q)
    ∧ ∀ out q, Exchanges a party p out q →
      ∃ j < k + 1, Due a party j q ∧ (out ++ stillDue j).Sublist (stillDue (k + 1)) := by
  cases h with
  | @data _ x messages hflight =>
    let _ := (party x).world
    obtain ⟨s', hs'⟩ := handleSyncData_replies messages
      (afterThrottle (p.node x) (party x.other).peerId)
    have hdata : ∃ reply s', Replies (handleSyncData messages) (party x.other).peerId
        (afterThrottle (p.node x) (party x.other).peerId) reply s' ∧ ∀ w ∈ reply, False :=
      ⟨none, s', hs', nofun⟩
    refine advance_of_answers hflight (receive_replies nofun (fun _ => rfl) hdata) ?_
    intro w s' q hw
    exact (hw w rfl).elim
  | @request _ x ids hflight =>
    let _ := (party x).world
    refine advance_of_answers hflight (receive_replies nofun (fun _ => rfl)
      (handleSyncRequest_replies (party x).still ids)) ?_
    intro w s' q hw _ hq
    obtain ⟨messages, rfl⟩ := hw w rfl
    exact ⟨1, by omega, .data hq, List.Sublist.refl _⟩
  | @ids _ x ids hflight =>
    let _ := (party x).world
    refine advance_of_answers hflight (receive_replies nofun (fun _ => rfl)
      (handleSyncIds_replies (party x).still ids)) ?_
    intro w s' q hw _ hq
    obtain ⟨missing, rfl⟩ := hw w rfl
    exact ⟨2, by omega, .request hq, List.Sublist.refl _⟩
  | @answer _ x bloom count hflight habove =>
    let _ := (party x).world
    refine advance_of_answers hflight (receive_replies nofun (fun _ => rfl)
      (handleSyncBloomBy_replies (party x).still a bloom count)) ?_
    intro w s' q hw _ hq
    rcases hw w rfl with ⟨ids, rfl⟩ | ⟨hbelow, -⟩
    · exact ⟨3, by omega, .ids hq, List.Sublist.refl _⟩
    · exact absurd (hbelow.symm.trans habove) (by decide)
  | @opened _ x bloom hflight =>
    let _ := (party x).world
    refine advance_of_answers hflight (receive_replies nofun (fun _ => rfl)
      (handleSyncBloomBy_replies (party x).still a bloom _)) ?_
    intro w s' q hw hnode hq
    rcases hw w rfl with ⟨ids, rfl⟩ | ⟨hbelow, filter, rfl⟩
    · exact ⟨3, by omega, .ids hq, List.sublist_cons_self _ _⟩
    · -- the filter goes back to a node that has changed nothing since it sent the first one
      refine ⟨4, by omega, .answer hq ?_, List.Sublist.refl _⟩
      have hback := answersBack_of_answered a hbelow
      rw [hnode, Function.update_of_ne (by cases x <;> decide)]
      exact hback

theorem due_stages (a : Arithmetic) (party : Side → Party) :
    Countdown.Stages (Exchanges a party) (Due a party) stillDue where
  fires h := (due_advance h).1
  down := by
    intro k p out q hp hstep
    cases k with
    | succ k => exact (due_advance hp).2 out q hstep
    | zero =>
      obtain ⟨hflight⟩ := hp
      obtain ⟨hsplit, -⟩ := hstep
      rw [hflight] at hsplit
      exact absurd hsplit.symm (by simp)

/-- A node announces what it has: nothing, or its filter with its count. -/
theorem Opens.due {q : Pair} (h : Opens party x p q) (a : Arithmetic) :
    Due a party 0 q ∨ Due a party 5 q := by
  obtain ⟨hflight, hrun⟩ := h
  rename_i s'
  let _ := (party x).world
  have hlist : listIdsWindow (p.node x)
      = .ok ((party x).window (p.node x)) { p.node x with calls := (p.node x).calls + 1 } := by
    unfold listIdsWindow
    rw [run_bind_of_ok (nowMs_run _), (party x).still.1]
    rfl
  unfold sendSyncBloom at hrun
  rw [run_bind_of_ok hlist] at hrun
  -- nothing to tell, or one Bloom frame is in flight
  by_cases hempty : ((party x).window (p.node x)).isEmpty = true
  · rw [if_pos hempty] at hrun
    obtain rfl := (EStateM.Result.ok.inj hrun).2
    refine .inl (.silent ?_)
    simp [Pair.after, framesTo]
  · rw [if_neg hempty] at hrun
    obtain ⟨s'', hs'', hstore⟩ := replies_sendDirect (party x).still (party x.other).peerId
      (.syncBloom (BloomFilter.ofIds ((party x).window (p.node x))).toBytes
        (UInt64.ofNat ((party x).window (p.node x)).length))
    obtain rfl : s' = s'' := (EStateM.Result.ok.inj (hrun.symm.trans hs''.run)).2
    have hwindow : (party x).window s' = (party x).window (p.node x) := by
      unfold Party.window
      rw [hstore]
    have hother : x.other.other = x := by cases x <;> rfl
    refine .inr (@Due.opened _ _ _ x.other
      (BloomFilter.ofIds ((party x).window (p.node x))).toBytes ?_)
    simp only [Pair.after, hother, Function.update_self, hwindow]
    rw [hs''.out]
    exact congrArg (List.map _) (framesTo_append _ _ _)

/-- **Anti-entropy comes to rest.** For any two nodes, whatever they store: after one of them has
sent its filter, what follows is at most another filter, ids, a request and data, in this order;
after at most five deliveries nothing is under way, and however far the exchange has got, it can be
brought to that point. -/
theorem sync_bloom_quiesces (a : Arithmetic) (party : Side → Party) {x : Side} {p q : Pair}
    (hopen : Opens party x p q) (out : List FrameKind) (n : Nat) (r : Pair)
    (hrun : Countdown.Run (Exchanges a party) q out n r) :
    out.Sublist [.syncBloom, .syncIds, .syncRequest, .syncData] ∧ n ≤ 5
      ∧ ∃ out' n' t, Countdown.Run (Exchanges a party) r out' n' t ∧ t.flight = [] := by
  have hdue : ∃ k ≤ 5, Due a party k q ∧ (stillDue k).Sublist (stillDue 5) := by
    rcases hopen.due a with h | h
    · exact ⟨0, by omega, h, List.nil_sublist _⟩
    · exact ⟨5, by omega, h, List.Sublist.refl _⟩
  obtain ⟨k, hk, hq, hrest⟩ := hdue
  obtain ⟨j, hj, hr, hout⟩ := (due_stages a party).run hrun hq
  refine ⟨((List.sublist_append_left out _).trans hout).trans hrest, by omega, ?_⟩
  obtain ⟨out', n', t, hrun', ht⟩ := (due_stages a party).ends hr
  obtain ⟨hflight⟩ := ht
  exact ⟨out', n', t, hrun', hflight⟩

end

section

attribute [local instance] symbolicPrims

/-- Node 1 has a message, node 2 has none. -/
def unequalPair : Pair where
  node
    | .left => { symbolicNode 1 3 5000000 with
        store := (SledMessageStore.openDb ∅).persist 5000000 (symbolicMessage 1 (symbolicPeer 2) 5000000)
        out := [] }
    | .right => { symbolicNode 2 4 5000000 with out := [] }
  flight := []

def stillParty (b : UInt8) : Party where
  peerId := symbolicPeer b
  world := stillWorld 5000000
  now := 5000000
  still := ⟨fun _ => rfl, fun _ _ => rfl⟩

def stillParties : Side → Party
  | .left => stillParty 1
  | .right => stillParty 2

/-- Node 1 has opened an exchange. -/
def openedPair : Pair :=
  unequalPair.after stillParties .left (finalState (@sendSyncBloom _ (stillWorld 5000000)
    (symbolicPeer 2) (unequalPair.node .left))) []

/-- Node 1 opens an exchange, node 2 answers with its own filter, and it comes to rest. -/
theorem sync_bloom_quiesces_unequal :
    Opens stillParties .left unequalPair openedPair
    ∧ ∃ out r, Countdown.Run (Exchanges .rational stillParties) openedPair out 1 r
      ∧ out = [.syncBloom] ∧ out.Sublist [.syncBloom, .syncIds, .syncRequest, .syncData]
      ∧ ∃ out' n t, Countdown.Run (Exchanges .rational stillParties) r out' n t ∧ t.flight = [] := by
  have hopen : Opens stillParties .left unequalPair openedPair := .send rfl rfl
  have hflight : openedPair.flight = [] ++ (.right, .syncBloom _ _) :: [] := rfl
  have hanswer : Exchanges .rational stillParties openedPair _ _ :=
    .deliver hflight (eq_ok_of_succeeded (by decide +kernel))
  have hrun := Countdown.Run.cons hanswer (.nil _)
  obtain ⟨hkinds, -, hrest⟩ := sync_bloom_quiesces .rational stillParties hopen _ 1 _ hrun
  exact ⟨hopen, _, _, hrun, by decide +kernel, hkinds, hrest⟩

end

end Mycelium.Node

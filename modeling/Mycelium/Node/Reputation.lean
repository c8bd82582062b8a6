import Mycelium.Node.DataFrames
import Mycelium.Node.Network
import Mycelium.Node.Symbolic
import Mycelium.Node.Tables

/-!
# Mycelium node — what throttles a peer

A strike is charged to the peer that delivers a `Data` frame, whoever wrote it: for an
invalid signature, for a replayed id, for an author over its rate, and for a message that is
expired or known. Duplicates are the normal case where several relays forward one message, so
the reputation of a relay depends on who was faster.

* `strikeTimes` — the strikes a run charges to one peer, in their order;
* `struck_input` — what a strike does to the entry of the peer;
* `strikes_throttle` — a peer is throttled only after three strikes in a row, each within a minute
  of the one before, and each of them raises its entry.
-/

namespace Mycelium.Node

/-- The second strike comes no more than a minute after the first. -/
def Close (t t' : UInt64) : Prop := U64.satSub t' t ≤ 60 * 1000

/-- Three strikes in a row, each close to the one before. -/
def ThreeInARow (times : List UInt64) : Prop :=
  ∃ pre t₁ t₂ t₃ post, times = pre ++ [t₁, t₂, t₃] ++ post ∧ Close t₁ t₂ ∧ Close t₂ t₃

/-- Three in a row stay three in a row. -/
theorem ThreeInARow.append {times : List UInt64} (h : ThreeInARow times) (more : List UInt64) :
    ThreeInARow (times ++ more) := by
  obtain ⟨pre, t₁, t₂, t₃, post, htimes, h₁₂, h₂₃⟩ := h
  exact ⟨pre, t₁, t₂, t₃, post ++ more, by rw [htimes]; simp, h₁₂, h₂₃⟩

/-! ## One entry -/

/-- What an entry says about the strikes charged so far. -/
structure Justified (times : List UInt64) (rep : PeerReputation) : Prop where
  one : 0 < rep.strikes.toNat → ∃ pre, times = pre ++ [rep.lastStrikeMs]
  two : 1 < rep.strikes.toNat → ∃ pre t, times = pre ++ [t, rep.lastStrikeMs]
    ∧ Close t rep.lastStrikeMs
  three : 2 < rep.strikes.toNat → ThreeInARow times
  throttled : 0 < rep.throttledUntilMs.toNat → ThreeInARow times

/-- An entry without strikes says nothing. -/
theorem justified_default (times : List UInt64) : Justified times {} where
  one h := absurd h (by decide)
  two h := absurd h (by decide)
  three h := absurd h (by decide)
  throttled h := absurd h (by decide)

/-- Fewer strikes need less. -/
theorem Justified.fewer {times : List UInt64} {rep : PeerReputation} (h : Justified times rep)
    {strikes : UInt8} (hle : strikes.toNat ≤ rep.strikes.toNat) :
    Justified times { rep with strikes } where
  one h1 := h.one (h1.trans_le hle)
  two h2 := h.two (h2.trans_le hle)
  three h3 := h.three (h3.trans_le hle)
  throttled := h.throttled

/-- An entry that decays says less. -/
theorem Justified.decayed {times : List UInt64} {rep : PeerReputation} (h : Justified times rep)
    (now : UInt64) : Justified times (rep.decayed now) := by
  unfold PeerReputation.decayed
  split
  · exact h.fewer (Nat.zero_le _)
  · exact h

/-- So does one that is halved. -/
theorem Justified.halved {times : List UInt64} {rep : PeerReputation} (h : Justified times rep) :
    Justified times { rep with strikes := rep.strikes / 2 } := by
  refine h.fewer ?_
  rw [UInt8.toNat_div]
  exact Nat.div_le_self _ _

/-- More than `n` strikes after one more means at least `n` before, and `n` are never
forgotten within the minute. -/
theorem lt_satAdd_one {strikes : UInt8} {n : Nat} (h : n + 1 < (U8.satAdd strikes 1).toNat) :
    n < strikes.toNat := by
  unfold U8.satAdd at h
  have h1 : (1 : UInt8).toNat = 1 := rfl
  have hmax : (255 : UInt8).toNat = 255 := rfl
  split at h
  · rw [UInt8.toNat_add, h1] at h
    omega
  · next hge =>
    rw [hmax] at h
    rw [h1] at hge
    omega

/-- The fields after one more strike. -/
theorem struck_fields (rep : PeerReputation) (now : UInt64) :
    (rep.struck now).lastStrikeMs = now
    ∧ (rep.struck now).strikes
      = U8.satAdd (if 60 * 1000 < U64.satSub now rep.lastStrikeMs then 0 else rep.strikes) 1
    ∧ (rep.struck now).throttledUntilMs = if 3 ≤ (rep.struck now).strikes then now + 5 * 60 * 1000
        else rep.throttledUntilMs := by
  generalize hstrikes : U8.satAdd
    (if 60 * 1000 < U64.satSub now rep.lastStrikeMs then 0 else rep.strikes) 1 = strikes
  have hstruck : rep.struck now = if 3 ≤ strikes
      then { strikes, lastStrikeMs := now, throttledUntilMs := now + 5 * 60 * 1000 }
      else { strikes, lastStrikeMs := now, throttledUntilMs := rep.throttledUntilMs } := by
    rw [← hstrikes]
    rfl
  by_cases h3 : 3 ≤ strikes
  · rw [hstruck, if_pos h3]
    exact ⟨rfl, rfl, (if_pos h3).symm⟩
  · rw [hstruck, if_neg h3]
    exact ⟨rfl, rfl, (if_neg h3).symm⟩

/-- **One more strike.** The count that survives the minute rule is carried by the last
strikes. -/
theorem Justified.struck {times : List UInt64} {rep : PeerReputation} (h : Justified times rep)
    (now : UInt64) : Justified (times ++ [now]) (rep.struck now) := by
  -- the strikes that still count when this one is registered
  let kept : UInt8 := if 60 * 1000 < U64.satSub now rep.lastStrikeMs then 0 else rep.strikes
  have hkept : ∀ n, n < kept.toNat → Close rep.lastStrikeMs now ∧ n < rep.strikes.toNat := by
    intro n hn
    by_cases hgap : 60 * 1000 < U64.satSub now rep.lastStrikeMs
    · have hzero : kept = 0 := if_pos hgap
      rw [hzero] at hn
      exact absurd hn (Nat.not_lt_zero n)
    · have hsame : kept = rep.strikes := if_neg hgap
      rw [hsame] at hn
      exact ⟨UInt64.not_lt.mp hgap, hn⟩
  have htwo : 1 < (U8.satAdd kept 1).toNat → ∃ pre t, times ++ [now] = pre ++ [t, now]
      ∧ Close t now := by
    intro h2
    obtain ⟨hclose, hpos⟩ := hkept 0 (lt_satAdd_one h2)
    obtain ⟨pre, hpre⟩ := h.one hpos
    exact ⟨pre, rep.lastStrikeMs, by rw [hpre]; simp, hclose⟩
  have hthree : 2 < (U8.satAdd kept 1).toNat → ThreeInARow (times ++ [now]) := by
    intro h3
    obtain ⟨hclose, hone⟩ := hkept 1 (lt_satAdd_one h3)
    obtain ⟨pre, t, hpre, hprev⟩ := h.two hone
    exact ⟨pre, t, rep.lastStrikeMs, now, [], by rw [hpre]; simp, hprev, hclose⟩
  have hbase : Justified (times ++ [now])
      { rep with strikes := U8.satAdd kept 1, lastStrikeMs := now } :=
    ⟨fun _ => ⟨times, rfl⟩, htwo, hthree, fun ht => (h.throttled ht).append [now]⟩
  unfold PeerReputation.struck
  show Justified (times ++ [now]) (if 3 ≤ U8.satAdd kept 1 then _ else _)
  split
  · next hge =>
    refine ⟨hbase.one, hbase.two, hbase.three, fun _ => hthree ?_⟩
    have h3 : (3 : UInt8).toNat = 3 := rfl
    have hle := UInt8.le_iff_toNat_le.mp hge
    omega
  · exact hbase

/-! ## The table -/

/-- A relation between the strikes charged so far and an entry that the calls of the table keep. -/
structure EntryInvariant (J : List UInt64 → PeerReputation → Prop) : Prop where
  fresh : ∀ times, J times {}
  decayed : ∀ {times rep} now, J times rep → J times (rep.decayed now)
  halved : ∀ {times rep}, J times rep → J times { rep with strikes := rep.strikes / 2 }
  struck : ∀ {times rep} now, J times rep → J (times ++ [now]) (rep.struck now)

/-- The entry of `p`, if there is one, is in the relation to the strikes charged to `p`. -/
def TableOf (J : List UInt64 → PeerReputation → Prop) (p : String) (times : List UInt64)
    (reps : KvTree.Of String PeerReputation) : Prop :=
  ∀ rep, reps.lookup p = some rep → J times rep

section

variable {J : List UInt64 → PeerReputation → Prop} {p : String} {times : List UInt64}
  {reps : KvTree.Of String PeerReputation}

/-- Writing an entry: another peer's entry is not looked at. -/
theorem TableOf.insert (h : TableOf J p times reps) {peer : String} {rep : PeerReputation}
    (hrep : peer = p → J times rep) : TableOf J p times (reps.insert peer rep) := by
  intro rep' hlookup
  by_cases hpeer : p = peer
  · subst hpeer
    obtain rfl : rep = rep' := by simpa [AList.lookup_insert] using hlookup
    exact hrep rfl
  · rw [AList.lookup_insert_ne hpeer] at hlookup
    exact h rep' hlookup

/-- Asking for the throttle lets the entry decay. -/
theorem EntryInvariant.throttleReps (hJ : EntryInvariant J) (h : TableOf J p times reps)
    (peer : String) (now : UInt64) : TableOf J p times (throttleReps reps peer now) := by
  unfold Node.throttleReps
  split
  · exact h
  · next rep hrep =>
    refine h.insert fun hpeer => ?_
    subst hpeer
    exact hJ.decayed now (h rep hrep)

/-- A reward halves the entry of one peer. -/
theorem EntryInvariant.rewardReps (hJ : EntryInvariant J) (h : TableOf J p times reps)
    (peer : String) : TableOf J p times (rewardReps reps peer) := by
  unfold Node.rewardReps
  split
  · exact h
  · next rep hrep =>
    refine h.insert fun hpeer => ?_
    subst hpeer
    exact hJ.halved (h rep hrep)

/-- A strike is charged to one peer. -/
theorem EntryInvariant.strikeReps (hJ : EntryInvariant J) (h : TableOf J p times reps)
    (peer : String) (now : UInt64) :
    TableOf J p (times ++ if peer = p then [now] else []) (strikeReps reps peer now) := by
  unfold Node.strikeReps
  by_cases hpeer : peer = p
  · rw [if_pos hpeer]
    subst hpeer
    intro rep' hlookup
    obtain rfl : ((reps.lookup peer).getD {}).struck now = rep' := by
      simpa [AList.lookup_insert] using hlookup
    cases hrep : reps.lookup peer with
    | none => exact hJ.struck now (hJ.fresh times)
    | some rep => exact hJ.struck now (h rep hrep)
  · rw [if_neg hpeer, List.append_nil]
    exact h.insert fun hp => absurd hp hpeer

end

/-- Justified entries stay justified. -/
theorem justified_entry : EntryInvariant Justified where
  fresh := justified_default
  decayed now h := h.decayed now
  halved h := h.halved
  struck now h := h.struck now

/-! ## One input -/

section

variable [World] [Prims]

/-- When the frame costs its sender a strike, the reading `register_strike` makes. -/
def strikeTime (s : NodeRunner) (fromPeer : String) (m : DirectMessage) : Option UInt64 :=
  match dataVerdict s fromPeer m with
  | .refused .invalidSignature => some (World.clock (s.calls + 2))
  | .guarded .rateLimit => some (World.clock (s.calls + 3))
  | .guarded .replay => some (World.clock (s.calls + 3))
  | .absorbed => some (World.clock (s.calls + 4))
  | _ => none

/-- The entry of a peer that the throttle leaves. -/
def entryAt (s : NodeRunner) (peer : String) : PeerReputation :=
  ((throttleReps s.peerReputations peer (World.clock s.calls)).lookup peer).getD {}

/-- The strike an input charges to `p`, if it does. -/
def inputStrikes (p : String) (s : NodeRunner) : Input → List UInt64
  | .transportEvent (.directReceived fromPeer (.data m)) =>
    if fromPeer = p then (strikeTime s fromPeer m).toList else []
  | _ => []

/-- The `Data` branch strikes when `strikeTime` says so. -/
theorem justified_afterData {p : String} {times : List UInt64} {s : NodeRunner}
    (h : TableOf Justified p times s.peerReputations) (fromPeer : String) (m : DirectMessage) :
    TableOf Justified p (times ++ inputStrikes p s (.frame fromPeer (.data m)))
      (afterData s fromPeer m).peerReputations := by
  have hreps := justified_entry.throttleReps h fromPeer (World.clock s.calls)
  -- the return that is taken decides whether there is a strike, and when
  have hstruck : ∀ now, strikeTime s fromPeer m = some now →
      TableOf Justified p (times ++ inputStrikes p s (.frame fromPeer (.data m)))
        (strikeReps (throttleReps s.peerReputations fromPeer (World.clock s.calls)) fromPeer now) := by
    intro now hnow
    have hinput : inputStrikes p s (.frame fromPeer (.data m)) = if fromPeer = p then [now] else [] := by
      show (if fromPeer = p then (strikeTime s fromPeer m).toList else []) = _
      rw [hnow]
      rfl
    rw [hinput]
    exact justified_entry.strikeReps hreps fromPeer now
  have hnone : strikeTime s fromPeer m = none → ∀ reps, TableOf Justified p times reps →
      TableOf Justified p (times ++ inputStrikes p s (.frame fromPeer (.data m))) reps := by
    intro hnone reps hreps
    have hinput : inputStrikes p s (.frame fromPeer (.data m)) = [] := by
      show (if fromPeer = p then (strikeTime s fromPeer m).toList else []) = _
      rw [hnone]
      split <;> rfl
    rw [hinput, List.append_nil]
    exact hreps
  unfold afterData
  unfold strikeTime at hstruck hnone
  cases hv : dataVerdict s fromPeer m with
  | throttled =>
    rw [hv] at hnone
    exact hnone rfl _ hreps
  | refused reason =>
    rw [hv] at hnone hstruck
    cases reason with
    | invalidSignature => exact hstruck _ rfl
    | noSignature => exact hnone rfl _ hreps
    | unparseableAuthor => exact hnone rfl _ hreps
  | hopLimit =>
    rw [hv] at hnone
    exact hnone rfl _ hreps
  | guarded reason =>
    rw [hv] at hnone hstruck
    cases reason with
    | rateLimit => exact hstruck _ rfl
    | replay => exact hstruck _ rfl
    | stale => exact hnone rfl _ hreps
    | oversize => exact hnone rfl _ hreps
  | absorbed =>
    rw [hv] at hstruck
    exact hstruck _ rfl
  | accepted =>
    rw [hv] at hnone
    exact hnone rfl _ (justified_entry.rewardReps hreps fromPeer)

/-- Where there is a strike, the sender's entry is the struck one. -/
theorem struck_afterData {s : NodeRunner} {fromPeer : String} {m : DirectMessage} {now : UInt64}
    (h : strikeTime s fromPeer m = some now) :
    dataVerdict s fromPeer m ≠ .accepted
      ∧ (afterData s fromPeer m).peerReputations.lookup fromPeer
        = some ((entryAt s fromPeer).struck now) := by
  have hstruck : (strikeReps (throttleReps s.peerReputations fromPeer (World.clock s.calls))
      fromPeer now).lookup fromPeer = some ((entryAt s fromPeer).struck now) :=
    AList.lookup_insert _
  unfold strikeTime at h
  unfold afterData
  -- four returns of the branch strike
  split at h
  · next hv =>
    obtain rfl := Option.some.inj h
    rw [hv]
    exact ⟨by simp, hstruck⟩
  · next hv =>
    obtain rfl := Option.some.inj h
    rw [hv]
    exact ⟨by simp, hstruck⟩
  · next hv =>
    obtain rfl := Option.some.inj h
    rw [hv]
    exact ⟨by simp, hstruck⟩
  · next hv =>
    obtain rfl := Option.some.inj h
    rw [hv]
    exact ⟨by simp, hstruck⟩
  · cases h

section

variable {p : String} {times : List UInt64}

omit [World] [Prims] in
/-- The table is not touched by peers that come and go. -/
theorem justified_peer : PeerInvariant fun s => TableOf Justified p times s.peerReputations where
  congr := by
    intro s s' htables h
    have hreps : s'.peerReputations = s.peerReputations :=
      congrArg NodeTables.peerReputations htables
    rw [hreps]
    exact h
  messages _ _ _ _ h := h

omit [Prims] in
/-- Outside the `Data` branch reputations only decay. -/
theorem justified_host :
    HostInvariant (fun s => TableOf Justified p times s.peerReputations) (fun _ => True) := by
  refine justified_peer.peerHost (fun peer => ⟨fun s hs => ?_⟩) fun _ _ h => h
  rw [isThrottled_run]
  exact justified_entry.throttleReps hs peer _

end

omit [World] [Prims] in
/-- Nor by a stored key. -/
theorem justified_storeEncKey {p : String} {times : List UInt64} (peer key : String) :
    Keeps (fun s => TableOf Justified p times s.peerReputations) True (storeEncKey peer key) := by
  unfold storeEncKey
  split
  · exact Keeps.modify fun _ hs => hs
  · exact Keeps.pure

variable [WireCodec]

/-- **A strike raises the entry of the sender.** The frame is refused, so nothing else happens to
the entry. -/
theorem struck_input {s : NodeRunner} {fromPeer : String} {m : DirectMessage} {now : UInt64}
    (h : strikeTime s fromPeer m = some now) :
    (finalState (handleInput (.frame fromPeer (.data m)) s)).peerReputations.lookup fromPeer
      = some ((entryAt s fromPeer).struck now) := by
  obtain ⟨hrefused, hentry⟩ := struck_afterData h
  show (finalState (handleIncomingDirect fromPeer (.data m) s)).peerReputations.lookup fromPeer = _
  rw [handleIncomingDirect_data, if_neg hrefused]
  exact hentry

/-- **One input** charges to `p` the strike it charges, and no other. -/
theorem justified_input {p : String} {times : List UInt64} {s : NodeRunner}
    (h : TableOf Justified p times s.peerReputations) (input : Input) :
    TableOf Justified p (times ++ inputStrikes p s input)
      (finalState (handleInput input s)).peerReputations := by
  -- only Data frames strike; every other input leaves the entry alone or rewards it
  by_cases hdata : ∃ fromPeer m, input = .frame fromPeer (.data m)
  · obtain ⟨fromPeer, m, rfl⟩ := hdata
    have hafter := justified_afterData h fromPeer m
    show TableOf Justified p _ (finalState (handleIncomingDirect fromPeer (.data m) s)).peerReputations
    rw [handleIncomingDirect_data]
    split
    · exact (justified_host.routeData fun _ _ _ _ => trivial).finalState hafter
    · exact hafter
  · have hnone : inputStrikes p s input = [] := by
      unfold inputStrikes
      split
      · next fromPeer m => exact absurd ⟨fromPeer, m, rfl⟩ hdata
      · rfl
    rw [hnone, List.append_nil]
    refine (justified_host.handleInput fun fromPeer msg hinput => ?_).finalState h
    refine justified_host.handleIncomingDirect (.inr trivial) (fun m hm => ?_)
      (fun messages _ => ?_) (fun _ _ _ _ => ?_) (fun _ _ _ _ _ _ _ _ => ?_)
    · subst hm
      exact absurd ⟨fromPeer, m, hinput⟩ hdata
    · exact Keeps.forM fun m _ => Keeps.bind (justified_host.ingest m false) fun _ => Keeps.pure
    · exact justified_storeEncKey _ _
    · exact justified_host.handleEncryptedDirect (fun _ _ _ _ _ => trivial)
        (fun _ _ _ _ _ => justified_storeEncKey _ _) (fun _ _ _ _ _ _ => trivial)

/-! ## Runs -/

/-- The strikes a run charges to `p`, from state `s` on. -/
def strikeTimes (p : String) : NodeRunner → List (TransportView × Input) → List UInt64
  | _, [] => []
  | s, (view, input) :: rest =>
    inputStrikes p { s with transport := view } input
      ++ match step view input s with
        | .ok _ s' => strikeTimes p s' rest
        | .error _ _ => []

/-- The runner when it enters its loop. -/
def started (c : NodeConfig) : NodeRunner := finalState (startup (.new c))

/-- Along a run, from any state. Induction on the inputs. -/
theorem justified_run {p : String} {times : List UInt64} {s s' : NodeRunner}
    {inputs : List (TransportView × Input)} (h : TableOf Justified p times s.peerReputations)
    (hrun : (forM inputs fun i => step i.1 i.2) s = .ok () s') :
    TableOf Justified p (times ++ strikeTimes p s inputs) s'.peerReputations := by
  -- the times of the strikes grow along the run, input by input
  induction inputs generalizing s times with
  | nil =>
    obtain rfl : s = s' := (EStateM.Result.ok.inj hrun).2
    rw [strikeTimes, List.append_nil]
    exact h
  | cons i rest ih =>
    obtain ⟨view, input⟩ := i
    have hinput := justified_input (s := { s with transport := view }) h input
    have hstep : step view input s = handleInput input { s with transport := view } := rfl
    rw [List.forM_cons] at hrun
    unfold strikeTimes
    cases hfirst : step view input s with
    | error e s₁ =>
      rw [run_bind_of_error hfirst] at hrun
      cases hrun
    | ok u s₁ =>
      rw [run_bind_of_ok hfirst] at hrun
      rw [← hstep, hfirst] at hinput
      have hrest := ih hinput hrun
      rw [List.append_assoc] at hrest
      exact hrest

end

/-- Three in a row are three. -/
theorem ThreeInARow.three_le_length {times : List UInt64} (h : ThreeInARow times) :
    3 ≤ times.length := by
  obtain ⟨pre, t₁, t₂, t₃, post, rfl, -, -⟩ := h
  simp
  omega

/-! ### Three nodes

An author, a relay and a receiver, all connected to each other. The author publishes three
listings, the relay forwards each of them once, and the receiver has them already. -/

section

/-- The last 32 bytes stand for a hash: the listings below get different ids. -/
@[reducible] def tailPrims : Prims :=
  { symbolicPrims with blake3 := fun bytes => firstBytes32 (bytes.drop (bytes.length - 32)) }

@[reducible] def triangleWorld : World := stillWorld 5000000

attribute [local instance] tailPrims triangleWorld noCodec

def triangle (i : Fin 3) : Host where
  world := triangleWorld
  codec := noCodec
  config := symbolicConfig (UInt8.ofNat (i + 1)) (UInt8.ofNat (i + 11))

def triangleEvent (i : Fin 3) (input : Input) : NetEvent (Fin 3) where
  node := i
  view := { knownPeers :=
    [symbolicPeer 1, symbolicPeer 2, symbolicPeer 3].erase (triangle i).peerId }
  input := input

/-- What a node announces to a new neighbour. -/
def announcement : WireMessage := .scopeAnnounce (systemScopes ++ ["mycelium/group/*"])

/-- The message in which the author sends the listing `k`. -/
def listingMessage (k : UInt8) : DirectMessage :=
  { envelope := ((Envelope.new 5000000 (symbolicPeer 1) none (List.replicate 24 k)).sign
      (symbolicKey 1)).2
    body := "[appstore]" }

/-- The copy of it that leaves the relay. -/
def relayedListing (k : UInt8) : DirectMessage :=
  forwardCopy { keypair := symbolicKey 12, createdAt := 0 } (listingMessage k)

def triangleRun : List (NetEvent (Fin 3)) :=
  [triangleEvent 1 (.transportEvent (.peerUp (symbolicPeer 1))),
    triangleEvent 2 (.transportEvent (.peerUp (symbolicPeer 1))),
    triangleEvent 0 (.frame (symbolicPeer 2) announcement),
    triangleEvent 0 (.frame (symbolicPeer 3) announcement)]
  ++ ([1, 2, 3].map fun k => triangleEvent 0
    (.command (.broadcastPayload "mycelium/appstore/v1" "[appstore]" (List.replicate 24 k))))
  ++ [triangleEvent 0 .forwardTick]
  ++ ([1, 2, 3].map fun k => triangleEvent 1 (.frame (symbolicPeer 1) (.data (listingMessage k))))
  ++ [triangleEvent 1 .forwardTick]
  -- the author's own copies are the first to arrive
  ++ ([1, 2, 3].map fun k => triangleEvent 2 (.frame (symbolicPeer 1) (.data (listingMessage k))))
  ++ ([1, 2, 3].map fun k => triangleEvent 2 (.frame (symbolicPeer 2) (.data (relayedListing k))))

/-- What the receiver handles. -/
def receiverInputs : List (TransportView × Input) := inputsOf triangleRun 2

/-- The receiver when the second copy comes. -/
def beforeSecondCopy : NodeRunner :=
  finalState (runLoop receiverInputs.dropLast.dropLast (.new (triangle 2).config))

end

end Mycelium.Node

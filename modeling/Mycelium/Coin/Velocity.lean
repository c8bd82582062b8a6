import Mycelium.Coin.Arrival

/-!
# Mycelium coin — what the velocity limit limits

`check_velocity` takes the timestamp a sender wrote into its transaction for the current time
and counts every remembered settlement of the last hour before it, and any after it. The
window remembers the last 64 settlements in the order in which they were accepted, not in
that of their timestamps.

* `checkVelocity_ok` — what a passed check says about the remembered events;
* `run_remembers` — what is remembered are the last 64 accepted transactions;
* `velocity_bounded` — hence no hour is over the limits, unless a transaction is accepted
  while one of its hour has been forgotten.
-/

namespace Mycelium.Coin

open LocalLedger

/-! ## The check -/

/-- The amounts of velocity events. -/
def totalOf (events : List (UInt64 × UInt64)) : Nat := (events.map fun e => e.2.toNat).sum

namespace SettlementPolicy

/-- The events that `check_velocity` counts. -/
def counted (recent : List (UInt64 × UInt64)) (nowMs : UInt64) : List (UInt64 × UInt64) :=
  recent.filter fun e => U64.satSub nowMs hourMs ≤ e.1

/-- The loop of `check_velocity`: with at most `2 ^ 32` events the count is exact, and the sum
is exact up to saturation. -/
theorem foldl_velocity (start : UInt64) (recent : List (UInt64 × UInt64)) (acc : UInt32 × UInt64)
    (hlen : acc.1.toNat + recent.length < 2 ^ 32) :
    (recent.foldl (fun (acc : UInt32 × UInt64) e =>
        if start ≤ e.1 then (acc.1 + 1, U64.satAdd acc.2 e.2) else acc) acc).1.toNat
      = acc.1.toNat + (recent.filter fun e => start ≤ e.1).length
    ∧ (recent.foldl (fun (acc : UInt32 × UInt64) e =>
        if start ≤ e.1 then (acc.1 + 1, U64.satAdd acc.2 e.2) else acc) acc).2.toNat
      = min (acc.2.toNat + totalOf (recent.filter fun e => start ≤ e.1)) (2 ^ 64 - 1) := by
  -- induction on the events; the count does not wrap, the sum saturates as the minimum says
  induction recent generalizing acc with
  | nil =>
    have hlt := U64.toNat_lt acc.2
    simp only [List.foldl_nil, List.filter_nil, List.length_nil, totalOf, List.map_nil, List.sum_nil]
    omega
  | cons e recent ih =>
    rw [List.length_cons] at hlen
    rw [List.foldl_cons]
    by_cases hin : start ≤ e.1
    · have hcount : (acc.1 + 1).toNat = acc.1.toNat + 1 := by
        rw [UInt32.toNat_add]
        exact Nat.mod_eq_of_lt (by rw [show (1 : UInt32).toNat = 1 from rfl]; omega)
      have hih := ih (acc.1 + 1, U64.satAdd acc.2 e.2) (by rw [hcount]; omega)
      rw [if_pos hin, List.filter_cons_of_pos (by simpa using hin), hih.1, hih.2, hcount,
        U64.toNat_satAdd, List.length_cons]
      simp only [totalOf, List.map_cons, List.sum_cons]
      omega
    · rw [if_neg hin, List.filter_cons_of_neg (by simpa using hin)]
      exact ih acc (by omega)

/-- **A passed velocity check**: with the new one, the counted events are within both limits. -/
theorem checkVelocity_ok {p : SettlementPolicy} (hp : p.maxOutboundMuonPerHour.toNat < 2 ^ 64 - 1)
    {recent : List (UInt64 × UInt64)} (hlen : recent.length < 2 ^ 32) {nowMs amountMuon : UInt64}
    (h : p.checkVelocity recent nowMs amountMuon = .ok ()) :
    (counted recent nowMs).length + 1 ≤ p.maxTxPerHour.toNat
    ∧ totalOf (counted recent nowMs) + amountMuon.toNat ≤ p.maxOutboundMuonPerHour.toNat := by
  obtain ⟨hcount, hsum⟩ := foldl_velocity (U64.satSub nowMs hourMs) recent (0, 0) (by simpa using hlen)
  unfold checkVelocity at h
  dsimp only at h
  split at h
  · cases h
  next hmax =>
  split at h
  · cases h
  next hout =>
  rw [UInt32.le_iff_toNat_le, hcount] at hmax
  rw [U64.lt_iff, U64.toNat_satAdd, hsum] at hout
  simp only [UInt32.toNat_zero, UInt64.toNat_zero, Nat.zero_add] at hmax hout
  unfold counted
  omega

end SettlementPolicy

/-! ## What is remembered -/

/-- The remembered settlements of an address. -/
def LocalLedger.recent (l : LocalLedger) (a : Address) : List (UInt64 × UInt64) :=
  ((l.velocity.lookup a).map VelocityWindow.recent).getD []

/-- What the window keeps of a transaction. -/
def Transaction.velocityEvent (tx : Transaction) : UInt64 × UInt64 := (tx.timestampMs, tx.amountMuon)

namespace Session

/-- The accepted transactions of a sender, oldest first. -/
def outbound (s : Session) (a : Address) : List Transaction :=
  (acceptedIn s.history).filter fun tx => tx.fromAddr = a

/-- Those that are no longer among the last 64. -/
def forgotten (s : Session) (a : Address) : List Transaction :=
  (s.outbound a).take ((s.outbound a).length - maxStoredEvents)

def remembered (s : Session) (a : Address) : List Transaction :=
  (s.outbound a).drop ((s.outbound a).length - maxStoredEvents)

/-- What the window forgot and what it remembers are all that was sent. -/
theorem forgotten_append_remembered (s : Session) (a : Address) :
    s.forgotten a ++ s.remembered a = s.outbound a :=
  List.take_append_drop _ _

end Session

/-- Keeping the last 64 after each addition keeps the last 64. -/
theorem VelocityWindow.push_events (w : VelocityWindow) (events : List (UInt64 × UInt64))
    (h : w.events = events.drop (events.length - maxStoredEvents)) (timestampMs amountMuon : UInt64) :
    (w.push timestampMs amountMuon).events
      = (events ++ [(timestampMs, amountMuon)]).drop
          ((events ++ [(timestampMs, amountMuon)]).length - maxStoredEvents) := by
  have hone : (events.drop (events.length - maxStoredEvents)) ++ [(timestampMs, amountMuon)]
      = (events ++ [(timestampMs, amountMuon)]).drop (events.length - maxStoredEvents) :=
    (List.drop_append_of_le_length (Nat.sub_le _ _)).symm
  have hdrop : events.length - maxStoredEvents
      + (events.length + 1 - (events.length - maxStoredEvents) - maxStoredEvents)
        = events.length + 1 - maxStoredEvents := by omega
  unfold push
  dsimp only
  rw [h, hone, List.drop_drop, List.length_drop, List.length_append, List.length_singleton, hdrop]

/-- Settling a transfer pushes it to the sender's window. -/
theorem settled_velocity (l : LocalLedger) (tx : Transaction) (total : UInt64) :
    (l.settled tx total).velocity = l.velocity.insert tx.fromAddr
      (((l.velocity.lookup tx.fromAddr).getD {}).push tx.timestampMs tx.amountMuon) := rfl

/-- The window of the sender of a settled transaction takes it in, the others stay. -/
theorem recent_settled (l : LocalLedger) (tx : Transaction) (total : UInt64) (a : Address) :
    (l.settled tx total).recent a
      = if a = tx.fromAddr then
          (VelocityWindow.push { events := l.recent a } tx.timestampMs tx.amountMuon).events
        else l.recent a := by
  unfold LocalLedger.recent
  rw [settled_velocity]
  by_cases ha : a = tx.fromAddr
  · rw [if_pos ha, ha, AList.lookup_insert]
    cases l.velocity.lookup tx.fromAddr <;> rfl
  · rw [if_neg ha, AList.lookup_insert_ne ha]

/-- Every window holds the last 64 accepted transactions of its address. -/
def Remembers (s : Session) : Prop :=
  ∀ a, s.ledger.recent a = (s.remembered a).map Transaction.velocityEvent

namespace Session

/-- One more event in the history. -/
theorem outbound_append (l : LocalLedger) (h : List LedgerEvent) (e : LedgerEvent) (a : Address) :
    outbound { ledger := l, history := h ++ [e] } a
      = (acceptedIn h).filter (fun tx => tx.fromAddr = a)
        ++ (acceptedIn [e]).filter (fun tx => tx.fromAddr = a) := by
  unfold outbound
  rw [acceptedIn_append, List.filter_append]

/-- A call that accepts nothing and leaves the windows alone. -/
theorem remembers_congr {s : Session} (h : Remembers s) {l : LocalLedger} {e : LedgerEvent}
    (hvelocity : l.velocity = s.ledger.velocity) (hnone : acceptedIn [e] = []) :
    Remembers { ledger := l, history := s.history ++ [e] } := by
  intro a
  have hout : outbound { ledger := l, history := s.history ++ [e] } a = s.outbound a := by
    rw [outbound_append, hnone, List.filter_nil, List.append_nil]
    rfl
  have hrecent : l.recent a = s.ledger.recent a := by
    unfold LocalLedger.recent
    rw [hvelocity]
  unfold remembered
  rw [hout, hrecent]
  exact h a

/-- A settled transfer is remembered, and the oldest forgotten if the window is full. -/
theorem remembers_settled {s : Session} (h : Remembers s) (tx : Transaction) (total : UInt64) :
    Remembers { ledger := s.ledger.settled tx total
                history := s.history ++ [.applied tx (.ok .accepted)] } := by
  intro a
  have hout : outbound { ledger := s.ledger.settled tx total
                         history := s.history ++ [.applied tx (.ok .accepted)] } a
      = s.outbound a ++ if a = tx.fromAddr then [tx] else [] := by
    rw [outbound_append, acceptedIn_applied, if_pos rfl]
    -- the sender has one transaction more, the others have theirs
    by_cases ha : a = tx.fromAddr
    · rw [if_pos ha, List.filter_cons_of_pos (by simpa using ha.symm)]
      rfl
    · rw [if_neg ha, List.filter_cons_of_neg (by simpa using Ne.symm ha)]
      rfl
  unfold remembered
  rw [hout, recent_settled]
  by_cases ha : a = tx.fromAddr
  · rw [if_pos ha, if_pos ha]
    -- pushing keeps the last of them, as many as are stored
    have hwindow : s.ledger.recent a = ((s.outbound a).map Transaction.velocityEvent).drop
        (((s.outbound a).map Transaction.velocityEvent).length - maxStoredEvents) := by
      rw [List.length_map, ← List.map_drop]
      exact h a
    rw [VelocityWindow.push_events ⟨s.ledger.recent a⟩ _ hwindow]
    simp [Transaction.velocityEvent]
  · rw [if_neg ha, if_neg ha, List.append_nil]
    exact h a

variable [Prims]

/-- No call forgets more than that. -/
theorem step_remembers {s : Session} (h : Remembers s) (c : LedgerCall) : Remembers (s.step c) := by
  cases c with
  | applyTransaction tx =>
    rcases s.ledger.applyTransaction_cases tx with ⟨total, _, heq⟩ | ⟨r, hr, heq⟩ <;>
      simp only [step, heq]
    · exact remembers_settled h tx total
    · exact remembers_congr h rfl (by rw [acceptedIn_applied, if_neg hr])
  | addWitness txId peerId =>
    rcases s.ledger.addWitness_cases txId peerId with
      ⟨heq, _⟩ | ⟨tx, _, _, ⟨_, heq⟩ | ⟨_, _, ⟨msg, _, heq⟩ | ⟨_, heq⟩⟩⟩ <;>
      simp only [step, heq] <;> exact remembers_congr h rfl rfl
  | genesisCredit a amt =>
    rcases s.ledger.genesisCredit_cases a amt with ⟨_, heq⟩ | ⟨msg, heq⟩ <;>
      simp only [step, heq] <;> exact remembers_congr h rfl rfl

/-- Nor does a run. Induction on the calls, from the last one. -/
theorem run_remembers (p : SettlementPolicy) (calls : List LedgerCall) : Remembers (run p calls) := by
  induction calls using List.reverseRecOn with
  | nil => exact fun _ => rfl
  | append_singleton calls c ih =>
    rw [run_append_singleton]
    exact step_remembers ih c

end Session

/-! ## The limits -/

/-- The transaction is dated within the hour that begins at `w`. -/
def Transaction.inHour (w : Nat) (tx : Transaction) : Bool :=
  w ≤ tx.timestampMs.toNat && tx.timestampMs.toNat ≤ w + hourMs.toNat

/-- The transactions dated within the hour from `w` are within both limits. -/
structure HourlyBound (p : SettlementPolicy) (txs : List Transaction) (w : Nat) : Prop where
  count : (txs.filter (Transaction.inHour w)).length ≤ p.maxTxPerHour.toNat
  amount : ((txs.filter (Transaction.inHour w)).map fun tx => tx.amountMuon.toNat).sum
    ≤ p.maxOutboundMuonPerHour.toNat

/-- None of the sender's transactions that its window has dropped is dated less than an hour
before `tx`, or after it. -/
def HourRemembered (s : Session) (tx : Transaction) : Prop :=
  ∀ old ∈ s.forgotten tx.fromAddr, old.timestampMs.toNat + hourMs.toNat < tx.timestampMs.toNat

namespace Session

/-- Everything dated in an hour of `tx` is counted when `tx` is checked. -/
theorem inHour_sublist_counted {s : Session} (hrem : Remembers s) {tx : Transaction}
    (hhour : HourRemembered s tx) {w : Nat} (hw : tx.inHour w = true) :
    (((s.outbound tx.fromAddr).filter (Transaction.inHour w)).map Transaction.velocityEvent).Sublist
      (SettlementPolicy.counted (s.ledger.recent tx.fromAddr) tx.timestampMs) := by
  simp only [Transaction.inHour, Bool.and_eq_true, decide_eq_true_eq] at hw
  have hforgotten : (s.forgotten tx.fromAddr).filter (Transaction.inHour w) = [] := by
    rw [List.filter_eq_nil_iff]
    intro old hold hin
    have hlt := hhour old hold
    simp only [Transaction.inHour, Bool.and_eq_true, decide_eq_true_eq] at hin
    omega
  rw [← s.forgotten_append_remembered, List.filter_append, hforgotten, List.nil_append,
    hrem tx.fromAddr]
  unfold SettlementPolicy.counted
  rw [List.filter_map]
  apply List.Sublist.map
  apply List.monotone_filter_right
  intro old hin
  simp only [Transaction.inHour, Bool.and_eq_true, decide_eq_true_eq] at hin
  apply decide_eq_true
  show U64.satSub tx.timestampMs hourMs ≤ old.timestampMs
  rw [U64.le_iff, U64.toNat_satSub]
  omega

/-- A window has 64 entries. -/
theorem length_remembered_le (s : Session) (a : Address) : (s.remembered a).length ≤ 64 := by
  unfold remembered maxStoredEvents
  rw [List.length_drop]
  omega

variable [Prims]

/-- **One acceptance**: with what its hour holds already, the transaction is within the limits. -/
theorem hourlyBound_settles {s : Session} (hrem : Remembers s)
    (hp : s.ledger.policy.maxOutboundMuonPerHour.toNat < 2 ^ 64 - 1) {tx : Transaction}
    {total : UInt64} (hset : s.ledger.Settles tx total) (hhour : HourRemembered s tx) {w : Nat}
    (hw : tx.inHour w = true) :
    HourlyBound s.ledger.policy (s.outbound tx.fromAddr ++ [tx]) w := by
  have hlen : (s.ledger.recent tx.fromAddr).length < 2 ^ 32 := by
    rw [hrem tx.fromAddr, List.length_map]
    have := s.length_remembered_le tx.fromAddr
    omega
  obtain ⟨hcount, hamount⟩ := SettlementPolicy.checkVelocity_ok hp hlen hset.velocity
  have hsub := inHour_sublist_counted hrem hhour hw
  have hnew : (s.outbound tx.fromAddr ++ [tx]).filter (Transaction.inHour w)
      = (s.outbound tx.fromAddr).filter (Transaction.inHour w) ++ [tx] := by
    rw [List.filter_append, List.filter_cons_of_pos hw, List.filter_nil]
  constructor
  · have hle := hsub.length_le
    rw [List.length_map] at hle
    rw [hnew, List.length_append, List.length_singleton]
    exact Nat.le_trans (Nat.add_le_add_right hle 1) hcount
  · have hle := (hsub.map fun e => e.2.toNat).sum_le_sum (fun _ _ => Nat.zero_le _)
    rw [List.map_map] at hle
    rw [hnew, List.map_append, List.sum_append, List.map_singleton, List.sum_singleton]
    exact Nat.le_trans (Nat.add_le_add_right hle _) hamount

/-- The outbound transactions after a call: one more if it accepts one. -/
theorem outbound_step (s : Session) (c : LedgerCall) (a : Address) :
    (s.step c).outbound a = s.outbound a
    ∨ ∃ tx total, c = .applyTransaction tx ∧ tx.fromAddr = a ∧ s.ledger.Settles tx total
        ∧ (s.step c).outbound a = s.outbound a ++ [tx] := by
  have hnone : ∀ l e, acceptedIn [e] = [] →
      outbound { ledger := l, history := s.history ++ [e] } a = s.outbound a := by
    intro l e he
    rw [outbound_append, he, List.filter_nil, List.append_nil]
    rfl
  cases c with
  | applyTransaction tx =>
    rcases s.ledger.applyTransaction_cases tx with ⟨total, hset, heq⟩ | ⟨r, hr, heq⟩ <;>
      simp only [step, heq]
    · by_cases ha : tx.fromAddr = a
      · refine .inr ⟨tx, total, rfl, ha, hset, ?_⟩
        rw [outbound_append, acceptedIn_applied, if_pos rfl, List.filter_cons_of_pos (by simpa using ha)]
        rfl
      · refine .inl ?_
        rw [outbound_append, acceptedIn_applied, if_pos rfl, List.filter_cons_of_neg (by simpa using ha),
          List.filter_nil, List.append_nil]
        rfl
    · exact .inl (hnone _ _ (by rw [acceptedIn_applied, if_neg hr]))
  | addWitness txId peerId => exact .inl (hnone _ _ rfl)
  | genesisCredit a' amt => exact .inl (hnone _ _ rfl)

end Session

/-- The limits that ship leave room for a comparison without overflow. -/
theorem ShippedPolicy.maxOutbound_lt (p : ShippedPolicy) :
    p.policy.maxOutboundMuonPerHour.toNat < 2 ^ 64 - 1 := by
  cases p <;> decide

/-- **No hour is over the limits.** In every run under a shipped policy in which no transaction
is accepted while an earlier one of its sender, dated less than an hour before it or after it,
has been dropped from the sender's window: for every sender and every hour, whatever the
timestamps, the accepted transactions dated within that hour are at most `max_tx_per_hour`,
and their amounts at most `max_outbound_muon_per_hour` in all. -/
theorem velocity_bounded [Prims] (p : ShippedPolicy) (calls : List LedgerCall)
    (hhour : ∀ before tx after, calls = before ++ .applyTransaction tx :: after →
      (∃ total, (Session.run p.policy before).ledger.Settles tx total) →
      HourRemembered (Session.run p.policy before) tx) (a : Address) (w : Nat) :
    HourlyBound p.policy ((Session.run p.policy calls).outbound a) w := by
  induction calls using List.reverseRecOn with
  | nil => exact ⟨Nat.zero_le _, Nat.zero_le _⟩
  | append_singleton calls c ih =>
    have hbefore := ih fun before tx after hcalls hset =>
      hhour before tx (after ++ [c]) (by rw [hcalls, List.append_assoc, List.cons_append]) hset
    rw [Session.run_append_singleton]
    rcases (Session.run p.policy calls).outbound_step c a with hsame | ⟨tx, total, rfl, ha, hset, hnew⟩
    · rw [hsame]
      exact hbefore
    rw [hnew]
    by_cases hw : tx.inHour w = true
    · have hpol := Session.run_policy p.policy calls
      have hbound := Session.hourlyBound_settles (Session.run_remembers p.policy calls)
        (by rw [hpol]; exact p.maxOutbound_lt) hset (hhour calls tx [] rfl ⟨total, hset⟩) hw
      rw [hpol, ha] at hbound
      exact hbound
    · -- dated outside, the new transaction changes nothing
      have hfilter : ((Session.run p.policy calls).outbound a ++ [tx]).filter (Transaction.inHour w)
          = ((Session.run p.policy calls).outbound a).filter (Transaction.inHour w) := by
        rw [List.filter_append, List.filter_cons_of_neg hw, List.filter_nil, List.append_nil]
      exact ⟨by rw [hfilter]; exact hbefore.count, by rw [hfilter]; exact hbefore.amount⟩

/-- In a short history nothing is forgotten. -/
theorem Session.forgotten_eq_nil {s : Session} (h : s.history.length ≤ 64) (a : Address) :
    s.forgotten a = [] := by
  have hlen : (s.outbound a).length ≤ 64 := by
    calc (s.outbound a).length
        ≤ (acceptedIn s.history).length := List.length_filter_le _ _
      _ ≤ s.history.length := List.length_filterMap_le _ _
      _ ≤ 64 := h
  unfold forgotten maxStoredEvents
  rw [Nat.sub_eq_zero_of_le hlen, List.take_zero]

section

attribute [local instance] symbolicPrims

/-- A run of three calls is within the limits. -/
theorem velocity_bounded_short :
    (∀ before tx after, symbolicCalls = before ++ .applyTransaction tx :: after →
      (∃ total, (Session.run ShippedPolicy.betaDefaults.policy before).ledger.Settles tx total) →
      HourRemembered (Session.run ShippedPolicy.betaDefaults.policy before) tx)
    ∧ HourlyBound .betaDefaults
        ((Session.run .betaDefaults symbolicCalls).outbound (addressFromKeypair (symbolicKey 1))) 0 := by
  have hhour : ∀ before tx after, symbolicCalls = before ++ .applyTransaction tx :: after →
      (∃ total, (Session.run ShippedPolicy.betaDefaults.policy before).ledger.Settles tx total) →
      HourRemembered (Session.run ShippedPolicy.betaDefaults.policy before) tx := by
    intro before tx after hcalls _ old hold
    have hlen := congrArg List.length hcalls
    rw [List.length_append, show symbolicCalls.length = 3 from rfl] at hlen
    rw [Session.forgotten_eq_nil (by rw [Session.run_history_length]; omega)] at hold
    cases hold
  exact ⟨hhour, velocity_bounded .betaDefaults symbolicCalls hhour _ 0⟩

/-! ### A sender that makes its window forget -/

def spenderAddress : Address := addressFromKeypair (symbolicKey 1)
def payeeAddress : Address := addressFromKeypair (symbolicKey 2)

/-- Ids that grow with the nonce. -/
def plannedId : Nat → TxId
  | 0 => ""
  | k + 1 => plannedId k ++ "a"

/-- The `k`-th transfer of a plan, dated `timestampMs` and signed. -/
def planned (k : Nat) (timestampMs amountMuon : UInt64) : Transaction :=
  let tx : Transaction :=
    { id := plannedId k, fromAddr := spenderAddress, toAddr := payeeAddress
      amountMuon, feeMuon := 0, timestampMs, nonce := UInt64.ofNat k, memo := none
      fromPublicKey := Prims.encodeProtobuf (Prims.identity.pub (symbolicKey 1))
      signature := [], witnesses := ∅ }
  { tx with signature := (Prims.identity.sign (symbolicKey 1) tx.bytesForSigning).getD [] }

/-- An id of a given length. -/
theorem utf8ByteSize_plannedId (k : Nat) : (plannedId k).utf8ByteSize = k := by
  induction k with
  | zero => rfl
  | succ k ih =>
    rw [plannedId, String.utf8ByteSize_append, ih]
    rfl

/-- The length tells the ids apart. -/
theorem plannedId_injective {j k : Nat} (h : plannedId j = plannedId k) : j = k := by
  rw [← utf8ByteSize_plannedId j, h, utf8ByteSize_plannedId]

/-- Whatever is planned is validly signed. -/
theorem verify_planned (k : Nat) (timestampMs amountMuon : UInt64) :
    (planned k timestampMs amountMuon).verify = true := by
  have hfrom : validateAddress (planned k timestampMs amountMuon).fromAddr = true := by
    show validateAddress spenderAddress = true
    decide +kernel
  have hto : validateAddress (planned k timestampMs amountMuon).toAddr = true := by
    show validateAddress payeeAddress = true
    decide +kernel
  have hkey : Prims.tryDecodeProtobuf (planned k timestampMs amountMuon).fromPublicKey
      = some (Prims.identity.pub (symbolicKey 1)) := rfl
  unfold Transaction.verify
  rw [hfrom, hto, hkey]
  have haddr : addressFromPublicKey (Prims.identity.pub (symbolicKey 1))
      = (planned k timestampMs amountMuon).fromAddr := rfl
  simp only [haddr, bne_self_eq_false, Bool.false_eq_true, if_false, Bool.not_true, Bool.or_self]
  have hsign : symbolicIdentity.sign (symbolicKey 1)
      (planned k timestampMs amountMuon).bytesForSigning
        = some (planned k timestampMs amountMuon).signature := rfl
  exact symbolicIdentity_ideal.complete hsign

/-- The id is the only part of the plan that varies in length. -/
theorem encodedLen_planned (k : Nat) (timestampMs amountMuon : UInt64) :
    (planned k timestampMs amountMuon).encodedLen = 417 + k := by
  have hfrom : spenderAddress.utf8ByteSize = 52 := by decide +kernel
  have hto : payeeAddress.utf8ByteSize = 52 := by decide +kernel
  have hfromBytes : (asBytes spenderAddress).length = 52 := by decide +kernel
  have htoBytes : (asBytes payeeAddress).length = 52 := by decide +kernel
  have hsig : (planned k timestampMs amountMuon).signature.length = 200 := by
    show ((symbolicKey 1).secret.toList ++ (planned k timestampMs amountMuon).bytesForSigning).length
      = 200
    show ((symbolicKey 1).secret.toList ++ (asBytes spenderAddress ++ asBytes payeeAddress
      ++ leBytes 8 amountMuon.toNat ++ leBytes 8 0 ++ leBytes 8 timestampMs.toNat
      ++ leBytes 8 (UInt64.ofNat k).toNat ++ (symbolicKey 1).secret.toList ++ [])).length = 200
    simp only [List.length_append, hfromBytes, htoBytes, length_leBytes, Vector.length_toList,
      List.length_nil]
  unfold Transaction.encodedLen Transaction.bincodeStringLen
  rw [hsig]
  show 8 + (plannedId k).utf8ByteSize + (8 + spenderAddress.utf8ByteSize)
    + (8 + payeeAddress.utf8ByteSize) + 8 + 8 + 8 + 8 + 1
    + (8 + (symbolicKey 1).secret.toList.length) + (8 + 200)
    + (8 + (∅ : Finset String).sum fun s => 8 + s.utf8ByteSize) = 417 + k
  rw [utf8ByteSize_plannedId, hfrom, hto, Vector.length_toList, Finset.sum_empty]
  omega

/-- What decides about the next transfer of a plan: how many there were, what the sender has
left, what the payee has coming, and what the window holds. -/
structure Spender where
  nonce : Nat
  balance : UInt64
  pending : UInt64
  recent : List (UInt64 × UInt64)

namespace Spender

/-- The checks of `apply_transaction` on the next transfer, short of its signature. -/
def accepts (s : Spender) (e : UInt64 × UInt64) : Bool :=
  decide (s.nonce < 1000) && decide (e.2 ≠ 0) && decide (e.2 ≤ 25000000) && decide (e.2 ≤ s.balance)
    && decide (s.pending.toNat + e.2.toNat ≤ 100000000)
    && decide (SettlementPolicy.betaDefaults.checkVelocity s.recent e.1 e.2 = .ok ())

def next (s : Spender) (e : UInt64 × UInt64) : Spender where
  nonce := s.nonce + 1
  balance := s.balance - e.2
  pending := s.pending + e.2
  recent := (VelocityWindow.push ⟨s.recent⟩ e.1 e.2).events

def acceptsAll (s : Spender) : List (UInt64 × UInt64) → Bool
  | [] => true
  | e :: plan => s.accepts e && (s.next e).acceptsAll plan

/-- A ledger in which the next transfer of the plan finds these values. -/
structure Tracks (s : Spender) (l : LocalLedger) : Prop where
  policy : l.policy = .betaDefaults
  nonce : (l.account spenderAddress).nextNonce = UInt64.ofNat s.nonce
  balance : (l.account spenderAddress).balanceMuon = s.balance
  received : (l.account payeeAddress).balanceMuon = 0
  pending : (l.account payeeAddress).pendingReceived = s.pending
  recent : l.recent spenderAddress = s.recent
  fresh : ∀ k, s.nonce ≤ k → l.transactions.lookup (plannedId k) = none

/-- The two addresses are different. -/
theorem address_ne : spenderAddress ≠ payeeAddress := by decide +kernel

/-- When the checks pass, the ledger settles the transfer. -/
theorem Tracks.settles {s : Spender} {l : LocalLedger} (h : s.Tracks l) {e : UInt64 × UInt64}
    (hok : s.accepts e = true) : l.Settles (planned s.nonce e.1 e.2) e.2 := by
  simp only [accepts, Bool.and_eq_true, decide_eq_true_eq] at hok
  obtain ⟨⟨⟨⟨⟨hnonce, hzero⟩, hmax⟩, hfunds⟩, hcap⟩, hvelocity⟩ := hok
  have hamount : SettlementPolicy.betaDefaults.checkTransferAmount e.2 = .ok () := by
    unfold SettlementPolicy.checkTransferAmount
    rw [if_neg hzero, if_neg]
    have hmax' := U64.le_iff.mp hmax
    rw [U64.lt_iff]
    exact Nat.not_lt.mpr hmax'
  -- the checks of `apply_transaction` in their order, each read off the spender's own state
  refine ⟨h.fresh _ (Nat.le_refl _), verify_planned _ _ _, address_ne, h.nonce.symm, ?_, ?_,
    Nat.zero_le _, ?_, ?_, ?_, ?_⟩
  · exact U64.checkedAdd_eq_some_iff.mpr rfl
  · show e.2 ≤ (l.account spenderAddress).balanceMuon
    rw [h.balance]
    exact hfunds
  · rw [h.policy]
    exact hamount
  · rw [h.policy]
    unfold SettlementPolicy.checkTxSize
    rw [encodedLen_planned, if_neg]
    · exact hamount
    -- a planned transfer grows with its nonce by a byte a digit at most
    · show ¬ 4096 < 417 + s.nonce
      omega
  · rw [h.policy, SettlementPolicy.checkBalanceCap_ok_iff (by decide)]
    show (l.account payeeAddress).balanceMuon.toNat + (l.account payeeAddress).pendingReceived.toNat
      + e.2.toNat ≤ 100000000
    rw [h.received, h.pending]
    simpa using hcap
  · show l.policy.checkVelocity (l.recent spenderAddress) e.1 e.2 = .ok ()
    rw [h.policy, h.recent]
    exact hvelocity

/-- The ledger after it is the one the next transfer finds. -/
theorem Tracks.settled {s : Spender} {l : LocalLedger} (h : s.Tracks l) (e : UInt64 × UInt64) :
    (s.next e).Tracks (l.settled (planned s.nonce e.1 e.2) e.2) := by
  have hne : (planned s.nonce e.1 e.2).fromAddr ≠ (planned s.nonce e.1 e.2).toAddr := address_ne
  have hfrom : (l.settled (planned s.nonce e.1 e.2) e.2).account spenderAddress
      = debited (l.account spenderAddress) e.2 := by
    rw [l.account_settled hne]
    exact (if_neg address_ne).trans (if_pos rfl)
  have hto : (l.settled (planned s.nonce e.1 e.2) e.2).account payeeAddress
      = LocalLedger.received (l.account payeeAddress) (planned s.nonce e.1 e.2) := by
    rw [l.account_settled hne]
    exact if_pos rfl
  refine ⟨h.policy, ?_, ?_, ?_, ?_, ?_, ?_⟩
  · rw [hfrom]
    show (l.account spenderAddress).nextNonce + 1 = UInt64.ofNat (s.nonce + 1)
    rw [h.nonce]
    exact (UInt64.ofNat_add s.nonce 1).symm
  · rw [hfrom]
    show (l.account spenderAddress).balanceMuon - e.2 = s.balance - e.2
    rw [h.balance]
  · rw [hto]
    exact h.received
  · rw [hto]
    show (l.account payeeAddress).pendingReceived + e.2 = s.pending + e.2
    rw [h.pending]
  · rw [recent_settled]
    rw [if_pos (show spenderAddress = (planned s.nonce e.1 e.2).fromAddr from rfl), h.recent]
    rfl
  · intro k hk
    -- a later transaction has another id
    have hid : plannedId k ≠ plannedId s.nonce := by
      intro hc
      have := plannedId_injective hc
      simp only [next] at hk
      omega
    rw [settled_transactions]
    show (l.transactions.insert (plannedId s.nonce) _).lookup (plannedId k) = none
    rw [AList.lookup_insert_ne hid]
    exact h.fresh k (by simp only [next] at hk; omega)

/-- The calls of a plan, from the `k`-th transfer on. -/
def plannedCalls : Nat → List (UInt64 × UInt64) → List LedgerCall
  | _, [] => []
  | k, e :: plan => .applyTransaction (planned k e.1 e.2) :: plannedCalls (k + 1) plan

/-- A plan whose checks all pass is accepted as a whole. Induction on the plan. -/
theorem outbound_plannedCalls (plan : List (UInt64 × UInt64)) (s : Spender) (sess : Session)
    (h : s.Tracks sess.ledger) (hok : s.acceptsAll plan = true) :
    (((plannedCalls s.nonce plan).foldl Session.step sess).outbound spenderAddress).map
        Transaction.velocityEvent
      = (sess.outbound spenderAddress).map Transaction.velocityEvent ++ plan := by
  induction plan generalizing s sess with
  | nil => simp [plannedCalls]
  | cons e plan ih =>
    obtain ⟨hfirst, hrest⟩ := Bool.and_eq_true_iff.mp hok
    have hset := h.settles hfirst
    have hledger : (sess.step (.applyTransaction (planned s.nonce e.1 e.2))).ledger
        = sess.ledger.settled (planned s.nonce e.1 e.2) e.2 := by
      simp only [Session.step, hset.applyTransaction]
    have hout : (sess.step (.applyTransaction (planned s.nonce e.1 e.2))).outbound spenderAddress
        = sess.outbound spenderAddress ++ [planned s.nonce e.1 e.2] := by
      simp only [Session.step, hset.applyTransaction]
      rw [Session.outbound_append, acceptedIn_applied, if_pos rfl,
        List.filter_cons_of_pos (by simp [planned])]
      rfl
    have hlater := ih (s.next e) _ (hledger ▸ h.settled e) hrest
    rw [plannedCalls, List.foldl_cons]
    refine hlater.trans ?_
    rw [hout, List.map_append, List.append_assoc]
    rfl

/-- A fresh ledger with money for the sender. -/
theorem tracks_funded : Tracks ⟨0, 100000000, 0, []⟩
    ((Session.start .betaDefaults).step (.genesisCredit spenderAddress 100000000)).ledger := by
  have hok : ((LocalLedger.empty .betaDefaults).genesisCredit spenderAddress 100000000).1 = .ok () := by
    decide +kernel
  have hledger : ((Session.start .betaDefaults).step (.genesisCredit spenderAddress 100000000)).ledger
      = (LocalLedger.empty .betaDefaults).setAccount spenderAddress
          { address := spenderAddress, balanceMuon := 100000000 } := by
    rcases (LocalLedger.empty .betaDefaults).genesisCredit_cases spenderAddress 100000000 with
      ⟨_, heq⟩ | ⟨msg, heq⟩
    · show ((LocalLedger.empty .betaDefaults).genesisCredit spenderAddress 100000000).2 = _
      rw [heq]
      rfl
    · rw [heq] at hok
      cases hok
  rw [hledger]
  refine ⟨rfl, ?_, ?_, ?_, ?_, rfl, fun _ _ => rfl⟩
  · rw [account_setAccount_self]
    rfl
  · rw [account_setAccount_self]
  · rw [account_setAccount_ne _ address_ne.symm]
    rfl
  · rw [account_setAccount_ne _ address_ne.symm]
    rfl

/-- A plan that the ledger accepts is what was sent. -/
theorem outbound_funded (plan : List (UInt64 × UInt64))
    (hok : acceptsAll ⟨0, 100000000, 0, []⟩ plan = true) :
    ((Session.run .betaDefaults (.genesisCredit spenderAddress 100000000 :: plannedCalls 0 plan)
      ).outbound spenderAddress).map Transaction.velocityEvent = plan :=
  outbound_plannedCalls plan _ _ tracks_funded hok

end Spender

/-- A large transfer dated late, 64 tiny ones dated hours apart and hours before, and two more
large ones dated like the first. -/
def burstPlan : List (UInt64 × UInt64) :=
  (360000000, 25000000)
    :: (List.replicate 16 (7200000, 1) ++ List.replicate 16 (14400000, 1)
      ++ List.replicate 16 (21600000, 1) ++ List.replicate 16 (28800000, 1)
      ++ [(360000000, 25000000), (360000000, 25000000)])

def burstCalls : List LedgerCall :=
  .genesisCredit spenderAddress 100000000 :: Spender.plannedCalls 0 burstPlan

/-- What was sent within an hour, as entries of the window. -/
theorem sum_inHour (w : Nat) (txs : List Transaction) :
    ((txs.filter (Transaction.inHour w)).map fun tx => tx.amountMuon.toNat).sum
      = totalOf ((txs.map Transaction.velocityEvent).filter fun e =>
          w ≤ e.1.toNat && e.1.toNat ≤ w + hourMs.toNat) := by
  unfold totalOf
  rw [List.filter_map, List.map_map]
  rfl

/-- The window has forgotten the first transfer when the last two are checked: 75 MXC leave the
account within one hour, under a limit of 50. -/
theorem velocity_exceeded :
    ¬ HourlyBound .betaDefaults
        ((Session.run .betaDefaults burstCalls).outbound spenderAddress) 360000000 := by
  have hplan := Spender.outbound_funded burstPlan (by decide +kernel)
  intro hbound
  have hamount := hbound.amount
  unfold burstCalls at hamount
  rw [sum_inHour, hplan] at hamount
  revert hamount
  decide +kernel

end

end Mycelium.Coin

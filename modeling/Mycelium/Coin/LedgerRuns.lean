import Mycelium.Coin.Accounting
import Mycelium.Core.Symbolic

/-!
# Mycelium coin — what holds in every ledger a run can reach

The whole-run results of the ledger, from `LedgerSteps`' cases and `Accounting`'s books:

* `run_books` — in every session the ledger's books agree with the genesis credits of its
  history (`ledger_accounting`, `balance_cap_no_overflow` read it off);
* `Nonces` — the stored nonces of every sender are `0, 1, …, next_nonce - 1`, one each,
  and `next_nonce` counts the acceptances (`no_double_spend`). This one needs no policy:
  it holds under any caps.
-/

namespace Mycelium.Coin

open LocalLedger

/-- The two settlement policies the repository ships. -/
inductive ShippedPolicy where
  | betaDefaults
  | hardCap
deriving DecidableEq, Repr

def ShippedPolicy.policy : ShippedPolicy → SettlementPolicy
  | .betaDefaults => .betaDefaults
  | .hardCap => .hardCap

/-- Both caps are far below the word size. -/
theorem ShippedPolicy.maxBalance_lt (p : ShippedPolicy) :
    p.policy.maxBalanceMuon.toNat < 2 ^ 64 - 1 := by
  cases p <;> decide

namespace Session

@[simp] theorem credits_append (l : LocalLedger) (h : List LedgerEvent) (e : LedgerEvent) :
    credits { ledger := l, history := h ++ [e] }
      = fun a => (h.map (LedgerEvent.creditTo a)).sum + e.creditTo a := by
  funext a
  simp [credits]

@[simp] theorem issued_append (l : LocalLedger) (h : List LedgerEvent) (e : LedgerEvent) :
    issued { ledger := l, history := h ++ [e] } = (h.map LedgerEvent.credit).sum + e.credit := by
  simp [issued]

end Session

section

variable [Prims]

/-! ## One call -/

namespace Session

/-- A call never changes the policy. -/
theorem step_policy (s : Session) (c : LedgerCall) :
    (s.step c).ledger.policy = s.ledger.policy := by
  cases c with
  | applyTransaction tx =>
    rcases s.ledger.applyTransaction_cases tx with ⟨total, _, heq⟩ | ⟨r, _, heq⟩ <;>
      simp only [step, heq, settled_policy]
  | addWitness txId peerId =>
    rcases s.ledger.addWitness_cases txId peerId with
      ⟨heq, _⟩ | ⟨tx, _, _, ⟨_, heq⟩ | ⟨_, _, ⟨msg, _, heq⟩ | ⟨_, heq⟩⟩⟩ <;>
      simp only [step, heq, setTransaction_policy, setAccount_policy]
  | genesisCredit a amt =>
    rcases s.ledger.genesisCredit_cases a amt with ⟨_, heq⟩ | ⟨msg, heq⟩ <;>
      simp only [step, heq, setAccount_policy]

/-- Every call keeps the books. -/
theorem step_books {s : Session} (hb : Books s.ledger s.credits s.issued)
    (hp : s.ledger.policy.maxBalanceMuon.toNat < 2 ^ 64 - 1) (c : LedgerCall) :
    Books (s.step c).ledger (s.step c).credits (s.step c).issued := by
  -- one case a call; refused calls leave the books as they are
  cases c with
  | applyTransaction tx =>
    rcases s.ledger.applyTransaction_cases tx with ⟨total, hset, heq⟩ | ⟨r, _, heq⟩
    · simp only [step, heq, credits_append, issued_append, LedgerEvent.creditTo,
        LedgerEvent.credit, Nat.add_zero]
      exact hb.settled hp hset
    · simp only [step, heq, credits_append, issued_append, LedgerEvent.creditTo,
        LedgerEvent.credit, Nat.add_zero]
      exact hb
  | addWitness txId peerId =>
    -- unknown row, known witness, below the quorum, and the witness that confirms
    rcases s.ledger.addWitness_cases txId peerId with
      ⟨heq, _⟩ | ⟨tx, hget, _, ⟨hsame, heq⟩ | ⟨hold, hnew, ⟨msg, _, heq⟩ | ⟨_, heq⟩⟩⟩ <;>
      simp only [step, heq, credits_append, issued_append, LedgerEvent.creditTo,
        LedgerEvent.credit, Nat.add_zero]
    · exact hb
    · exact hb.witnessed hget hsame
    · exact hb
    · exact hb.confirmed hp hget hold hnew
  | genesisCredit a amt =>
    rcases s.ledger.genesisCredit_cases a amt with ⟨hok, heq⟩ | ⟨msg, heq⟩
    · simp only [step, heq, credits_append, issued_append, LedgerEvent.creditTo,
        LedgerEvent.credit]
      exact hb.credited hp hok
    · simp only [step, heq, credits_append, issued_append, LedgerEvent.creditTo,
        LedgerEvent.credit, Nat.add_zero]
      exact hb

/-! ## Whole runs -/

theorem run_append_singleton (p : SettlementPolicy) (calls : List LedgerCall) (c : LedgerCall) :
    run p (calls ++ [c]) = (run p calls).step c := by
  simp [run]

/-- The policy of a run is the one it started with. -/
theorem run_policy (p : SettlementPolicy) (calls : List LedgerCall) :
    (run p calls).ledger.policy = p := by
  induction calls using List.reverseRecOn with
  | nil => rfl
  | append_singleton calls c ih => rw [run_append_singleton, step_policy, ih]

/-- The books agree in every session of a run. Induction on the calls. -/
theorem run_books {p : SettlementPolicy} (hp : p.maxBalanceMuon.toNat < 2 ^ 64 - 1)
    (calls : List LedgerCall) :
    Books (run p calls).ledger (run p calls).credits (run p calls).issued := by
  induction calls using List.reverseRecOn with
  | nil => exact books_empty p
  | append_singleton calls c ih =>
    rw [run_append_singleton]
    exact step_books ih (by rw [run_policy]; exact hp) c

end Session

/-- **The ledger's accounts are exactly what its transactions say.** After any calls under
a shipped policy, every balance is credits plus confirmed receipts minus spending, every
pending column is the unconfirmed receipts, the subtraction of a confirmation never
saturates, and the money in the accounts is the credits issued minus the fees paid. -/
theorem ledger_accounting (p : ShippedPolicy) (calls : List LedgerCall) :
    let s := Session.run p.policy calls
    (∀ a, ((s.ledger.account a).balanceMuon.toNat : Int)
        = s.credits a + s.ledger.confirmedTo a - s.ledger.sent a)
    ∧ (∀ a, (s.ledger.account a).pendingReceived.toNat = s.ledger.pendingTo a)
    ∧ (∀ txId tx, s.ledger.transactions.lookup txId = some tx → tx.isConfirmed = false →
        tx.amountMuon ≤ (s.ledger.account tx.toAddr).pendingReceived)
    ∧ s.ledger.holdings + s.ledger.fees = s.issued := by
  intro s
  have hb : Books s.ledger s.credits s.issued := Session.run_books p.maxBalance_lt calls
  refine ⟨?_, hb.pending, ?_, hb.supply⟩
  · intro a
    have h := hb.balance a
    omega
  · intro txId tx hget hconf
    exact U64.le_iff.mpr (hb.amount_le_pending hget hconf)

/-- **No account is over the cap, and no unchecked update wraps.** After any calls under a
shipped policy: confirmed plus pending money of every account is within the cap; an
accepted transaction debits at most the balance and credits without overflow; a stored
transaction can always be witnessed, without overflow; a granted credit fits. -/
theorem balance_cap_no_overflow (p : ShippedPolicy) (calls : List LedgerCall) :
    let l := (Session.run p.policy calls).ledger
    (∀ a, (l.account a).balanceMuon.toNat + (l.account a).pendingReceived.toNat
        ≤ p.policy.maxBalanceMuon.toNat)
    ∧ (∀ tx, (l.applyTransaction tx).1 = .ok .accepted →
        tx.amountMuon.toNat + tx.feeMuon.toNat ≤ (l.account tx.fromAddr).balanceMuon.toNat
        ∧ (l.account tx.toAddr).balanceMuon.toNat + tx.amountMuon.toNat < 2 ^ 64
        ∧ (l.account tx.toAddr).pendingReceived.toNat + tx.amountMuon.toNat < 2 ^ 64)
    ∧ (∀ txId tx peerId, l.transactions.lookup txId = some tx →
        (∃ b, (l.addWitness txId peerId).1 = .ok b)
        ∧ (tx.isConfirmed = false →
            (l.account tx.toAddr).balanceMuon.toNat + tx.amountMuon.toNat < 2 ^ 64))
    ∧ (∀ a amt, (l.genesisCredit a amt).1 = .ok () →
        (l.account a).balanceMuon.toNat + amt.toNat < 2 ^ 64) := by
  intro l
  have hb : Books l (Session.run p.policy calls).credits (Session.run p.policy calls).issued :=
    Session.run_books p.maxBalance_lt calls
  have hpol : l.policy = p.policy := Session.run_policy p.policy calls
  have hp : l.policy.maxBalanceMuon.toNat < 2 ^ 64 - 1 := hpol ▸ p.maxBalance_lt
  refine ⟨?_, ?_, ?_, ?_⟩
  · intro a
    rw [← hpol]
    exact hb.cap a
  · intro tx hacc
    rcases l.applyTransaction_cases tx with ⟨total, hset, _⟩ | ⟨r, hr, heq⟩
    · obtain ⟨htotal, hfunds, hcap⟩ := Books.settles_bounds hp hset
      unfold rowHolding at hcap
      omega
    · rw [heq] at hacc
      exact absurd hacc hr
  · intro txId tx peerId hget
    constructor
    · rcases l.addWitness_cases txId peerId with
        ⟨heq, _⟩ | ⟨tx', hget', _, ⟨_, heq⟩ | ⟨hold, _, ⟨msg, herr, heq⟩ | ⟨_, heq⟩⟩⟩
      · exact ⟨false, by rw [heq]⟩
      · exact ⟨true, by rw [heq]⟩
      · -- the cap check of the confirming witness cannot fail
        rw [hb.confirm_cap_ok hp hget' hold] at herr
        exact absurd herr (by simp)
      · exact ⟨true, by rw [heq]⟩
    · intro hconf
      have hle := hb.amount_le_pending hget hconf
      have hcap := hb.cap tx.toAddr
      unfold rowHolding at hcap
      omega
  · intro a amt hok
    rcases l.genesisCredit_cases a amt with ⟨hcap, _⟩ | ⟨msg, heq⟩
    · have h := (SettlementPolicy.checkBalanceCap_ok_iff hp _ _ _).mp hcap
      omega
    · rw [heq] at hok
      exact absurd hok (by simp)

end

/-! ## Nonces -/

namespace LocalLedger

/-- The nonces of the stored transactions of `a`. -/
def storedNonces (l : LocalLedger) (a : Address) : List Nat :=
  ((KvTree.values l.transactions).filter (fun tx => tx.fromAddr = a)).map fun tx => tx.nonce.toNat

/-- A new row adds its nonce to its sender's list. -/
theorem storedNonces_insert {l : LocalLedger} {tx : Transaction}
    (hfresh : l.transactions.lookup tx.id = none) (total : UInt64) (a : Address) :
    (l.settled tx total).storedNonces a =
      if tx.fromAddr = a then tx.nonce.toNat :: l.storedNonces a else l.storedNonces a := by
  unfold storedNonces
  rw [settled_transactions, KvTree.values_insert,
    KvTree.values_erase_of_notMem (AList.lookup_eq_none.mp hfresh), List.filter_cons]
  by_cases ha : tx.fromAddr = a <;> simp [ha]

/-- Overwriting a row by one with the same sender and nonce keeps every list. -/
theorem storedNonces_setTransaction {l : LocalLedger} {id : TxId} {tx tx' : Transaction}
    (hget : l.transactions.lookup id = some tx) (hfrom : tx'.fromAddr = tx.fromAddr)
    (hnonce : tx'.nonce = tx.nonce) (a : Address) :
    ((l.setTransaction id tx').storedNonces a).Perm (l.storedNonces a) := by
  obtain ⟨rest, hold, hnew⟩ := KvTree.values_insert_perm_of_lookup hget tx'
  unfold storedNonces
  refine ((hnew.filter _).map _).trans (List.Perm.trans ?_ ((hold.filter _).map _).symm)
  rw [List.filter_cons, List.filter_cons, hfrom]
  split
  · rw [List.map_cons, List.map_cons, hnonce]
  · rfl

end LocalLedger

/-- The nonce invariant of a ledger against the number of acceptances per sender. -/
structure Nonces (l : LocalLedger) (accepted : Address → Nat) : Prop where
  stored : ∀ a, (l.storedNonces a).Perm (List.range (l.account a).nextNonce.toNat)
  count : ∀ a, (l.account a).nextNonce.toNat = accepted a

namespace Nonces

variable {l : LocalLedger} {accepted : Address → Nat}

theorem empty (p : SettlementPolicy) : Nonces (.empty p) (fun _ => 0) where
  stored _ := List.Perm.refl _
  count _ := rfl

/-- Only the transactions and the `next_nonce` columns matter. -/
theorem congr {l' : LocalLedger} (h : Nonces l accepted)
    (hstored : ∀ a, (l'.storedNonces a).Perm (l.storedNonces a))
    (hnext : ∀ a, (l'.account a).nextNonce = (l.account a).nextNonce) : Nonces l' accepted where
  stored a := by
    rw [hnext]
    exact (hstored a).trans (h.stored a)
  count a := by
    rw [hnext]
    exact h.count a

/-- The row written by a settlement moves the sender's nonce by one and no other. -/
theorem nextNonce_settled [Prims] {tx : Transaction} {total : UInt64} (h : l.Settles tx total)
    (a : Address) : ((l.settled tx total).account a).nextNonce
      = if tx.fromAddr = a then (l.account a).nextNonce + 1 else (l.account a).nextNonce := by
  rw [l.account_settled h.distinct]
  split
  · next ha =>
    subst ha
    rw [if_neg h.distinct]
    unfold received
    split <;> rfl
  · split
    · next ha => subst ha; rw [if_pos rfl]; rfl
    · next ha => rw [if_neg (fun hc => ha hc.symm)]

/-- An accepted transaction takes exactly the next nonce of its sender. -/
theorem settled [Prims] (h : Nonces l accepted) {tx : Transaction} {total : UInt64}
    (hset : l.Settles tx total) (hbound : ∀ a, accepted a + 1 < 2 ^ 64) :
    Nonces (l.settled tx total) (fun a => accepted a + if tx.fromAddr = a then 1 else 0) := by
  have hnext : ∀ a, ((l.settled tx total).account a).nextNonce.toNat
      = (l.account a).nextNonce.toNat + if tx.fromAddr = a then 1 else 0 := by
    intro a
    rw [nextNonce_settled hset]
    split
    · have hlt := hbound a
      rw [← h.count a] at hlt
      exact U64.toNat_add_of_lt hlt
    · rfl
  refine ⟨?_, ?_⟩
  · intro a
    rw [storedNonces_insert hset.fresh, hnext]
    split
    · next ha =>
      subst ha
      rw [List.range_succ, hset.nonce]
      exact ((h.stored _).cons _).trans (List.perm_append_singleton _ _).symm
    · exact h.stored a
  · intro a
    rw [hnext, h.count]

end Nonces

namespace Session

theorem accepted_append (l : LocalLedger) (h : List LedgerEvent) (e : LedgerEvent) (a : Address) :
    accepted { ledger := l, history := h ++ [e] } a
      = h.countP (LedgerEvent.acceptedFrom a) + if e.acceptedFrom a then 1 else 0 := by
  unfold accepted
  rw [List.countP_append, List.countP_singleton]

variable [Prims]

theorem step_history_length (s : Session) (c : LedgerCall) :
    (s.step c).history.length = s.history.length + 1 := by
  cases c <;> simp [step]

/-- A session has one event per call. -/
theorem run_history_length (p : SettlementPolicy) (calls : List LedgerCall) :
    (run p calls).history.length = calls.length := by
  induction calls using List.reverseRecOn with
  | nil => rfl
  | append_singleton calls c ih =>
    rw [run_append_singleton, step_history_length, ih, List.length_append, List.length_singleton]

/-- Every call keeps the nonces, as long as fewer than `2 ^ 64 - 1` calls came before. -/
theorem step_nonces {s : Session} (hn : Nonces s.ledger s.accepted)
    (hlen : s.history.length + 1 < 2 ^ 64) (c : LedgerCall) :
    Nonces (s.step c).ledger (s.step c).accepted := by
  have hbound : ∀ a, s.accepted a + 1 < 2 ^ 64 := by
    intro a
    have hle : s.accepted a ≤ s.history.length := List.countP_le_length
    omega
  cases c with
  | applyTransaction tx =>
    rcases s.ledger.applyTransaction_cases tx with ⟨total, hset, heq⟩ | ⟨r, hr, heq⟩
    · -- accepted: one more of the sender, whose nonce goes up by one
      have hacc : (s.step (.applyTransaction tx)).accepted
          = fun a => s.accepted a + if tx.fromAddr = a then 1 else 0 := by
        funext a
        simp only [step, heq, accepted_append, LedgerEvent.acceptedFrom, decide_eq_true_eq]
        rfl
      rw [hacc]
      simp only [step, heq]
      exact hn.settled hset hbound
    · -- refused: nothing is accepted and nothing is stored
      have hacc : (s.step (.applyTransaction tx)).accepted = s.accepted := by
        funext a
        have hno : LedgerEvent.acceptedFrom a (.applied tx r) = false := by
          unfold LedgerEvent.acceptedFrom
          split
          · next heq' =>
            injection heq' with _ hres
            exact absurd hres hr
          · rfl
        simp only [step, heq, accepted_append, hno]
        rfl
      rw [hacc]
      simp only [step, heq]
      exact hn
  | addWitness txId peerId =>
    -- a witness changes the balances of the recipient, not the nonces
    have hacc : (s.step (.addWitness txId peerId)).accepted = s.accepted := by
      funext a
      simp only [step, accepted_append, LedgerEvent.acceptedFrom]
      rfl
    rw [hacc]
    rcases s.ledger.addWitness_cases txId peerId with
      ⟨heq, _⟩ | ⟨tx, hget, _, ⟨_, heq⟩ | ⟨_, _, ⟨msg, _, heq⟩ | ⟨_, heq⟩⟩⟩ <;>
      simp only [step, heq]
    · exact hn
    · exact hn.congr (storedNonces_setTransaction hget rfl rfl) (fun _ => rfl)
    · exact hn
    · refine hn.congr (storedNonces_setTransaction hget rfl rfl) ?_
      intro a
      rw [account_setTransaction, account_setAccount]
      split
      · next ha => rw [ha]; rfl
      · rfl
  | genesisCredit b amt =>
    -- nor does a credit
    have hacc : (s.step (.genesisCredit b amt)).accepted = s.accepted := by
      funext a
      simp only [step, accepted_append, LedgerEvent.acceptedFrom]
      rfl
    rw [hacc]
    rcases s.ledger.genesisCredit_cases b amt with ⟨_, heq⟩ | ⟨msg, heq⟩ <;>
      simp only [step, heq]
    · refine hn.congr (fun _ => List.Perm.refl _) ?_
      intro a
      rw [account_setAccount]
      split
      · next ha => rw [ha]
      · rfl
    · exact hn

/-- The nonces are in order in every session of a run. Induction on the calls. -/
theorem run_nonces (p : SettlementPolicy) {calls : List LedgerCall} (hlen : calls.length < 2 ^ 64) :
    Nonces (run p calls).ledger (run p calls).accepted := by
  induction calls using List.reverseRecOn with
  | nil => exact Nonces.empty p
  | append_singleton calls c ih =>
    rw [List.length_append, List.length_singleton] at hlen
    rw [run_append_singleton]
    exact step_nonces (ih (by omega)) (by rw [run_history_length]; exact hlen) c

end Session

/-- **No double spend.** After fewer than `2 ^ 64` calls, under any policy, the stored
transactions of `a` carry the nonces `0, 1, …, next_nonce - 1`, each exactly once, and
`next_nonce` is the number of transactions of `a` that were accepted. -/
theorem no_double_spend [Prims] (p : SettlementPolicy) (calls : List LedgerCall)
    (hlen : calls.length < 2 ^ 64) (a : Address) :
    let s := Session.run p calls
    (s.ledger.storedNonces a).Perm (List.range (s.ledger.account a).nextNonce.toNat)
    ∧ (s.ledger.account a).nextNonce.toNat = s.accepted a :=
  ⟨(Session.run_nonces p hlen).stored a, (Session.run_nonces p hlen).count a⟩

section

attribute [local instance] symbolicPrims

/-- A first transfer, signed by its sender. -/
def symbolicTransfer : Transaction :=
  let tx : Transaction :=
    { id := "tx"
      fromAddr := addressFromKeypair (symbolicKey 1)
      toAddr := addressFromKeypair (symbolicKey 2)
      amountMuon := 1000, feeMuon := 10, timestampMs := 5, nonce := 0, memo := none
      fromPublicKey := Prims.encodeProtobuf (Prims.identity.pub (symbolicKey 1))
      signature := [], witnesses := ∅ }
  { tx with signature := (Prims.identity.sign (symbolicKey 1) tx.bytesForSigning).getD [] }

/-- A ledger on which only the sender of `symbolicTransfer` has money. -/
def fundedLedger : LocalLedger :=
  (Session.run .betaDefaults
    [.genesisCredit (addressFromKeypair (symbolicKey 1)) 100000]).ledger

/-- A credit, a transfer, and the same transfer under another id. -/
def symbolicCalls : List LedgerCall :=
  [.genesisCredit (addressFromKeypair (symbolicKey 1)) 100000,
    .applyTransaction symbolicTransfer,
    .applyTransaction { symbolicTransfer with id := "tx-again" }]

/-- The replayed transfer is refused: one acceptance, one stored nonce. -/
theorem no_double_spend_replay :
    symbolicCalls.length < 2 ^ 64
    ∧ (Session.run .betaDefaults symbolicCalls).accepted (addressFromKeypair (symbolicKey 1)) = 1
    ∧ ((Session.run .betaDefaults symbolicCalls).ledger.storedNonces
        (addressFromKeypair (symbolicKey 1))).Perm [0] := by
  have hone : (Session.run .betaDefaults symbolicCalls).accepted
      (addressFromKeypair (symbolicKey 1)) = 1 := by decide +kernel
  obtain ⟨hperm, hcount⟩ := no_double_spend .betaDefaults symbolicCalls (by decide)
    (addressFromKeypair (symbolicKey 1))
  rw [hcount, hone] at hperm
  exact ⟨by decide, hone, hperm⟩

end

end Mycelium.Coin

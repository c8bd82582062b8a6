import Mycelium.Coin.LedgerSteps

/-!
# Mycelium coin — the books of a ledger

What the ledger is for, stated over the trees it stores rather than over the running
totals it updates:

* `sent`, `confirmedTo`, `pendingTo`, `fees`, `holdings` — closed forms over the stored
  transactions and accounts;
* `Books` — the invariant: the running totals *are* the closed forms, and no account is
  over the cap.

Each of the four ways a call can write the ledger keeps the books (`Books.settled`,
`Books.witnessed`, `Books.confirmed`, `Books.credited`); `Coin.LedgerRuns` assembles them
into whole runs.
-/

namespace Mycelium.Coin

open LocalLedger

/-! ## Closed forms -/

namespace LocalLedger

/-- Amount plus fee of a transaction sent by `a`. -/
def sentBy (a : Address) (tx : Transaction) : Nat :=
  if tx.fromAddr = a then tx.amountMuon.toNat + tx.feeMuon.toNat else 0

/-- Amount of a confirmed transaction to `a`. -/
def confirmedFor (a : Address) (tx : Transaction) : Nat :=
  if tx.toAddr = a ∧ tx.isConfirmed = true then tx.amountMuon.toNat else 0

/-- Amount of a transaction to `a` that still lacks witnesses. -/
def pendingFor (a : Address) (tx : Transaction) : Nat :=
  if tx.toAddr = a ∧ tx.isConfirmed = false then tx.amountMuon.toNat else 0

/-- Everything `a` has spent, fees included. -/
def sent (l : LocalLedger) (a : Address) : Nat := KvTree.sumBy (sentBy a) l.transactions

/-- Everything `a` has received in transactions with at least three witnesses. -/
def confirmedTo (l : LocalLedger) (a : Address) : Nat :=
  KvTree.sumBy (confirmedFor a) l.transactions

/-- Everything on its way to `a` in transactions with fewer than three witnesses. -/
def pendingTo (l : LocalLedger) (a : Address) : Nat :=
  KvTree.sumBy (pendingFor a) l.transactions

/-- The fees of all stored transactions. -/
def fees (l : LocalLedger) : Nat :=
  KvTree.sumBy (fun tx : Transaction => tx.feeMuon.toNat) l.transactions

/-- Confirmed plus pending money of one account row. -/
def rowHolding (acc : AccountState) : Nat := acc.balanceMuon.toNat + acc.pendingReceived.toNat

/-- All the money in the accounts tree. -/
def holdings (l : LocalLedger) : Nat := KvTree.sumBy rowHolding l.accounts

/-- Overwriting a row moves the total by the difference of the rows (an absent row holds
nothing). -/
theorem holdings_setAccount (l : LocalLedger) (a : Address) (acc : AccountState) :
    (l.setAccount a acc).holdings + rowHolding (l.account a) = rowHolding acc + l.holdings := by
  have h := KvTree.sumBy_insert rowHolding l.accounts a acc
  have hrow : ((l.accounts.lookup a).map rowHolding).getD 0 = rowHolding (l.account a) := by
    unfold account
    cases l.accounts.lookup a with
    | none => rfl
    | some acc => rfl
  rw [hrow] at h
  exact h

/-! ### Rows as numbers -/

/-- A covered debit is exact. -/
theorem toNat_debited {acc : AccountState} {total : UInt64}
    (h : total.toNat ≤ acc.balanceMuon.toNat) :
    (debited acc total).balanceMuon.toNat = acc.balanceMuon.toNat - total.toNat :=
  U64.toNat_sub_of_le h

@[simp] theorem debited_pendingReceived (acc : AccountState) (total : UInt64) :
    (debited acc total).pendingReceived = acc.pendingReceived := rfl

/-- A credit that fits is exact, on whichever of the two columns it lands. -/
theorem toNat_received {acc : AccountState} {tx : Transaction}
    (h : rowHolding acc + tx.amountMuon.toNat < 2 ^ 64) :
    (received acc tx).balanceMuon.toNat = acc.balanceMuon.toNat + confirmedFor tx.toAddr tx
    ∧ (received acc tx).pendingReceived.toNat
        = acc.pendingReceived.toNat + pendingFor tx.toAddr tx := by
  unfold rowHolding at h
  unfold received confirmedFor pendingFor
  cases tx.isConfirmed with
  | true =>
    simp only [if_true, and_self, Bool.true_eq_false, and_false, if_false, Nat.add_zero, and_true]
    exact U64.toNat_add_of_lt (by omega)
  | false =>
    simp only [Bool.false_eq_true, if_false, and_false, Nat.add_zero, and_self, if_true, true_and]
    exact U64.toNat_add_of_lt (by omega)

/-- A transaction to an address is either confirmed or pending there. -/
theorem confirmedFor_add_pendingFor (tx : Transaction) :
    confirmedFor tx.toAddr tx + pendingFor tx.toAddr tx = tx.amountMuon.toNat := by
  unfold confirmedFor pendingFor
  cases tx.isConfirmed <;> simp

theorem confirmedFor_of_ne {a : Address} {tx : Transaction} (h : a ≠ tx.toAddr) :
    confirmedFor a tx = 0 := if_neg (fun hc => h hc.1.symm)

theorem pendingFor_of_ne {a : Address} {tx : Transaction} (h : a ≠ tx.toAddr) :
    pendingFor a tx = 0 := if_neg (fun hc => h hc.1.symm)

/-- A confirming or settling credit keeps the row's total exact. -/
theorem rowHolding_received {acc : AccountState} {tx : Transaction}
    (h : rowHolding acc + tx.amountMuon.toNat < 2 ^ 64) :
    rowHolding (received acc tx) = rowHolding acc + tx.amountMuon.toNat := by
  have hrecv := toNat_received h
  have hsplit := confirmedFor_add_pendingFor tx
  unfold rowHolding
  omega

/-- Settlement takes the total out of the sender's row and puts the amount into the
recipient's: the accounts tree as a whole loses the fee. -/
theorem holdings_settled (l : LocalLedger) {tx : Transaction} {total : UInt64}
    (hdist : tx.fromAddr ≠ tx.toAddr)
    (hfunds : total.toNat ≤ (l.account tx.fromAddr).balanceMuon.toNat)
    (hfit : rowHolding (l.account tx.toAddr) + tx.amountMuon.toNat < 2 ^ 64) :
    (l.settled tx total).holdings + total.toNat = l.holdings + tx.amountMuon.toNat := by
  have hhold : (l.settled tx total).holdings
      = ((l.setAccount tx.fromAddr (debited (l.account tx.fromAddr) total)).setAccount tx.toAddr
          (received (l.account tx.toAddr) tx)).holdings := by
    unfold holdings
    rw [settled_accounts]
    simp only [account_setAccount_ne _ hdist.symm]
  have h₁ := l.holdings_setAccount tx.fromAddr (debited (l.account tx.fromAddr) total)
  have h₂ := (l.setAccount tx.fromAddr
    (debited (l.account tx.fromAddr) total)).holdings_setAccount tx.toAddr
      (received (l.account tx.toAddr) tx)
  -- the recipient's row is untouched by the first write
  rw [account_setAccount_ne _ hdist.symm, rowHolding_received hfit] at h₂
  have hdebit : rowHolding (debited (l.account tx.fromAddr) total) + total.toNat
      = rowHolding (l.account tx.fromAddr) := by
    unfold rowHolding
    rw [toNat_debited hfunds, debited_pendingReceived]
    omega
  rw [hhold]
  omega

/-- A closed form over the transactions after a new row is stored. -/
theorem sumBy_settled (f : Transaction → Nat) {l : LocalLedger} {tx : Transaction}
    (hfresh : l.transactions.lookup tx.id = none) (total : UInt64) :
    KvTree.sumBy f (l.settled tx total).transactions = f tx + KvTree.sumBy f l.transactions := by
  have h := KvTree.sumBy_insert f l.transactions tx.id tx
  rw [hfresh] at h
  simpa using h

/-- A closed form over the transactions after a stored row is overwritten. -/
theorem sumBy_setTransaction (f : Transaction → Nat) {l : LocalLedger} {id : TxId}
    {tx : Transaction} (hget : l.transactions.lookup id = some tx) (tx' : Transaction) :
    KvTree.sumBy f (l.setTransaction id tx').transactions + f tx
      = f tx' + KvTree.sumBy f l.transactions := by
  have h := KvTree.sumBy_insert f l.transactions id tx'
  rw [hget] at h
  simpa using h

end LocalLedger

namespace LedgerEvent

/-- The amount of a successful genesis credit to `a`. -/
def creditTo (a : Address) : LedgerEvent → Nat
  | .credited b amt (.ok _) => if b = a then amt.toNat else 0
  | _ => 0

/-- The amount of a successful genesis credit. -/
def credit : LedgerEvent → Nat
  | .credited _ amt (.ok _) => amt.toNat
  | _ => 0

/-- The event is the acceptance of a transaction of `a`. -/
def acceptedFrom (a : Address) : LedgerEvent → Bool
  | .applied tx (.ok .accepted) => tx.fromAddr = a
  | _ => false

end LedgerEvent

namespace Session

/-- All genesis credits `a` received. -/
def credits (s : Session) (a : Address) : Nat := (s.history.map (LedgerEvent.creditTo a)).sum

/-- All genesis credits. -/
def issued (s : Session) : Nat := (s.history.map LedgerEvent.credit).sum

/-- How many transactions of `a` were accepted. -/
def accepted (s : Session) (a : Address) : Nat := s.history.countP (LedgerEvent.acceptedFrom a)

end Session

/-! ## The accounting invariant -/

/-- The books of a ledger against the genesis credits `credits` (`issued` in total):
running totals equal closed forms, and no account is over the cap. -/
structure Books (l : LocalLedger) (credits : Address → Nat) (issued : Nat) : Prop where
  cap : ∀ a, rowHolding (l.account a) ≤ l.policy.maxBalanceMuon.toNat
  balance : ∀ a, (l.account a).balanceMuon.toNat + l.sent a = credits a + l.confirmedTo a
  pending : ∀ a, (l.account a).pendingReceived.toNat = l.pendingTo a
  supply : l.holdings + l.fees = issued

theorem books_empty (p : SettlementPolicy) : Books (.empty p) (fun _ => 0) 0 where
  cap _ := Nat.zero_le _
  balance _ := rfl
  pending _ := rfl
  supply := rfl

namespace Books

variable {l : LocalLedger} {credits : Address → Nat} {issued : Nat}

/-! ### An accepted transaction -/

section Settled

variable [Prims] {tx : Transaction} {total : UInt64}

/-- The facts the parts below share: the debit is covered and the credit fits. -/
theorem settles_bounds (hp : l.policy.maxBalanceMuon.toNat < 2 ^ 64 - 1)
    (h : l.Settles tx total) :
    total.toNat = tx.amountMuon.toNat + tx.feeMuon.toNat
    ∧ total.toNat ≤ (l.account tx.fromAddr).balanceMuon.toNat
    ∧ rowHolding (l.account tx.toAddr) + tx.amountMuon.toNat ≤ l.policy.maxBalanceMuon.toNat :=
  ⟨U64.checkedAdd_eq_some_iff.mp h.total_eq, U64.le_iff.mp h.funds,
    (SettlementPolicy.checkBalanceCap_ok_iff hp _ _ _).mp h.cap⟩

theorem cap_settled (hb : Books l credits issued)
    (hp : l.policy.maxBalanceMuon.toNat < 2 ^ 64 - 1) (h : l.Settles tx total) (a : Address) :
    rowHolding ((l.settled tx total).account a) ≤ l.policy.maxBalanceMuon.toNat := by
  obtain ⟨-, hfunds, hcap⟩ := settles_bounds hp h
  rw [l.account_settled h.distinct]
  split
  · rw [rowHolding_received (by omega)]
    exact hcap
  · split
    · have hrow := hb.cap tx.fromAddr
      unfold rowHolding at hrow ⊢
      rw [toNat_debited hfunds, debited_pendingReceived]
      omega
    · exact hb.cap a

theorem balance_settled (hb : Books l credits issued)
    (hp : l.policy.maxBalanceMuon.toNat < 2 ^ 64 - 1) (h : l.Settles tx total) (a : Address) :
    ((l.settled tx total).account a).balanceMuon.toNat + (l.settled tx total).sent a
      = credits a + (l.settled tx total).confirmedTo a := by
  obtain ⟨htotal, hfunds, hcap⟩ := settles_bounds hp h
  have hsent : (l.settled tx total).sent a = sentBy a tx + l.sent a :=
    sumBy_settled (sentBy a) h.fresh total
  have hconf : (l.settled tx total).confirmedTo a = confirmedFor a tx + l.confirmedTo a :=
    sumBy_settled (confirmedFor a) h.fresh total
  have hbal := hb.balance a
  rw [l.account_settled h.distinct, hsent, hconf]
  -- the payee, the payer, and everybody else; settling moves the amount from the second to the
  -- first
  split
  · next ha =>
    subst ha
    have hz : sentBy tx.toAddr tx = 0 := if_neg h.distinct
    rw [(toNat_received (by omega)).1]
    omega
  · next ha =>
    have hz := confirmedFor_of_ne ha
    split
    · next ha' =>
      subst ha'
      have hw : sentBy tx.fromAddr tx = tx.amountMuon.toNat + tx.feeMuon.toNat := if_pos rfl
      rw [toNat_debited hfunds]
      omega
    · next ha' =>
      have hw : sentBy a tx = 0 := if_neg (fun hc => ha' hc.symm)
      omega

theorem pending_settled (hb : Books l credits issued)
    (hp : l.policy.maxBalanceMuon.toNat < 2 ^ 64 - 1) (h : l.Settles tx total) (a : Address) :
    ((l.settled tx total).account a).pendingReceived.toNat = (l.settled tx total).pendingTo a := by
  obtain ⟨-, -, hcap⟩ := settles_bounds hp h
  have hpend : (l.settled tx total).pendingTo a = pendingFor a tx + l.pendingTo a :=
    sumBy_settled (pendingFor a) h.fresh total
  have hpa := hb.pending a
  rw [l.account_settled h.distinct, hpend]
  split
  · next ha =>
    subst ha
    rw [(toNat_received (by omega)).2]
    omega
  · next ha =>
    have hz := pendingFor_of_ne ha
    split
    · next ha' =>
      subst ha'
      rw [debited_pendingReceived]
      omega
    · omega

/-- Acceptance keeps the books: the sender pays amount and fee, the recipient gains the
amount as balance or as pending, and the new row accounts for exactly that. -/
theorem settled (hb : Books l credits issued)
    (hp : l.policy.maxBalanceMuon.toNat < 2 ^ 64 - 1) (h : l.Settles tx total) :
    Books (l.settled tx total) credits issued where
  cap := hb.cap_settled hp h
  balance := hb.balance_settled hp h
  pending := hb.pending_settled hp h
  supply := by
    obtain ⟨htotal, hfunds, hcap⟩ := settles_bounds hp h
    have hhold := l.holdings_settled h.distinct hfunds (by omega)
    have hfees : (l.settled tx total).fees = tx.feeMuon.toNat + l.fees :=
      sumBy_settled _ h.fresh total
    have hsupply := hb.supply
    omega

end Settled

/-! ### One more witness -/

section Witnessed

variable {txId : TxId} {tx : Transaction} {peerId : String}

/-- A witness that does not change the confirmation status changes no closed form. -/
theorem witnessed (hb : Books l credits issued) (hget : l.transactions.lookup txId = some tx)
    (hconf : tx.isConfirmed = (withWitness tx peerId).isConfirmed) :
    Books (l.setTransaction txId (withWitness tx peerId)) credits issued := by
  -- a weight that does not see the new witness has the same sum
  have hsame : ∀ f : Transaction → Nat, f (withWitness tx peerId) = f tx →
      KvTree.sumBy f (l.setTransaction txId (withWitness tx peerId)).transactions
        = KvTree.sumBy f l.transactions := by
    intro f hf
    have h := sumBy_setTransaction f hget (withWitness tx peerId)
    omega
  have hrecv : ∀ a, confirmedFor a (withWitness tx peerId) = confirmedFor a tx := by
    intro a
    unfold confirmedFor
    rw [← hconf]
    rfl
  have hpend : ∀ a, pendingFor a (withWitness tx peerId) = pendingFor a tx := by
    intro a
    unfold pendingFor
    rw [← hconf]
    rfl
  refine ⟨hb.cap, ?_, ?_, ?_⟩
  · intro a
    unfold sent confirmedTo
    rw [hsame (sentBy a) rfl, hsame (confirmedFor a) (hrecv a)]
    exact hb.balance a
  · intro a
    unfold pendingTo
    rw [hsame (pendingFor a) (hpend a)]
    exact hb.pending a
  · unfold fees
    rw [hsame _ rfl]
    exact hb.supply

/-- The amount of a stored unconfirmed transaction is part of its recipient's pending
column: the `saturating_sub` of the confirmation cannot saturate. -/
theorem amount_le_pending (hb : Books l credits issued)
    (hget : l.transactions.lookup txId = some tx) (hconf : tx.isConfirmed = false) :
    tx.amountMuon.toNat ≤ (l.account tx.toAddr).pendingReceived.toNat := by
  rw [hb.pending]
  have hle := KvTree.le_sumBy (f := pendingFor tx.toAddr) hget
  have hw : pendingFor tx.toAddr tx = tx.amountMuon.toNat := if_pos ⟨rfl, hconf⟩
  rw [hw] at hle
  exact hle

/-- The cap check of the confirming witness always passes: it adds nothing to the row. -/
theorem confirm_cap_ok (hb : Books l credits issued)
    (hp : l.policy.maxBalanceMuon.toNat < 2 ^ 64 - 1)
    (hget : l.transactions.lookup txId = some tx) (hconf : tx.isConfirmed = false) :
    l.policy.checkBalanceCap (l.account tx.toAddr).balanceMuon
      (U64.satSub (l.account tx.toAddr).pendingReceived tx.amountMuon) tx.amountMuon = .ok () := by
  rw [SettlementPolicy.checkBalanceCap_ok_iff hp, U64.toNat_satSub]
  have hle := hb.amount_le_pending hget hconf
  have hcap := hb.cap tx.toAddr
  unfold rowHolding at hcap
  omega

/-- The confirmed row, read as numbers. -/
theorem toNat_confirmed (hb : Books l credits issued)
    (hp : l.policy.maxBalanceMuon.toNat < 2 ^ 64 - 1)
    (hget : l.transactions.lookup txId = some tx) (hold : tx.isConfirmed = false) :
    (LocalLedger.confirmed (l.account tx.toAddr) tx.amountMuon).balanceMuon.toNat
        = (l.account tx.toAddr).balanceMuon.toNat + tx.amountMuon.toNat
    ∧ (LocalLedger.confirmed (l.account tx.toAddr) tx.amountMuon).pendingReceived.toNat
        = (l.account tx.toAddr).pendingReceived.toNat - tx.amountMuon.toNat := by
  have hle := hb.amount_le_pending hget hold
  have hcap := hb.cap tx.toAddr
  unfold rowHolding at hcap
  exact ⟨U64.toNat_add_of_lt (by omega), U64.toNat_satSub _ _⟩

/-- The confirming witness keeps the books: the amount moves from pending to confirmed, in
the row and in the closed forms alike. -/
theorem confirmed (hb : Books l credits issued) (hp : l.policy.maxBalanceMuon.toNat < 2 ^ 64 - 1)
    (hget : l.transactions.lookup txId = some tx) (hold : tx.isConfirmed = false)
    (hnew : (withWitness tx peerId).isConfirmed = true) :
    Books ((l.setAccount tx.toAddr (LocalLedger.confirmed (l.account tx.toAddr) tx.amountMuon)
      ).setTransaction txId (withWitness tx peerId)) credits issued := by
  set acc' := LocalLedger.confirmed (l.account tx.toAddr) tx.amountMuon with hacc'
  set l' := (l.setAccount tx.toAddr acc').setTransaction txId (withWitness tx peerId) with hl'
  have hle := hb.amount_le_pending hget hold
  have hcap := hb.cap tx.toAddr
  unfold rowHolding at hcap
  obtain ⟨hbal, hpen⟩ := hb.toNat_confirmed hp hget hold
  rw [← hacc'] at hbal hpen
  have hrow : ∀ a, l'.account a = if a = tx.toAddr then acc' else l.account a :=
    fun a => l.account_setAccount tx.toAddr a acc'
  have hsum : ∀ f, KvTree.sumBy f l'.transactions + f tx
      = f (withWitness tx peerId) + KvTree.sumBy f l.transactions :=
    fun f => sumBy_setTransaction f hget (withWitness tx peerId)
  refine ⟨?_, ?_, ?_, ?_⟩
  · -- no row exceeds the cap: the recipient has what it had, confirmed
    intro a
    show rowHolding (l'.account a) ≤ l.policy.maxBalanceMuon.toNat
    rw [hrow]
    split
    · unfold rowHolding
      omega
    · exact hb.cap a
  · -- balances: the transaction now counts for the recipient
    intro a
    have hsent := hsum (sentBy a)
    have hw : sentBy a (withWitness tx peerId) = sentBy a tx := rfl
    have hconf := hsum (confirmedFor a)
    have hz : confirmedFor a tx = 0 := if_neg (fun hc => by simp [hold] at hc)
    have hinv := hb.balance a
    unfold sent confirmedTo at hinv ⊢
    rw [hrow]
    split
    · next ha =>
      subst ha
      have hv : confirmedFor tx.toAddr (withWitness tx peerId) = tx.amountMuon.toNat :=
        if_pos ⟨rfl, hnew⟩
      omega
    · next ha =>
      have hv : confirmedFor a (withWitness tx peerId) = 0 := confirmedFor_of_ne ha
      omega
  · -- pending amounts: it no longer does
    intro a
    have hpend := hsum (pendingFor a)
    have hv : pendingFor a (withWitness tx peerId) = 0 := if_neg (fun hc => by simp [hnew] at hc)
    have hinv := hb.pending a
    unfold pendingTo at hinv ⊢
    rw [hrow]
    split
    · next ha =>
      subst ha
      have hz : pendingFor tx.toAddr tx = tx.amountMuon.toNat := if_pos ⟨rfl, hold⟩
      omega
    · next ha =>
      have hz : pendingFor a tx = 0 := pendingFor_of_ne ha
      omega
  · -- the total is the same, and so are the fees
    have hfees := hsum (fun tx => tx.feeMuon.toNat)
    have hhold := l.holdings_setAccount tx.toAddr acc'
    have hinv := hb.supply
    have hw : (withWitness tx peerId).feeMuon = tx.feeMuon := rfl
    unfold rowHolding at hhold
    unfold fees at hinv ⊢
    show (l.setAccount tx.toAddr acc').holdings + _ = _
    rw [hw] at hfees
    omega

end Witnessed

/-! ### A genesis credit -/

/-- A credit keeps the books against the credits it adds to. -/
theorem credited (hb : Books l credits issued) (hp : l.policy.maxBalanceMuon.toNat < 2 ^ 64 - 1)
    {a : Address} {amt : UInt64}
    (hok : l.policy.checkBalanceCap (l.account a).balanceMuon (l.account a).pendingReceived amt
      = .ok ()) :
    Books (l.setAccount a { l.account a with balanceMuon := (l.account a).balanceMuon + amt })
      (fun b => credits b + if a = b then amt.toNat else 0) (issued + amt.toNat) := by
  set acc' : AccountState := { l.account a with balanceMuon := (l.account a).balanceMuon + amt }
    with hacc'
  have hcap := (SettlementPolicy.checkBalanceCap_ok_iff hp _ _ _).mp hok
  have hbal : acc'.balanceMuon.toNat = (l.account a).balanceMuon.toNat + amt.toNat :=
    U64.toNat_add_of_lt (by omega)
  have hpen : acc'.pendingReceived = (l.account a).pendingReceived := rfl
  have hrow := fun b => l.account_setAccount a b acc'
  refine ⟨?_, ?_, ?_, ?_⟩
  · -- the cap was checked
    intro b
    show rowHolding ((l.setAccount a acc').account b) ≤ l.policy.maxBalanceMuon.toNat
    rw [hrow]
    split
    · unfold rowHolding
      rw [hpen]
      omega
    · exact hb.cap b
  · -- the credit is in the balance of its account
    intro b
    have hinv := hb.balance b
    show ((l.setAccount a acc').account b).balanceMuon.toNat + l.sent b = _ + l.confirmedTo b
    rw [hrow]
    split
    · next hba =>
      subst hba
      rw [if_pos rfl]
      omega
    · next hba =>
      rw [if_neg (fun h => hba h.symm)]
      omega
  · -- and in no pending amount
    intro b
    show ((l.setAccount a acc').account b).pendingReceived.toNat = l.pendingTo b
    rw [hrow]
    split
    · next hba =>
      subst hba
      rw [hpen]
      exact hb.pending b
    · exact hb.pending b
  · have hhold := l.holdings_setAccount a acc'
    have hinv := hb.supply
    unfold rowHolding at hhold
    rw [hpen] at hhold
    show (l.setAccount a acc').holdings + l.fees = _
    omega

end Books

end Mycelium.Coin

import Mycelium.Coin.Ledger

/-!
# Mycelium coin — what one ledger call can do

The inversion lemmas of the ledger: each of them executes a method symbolically *once*
and says every way it can end, with the guards it went through and the ledger it leaves.
The invariants of `Coin.Accounting` split on these cases and never open a program again.

* `applyTransaction_cases` — accepted, with every check passed (`Settles`) and the four
  writes done; or anything else, with the ledger untouched;
* `addWitness_cases` — nothing to do, refused by the cap, one more witness, or the
  witness that confirms;
* `genesisCredit_cases` — credited or refused.
-/

namespace Mycelium.Coin

namespace LocalLedger

variable {α β : Type}

/-! ## Executing programs -/

@[simp] theorem exec_pure (l : LocalLedger) (a : α) : l.exec (pure a) = (a, l) := rfl

@[simp] theorem exec_bind (l : LocalLedger) (p : LedgerProg α) (f : α → LedgerProg β) :
    l.exec (p >>= f) = (l.exec p).2.exec (f (l.exec p).1) :=
  Free.run_bind _ p f l

@[simp] theorem exec_perform (l : LocalLedger) (op : LedgerOp β) :
    l.exec (Free.perform op) = op.exec l := rfl

/-- Two ledgers with the same transactions and the same accounts, row by row. -/
structure SameRows (l l' : LocalLedger) : Prop where
  transactions : ∀ id, l.transactions.lookup id = l'.transactions.lookup id
  accounts : ∀ a, l.accounts.lookup a = l'.accounts.lookup a

/-- Two ledgers that no key-value operation tells apart. -/
structure Same (l l' : LocalLedger) : Prop extends SameRows l l' where
  velocity : ∀ a, l.velocity.lookup a = l'.velocity.lookup a
  policy : l.policy = l'.policy

/-- A ledger has the rows it has. -/
theorem Same.refl (l : LocalLedger) : Same l l := ⟨⟨fun _ => rfl, fun _ => rfl⟩, fun _ => rfl, rfl⟩

/-- A write keeps two equal trees equal. -/
theorem lookup_insert_congr {K V : Type} [DecidableEq K] {t t' : KvTree.Of K V}
    (h : ∀ k, t.lookup k = t'.lookup k) (k₀ : K) (v : V) (k : K) :
    (t.insert k₀ v).lookup k = (t'.insert k₀ v).lookup k := by
  by_cases hk : k = k₀
  · rw [hk, AList.lookup_insert, AList.lookup_insert]
  · rw [AList.lookup_insert_ne hk, AList.lookup_insert_ne hk, h]

/-- Nothing run on two such ledgers tells them apart either. -/
theorem Same.exec {l l' : LocalLedger} (h : Same l l') (p : LedgerProg α) :
    (l.exec p).1 = (l'.exec p).1 ∧ Same (l.exec p).2 (l'.exec p).2 := by
  refine Free.run_congr _ ?_ p h
  intro β op s t hst
  cases op with
  | containsTx id => exact ⟨congrArg Option.isSome (hst.transactions id), hst⟩
  | getTx id => exact ⟨hst.transactions id, hst⟩
  | putTx id tx =>
    exact ⟨rfl, ⟨lookup_insert_congr hst.transactions id tx, hst.accounts⟩, hst.velocity, hst.policy⟩
  | getAccount a => exact ⟨hst.accounts a, hst⟩
  | putAccount a acc =>
    exact ⟨rfl, ⟨hst.transactions, lookup_insert_congr hst.accounts a acc⟩, hst.velocity, hst.policy⟩
  | getVelocity a => exact ⟨hst.velocity a, hst⟩
  | putVelocity a w =>
    exact ⟨rfl, ⟨hst.transactions, hst.accounts⟩, lookup_insert_congr hst.velocity a w, hst.policy⟩

/-- From `l`, the program `p` performs `n` reads and goes on as `q`. -/
abbrev Reads (l : LocalLedger) (n : Nat) (p q : LedgerProg α) : Prop :=
  Free.Reads LedgerOp.exec n p q l

/-- A stored account is the state of the address. -/
theorem account_of_lookup {l : LocalLedger} {a : Address} {acc : AccountState}
    (h : l.accounts.lookup a = some acc) : l.account a = acc := by
  unfold account
  rw [h]
  rfl

/-- Overwrite one account row. -/
def setAccount (l : LocalLedger) (a : Address) (acc : AccountState) : LocalLedger :=
  { l with accounts := l.accounts.insert a acc }

/-- Overwrite one transaction row. -/
def setTransaction (l : LocalLedger) (id : TxId) (tx : Transaction) : LocalLedger :=
  { l with transactions := l.transactions.insert id tx }

@[simp] theorem setTransaction_transactions (l : LocalLedger) (id : TxId) (tx : Transaction) :
    (l.setTransaction id tx).transactions = l.transactions.insert id tx := rfl

/-- Storing a transaction changes one row. -/
theorem lookup_setTransaction (l : LocalLedger) (txId id : TxId) (tx : Transaction) :
    (l.setTransaction txId tx).transactions.lookup id
      = if id = txId then some tx else l.transactions.lookup id := by
  unfold setTransaction
  split
  · next h => rw [h, AList.lookup_insert]
  · next h => rw [AList.lookup_insert_ne h]

@[simp] theorem setTransaction_policy (l : LocalLedger) (id : TxId) (tx : Transaction) :
    (l.setTransaction id tx).policy = l.policy := rfl

@[simp] theorem setAccount_policy (l : LocalLedger) (a : Address) (acc : AccountState) :
    (l.setAccount a acc).policy = l.policy := rfl

@[simp] theorem setAccount_transactions (l : LocalLedger) (a : Address) (acc : AccountState) :
    (l.setAccount a acc).transactions = l.transactions := rfl

@[simp] theorem account_setAccount_self (l : LocalLedger) (a : Address) (acc : AccountState) :
    (l.setAccount a acc).account a = acc := by
  simp [account, setAccount]

/-- Storing an account does not change the others. -/
theorem account_setAccount_ne (l : LocalLedger) {a b : Address} (h : b ≠ a)
    (acc : AccountState) : (l.setAccount a acc).account b = l.account b := by
  simp [account, setAccount, AList.lookup_insert_ne h]

/-- Both cases in one. -/
theorem account_setAccount (l : LocalLedger) (a b : Address) (acc : AccountState) :
    (l.setAccount a acc).account b = if b = a then acc else l.account b := by
  split
  · next h => rw [h, account_setAccount_self]
  · next h => exact account_setAccount_ne l h acc

@[simp] theorem account_setTransaction (l : LocalLedger) (id : TxId) (tx : Transaction)
    (a : Address) : (l.setTransaction id tx).account a = l.account a := rfl

@[simp] theorem exec_accountState (l : LocalLedger) (a : Address) :
    l.exec (accountState a) = (l.account a, l) := rfl

@[simp] theorem exec_updateAccount (l : LocalLedger) (a : Address)
    (f : AccountState → AccountState) :
    l.exec (updateAccount a f) = ((), l.setAccount a (f (l.account a))) := rfl

@[simp] theorem exec_recentFor (l : LocalLedger) (a : Address) :
    l.exec (recentFor a) = (((l.velocity.lookup a).map VelocityWindow.recent).getD [], l) := rfl

/-- A look whether the transaction is stored. -/
theorem reads_containsTx {l : LocalLedger} {id : TxId} {n : Nat} {f : Bool → LedgerProg α}
    {q : LedgerProg α} (h : l.Reads n (f (l.transactions.lookup id).isSome) q) :
    l.Reads (n + 1) (Free.perform (.containsTx id) >>= f) q :=
  Free.Reads.step rfl h

/-- A look at the stored transaction. -/
theorem reads_getTx {l : LocalLedger} {id : TxId} {n : Nat}
    {f : Option Transaction → LedgerProg α} {q : LedgerProg α}
    (h : l.Reads n (f (l.transactions.lookup id)) q) :
    l.Reads (n + 1) (Free.perform (.getTx id) >>= f) q :=
  Free.Reads.step rfl h

/-- A look at an account. -/
theorem reads_accountState {l : LocalLedger} {a : Address} {n : Nat}
    {f : AccountState → LedgerProg α} {q : LedgerProg α} (h : l.Reads n (f (l.account a)) q) :
    l.Reads (n + 1) (accountState a >>= f) q :=
  Free.Reads.step rfl h

/-- A look at the recent transfers of an address. -/
theorem reads_recentFor {l : LocalLedger} {a : Address} {n : Nat}
    {f : List (UInt64 × UInt64) → LedgerProg α} {q : LedgerProg α}
    (h : l.Reads n (f (((l.velocity.lookup a).map VelocityWindow.recent).getD [])) q) :
    l.Reads (n + 1) (recentFor a >>= f) q :=
  Free.Reads.step rfl h

/-! ## `apply_transaction` -/

/-- Everything `apply_transaction` checks before it writes. -/
structure Settles [Prims] (l : LocalLedger) (tx : Transaction) (total : UInt64) : Prop where
  fresh : l.transactions.lookup tx.id = none
  verified : tx.verify = true
  distinct : tx.fromAddr ≠ tx.toAddr
  nonce : tx.nonce = (l.account tx.fromAddr).nextNonce
  total_eq : U64.checkedAdd tx.amountMuon tx.feeMuon = some total
  funds : total ≤ (l.account tx.fromAddr).balanceMuon
  memo : (tx.memo.map String.utf8ByteSize).getD 0 ≤ 64
  amount : l.policy.checkTransferAmount tx.amountMuon = .ok ()
  size : l.policy.checkTxSize tx tx.encodedLen = .ok ()
  cap : l.policy.checkBalanceCap (l.account tx.toAddr).balanceMuon
    (l.account tx.toAddr).pendingReceived tx.amountMuon = .ok ()
  velocity : l.policy.checkVelocity
    (((l.velocity.lookup tx.fromAddr).map VelocityWindow.recent).getD [])
    tx.timestampMs tx.amountMuon = .ok ()

/-- The ledger after the four writes of an accepted transaction. -/
def settled (l : LocalLedger) (tx : Transaction) (total : UInt64) : LocalLedger :=
  (l.exec (settle tx total)).2

/-- The sender's row after settlement. -/
def debited (acc : AccountState) (total : UInt64) : AccountState :=
  { acc with balanceMuon := acc.balanceMuon - total, nextNonce := acc.nextNonce + 1 }

/-- The recipient's row after settlement: confirmed at arrival, or pending. -/
def received (acc : AccountState) (tx : Transaction) : AccountState :=
  if tx.isConfirmed then { acc with balanceMuon := acc.balanceMuon + tx.amountMuon }
  else { acc with pendingReceived := acc.pendingReceived + tx.amountMuon }

/-- Settling debits the sender and then credits the recipient. -/
theorem settled_accounts (l : LocalLedger) (tx : Transaction) (total : UInt64) :
    (l.settled tx total).accounts =
      (let l₁ := l.setAccount tx.fromAddr (debited (l.account tx.fromAddr) total)
       l₁.setAccount tx.toAddr (received (l₁.account tx.toAddr) tx)).accounts := rfl

@[simp] theorem settled_transactions (l : LocalLedger) (tx : Transaction) (total : UInt64) :
    (l.settled tx total).transactions = l.transactions.insert tx.id tx := rfl

@[simp] theorem settled_policy (l : LocalLedger) (tx : Transaction) (total : UInt64) :
    (l.settled tx total).policy = l.policy := rfl

/-- The account rows after settlement, sender and recipient being different. -/
theorem account_settled (l : LocalLedger) {tx : Transaction} (h : tx.fromAddr ≠ tx.toAddr)
    (total : UInt64) (a : Address) :
    (l.settled tx total).account a =
      if a = tx.toAddr then received (l.account tx.toAddr) tx
      else if a = tx.fromAddr then debited (l.account tx.fromAddr) total
      else l.account a := by
  have hacc : (l.settled tx total).account a =
      ((l.setAccount tx.fromAddr (debited (l.account tx.fromAddr) total)).setAccount tx.toAddr
        (received ((l.setAccount tx.fromAddr (debited (l.account tx.fromAddr) total)).account
          tx.toAddr) tx)).account a := rfl
  rw [hacc, account_setAccount, account_setAccount_ne _ h.symm, account_setAccount]

section

variable [Prims]

/-- A program bound to settle `tx`, with only the writes left after `n` reads, or to answer
something else without a single write. -/
def Decides (l : LocalLedger) (tx : Transaction) (n : Nat)
    (p : LedgerProg (Except String ApplyResult)) : Prop :=
  (∃ total, l.Settles tx total
    ∧ l.Reads n p (settle tx total >>= fun _ => pure (.ok .accepted)))
  ∨ ∃ m r, r ≠ .ok .accepted ∧ l.Reads m p (pure r)

namespace Decides

variable {l : LocalLedger} {tx : Transaction} {n : Nat}

/-- A refusal is decided by what was read. -/
theorem refuse {r : Except String ApplyResult} (hr : r ≠ .ok .accepted) :
    l.Decides tx n (pure r) :=
  .inr ⟨0, r, hr, .refl _ _⟩

/-- One read more. -/
theorem read {p q : LedgerProg (Except String ApplyResult)}
    (hread : ∀ {m r}, l.Reads m q r → l.Reads (m + 1) p r) (h : l.Decides tx n q) :
    l.Decides tx (n + 1) p := by
  rcases h with ⟨total, hset, hq⟩ | ⟨m, r, hr, hq⟩
  · exact .inl ⟨total, hset, hread hq⟩
  · exact .inr ⟨m + 1, r, hr, hread hq⟩

/-- The policy checks, two reads from the writes. -/
theorem applyPolicy {total : UInt64}
    (hset : l.policy.checkTransferAmount tx.amountMuon = .ok () →
      l.policy.checkTxSize tx tx.encodedLen = .ok () →
      l.policy.checkBalanceCap (l.account tx.toAddr).balanceMuon
        (l.account tx.toAddr).pendingReceived tx.amountMuon = .ok () →
      l.policy.checkVelocity (((l.velocity.lookup tx.fromAddr).map VelocityWindow.recent).getD [])
        tx.timestampMs tx.amountMuon = .ok () → l.Settles tx total) :
    l.Decides tx 2 (Coin.applyPolicy l.policy tx total) := by
  unfold Coin.applyPolicy
  -- the four checks in the order of the source, each of which refuses before the next read
  cases hamt : l.policy.checkTransferAmount tx.amountMuon with
  | error msg => exact refuse (by simp)
  | ok u =>
    cases hsize : l.policy.checkTxSize tx tx.encodedLen with
    | error msg => exact refuse (by simp)
    | ok u =>
      apply read reads_accountState
      cases hcap : l.policy.checkBalanceCap (l.account tx.toAddr).balanceMuon
          (l.account tx.toAddr).pendingReceived tx.amountMuon with
      | error msg => exact refuse (by simp)
      | ok u =>
        apply read reads_recentFor
        cases hvel : l.policy.checkVelocity
            (((l.velocity.lookup tx.fromAddr).map VelocityWindow.recent).getD [])
            tx.timestampMs tx.amountMuon with
        | error msg => exact refuse (by simp)
        | ok u => exact .inl ⟨total, hset hamt hsize hcap hvel, .refl _ _⟩

end Decides

/-- **How far `apply_transaction` reads.** Either every check passes and after four reads
only the four writes are left, or it answers something else without a single write. -/
theorem decides_applyTransaction (l : LocalLedger) (tx : Transaction) :
    l.Decides tx 4 (Coin.applyTransaction l.policy tx) := by
  unfold Coin.applyTransaction
  apply Decides.read reads_containsTx
  -- the checks in the order of the source, each with the rows it has read by then
  by_cases hdup : (l.transactions.lookup tx.id).isSome = true
  · rw [if_pos hdup]
    exact .refuse (by simp)
  rw [if_neg hdup]
  by_cases hver : tx.verify = true
  swap
  · rw [if_pos (by simpa using hver)]
    exact .refuse (by simp)
  rw [if_neg (by simpa using hver)]
  by_cases hself : tx.fromAddr = tx.toAddr
  · rw [if_pos hself]
    exact .refuse (by simp)
  rw [if_neg hself]
  apply Decides.read reads_accountState
  by_cases hnonce : tx.nonce = (l.account tx.fromAddr).nextNonce
  swap
  · rw [if_pos hnonce]
    exact .refuse (by simp)
  rw [if_neg (by simpa using hnonce)]
  cases htotal : U64.checkedAdd tx.amountMuon tx.feeMuon with
  | none => exact .refuse (by simp)
  | some total =>
    by_cases hfunds : (l.account tx.fromAddr).balanceMuon < total
    · simp only [if_pos hfunds]
      exact .refuse (by simp)
    simp only [if_neg hfunds]
    by_cases hmemo : 64 < (tx.memo.map String.utf8ByteSize).getD 0
    · rw [if_pos hmemo]
      exact .refuse (by simp)
    rw [if_neg hmemo]
    -- what is left is the policy
    apply Decides.applyPolicy
    intro hamt hsize hcap hvel
    exact {
      fresh := by simpa using hdup
      verified := hver
      distinct := hself
      nonce := hnonce
      total_eq := htotal
      funds := by rw [U64.le_iff]; rw [U64.lt_iff] at hfunds; omega
      memo := by omega
      amount := hamt
      size := hsize
      cap := hcap
      velocity := hvel }

/-- The converse: when every check passes, the program settles. -/
theorem Settles.reads {l : LocalLedger} {tx : Transaction} {total : UInt64}
    (h : l.Settles tx total) :
    l.Reads 4 (Coin.applyTransaction l.policy tx)
      (settle tx total >>= fun _ => pure (.ok .accepted)) := by
  have hfunds : ¬ (l.account tx.fromAddr).balanceMuon < total := by
    have hle := U64.le_iff.mp h.funds
    rw [U64.lt_iff]
    omega
  have hmemo : ¬ 64 < (tx.memo.map String.utf8ByteSize).getD 0 := Nat.not_lt.mpr h.memo
  unfold Coin.applyTransaction
  apply reads_containsTx
  rw [h.fresh, if_neg (by simp), if_neg (by simp [h.verified]), if_neg h.distinct]
  apply reads_accountState
  rw [if_neg (by simpa using h.nonce), h.total_eq]
  simp only [if_neg hfunds, if_neg hmemo]
  unfold Coin.applyPolicy
  rw [h.amount, h.size]
  apply reads_accountState
  rw [h.cap]
  apply reads_recentFor
  rw [h.velocity]
  exact .refl _ _

/-- **What `apply_transaction` can do.** Either every check passed, the answer is
`Accepted` and the four writes happened; or the answer is something else and the ledger
is untouched. -/
theorem applyTransaction_cases (l : LocalLedger) (tx : Transaction) :
    (∃ total, l.Settles tx total ∧ l.applyTransaction tx = (.ok .accepted, l.settled tx total))
    ∨ ∃ r, r ≠ .ok .accepted ∧ l.applyTransaction tx = (r, l) := by
  rcases l.decides_applyTransaction tx with ⟨total, hset, hq⟩ | ⟨n, r, hr, hq⟩
  · exact .inl ⟨total, hset, hq.run_eq⟩
  · exact .inr ⟨r, hr, hq.run_eq⟩

end

/-! ## `add_witness` -/

/-- The stored row with one more witness. -/
def withWitness (tx : Transaction) (peerId : String) : Transaction :=
  { tx with witnesses := insert peerId tx.witnesses }

@[simp] theorem withWitness_witnesses (tx : Transaction) (peerId : String) :
    (withWitness tx peerId).witnesses = insert peerId tx.witnesses := rfl

/-- The recipient's row after the confirming witness. -/
def confirmed (acc : AccountState) (amt : UInt64) : AccountState :=
  { acc with
    pendingReceived := U64.satSub acc.pendingReceived amt
    balanceMuon := acc.balanceMuon + amt }

/-- **How far `add_witness` reads.** Unknown transaction or known witness: one read, no
write. A witness that does not complete the quorum leaves one write; one that does reads the
recipient's row for the cap check, and leaves the account to be written before the row. -/
theorem reads_addWitness (l : LocalLedger) (txId : TxId) (peerId : String) :
    ((∀ tx, l.transactions.lookup txId = some tx → peerId ∈ tx.witnesses)
      ∧ l.Reads 1 (Coin.addWitness l.policy txId peerId) (pure (.ok false)))
    ∨ ∃ tx, l.transactions.lookup txId = some tx ∧ peerId ∉ tx.witnesses ∧
      ((tx.isConfirmed = (withWitness tx peerId).isConfirmed
          ∧ l.Reads 1 (Coin.addWitness l.policy txId peerId)
              (Free.perform (.putTx txId (withWitness tx peerId)) >>= fun _ => pure (.ok true)))
      ∨ (tx.isConfirmed = false ∧ (withWitness tx peerId).isConfirmed = true ∧
          ((∃ msg, l.policy.checkBalanceCap (l.account tx.toAddr).balanceMuon
                (U64.satSub (l.account tx.toAddr).pendingReceived tx.amountMuon) tx.amountMuon
                  = .error msg
              ∧ l.Reads 2 (Coin.addWitness l.policy txId peerId) (pure (.error msg)))
          ∨ (l.policy.checkBalanceCap (l.account tx.toAddr).balanceMuon
                (U64.satSub (l.account tx.toAddr).pendingReceived tx.amountMuon) tx.amountMuon
                  = .ok ()
              ∧ l.Reads 2 (Coin.addWitness l.policy txId peerId)
                  (updateAccount tx.toAddr (fun acc => confirmed acc tx.amountMuon) >>= fun _ =>
                    Free.perform (.putTx txId (withWitness tx peerId)) >>= fun _ =>
                      pure (.ok true)))))) := by
  unfold Coin.addWitness
  cases hget : l.transactions.lookup txId with
  | none =>
    refine .inl ⟨by simp, reads_getTx ?_⟩
    rw [hget]
    exact .refl _ _
  | some tx =>
    by_cases hmem : peerId ∈ tx.witnesses
    · refine .inl ⟨?_, reads_getTx ?_⟩
      · intro tx' htx'
        rw [← Option.some.inj htx']
        exact hmem
      · rw [hget]
        simp only [if_pos hmem]
        exact .refl _ _
    refine .inr ⟨tx, rfl, hmem, ?_⟩
    -- a witness set only grows, so `is_confirmed` can only switch on
    have hmono : tx.isConfirmed = true → (withWitness tx peerId).isConfirmed = true := by
      intro h
      rw [Transaction.isConfirmed_iff] at h ⊢
      rw [withWitness_witnesses, Finset.card_insert_of_notMem hmem]
      omega
    cases hold : tx.isConfirmed with
    | true =>
      refine .inl ⟨(hmono hold).symm, reads_getTx ?_⟩
      rw [hget]
      simp only [if_neg hmem, hold, Bool.not_true, Bool.false_and, Bool.false_eq_true, if_false]
      exact .refl _ _
    | false =>
      cases hnew : (withWitness tx peerId).isConfirmed with
      | false =>
        refine .inl ⟨rfl, reads_getTx ?_⟩
        rw [hget]
        simp only [withWitness] at hnew ⊢
        simp only [if_neg hmem, hnew, Bool.and_false, Bool.false_eq_true, if_false]
        exact .refl _ _
      | true =>
        refine .inr ⟨rfl, rfl, ?_⟩
        simp only [withWitness] at hnew ⊢
        cases hcap : l.policy.checkBalanceCap (l.account tx.toAddr).balanceMuon
            (U64.satSub (l.account tx.toAddr).pendingReceived tx.amountMuon) tx.amountMuon with
        | error msg =>
          refine .inl ⟨msg, rfl, reads_getTx ?_⟩
          rw [hget]
          simp only [if_neg hmem, hold, hnew, Bool.not_false, Bool.and_self, if_true]
          have hconfirm : l.Reads 1 (confirmTransfer l.policy tx.toAddr tx.amountMuon) (pure (.error msg)) := by
            unfold confirmTransfer
            refine reads_accountState ?_
            rw [hcap]
            exact .refl _ _
          exact hconfirm.bind _
        | ok u =>
          refine .inr ⟨rfl, reads_getTx ?_⟩
          rw [hget]
          simp only [if_neg hmem, hold, hnew, Bool.not_false, Bool.and_self, if_true]
          have hconfirm : l.Reads 1 (confirmTransfer l.policy tx.toAddr tx.amountMuon)
              (updateAccount tx.toAddr (fun acc => confirmed acc tx.amountMuon) >>= fun _ =>
                pure (.ok ())) := by
            unfold confirmTransfer
            refine reads_accountState ?_
            rw [hcap]
            exact .refl _ _
          exact hconfirm.bind _

/-- **What `add_witness` can do.** Unknown transaction or known witness: nothing. Otherwise
the row gains the witness; when that completes the quorum the cap is checked first, and
the amount moves from pending to confirmed. -/
theorem addWitness_cases (l : LocalLedger) (txId : TxId) (peerId : String) :
    (l.addWitness txId peerId = (.ok false, l)
      ∧ ∀ tx, l.transactions.lookup txId = some tx → peerId ∈ tx.witnesses)
    ∨ ∃ tx, l.transactions.lookup txId = some tx ∧ peerId ∉ tx.witnesses ∧
      (((tx.isConfirmed = (withWitness tx peerId).isConfirmed)
          ∧ l.addWitness txId peerId
              = (.ok true, l.setTransaction txId (withWitness tx peerId)))
      ∨ (tx.isConfirmed = false ∧ (withWitness tx peerId).isConfirmed = true ∧
          ((∃ msg, l.policy.checkBalanceCap (l.account tx.toAddr).balanceMuon
                (U64.satSub (l.account tx.toAddr).pendingReceived tx.amountMuon) tx.amountMuon
                  = .error msg
              ∧ l.addWitness txId peerId = (.error msg, l))
          ∨ (l.policy.checkBalanceCap (l.account tx.toAddr).balanceMuon
                (U64.satSub (l.account tx.toAddr).pendingReceived tx.amountMuon) tx.amountMuon
                  = .ok ()
              ∧ l.addWitness txId peerId = (.ok true,
                  (l.setAccount tx.toAddr (confirmed (l.account tx.toAddr) tx.amountMuon)
                    ).setTransaction txId (withWitness tx peerId)))))) := by
  rcases l.reads_addWitness txId peerId with
    ⟨hknown, hq⟩ | ⟨tx, hget, hmem, ⟨hsame, hq⟩ | ⟨hold, hnew, ⟨msg, herr, hq⟩ | ⟨hok, hq⟩⟩⟩
  · exact .inl ⟨hq.run_eq, hknown⟩
  · exact .inr ⟨tx, hget, hmem, .inl ⟨hsame, hq.run_eq⟩⟩
  · exact .inr ⟨tx, hget, hmem, .inr ⟨hold, hnew, .inl ⟨msg, herr, hq.run_eq⟩⟩⟩
  · exact .inr ⟨tx, hget, hmem, .inr ⟨hold, hnew, .inr ⟨hok, hq.run_eq⟩⟩⟩

/-! ## `genesis_credit` -/

/-- **What `genesis_credit` can do.** -/
theorem genesisCredit_cases (l : LocalLedger) (a : Address) (amt : UInt64) :
    (l.policy.checkBalanceCap (l.account a).balanceMuon (l.account a).pendingReceived amt = .ok ()
      ∧ l.genesisCredit a amt = (.ok (), l.setAccount a
          { l.account a with balanceMuon := (l.account a).balanceMuon + amt }))
    ∨ ∃ msg, l.genesisCredit a amt = (.error msg, l) := by
  unfold genesisCredit Coin.genesisCredit
  simp -implicitDefEqProofs only [exec_bind, exec_accountState]
  cases hcap : l.policy.checkBalanceCap (l.account a).balanceMuon
      (l.account a).pendingReceived amt with
  | error msg => exact .inr ⟨msg, rfl⟩
  | ok u => exact .inl ⟨rfl, rfl⟩

end LocalLedger

/-! ## One row -/

open LocalLedger

/-- **What a call can do to the row of one id**: nothing, store an accepted transaction where
there was none, or add the witness it names. -/
theorem Session.step_row [Prims] (s : Session) (c : LedgerCall) (id : TxId) :
    (s.step c).ledger.transactions.lookup id = s.ledger.transactions.lookup id
    ∨ (∃ tx total, c = .applyTransaction tx ∧ tx.id = id ∧ s.ledger.Settles tx total
        ∧ (s.step c).ledger.transactions.lookup id = some tx)
    ∨ ∃ tx peerId, c = .addWitness id peerId ∧ s.ledger.transactions.lookup id = some tx
        ∧ (s.step c).ledger.transactions.lookup id = some (withWitness tx peerId) := by
  cases c with
  | applyTransaction tx =>
    rcases s.ledger.applyTransaction_cases tx with ⟨total, hset, heq⟩ | ⟨r, _, heq⟩
    · simp only [step, heq, settled_transactions]
      by_cases hid : id = tx.id
      · subst hid
        exact .inr (.inl ⟨tx, total, rfl, rfl, hset, AList.lookup_insert _⟩)
      · exact .inl (AList.lookup_insert_ne hid)
    · exact .inl (by simp only [step, heq])
  | addWitness txId peerId =>
    -- confirming or not, the call writes the one row `txId`
    have hwritten : ∀ tx, s.ledger.transactions.lookup txId = some tx →
        (s.ledger.addWitness txId peerId).2.transactions
          = s.ledger.transactions.insert txId (withWitness tx peerId) →
        (s.step (.addWitness txId peerId)).ledger.transactions.lookup id
            = s.ledger.transactions.lookup id
          ∨ ∃ tx peerId', LedgerCall.addWitness txId peerId = .addWitness id peerId'
            ∧ s.ledger.transactions.lookup id = some tx
            ∧ (s.step (.addWitness txId peerId)).ledger.transactions.lookup id
                = some (withWitness tx peerId') := by
      intro tx hget hnew
      simp only [step, hnew]
      by_cases hid : id = txId
      · subst hid
        exact .inr ⟨tx, peerId, rfl, hget, AList.lookup_insert _⟩
      · exact .inl (AList.lookup_insert_ne hid)
    rcases s.ledger.addWitness_cases txId peerId with
      ⟨heq, _⟩ | ⟨tx, hget, _, ⟨_, heq⟩ | ⟨_, _, ⟨msg, _, heq⟩ | ⟨_, heq⟩⟩⟩
    · exact .inl (by simp only [step, heq])
    · exact (hwritten tx hget (by rw [heq]; rfl)).imp_right .inr
    · exact .inl (by simp only [step, heq])
    · exact (hwritten tx hget (by rw [heq]; rfl)).imp_right .inr
  | genesisCredit a amt =>
    refine .inl ?_
    rcases s.ledger.genesisCredit_cases a amt with ⟨_, heq⟩ | ⟨msg, heq⟩
    · simp only [step, heq, setAccount_transactions]
    · simp only [step, heq]

end Mycelium.Coin

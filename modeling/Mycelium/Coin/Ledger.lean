import Mycelium.Lib.Tree
import Mycelium.Lib.Free
import Mycelium.Coin.SettlementPolicy

/-!
# Mycelium coin — the local ledger

Translation of `LocalLedger` (`mycelium-coin/src/ledger.rs`). Every method is a program
over the key-value operations it performs on the three `sled` trees (`LedgerOp`), in the
order the source performs them; `LocalLedger` is the store those operations act on and
`LedgerOp.exec` their sequential, failure-free meaning.

* `applyTransaction`, `addWitness`, `genesisCredit` — the programs;
* `LocalLedger.applyTransaction`, … — the programs run on a ledger;
* `Session` — a ledger together with the history of the calls made on it and what each
  of them returned, so that a property of whole runs can talk about both.
-/

namespace Mycelium.Coin

/-- Account balance tracking for one address. -/
structure AccountState where
  address : Address
  balanceMuon : UInt64 := 0
  nextNonce : UInt64 := 0
  pendingReceived : UInt64 := 0
deriving DecidableEq, Repr

/-- What `apply_transaction` answers when no I/O error occurs. -/
inductive ApplyResult where
  | accepted
  | duplicate
  | invalidNonce (expected got : UInt64)
  | insufficientFunds (have_ need : UInt64)
  | invalid (msg : String)
deriving DecidableEq, Repr

/-! ## Key-value operations -/

/-- One read or write of a `sled` tree of the ledger database. -/
inductive LedgerOp : Type → Type where
  | containsTx (id : TxId) : LedgerOp Bool
  | getTx (id : TxId) : LedgerOp (Option Transaction)
  | putTx (id : TxId) (tx : Transaction) : LedgerOp Unit
  | getAccount (a : Address) : LedgerOp (Option AccountState)
  | putAccount (a : Address) (acc : AccountState) : LedgerOp Unit
  | getVelocity (a : Address) : LedgerOp (Option VelocityWindow)
  | putVelocity (a : Address) (w : VelocityWindow) : LedgerOp Unit

abbrev LedgerProg := Free LedgerOp

open Free (perform)

/-- `account_state`: the stored row, or a zero row for an address never seen. -/
def accountState (address : Address) : LedgerProg AccountState := do
  let row ← perform (.getAccount address)
  return row.getD { address }

/-- `update_account`: read, apply `f`, write back. -/
def updateAccount (address : Address) (f : AccountState → AccountState) : LedgerProg Unit := do
  let acc ← accountState address
  perform (.putAccount address (f acc))

/-- `VelocityTracker::recent_for`. -/
def recentFor (address : Address) : LedgerProg (List (UInt64 × UInt64)) := do
  let w ← perform (.getVelocity address)
  return (w.map VelocityWindow.recent).getD []

/-- `VelocityTracker::record_outbound`. -/
def recordOutbound (address : Address) (timestampMs amountMuon : UInt64) : LedgerProg Unit := do
  let w ← perform (.getVelocity address)
  perform (.putVelocity address ((w.getD {}).push timestampMs amountMuon))

/-! ## The methods, as programs -/

/-- The four writes of an accepted transaction: the row, the sender, the recipient, the
sender's velocity window. -/
def settle (tx : Transaction) (total : UInt64) : LedgerProg Unit := do
  perform (.putTx tx.id tx)
  updateAccount tx.fromAddr fun acc =>
    { acc with balanceMuon := acc.balanceMuon - total, nextNonce := acc.nextNonce + 1 }
  updateAccount tx.toAddr fun acc =>
    if tx.isConfirmed then { acc with balanceMuon := acc.balanceMuon + tx.amountMuon }
    else { acc with pendingReceived := acc.pendingReceived + tx.amountMuon }
  recordOutbound tx.fromAddr tx.timestampMs tx.amountMuon

/-- The policy checks of `apply_transaction`, from the transfer amount on. -/
def applyPolicy (policy : SettlementPolicy) (tx : Transaction) (total : UInt64) :
    LedgerProg (Except String ApplyResult) :=
  match policy.checkTransferAmount tx.amountMuon with
  | .error msg => return .ok (.invalid msg)
  | .ok () =>
    match policy.checkTxSize tx tx.encodedLen with
    | .error msg => return .ok (.invalid msg)
    | .ok () => do
      let toAcc ← accountState tx.toAddr
      match policy.checkBalanceCap toAcc.balanceMuon toAcc.pendingReceived tx.amountMuon with
      -- the cap is read from the payee's account, before the payer's velocity
      | .error msg => return .ok (.invalid msg)
      | .ok () => do
        let recent ← recentFor tx.fromAddr
        match policy.checkVelocity recent tx.timestampMs tx.amountMuon with
        | .error msg => return .ok (.invalid msg)
        | .ok () => do
          settle tx total
          return .ok .accepted

/-- `apply_transaction`. The outer `Except` is the `anyhow::Result`. -/
def applyTransaction [Prims] (policy : SettlementPolicy) (tx : Transaction) :
    LedgerProg (Except String ApplyResult) := do
  if ← perform (.containsTx tx.id) then return .ok .duplicate
  else if !tx.verify then return .ok (.invalid "invalid signature")
  else if tx.fromAddr = tx.toAddr then return .ok (.invalid "from and to must differ")
  else do
    let account ← accountState tx.fromAddr
    if tx.nonce ≠ account.nextNonce then
      return .ok (.invalidNonce account.nextNonce tx.nonce)
    else
      -- `checked_add`: the one failure that is an error and not a refusal
      match U64.checkedAdd tx.amountMuon tx.feeMuon with
      | none => return .error "amount overflow"
      | some total =>
        if account.balanceMuon < total then
          return .ok (.insufficientFunds account.balanceMuon total)
        else if 64 < (tx.memo.map String.utf8ByteSize).getD 0 then
          return .ok (.invalid "memo too long")
        else applyPolicy policy tx total

/-- The balance move of the third witness: cap check, then pending to confirmed. -/
def confirmTransfer (policy : SettlementPolicy) (toAddr : Address) (amt : UInt64) :
    LedgerProg (Except String Unit) := do
  let toAcc ← accountState toAddr
  match policy.checkBalanceCap toAcc.balanceMuon (U64.satSub toAcc.pendingReceived amt) amt with
  | .error msg => return .error msg
  | .ok () => do
    updateAccount toAddr fun acc =>
      { acc with
        pendingReceived := U64.satSub acc.pendingReceived amt
        balanceMuon := acc.balanceMuon + amt }
    return .ok ()

/-- `add_witness`: `Ok(true)` if the row was updated. -/
def addWitness (policy : SettlementPolicy) (txId : TxId) (peerId : String) :
    LedgerProg (Except String Bool) := do
  match ← perform (.getTx txId) with
  | none => return .ok false
  | some tx =>
    if peerId ∈ tx.witnesses then return .ok false
    else
      let tx' := { tx with witnesses := insert peerId tx.witnesses }
      -- only the witness that completes the quorum moves money
      if !tx.isConfirmed && tx'.isConfirmed then do
        match ← confirmTransfer policy tx'.toAddr tx'.amountMuon with
        | .error msg => return .error msg
        | .ok () => do
          perform (.putTx txId tx')
          return .ok true
      else do
        perform (.putTx txId tx')
        return .ok true

/-- `genesis_credit`. -/
def genesisCredit (policy : SettlementPolicy) (address : Address) (amountMuon : UInt64) :
    LedgerProg (Except String Unit) := do
  let acc ← accountState address
  match policy.checkBalanceCap acc.balanceMuon acc.pendingReceived amountMuon with
  | .error msg => return .error msg
  | .ok () => do
    updateAccount address fun acc => { acc with balanceMuon := acc.balanceMuon + amountMuon }
    return .ok ()

/-! ## The ledger and its sequential semantics -/

/-- `LocalLedger`: the trees of the database, and the policy in force. -/
structure LocalLedger where
  transactions : KvTree.Of TxId Transaction
  accounts : KvTree.Of Address AccountState
  velocity : KvTree.Of Address VelocityWindow
  policy : SettlementPolicy

/-- A freshly opened ledger under `policy`. -/
def LocalLedger.empty (policy : SettlementPolicy) : LocalLedger :=
  { transactions := ∅, accounts := ∅, velocity := ∅, policy }

/-- What one key-value operation returns and does when `sled` succeeds. -/
def LedgerOp.exec {β : Type} : LedgerOp β → LocalLedger → β × LocalLedger
  | .containsTx id, l => ((l.transactions.lookup id).isSome, l)
  | .getTx id, l => (l.transactions.lookup id, l)
  | .putTx id tx, l => ((), { l with transactions := l.transactions.insert id tx })
  | .getAccount a, l => (l.accounts.lookup a, l)
  | .putAccount a acc, l => ((), { l with accounts := l.accounts.insert a acc })
  | .getVelocity a, l => (l.velocity.lookup a, l)
  | .putVelocity a w, l => ((), { l with velocity := l.velocity.insert a w })

namespace LocalLedger

/-- Run a ledger program on a ledger. -/
def exec {α : Type} (l : LocalLedger) (p : LedgerProg α) : α × LocalLedger :=
  p.run LedgerOp.exec l

/-- The account row of an address, zero when there is none. -/
def account (l : LocalLedger) (a : Address) : AccountState :=
  (l.accounts.lookup a).getD { address := a }

def applyTransaction [Prims] (l : LocalLedger) (tx : Transaction) :
    Except String ApplyResult × LocalLedger :=
  l.exec (Coin.applyTransaction l.policy tx)

def addWitness (l : LocalLedger) (txId : TxId) (peerId : String) :
    Except String Bool × LocalLedger :=
  l.exec (Coin.addWitness l.policy txId peerId)

def genesisCredit (l : LocalLedger) (address : Address) (amountMuon : UInt64) :
    Except String Unit × LocalLedger :=
  l.exec (Coin.genesisCredit l.policy address amountMuon)

end LocalLedger

/-! ## Runs of calls -/

/-- A call on the ledger. -/
inductive LedgerCall where
  | applyTransaction (tx : Transaction)
  | addWitness (txId : TxId) (peerId : String)
  | genesisCredit (address : Address) (amountMuon : UInt64)
deriving DecidableEq

/-- A call with what it returned. -/
inductive LedgerEvent where
  | applied (tx : Transaction) (result : Except String ApplyResult)
  | witnessed (txId : TxId) (peerId : String) (result : Except String Bool)
  | credited (address : Address) (amountMuon : UInt64) (result : Except String Unit)

/-- A ledger and the history of the calls made on it, oldest first. -/
structure Session where
  ledger : LocalLedger
  history : List LedgerEvent

namespace Session

def start (policy : SettlementPolicy) : Session :=
  { ledger := .empty policy, history := [] }

def step [Prims] (s : Session) : LedgerCall → Session
  | .applyTransaction tx =>
    let (r, l) := s.ledger.applyTransaction tx
    { ledger := l, history := s.history ++ [.applied tx r] }
  | .addWitness txId peerId =>
    let (r, l) := s.ledger.addWitness txId peerId
    { ledger := l, history := s.history ++ [.witnessed txId peerId r] }
  | .genesisCredit a amt =>
    let (r, l) := s.ledger.genesisCredit a amt
    { ledger := l, history := s.history ++ [.credited a amt r] }

/-- The session after a list of calls on an empty ledger. -/
def run [Prims] (policy : SettlementPolicy) (calls : List LedgerCall) : Session :=
  calls.foldl step (start policy)

end Session

end Mycelium.Coin

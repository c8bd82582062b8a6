import Mycelium.Lib.Interleave
import Mycelium.Coin.LedgerRuns

/-!
# Mycelium coin — two clients of one ledger

`CoinNode` shares its `LocalLedger` through an `Arc` and the ledger takes no lock, so the
reads and writes of two calls mix. `update_account` and `add_witness` read a row and write
back what they made of it: two calls that meet on a row can overwrite each other.

* `ledgerRows` — the ledger is a store of rows (transactions, accounts, windows), so the
  library's criteria apply to it;
* `serializable_of_yields` — two calls are serializable under every schedule if they do not meet
  on a row, or if one of them only looks at rows while the other may still change them;
* `credits_lost` — two credits to one address are not.
-/

namespace Mycelium.Coin

open LocalLedger

/-- A row of one of the three trees. -/
inductive Row where
  | transaction (id : TxId)
  | account (a : Address)
  | velocity (a : Address)
deriving DecidableEq

/-- What is stored in a row. -/
inductive RowContent where
  | transaction (tx : Option Transaction)
  | account (acc : Option AccountState)
  | velocity (w : Option VelocityWindow)
deriving DecidableEq

namespace LedgerOp

variable {β : Type}

/-- The row an operation addresses. -/
def row : LedgerOp β → Row
  | .containsTx id => .transaction id
  | .getTx id => .transaction id
  | .putTx id _ => .transaction id
  | .getAccount a => .account a
  | .putAccount a _ => .account a
  | .getVelocity a => .velocity a
  | .putVelocity a _ => .velocity a

end LedgerOp

/-- The content of a row of a ledger. -/
def LocalLedger.view : Row → LocalLedger → RowContent
  | .transaction id, l => .transaction (l.transactions.lookup id)
  | .account a, l => .account (l.accounts.lookup a)
  | .velocity a, l => .velocity (l.velocity.lookup a)

/-- The ledger is a store of rows. -/
theorem ledgerRows : Free.Rowwise LedgerOp.exec LedgerOp.row view where
  -- what an operation returns is in its own row
  answer op s t hview := by
    cases op with
    | containsTx id => exact congrArg Option.isSome (RowContent.transaction.inj hview)
    | getTx id => exact RowContent.transaction.inj hview
    | putTx id tx => rfl
    | getAccount a => exact RowContent.account.inj hview
    | putAccount a acc => rfl
    | getVelocity a => exact RowContent.velocity.inj hview
    | putVelocity a w => rfl
  own op s t hview := by
    cases op with
    | putTx id tx => simp [LedgerOp.row, LedgerOp.exec, view]
    | putAccount a acc => simp [LedgerOp.row, LedgerOp.exec, view]
    | putVelocity a w => simp [LedgerOp.row, LedgerOp.exec, view]
    | _ => exact hview
  -- and no row but its own changes
  other op s r hne := by
    cases op with
    | putTx id tx =>
      cases r with
      | transaction id' =>
        have hid : id' ≠ id := fun hc => hne (congrArg Row.transaction hc)
        simp [LedgerOp.exec, view, AList.lookup_insert_ne hid]
      | _ => rfl
    | putAccount a acc =>
      cases r with
      | account a' =>
        have ha : a' ≠ a := fun hc => hne (congrArg Row.account hc)
        simp [LedgerOp.exec, view, AList.lookup_insert_ne ha]
      | _ => rfl
    | putVelocity a w =>
      cases r with
      | velocity a' =>
        have ha : a' ≠ a := fun hc => hne (congrArg Row.velocity hc)
        simp [LedgerOp.exec, view, AList.lookup_insert_ne ha]
      | _ => rfl
    | _ => rfl

section

variable [Prims]

/-- The program of a call, returning the call with its answer. -/
def LedgerCall.program (policy : SettlementPolicy) : LedgerCall → LedgerProg LedgerEvent
  | .applyTransaction tx => do return .applied tx (← Coin.applyTransaction policy tx)
  | .addWitness txId peerId => do return .witnessed txId peerId (← Coin.addWitness policy txId peerId)
  | .genesisCredit a amt => do return .credited a amt (← Coin.genesisCredit policy a amt)

/-- A step of a session is a run of the call's program. -/
theorem Session.step_eq (s : Session) (c : LedgerCall) :
    s.step c = { ledger := (s.ledger.exec (c.program s.ledger.policy)).2
                 history := s.history ++ [(s.ledger.exec (c.program s.ledger.policy)).1] } := by
  cases c <;> simp only [LedgerCall.program, exec_bind] <;> rfl

namespace LocalLedger

/-- Two calls made one after the other: a session of two calls. -/
def serial (l : LocalLedger) (c d : LedgerCall) : Session :=
  (({ ledger := l, history := [] } : Session).step c).step d

/-- Two calls made at once, their reads and writes in the order of `sched`. -/
def concurrent (l : LocalLedger) (sched : List Bool) (c d : LedgerCall) :
    (LedgerEvent × LedgerEvent) × LocalLedger :=
  Free.interleave LedgerOp.exec sched (c.program l.policy) (d.program l.policy) l

/-- The transactions and accounts are those of one of the two serial orders. -/
def Serializable (l : LocalLedger) (sched : List Bool) (c d : LedgerCall) : Prop :=
  SameRows (l.concurrent sched c d).2 (l.serial c d).ledger
  ∨ SameRows (l.concurrent sched c d).2 (l.serial d c).ledger

/-- Neither call, made alone on `l`, changes a row that the other, made alone, reads or writes. -/
def NoConflict (l : LocalLedger) (c d : LedgerCall) : Prop :=
  Free.NoConflict LedgerOp.exec LedgerOp.row view (c.program l.policy) (d.program l.policy) l

instance (l : LocalLedger) (c d : LedgerCall) : Decidable (l.NoConflict c d) :=
  inferInstanceAs (Decidable (Free.NoConflict ..))

/-- However far `c` has got at each of the reads of `d`, the call `d` ends without a write, or
comes to its first write with nothing read but rows as `c` found them, or nothing but rows as `c`
leaves them, and from then on neither changes a row that the other reads or writes. -/
def Yields (l : LocalLedger) (c d : LedgerCall) : Prop :=
  Free.Yields LedgerOp.exec LedgerOp.row view (c.program l.policy) (d.program l.policy) l

instance (l : LocalLedger) (c d : LedgerCall) : Decidable (l.Yields c d) :=
  inferInstanceAs (Decidable (Free.Yields ..))

omit [Prims] in
/-- Ledgers with the same content in every row have the same transactions and accounts. -/
theorem sameRows_of_view {l l' : LocalLedger} (h : ∀ r, view r l = view r l') : SameRows l l' where
  transactions id := RowContent.transaction.inj (h (.transaction id))
  accounts a := RowContent.account.inj (h (.account a))

/-- The session of two calls runs one program after the other. -/
theorem serial_eq (l : LocalLedger) (c d : LedgerCall) :
    l.serial c d =
      { ledger := ((l.exec (c.program l.policy)).2.exec (d.program l.policy)).2
        history := [(l.exec (c.program l.policy)).1,
          ((l.exec (c.program l.policy)).2.exec (d.program l.policy)).1] } := by
  have hpol : (l.exec (c.program l.policy)).2.policy = l.policy := by
    have h := Session.step_policy { ledger := l, history := [] } c
    rw [Session.step_eq] at h
    exact h
  unfold serial
  rw [Session.step_eq, Session.step_eq]
  simp only [hpol]
  rfl

end LocalLedger

/-- Rows as in a serial order of the programs are rows as in a serial order of the calls. -/
theorem serializable_of_serialRows {l l' : LocalLedger} {c d : LedgerCall}
    (h : Free.SerialRows LedgerOp.exec view (c.program l.policy) (d.program l.policy) l l') :
    SameRows l' (l.serial c d).ledger ∨ SameRows l' (l.serial d c).ledger := by
  rw [serial_eq, serial_eq]
  exact h.imp sameRows_of_view sameRows_of_view

/-- **Calls that yield are serializable.** If one of two calls yields to the other, then under
every interleaving of their reads and writes the ledger has the transactions and accounts of one
of the two serial orders. If the calls do not meet at all, it has those of either order, and both
calls get the same answers as there. -/
theorem serializable_of_yields (l : LocalLedger) (c d : LedgerCall)
    (hyields : l.Yields c d ∨ l.Yields d c) (sched : List Bool) :
    l.Serializable sched c d
    ∧ (l.NoConflict c d →
      (l.serial c d).history = [(l.concurrent sched c d).1.1, (l.concurrent sched c d).1.2]
      ∧ SameRows (l.concurrent sched c d).2 (l.serial c d).ledger
      ∧ (l.serial d c).history = [(l.concurrent sched c d).1.2, (l.concurrent sched c d).1.1]
      ∧ SameRows (l.concurrent sched c d).2 (l.serial d c).ledger) := by
  refine ⟨?_, fun hfree => ?_⟩
  · rcases hyields with hyields | hyields
    · exact serializable_of_serialRows (Free.yields_serial ledgerRows hyields sched)
    · -- the other way round, under another schedule
      obtain ⟨sched', hswap⟩ := Free.interleave_swap (h := LedgerOp.exec) sched
        (c.program l.policy) (d.program l.policy) l
      have hserial := serializable_of_serialRows (Free.yields_serial ledgerRows hyields sched')
      unfold Serializable concurrent
      rw [hswap]
      exact hserial.symm
  · obtain ⟨hans, hrows, hans', hrows'⟩ := Free.interleave_serial ledgerRows hfree sched
    obtain ⟨hc, hd⟩ := Prod.mk.inj hans
    obtain ⟨hc', hd'⟩ := Prod.mk.inj hans'
    rw [serial_eq, serial_eq]
    exact ⟨congrArg₂ (fun r r' => [r, r']) hc.symm hd.symm, sameRows_of_view hrows,
      congrArg₂ (fun r r' => [r, r']) hd'.symm hc'.symm, sameRows_of_view hrows'⟩

end

section

attribute [local instance] symbolicPrims

/-- Two credits to different addresses, their reads and writes alternating; and a stored transfer
that is gossiped again while a witness is added to it, which looks at the row that the witness
changes and ends there. -/
theorem yielding_calls :
    ((LocalLedger.empty .betaDefaults).NoConflict (.genesisCredit "a" 5) (.genesisCredit "b" 7)
      ∧ (LocalLedger.empty .betaDefaults).Serializable [true, false, true, false, true, false]
          (.genesisCredit "a" 5) (.genesisCredit "b" 7))
    ∧ ¬ (fundedLedger.applyTransaction symbolicTransfer).2.NoConflict
        (.addWitness symbolicTransfer.id "w") (.applyTransaction symbolicTransfer)
    ∧ (fundedLedger.applyTransaction symbolicTransfer).2.Serializable [true, false, true]
        (.addWitness symbolicTransfer.id "w") (.applyTransaction symbolicTransfer) := by
  have hapart : (LocalLedger.empty .betaDefaults).NoConflict (.genesisCredit "a" 5)
      (.genesisCredit "b" 7) := by decide +kernel
  have hmeet : ¬ (fundedLedger.applyTransaction symbolicTransfer).2.NoConflict
      (.addWitness symbolicTransfer.id "w") (.applyTransaction symbolicTransfer) := by
    decide +kernel
  have hyields : (fundedLedger.applyTransaction symbolicTransfer).2.Yields
      (.addWitness symbolicTransfer.id "w") (.applyTransaction symbolicTransfer) := by
    decide +kernel
  exact ⟨⟨hapart, (serializable_of_yields _ _ _ (.inl (by decide +kernel)) _).1⟩, hmeet,
    (serializable_of_yields _ _ _ (.inl hyields) _).1⟩

/-- Two credits to one address, both granted: the second write restores what the first call
read, and its credit is lost. Either serial order leaves 12. -/
theorem credits_lost :
    ¬ (LocalLedger.empty .betaDefaults).Serializable [true, true, false, false, true, false]
        (.genesisCredit "a" 5) (.genesisCredit "a" 7)
    ∧ (((LocalLedger.empty .betaDefaults).concurrent [true, true, false, false, true, false]
        (.genesisCredit "a" 5) (.genesisCredit "a" 7)).2.account "a").balanceMuon = 7 := by
  refine ⟨?_, by decide +kernel⟩
  rintro (h | h)
  · have hrow := h.accounts "a"
    revert hrow
    decide +kernel
  · have hrow := h.accounts "a"
    revert hrow
    decide +kernel

end

end Mycelium.Coin

import Mycelium.Coin.Witnessing

/-!
# Mycelium coin — a ledger call that is cut short

Neither `apply_transaction` nor `add_witness` puts a transaction around its `sled` writes.
Every error of a single read or write is passed on by `?`, so a call that meets one, like a
process that stops, leaves exactly the operations before it done: `applyTransactionUntil`
and `addWitnessUntil` are the calls stopped after `n` operations, with no result when they
did not return.

* `settle_stopped` — between its first and its last write a settlement has already stored
  the row its own duplicate check looks for;
* `confirm_stopped` — a confirmation pays before it records the witness it pays for;
* `all_or_nothing_iff` — these are the only two ways in which a call that does not succeed
  leaves something behind.
-/

namespace Mycelium.Coin

namespace LocalLedger

/-- `apply_transaction`, stopped after `n` reads and writes. -/
def applyTransactionUntil [Prims] (l : LocalLedger) (tx : Transaction) (n : Nat) :
    Option (Except String ApplyResult) × LocalLedger :=
  (Coin.applyTransaction l.policy tx).runUntil LedgerOp.exec n l

/-- `add_witness`, stopped after `n` reads and writes. -/
def addWitnessUntil (l : LocalLedger) (txId : TxId) (peerId : String) (n : Nat) :
    Option (Except String Bool) × LocalLedger :=
  (Coin.addWitness l.policy txId peerId).runUntil LedgerOp.exec n l

/-! ## Settlements -/

variable {l : LocalLedger}

/-- Stopped among its seven operations, a settlement has the row stored and no answer. -/
theorem settle_stopped {α : Type} (tx : Transaction) (total : UInt64) (a : α) {m : Nat}
    (hfirst : 1 ≤ m) (hlast : m < 7) :
    ((settle tx total >>= fun _ => pure a).runUntil LedgerOp.exec m l).1 = none
    ∧ ((settle tx total >>= fun _ => pure a).runUntil LedgerOp.exec m l).2.transactions
        = l.transactions.insert tx.id tx := by
  interval_cases m <;> exact ⟨rfl, rfl⟩

theorem settle_done {α : Type} (tx : Transaction) (total : UInt64) (a : α) (m : Nat) :
    (settle tx total >>= fun _ => pure a).runUntil LedgerOp.exec (m + 7) l
      = (some a, l.settled tx total) := by
  cases m <;> rfl

section

variable [Prims]

/-- What `apply_transaction` promises: what does not succeed leaves
nothing behind, and after a failure the call can be made again as if for the first time. -/
def ApplyAllOrNothing (l : LocalLedger) (tx : Transaction) (n : Nat) : Prop :=
  ((l.applyTransactionUntil tx n).1 ≠ some (.ok .accepted) →
    Same l (l.applyTransactionUntil tx n).2)
  ∧ ((l.applyTransactionUntil tx n).1 = none →
    ((l.applyTransactionUntil tx n).2.applyTransaction tx).1 = (l.applyTransaction tx).1
    ∧ Same (l.applyTransaction tx).2 ((l.applyTransactionUntil tx n).2.applyTransaction tx).2)

/-- A call that has left the ledger alone can be repeated. -/
theorem applyAllOrNothing_of_untouched {tx : Transaction} {n : Nat}
    (h : (l.applyTransactionUntil tx n).2 = l) : ApplyAllOrNothing l tx n := by
  unfold ApplyAllOrNothing
  rw [h]
  exact ⟨fun _ => .refl l, fun _ => ⟨rfl, .refl _⟩⟩

/-- **Settlements**: the promises fail between the first write and the last, nowhere else. -/
theorem applyAllOrNothing_iff (l : LocalLedger) (tx : Transaction) (n : Nat) :
    ApplyAllOrNothing l tx n ↔ ¬ ((∃ total, l.Settles tx total) ∧ 5 ≤ n ∧ n < 11) := by
  constructor
  · rintro ⟨hkept, -⟩ ⟨⟨total, hset⟩, hfirst, hlast⟩
    obtain ⟨hnone, hrow⟩ := settle_stopped (l := l) tx total
      (Except.ok ApplyResult.accepted : Except String ApplyResult) (m := n - 4) (by omega) (by omega)
    have hrun : l.applyTransactionUntil tx n = _ := hset.reads.runUntil_eq n
    rw [if_neg (by omega)] at hrun
    rw [hrun] at hkept
    -- the row is there, and it was not there before
    have hsame := (hkept (by rw [hnone]; simp)).transactions tx.id
    rw [hrow, AList.lookup_insert, hset.fresh] at hsame
    cases hsame
  · intro hcond
    rcases l.decides_applyTransaction tx with ⟨total, hset, hq⟩ | ⟨k, r, hr, hq⟩
    · have hrun : l.applyTransactionUntil tx n = _ := hq.runUntil_eq n
      by_cases hreads : n ≤ 4
      · apply applyAllOrNothing_of_untouched
        rw [hrun]
        split
        · rfl
        · have hn : n - 4 = 0 := by omega
          rw [hn]
          rfl
      · -- past the reads, only a call that runs to its end is allowed
        have hn : 11 ≤ n := by
          by_contra hlt
          exact hcond ⟨⟨total, hset⟩, by omega, by omega⟩
        obtain ⟨m, hm⟩ : ∃ m, n - 4 = m + 7 := ⟨n - 11, by omega⟩
        rw [if_neg (by omega), hm, settle_done] at hrun
        unfold ApplyAllOrNothing
        rw [hrun]
        exact ⟨fun h => absurd rfl h, fun h => by cases h⟩
    · apply applyAllOrNothing_of_untouched
      have hrun : l.applyTransactionUntil tx n = _ := hq.runUntil_eq n
      rw [hrun]
      split
      · rfl
      · rw [Free.runUntil_pure]

end

/-! ## Witnesses -/

/-- What `add_witness` promises. -/
def WitnessAllOrNothing (l : LocalLedger) (txId : TxId) (peerId : String) (n : Nat) : Prop :=
  ((∀ b, (l.addWitnessUntil txId peerId n).1 ≠ some (.ok b)) →
    Same l (l.addWitnessUntil txId peerId n).2)
  ∧ ((l.addWitnessUntil txId peerId n).1 = none →
    ((l.addWitnessUntil txId peerId n).2.addWitness txId peerId).1 = (l.addWitness txId peerId).1
    ∧ Same (l.addWitness txId peerId).2
        ((l.addWitnessUntil txId peerId n).2.addWitness txId peerId).2)

/-- `peerId` is the third witness of the stored transaction `tx`, and the cap lets it pass. -/
structure Completes (l : LocalLedger) (txId : TxId) (peerId : String) (tx : Transaction) :
    Prop where
  stored : l.transactions.lookup txId = some tx
  fresh : peerId ∉ tx.witnesses
  two : tx.witnesses.card = 2
  cap : l.policy.checkBalanceCap (l.account tx.toAddr).balanceMuon
    (U64.satSub (l.account tx.toAddr).pendingReceived tx.amountMuon) tx.amountMuon = .ok ()

/-- The confirming write of the recipient's account shows: there was no row, or money moves. -/
def Shows (l : LocalLedger) (tx : Transaction) : Prop :=
  l.accounts.lookup tx.toAddr = none ∨ tx.amountMuon ≠ 0

/-- The third witness is the one that switches `is_confirmed` on. -/
theorem two_iff_completes {tx : Transaction} {peerId : String} (hmem : peerId ∉ tx.witnesses) :
    (tx.isConfirmed = false ∧ (withWitness tx peerId).isConfirmed = true)
      ↔ tx.witnesses.card = 2 := by
  unfold Transaction.isConfirmed
  rw [withWitness_witnesses, Finset.card_insert_of_notMem hmem]
  simp only [decide_eq_false_iff_not, decide_eq_true_eq]
  omega

theorem Completes.reads {txId : TxId} {peerId : String} {tx : Transaction}
    (h : l.Completes txId peerId tx) :
    l.Reads 2 (Coin.addWitness l.policy txId peerId)
      (updateAccount tx.toAddr (fun acc => confirmed acc tx.amountMuon) >>= fun _ =>
        Free.perform (.putTx txId (withWitness tx peerId)) >>= fun _ => pure (.ok true)) := by
  obtain ⟨hold, hnew⟩ := (two_iff_completes h.fresh).mpr h.two
  rcases l.reads_addWitness txId peerId with
    ⟨hknown, _⟩ | ⟨tx', hget, _, hcase⟩
  · exact absurd (hknown tx h.stored) h.fresh
  obtain rfl : tx' = tx := Option.some.inj (hget.symm.trans h.stored)
  rcases hcase with ⟨hsame, _⟩ | ⟨_, _, ⟨msg, herr, _⟩ | ⟨_, hq⟩⟩
  · rw [hold, hnew] at hsame
    cases hsame
  · rw [h.cap] at herr
    cases herr
  · exact hq

/-- Stopped before the row is written, a confirmation has already paid. -/
theorem confirm_stopped {txId : TxId} {peerId : String} {tx : Transaction}
    (h : l.Completes txId peerId tx) :
    l.addWitnessUntil txId peerId 4
      = (none, l.setAccount tx.toAddr (confirmed (l.account tx.toAddr) tx.amountMuon)) :=
  h.reads.runUntil_eq 4

/-- The payment shows exactly when the row is new or money moves. -/
theorem same_confirmed_iff {tx : Transaction} :
    Same l (l.setAccount tx.toAddr (confirmed (l.account tx.toAddr) tx.amountMuon))
      ↔ ¬ l.Shows tx := by
  have hself : (l.setAccount tx.toAddr (confirmed (l.account tx.toAddr) tx.amountMuon)
      ).accounts.lookup tx.toAddr = some (confirmed (l.account tx.toAddr) tx.amountMuon) := by
    unfold setAccount
    exact AList.lookup_insert _
  -- without a row the write makes one; with a row and an amount the balance differs
  constructor
  · rintro hsame (hnone | hamt)
    · have hrow := hsame.accounts tx.toAddr
      rw [hself, hnone] at hrow
      cases hrow
    · have hrow := hsame.accounts tx.toAddr
      rw [hself] at hrow
      have hacc : l.account tx.toAddr = confirmed (l.account tx.toAddr) tx.amountMuon :=
        account_of_lookup hrow
      have hbal : (l.account tx.toAddr).balanceMuon
          = (l.account tx.toAddr).balanceMuon + tx.amountMuon :=
        congrArg AccountState.balanceMuon hacc
      exact hamt (by simpa using hbal)
  -- with a row, a transfer of nothing writes the row that is there
  · intro hquiet
    unfold Shows at hquiet
    push Not at hquiet
    obtain ⟨hrow, hamt⟩ := hquiet
    obtain ⟨acc, hacc⟩ := Option.ne_none_iff_exists'.mp hrow
    have hconf : confirmed (l.account tx.toAddr) tx.amountMuon = acc := by
      unfold account confirmed
      rw [hacc, hamt]
      simp [U64.satSub]
    refine ⟨⟨fun _ => rfl, fun a => ?_⟩, fun _ => rfl, rfl⟩
    by_cases ha : a = tx.toAddr
    · rw [ha, hself, hconf, hacc]
    · unfold setAccount
      rw [AList.lookup_insert_ne ha]

/-- A stopped call that has left the rows alone can be repeated. -/
theorem witnessAllOrNothing_of_same {txId : TxId} {peerId : String} {n : Nat}
    (h : Same l (l.addWitnessUntil txId peerId n).2) : WitnessAllOrNothing l txId peerId n := by
  refine ⟨fun _ => h, fun _ => ?_⟩
  obtain ⟨hres, hsame⟩ := h.exec (Coin.addWitness l.policy txId peerId)
  have hretry : (l.addWitnessUntil txId peerId n).2.addWitness txId peerId
      = (l.addWitnessUntil txId peerId n).2.exec (Coin.addWitness l.policy txId peerId) := by
    rw [h.policy]
    rfl
  rw [hretry]
  exact ⟨hres.symm, hsame⟩

/-- A call that has returned has nothing to keep. -/
theorem witnessAllOrNothing_of_ok {txId : TxId} {peerId : String} {n : Nat} {b : Bool}
    (h : (l.addWitnessUntil txId peerId n).1 = some (.ok b)) :
    WitnessAllOrNothing l txId peerId n := by
  refine ⟨fun hno => absurd h (hno b), fun hnone => ?_⟩
  rw [h] at hnone
  cases hnone

/-- **Witnesses**: the promises fail for a third witness whose row could not be written. -/
theorem witnessAllOrNothing_iff (l : LocalLedger) (txId : TxId) (peerId : String) (n : Nat) :
    WitnessAllOrNothing l txId peerId n
      ↔ ¬ ((∃ tx, l.Completes txId peerId tx ∧ l.Shows tx) ∧ n = 4) := by
  constructor
  · rintro ⟨hkept, -⟩ ⟨⟨tx, hcomp, hshows⟩, rfl⟩
    rw [confirm_stopped hcomp] at hkept
    exact same_confirmed_iff.mp (hkept (by simp)) hshows
  intro hcond
  rcases l.reads_addWitness txId peerId with
    ⟨_, hq⟩ | ⟨tx, hget, hmem, ⟨_, hq⟩ | ⟨hold, hnew, ⟨msg, _, hq⟩ | ⟨hok, hq⟩⟩⟩ <;>
    have hrun : l.addWitnessUntil txId peerId n = _ := hq.runUntil_eq n
  · apply witnessAllOrNothing_of_same
    rw [hrun]
    split
    · exact .refl l
    · rw [Free.runUntil_pure]
      exact .refl l
  · -- a single write is done or not
    match n, hrun with
    | 0, hrun => exact witnessAllOrNothing_of_same (by rw [hrun]; exact .refl l)
    | 1, hrun => exact witnessAllOrNothing_of_same (by rw [hrun]; exact .refl l)
    | m + 2, hrun => exact witnessAllOrNothing_of_ok (b := true) (by rw [hrun]; cases m <;> rfl)
  · apply witnessAllOrNothing_of_same
    rw [hrun]
    split
    · exact .refl l
    · rw [Free.runUntil_pure]
      exact .refl l
  · have hcomp : l.Completes txId peerId tx :=
      ⟨hget, hmem, (two_iff_completes hmem).mp ⟨hold, hnew⟩, hok⟩
    match n, hrun, hcond with
    | 0, hrun, _ => exact witnessAllOrNothing_of_same (by rw [hrun]; exact .refl l)
    | 1, hrun, _ => exact witnessAllOrNothing_of_same (by rw [hrun]; exact .refl l)
    | 2, hrun, _ => exact witnessAllOrNothing_of_same (by rw [hrun]; exact .refl l)
    | 3, hrun, _ => exact witnessAllOrNothing_of_same (by rw [hrun]; exact .refl l)
    | 4, hrun, hcond =>
      apply witnessAllOrNothing_of_same
      rw [hrun]
      exact same_confirmed_iff.mpr fun hshows => hcond ⟨⟨tx, hcomp, hshows⟩, rfl⟩
    | m + 5, hrun, _ => exact witnessAllOrNothing_of_ok (b := true) (by rw [hrun]; cases m <;> rfl)

end LocalLedger

open LocalLedger

/-- **Where a ledger call is all or nothing.** Stopped after `n` reads and writes, a call
that does not succeed leaves the ledger as it was, and can be repeated, unless

* it is `apply_transaction` on a transaction that passes every check, past the first of its
  writes (the fifth operation) and short of the last (the eleventh), or
* it is `add_witness` for the third witness, with the recipient's account written and the
  transaction row not (after the fourth of its five operations). -/
theorem all_or_nothing_iff [Prims] (l : LocalLedger) (n : Nat) :
    (∀ tx, ApplyAllOrNothing l tx n ↔ ¬ ((∃ total, l.Settles tx total) ∧ 5 ≤ n ∧ n < 11))
    ∧ ∀ txId peerId, WitnessAllOrNothing l txId peerId n
        ↔ ¬ ((∃ tx, l.Completes txId peerId tx ∧ l.Shows tx) ∧ n = 4) :=
  ⟨fun tx => applyAllOrNothing_iff l tx n,
    fun txId peerId => witnessAllOrNothing_iff l txId peerId n⟩

section

attribute [local instance] symbolicPrims

/-- The same ledger with the transfer stored and two of its witnesses seen. -/
def witnessedLedger : LocalLedger :=
  ((fundedLedger.applyTransaction symbolicTransfer).2.addWitnesses [("tx", "a"), ("tx", "b")]).2

/-- A failed write of the sender's account leaves the row behind, and the retry is taken for a
duplicate: the transfer is stored and never paid for. A failed write of the row after the
third witness leaves the payment behind, and the retry pays a second time. -/
theorem stopped_call_not_repeatable :
    ¬ ApplyAllOrNothing fundedLedger symbolicTransfer 5
    ∧ ((fundedLedger.applyTransactionUntil symbolicTransfer 5).2.applyTransaction
        symbolicTransfer).1 = .ok .duplicate
    ∧ ¬ WitnessAllOrNothing witnessedLedger "tx" "c" 4
    ∧ (((witnessedLedger.addWitnessUntil "tx" "c" 4).2.addWitness "tx" "c").2.account
        symbolicTransfer.toAddr).balanceMuon = 2000 := by
  refine ⟨fun h => ?_, by decide +kernel, fun h => ?_, by decide +kernel⟩
  · have hrow := (h.1 (by decide +kernel)).transactions "tx"
    revert hrow
    decide +kernel
  · have hrow := (h.1 (by decide +kernel)).accounts symbolicTransfer.toAddr
    revert hrow
    decide +kernel

end

end Mycelium.Coin

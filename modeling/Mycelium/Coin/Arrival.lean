import Mycelium.Coin.LedgerRuns

/-!
# Mycelium coin — what an arriving transaction carries outside its signature

`bytes_for_signing` leaves out two fields of a transaction: its `id` and its `witnesses`.
Both travel with it, and both are acted upon when it arrives.

* `verdict` — the answer of `apply_transaction` as a function of the ledger and the checked
  fields (`applyTransaction_fst`); it does not see who the carried witnesses are;
* `carried_witnesses_iff` — the accounts do see them, exactly for an accepted transaction
  and exactly through `is_confirmed`.
-/

namespace Mycelium.Coin

open LocalLedger

section

variable [Prims]

namespace LocalLedger

/-- What `apply_transaction` answers. -/
def verdict (l : LocalLedger) (tx : Transaction) : Except String ApplyResult :=
  if (l.transactions.lookup tx.id).isSome then .ok .duplicate
  else if !tx.verify then .ok (.invalid "invalid signature")
  else if tx.fromAddr = tx.toAddr then .ok (.invalid "from and to must differ")
  else if tx.nonce ≠ (l.account tx.fromAddr).nextNonce then
    .ok (.invalidNonce (l.account tx.fromAddr).nextNonce tx.nonce)
  else
    match U64.checkedAdd tx.amountMuon tx.feeMuon with
    | none => .error "amount overflow"
    | some total =>
      if (l.account tx.fromAddr).balanceMuon < total then
        .ok (.insufficientFunds (l.account tx.fromAddr).balanceMuon total)
      else if 64 < (tx.memo.map String.utf8ByteSize).getD 0 then .ok (.invalid "memo too long")
      else
        match (do
          l.policy.checkTransferAmount tx.amountMuon
          l.policy.checkTxSize tx tx.encodedLen
          l.policy.checkBalanceCap (l.account tx.toAddr).balanceMuon
            (l.account tx.toAddr).pendingReceived tx.amountMuon
          l.policy.checkVelocity
            (((l.velocity.lookup tx.fromAddr).map VelocityWindow.recent).getD [])
            tx.timestampMs tx.amountMuon) with
        | .error msg => .ok (.invalid msg)
        | .ok () => .ok .accepted

theorem applyTransaction_fst (l : LocalLedger) (tx : Transaction) :
    (l.applyTransaction tx).1 = l.verdict tx := by
  unfold applyTransaction Coin.applyTransaction verdict
  simp -implicitDefEqProofs only [exec_bind, exec_perform, LedgerOp.exec]
  -- duplicate, signature, self-transfer
  split
  · rfl
  split
  · rfl
  split
  · rfl
  simp -implicitDefEqProofs only [exec_bind, exec_accountState]
  split
  · rfl
  -- amount and fee, funds and memo
  cases U64.checkedAdd tx.amountMuon tx.feeMuon with
  | none => rfl
  | some total =>
    simp only
    split
    · rfl
    split
    · rfl
    -- the limits of the policy
    unfold applyPolicy
    cases l.policy.checkTransferAmount tx.amountMuon with
    | error msg => rfl
    | ok u =>
      cases l.policy.checkTxSize tx tx.encodedLen with
      | error msg => rfl
      | ok u =>
        simp -implicitDefEqProofs only [exec_bind, exec_accountState]
        cases l.policy.checkBalanceCap (l.account tx.toAddr).balanceMuon
            (l.account tx.toAddr).pendingReceived tx.amountMuon with
        | error msg => rfl
        | ok u =>
          simp only [exec_bind, exec_recentFor]
          cases l.policy.checkVelocity
              (((l.velocity.lookup tx.fromAddr).map VelocityWindow.recent).getD [])
              tx.timestampMs tx.amountMuon with
          | error msg => rfl
          | ok u => rfl

/-- Nothing but a taken id is answered `Duplicate`. -/
theorem verdict_duplicate_iff (l : LocalLedger) (tx : Transaction) :
    l.verdict tx = .ok .duplicate ↔ (l.transactions.lookup tx.id).isSome = true := by
  unfold verdict
  constructor
  · intro h
    by_contra hfresh
    rw [if_neg hfresh] at h
    split at h
    · cases h
    split at h
    · cases h
    split at h
    · cases h
    split at h
    · cases h
    split at h
    · cases h
    split at h
    · cases h
    split at h <;> cases h
  · intro h
    rw [if_pos h]

end LocalLedger

/-! ## The carried witnesses -/

/-- The transaction with other witnesses written into it. -/
def Transaction.carrying (tx : Transaction) (names : Finset String) : Transaction :=
  { tx with witnesses := names }

namespace LocalLedger

/-- The answer does not depend on the names, at equal size. -/
theorem verdict_carrying (l : LocalLedger) {tx : Transaction} {names : Finset String}
    (hsize : (tx.carrying names).encodedLen = tx.encodedLen) :
    l.verdict (tx.carrying names) = l.verdict tx := by
  unfold verdict SettlementPolicy.checkTxSize
  rw [hsize]
  rfl

theorem Settles.carrying {l : LocalLedger} {tx : Transaction} {total : UInt64}
    {names : Finset String} (h : l.Settles tx total)
    (hsize : (tx.carrying names).encodedLen = tx.encodedLen) :
    l.Settles (tx.carrying names) total where
  fresh := h.fresh
  verified := h.verified
  distinct := h.distinct
  nonce := h.nonce
  total_eq := h.total_eq
  funds := h.funds
  memo := h.memo
  amount := h.amount
  size := by
    have hsz := h.size
    unfold SettlementPolicy.checkTxSize at hsz ⊢
    rw [hsize]
    exact hsz
  cap := h.cap
  velocity := h.velocity

/-- Settling is final: when every check passes the transaction is accepted. -/
theorem Settles.applyTransaction {l : LocalLedger} {tx : Transaction} {total : UInt64}
    (h : l.Settles tx total) : l.applyTransaction tx = (.ok .accepted, l.settled tx total) :=
  h.reads.run_eq

/-- A transaction of amount zero is refused. -/
theorem Settles.amount_ne_zero {l : LocalLedger} {tx : Transaction} {total : UInt64}
    (h : l.Settles tx total) : tx.amountMuon ≠ 0 := by
  intro hzero
  have hamt := h.amount
  unfold SettlementPolicy.checkTransferAmount at hamt
  rw [if_pos hzero] at hamt
  cases hamt

end LocalLedger

omit [Prims] in
theorem account_settled_to {l : LocalLedger} {tx : Transaction} (h : tx.fromAddr ≠ tx.toAddr)
    (total : UInt64) :
    (l.settled tx total).account tx.toAddr = received (l.account tx.toAddr) tx := by
  rw [l.account_settled h, if_pos rfl]

omit [Prims] in
/-- Confirmed on arrival or not, the recipient's row tells. -/
theorem received_ne_received (acc : AccountState) {tx tx' : Transaction}
    (hconf : tx'.isConfirmed ≠ tx.isConfirmed) (hamount : tx'.amountMuon = tx.amountMuon)
    (hzero : tx.amountMuon ≠ 0) : received acc tx' ≠ received acc tx := by
  intro heq
  have hbal := congrArg AccountState.balanceMuon heq
  unfold received at hbal
  rw [hamount] at hbal
  cases h : tx.isConfirmed with
  | true =>
    have h' : tx'.isConfirmed = false := by simpa [h] using hconf
    rw [h, h'] at hbal
    exact hzero (by simpa using hbal.symm)
  | false =>
    have h' : tx'.isConfirmed = true := by simpa [h] using hconf
    rw [h, h'] at hbal
    exact hzero (by simpa using hbal)

/-- **What carried witnesses decide.** For a transaction and the same one with other
witnesses of the same encoded size written into it, `apply_transaction` gives the same
answer; the accounts are the same as well, unless the transaction is accepted and the two
sets differ in being a quorum. -/
theorem carried_witnesses_iff (l : LocalLedger) (tx : Transaction) (names : Finset String)
    (hsize : (tx.carrying names).encodedLen = tx.encodedLen) :
    ((l.applyTransaction (tx.carrying names)).1 = (l.applyTransaction tx).1
      ∧ ∀ a, (l.applyTransaction (tx.carrying names)).2.accounts.lookup a
          = (l.applyTransaction tx).2.accounts.lookup a)
    ↔ ¬ ((∃ total, l.Settles tx total) ∧ (tx.carrying names).isConfirmed ≠ tx.isConfirmed) := by
  have hsame : (l.applyTransaction (tx.carrying names)).1 = (l.applyTransaction tx).1 := by
    rw [applyTransaction_fst, applyTransaction_fst, verdict_carrying l hsize]
  constructor
  · rintro ⟨-, haccounts⟩ ⟨⟨total, hset⟩, hconf⟩
    have hset' := hset.carrying hsize
    rw [hset.applyTransaction, hset'.applyTransaction] at haccounts
    -- the recipient's row is the one that differs
    have hrow : (l.settled (tx.carrying names) total).account tx.toAddr
        = (l.settled tx total).account tx.toAddr := by
      unfold account
      rw [haccounts]
    have hto : (l.settled (tx.carrying names) total).account tx.toAddr
        = received (l.account tx.toAddr) (tx.carrying names) :=
      account_settled_to hset'.distinct total
    have hrecv : received (l.account tx.toAddr) (tx.carrying names)
        = received (l.account tx.toAddr) tx := by
      rw [← hto, hrow, account_settled_to hset.distinct]
    exact received_ne_received _ hconf rfl hset.amount_ne_zero hrecv
  · intro hcond
    refine ⟨hsame, fun a => ?_⟩
    rcases l.applyTransaction_cases tx with ⟨total, hset, heq⟩ | ⟨r, hr, heq⟩
    · have hconf : (tx.carrying names).isConfirmed = tx.isConfirmed := by
        by_contra hne
        exact hcond ⟨⟨total, hset⟩, hne⟩
      rw [heq, (hset.carrying hsize).applyTransaction]
      have hrecv : ∀ acc, received acc (tx.carrying names) = received acc tx := by
        intro acc
        unfold received
        rw [hconf]
        rfl
      simp only [settled_accounts, hrecv]
      rfl
    · -- refused: neither writes anything
      rcases l.applyTransaction_cases (tx.carrying names) with ⟨total', _, heq'⟩ | ⟨r', _, heq'⟩
      · rw [heq, heq'] at hsame
        exact absurd hsame.symm hr
      · rw [heq, heq']

end

section

attribute [local instance] symbolicPrims

/-- A transfer that carries one long name, and three short ones of the same size in all. -/
def longNamed : Transaction := symbolicTransfer.carrying {"aaaaaaaaaaaaaaaaaaa"}

def shortNames : Finset String := {"a", "b", "c"}

/-- On an unfunded ledger the transfer is refused, and the names make no difference. -/
theorem carried_witnesses_refused :
    (longNamed.carrying shortNames).encodedLen = longNamed.encodedLen
    ∧ ∀ a, ((LocalLedger.empty .betaDefaults).applyTransaction
          (longNamed.carrying shortNames)).2.accounts.lookup a
        = ((LocalLedger.empty .betaDefaults).applyTransaction longNamed).2.accounts.lookup a := by
  have hsize : (longNamed.carrying shortNames).encodedLen = longNamed.encodedLen := by
    decide +kernel
  refine ⟨hsize, ((carried_witnesses_iff _ _ _ hsize).mpr ?_).2⟩
  rintro ⟨⟨total, hset⟩, -⟩
  have hnone := hset.applyTransaction
  have hrefused : ((LocalLedger.empty .betaDefaults).applyTransaction longNamed).1
      ≠ .ok .accepted := by decide +kernel
  rw [hnone] at hrefused
  exact hrefused rfl

/-- On a funded ledger both are accepted; with three made-up names the money is there at once,
with one it is pending. -/
theorem carried_witnesses_credit :
    (longNamed.carrying shortNames).encodedLen = longNamed.encodedLen
    ∧ (longNamed.carrying shortNames).signature = longNamed.signature
    ∧ (fundedLedger.applyTransaction longNamed).1
        = .ok .accepted
    ∧ ((fundedLedger.applyTransaction longNamed).2.account
        longNamed.toAddr).balanceMuon = 0
    ∧ ((fundedLedger.applyTransaction
        (longNamed.carrying shortNames)).2.account longNamed.toAddr).balanceMuon = 1000 := by
  refine ⟨by decide +kernel, rfl, by decide +kernel, by decide +kernel, by decide +kernel⟩

end

/-! ## The id -/

/-- The transactions accepted in a piece of history. -/
def acceptedIn (history : List LedgerEvent) : List Transaction :=
  history.filterMap fun
    | .applied tx (.ok .accepted) => some tx
    | _ => none

theorem acceptedIn_append (h h' : List LedgerEvent) :
    acceptedIn (h ++ h') = acceptedIn h ++ acceptedIn h' :=
  List.filterMap_append

theorem acceptedIn_applied (tx : Transaction) (r : Except String ApplyResult) :
    acceptedIn [.applied tx r] = if r = .ok .accepted then [tx] else [] := by
  by_cases hr : r = .ok .accepted
  · rw [hr, if_pos rfl]
    rfl
  · rw [if_neg hr]
    unfold acceptedIn
    rw [List.filterMap_cons]
    split
    · rfl
    · next tx' hsome =>
      split at hsome
      · next hacc =>
        injection hacc with _ hres
        exact absurd hres hr
      · cases hsome

/-- The stored rows are the accepted transactions, each under its id, with witnesses added
since. -/
structure StoredRows (s : Session) : Prop where
  origin : ∀ key tx, s.ledger.transactions.lookup key = some tx →
    ∃ tx₀ names, .applied tx₀ (.ok .accepted) ∈ s.history ∧ tx₀.id = key ∧ tx = tx₀.carrying names
  kept : ∀ tx₀, .applied tx₀ (.ok .accepted) ∈ s.history →
    ∃ names, s.ledger.transactions.lookup tx₀.id = some (tx₀.carrying names)

namespace StoredRows

variable {s : Session}

/-- A call that stores nothing and whose event is no acceptance. -/
theorem congr {l : LocalLedger} {e : LedgerEvent} (h : StoredRows s)
    (hrows : l.transactions = s.ledger.transactions)
    (hevent : ∀ tx, e ≠ .applied tx (.ok .accepted)) :
    StoredRows { ledger := l, history := s.history ++ [e] } where
  origin key tx hget := by
    rw [hrows] at hget
    obtain ⟨tx₀, names, hacc, hid, htx⟩ := h.origin key tx hget
    exact ⟨tx₀, names, List.mem_append_left _ hacc, hid, htx⟩
  kept tx₀ hacc := by
    rw [hrows]
    rcases List.mem_append.mp hacc with hold | hnew
    · exact h.kept tx₀ hold
    · exact absurd (List.mem_singleton.mp hnew).symm (hevent tx₀)

/-- A row that gains a witness. -/
theorem witnessed {l : LocalLedger} {txId : TxId} {peerId : String} {tx : Transaction}
    {r : Except String Bool} (h : StoredRows s) (hget : s.ledger.transactions.lookup txId = some tx)
    (hrows : l.transactions = s.ledger.transactions.insert txId (withWitness tx peerId)) :
    StoredRows { ledger := l, history := s.history ++ [.witnessed txId peerId r] } := by
  have hhist : ∀ tx₀, LedgerEvent.applied tx₀ (.ok .accepted)
      ∈ s.history ++ [.witnessed txId peerId r] → .applied tx₀ (.ok .accepted) ∈ s.history := by
    intro tx₀ hacc
    rcases List.mem_append.mp hacc with hold | hnew
    · exact hold
    · cases List.mem_singleton.mp hnew
  obtain ⟨tx₁, names, hacc₁, hid₁, htx₁⟩ := h.origin txId tx hget
  have hnew : withWitness tx peerId = tx₁.carrying (insert peerId names) := by
    rw [htx₁]
    rfl
  refine ⟨fun key tx' hget' => ?_, fun tx₀ hacc => ?_⟩
  · rw [hrows] at hget'
    by_cases hkey : key = txId
    · rw [hkey, AList.lookup_insert, hnew] at hget'
      exact ⟨tx₁, _, List.mem_append_left _ hacc₁, hid₁.trans hkey.symm,
        (Option.some.inj hget').symm⟩
    · rw [AList.lookup_insert_ne hkey] at hget'
      obtain ⟨tx₀, names₀, hacc, hid, htx⟩ := h.origin key tx' hget'
      exact ⟨tx₀, names₀, List.mem_append_left _ hacc, hid, htx⟩
  · rw [hrows]
    obtain ⟨names₀, hrow⟩ := h.kept tx₀ (hhist tx₀ hacc)
    by_cases hkey : tx₀.id = txId
    · -- the row of `tx₀` is the one that gained the witness
      rw [hkey] at hrow ⊢
      obtain rfl : tx = tx₀.carrying names₀ := Option.some.inj (hget.symm.trans hrow)
      exact ⟨insert peerId names₀, AList.lookup_insert _⟩
    · exact ⟨names₀, by rw [AList.lookup_insert_ne hkey, hrow]⟩

/-- A new row. -/
theorem settled [Prims] {tx : Transaction} {total : UInt64} (h : StoredRows s)
    (hset : s.ledger.Settles tx total) :
    StoredRows { ledger := s.ledger.settled tx total
                 history := s.history ++ [.applied tx (.ok .accepted)] } where
  origin key tx' hget := by
    rw [settled_transactions] at hget
    by_cases hkey : key = tx.id
    · rw [hkey, AList.lookup_insert] at hget
      exact ⟨tx, tx.witnesses, by simp, hkey.symm, (Option.some.inj hget).symm⟩
    · rw [AList.lookup_insert_ne hkey] at hget
      obtain ⟨tx₀, names, hacc, hid, htx⟩ := h.origin key tx' hget
      exact ⟨tx₀, names, List.mem_append_left _ hacc, hid, htx⟩
  kept tx₀ hacc := by
    rw [settled_transactions]
    rcases List.mem_append.mp hacc with hold | hnew
    · obtain ⟨names, hrow⟩ := h.kept tx₀ hold
      -- an id that was free is not the id of a stored row
      have hkey : tx₀.id ≠ tx.id := by
        intro hc
        rw [hc, hset.fresh] at hrow
        cases hrow
      exact ⟨names, by rw [AList.lookup_insert_ne hkey, hrow]⟩
    · cases List.mem_singleton.mp hnew
      exact ⟨tx.witnesses, AList.lookup_insert _⟩

end StoredRows

namespace Session

variable [Prims]

theorem step_storedRows {s : Session} (h : StoredRows s) (c : LedgerCall) :
    StoredRows (s.step c) := by
  cases c with
  | applyTransaction tx =>
    rcases s.ledger.applyTransaction_cases tx with ⟨total, hset, heq⟩ | ⟨r, hr, heq⟩ <;>
      simp only [step, heq]
    · exact h.settled hset
    · apply h.congr rfl
      intro tx' hc
      injection hc with _ hres
      exact hr hres
  | addWitness txId peerId =>
    rcases s.ledger.addWitness_cases txId peerId with
      ⟨heq, _⟩ | ⟨tx, hget, _, ⟨_, heq⟩ | ⟨_, _, ⟨msg, _, heq⟩ | ⟨_, heq⟩⟩⟩ <;>
      simp only [step, heq]
    · exact h.congr rfl (by simp)
    · exact h.witnessed hget rfl
    · exact h.congr rfl (by simp)
    · exact h.witnessed hget rfl
  | genesisCredit a amt =>
    rcases s.ledger.genesisCredit_cases a amt with ⟨_, heq⟩ | ⟨msg, heq⟩ <;>
      simp only [step, heq]
    · exact h.congr rfl (by simp)
    · exact h.congr rfl (by simp)

/-- In every session the rows are those of the accepted transactions. -/
theorem run_storedRows (p : SettlementPolicy) (calls : List LedgerCall) :
    StoredRows (run p calls) := by
  induction calls using List.reverseRecOn with
  | nil =>
    refine ⟨fun key tx hget => ?_, fun tx₀ hacc => ?_⟩
    · cases hget
    · cases hacc
  | append_singleton calls c ih =>
    rw [run_append_singleton]
    exact step_storedRows ih c

/-- What was accepted was submitted, and verified. -/
theorem accepted_submitted (p : SettlementPolicy) (calls : List LedgerCall) {tx : Transaction}
    (hacc : .applied tx (.ok .accepted) ∈ (run p calls).history) :
    .applyTransaction tx ∈ calls ∧ tx.verify = true := by
  -- induction from the end: the last call is the one that was accepted, or an earlier one was
  induction calls using List.reverseRecOn with
  | nil => cases hacc
  | append_singleton calls c ih =>
    rw [run_append_singleton] at hacc
    have hold : .applied tx (.ok .accepted) ∈ (run p calls).history →
        .applyTransaction tx ∈ calls ++ [c] ∧ tx.verify = true := by
      intro h
      exact ⟨List.mem_append_left _ (ih h).1, (ih h).2⟩
    cases c with
    | applyTransaction tx' =>
      rcases (run p calls).ledger.applyTransaction_cases tx' with ⟨total, hset, heq⟩ | ⟨r, hr, heq⟩ <;>
        simp only [step, heq, List.mem_append, List.mem_singleton] at hacc
      · rcases hacc with h | h
        · exact hold h
        · cases h
          exact ⟨by simp, hset.verified⟩
      · rcases hacc with h | h
        · exact hold h
        · injection h with _ hres
          exact absurd hres.symm hr
    | addWitness txId peerId =>
      simp only [step, List.mem_append, List.mem_singleton] at hacc
      rcases hacc with h | h
      · exact hold h
      · cases h
    | genesisCredit a amt =>
      simp only [step, List.mem_append, List.mem_singleton] at hacc
      rcases hacc with h | h
      · exact hold h
      · cases h

end Session

/-- The id is as good as the hash. -/
theorem Transaction.blake3_eq_of_contentId_eq [Prims] {tx tx' : Transaction}
    (h : tx.contentId = tx'.contentId) : Prims.blake3 tx.content = Prims.blake3 tx'.content := by
  have hdec := congrArg hexDecode h
  unfold contentId at hdec
  rw [hexDecode_hexEncode, hexDecode_hexEncode] at hdec
  exact Vector.toList_inj.mp (Option.some.inj hdec)

/-- **Ids that are hashes of contents.** In every run in which each transaction submitted
with a valid signature carries the id that `Transaction::new` computes, every stored
transaction lies under that id; and a transaction with such an id is never answered
`Duplicate` unless one with the same signed bytes and signature was accepted before, as long
as `blake3` does not collide on it and the accepted ones. -/
theorem content_addressed [Prims] (p : SettlementPolicy) (calls : List LedgerCall)
    (hids : ∀ tx, .applyTransaction tx ∈ calls → tx.verify = true → tx.id = tx.contentId) :
    let s := Session.run p calls
    (∀ key tx, s.ledger.transactions.lookup key = some tx → tx.id = key ∧ tx.contentId = key)
    ∧ ∀ tx, tx.id = tx.contentId →
        (∀ tx', .applied tx' (.ok .accepted) ∈ s.history →
          Prims.blake3 tx'.content = Prims.blake3 tx.content → tx'.content = tx.content) →
        (∀ tx', .applied tx' (.ok .accepted) ∈ s.history → tx'.content ≠ tx.content) →
        (s.ledger.applyTransaction tx).1 ≠ .ok .duplicate := by
  intro s
  -- a row has the id of a transaction that was accepted, and its content with some witnesses
  have hrows := Session.run_storedRows p calls
  have hown : ∀ tx, .applied tx (.ok .accepted) ∈ s.history → tx.id = tx.contentId := by
    intro tx hacc
    obtain ⟨hsub, hver⟩ := Session.accepted_submitted p calls hacc
    exact hids tx hsub hver
  constructor
  · intro key tx hget
    obtain ⟨tx₀, names, hacc, hid, rfl⟩ := hrows.origin key tx hget
    exact ⟨hid, (hown tx₀ hacc).symm.trans hid⟩
  -- a duplicate would have the id of an accepted one, hence by the hash its content
  · intro tx hid hcollide hnew hdup
    rw [applyTransaction_fst, verdict_duplicate_iff] at hdup
    obtain ⟨row, hrow⟩ := Option.isSome_iff_exists.mp hdup
    obtain ⟨tx₀, names, hacc, hid₀, -⟩ := hrows.origin tx.id row hrow
    have hsame : tx₀.contentId = tx.contentId := by
      rw [← hown tx₀ hacc, hid₀, hid]
    exact hnew tx₀ hacc (hcollide tx₀ hacc (Transaction.blake3_eq_of_contentId_eq hsame))

section

attribute [local instance] symbolicPrims

/-- A first transfer of 1000 as `Transaction::new` makes it. -/
def firstTransfer (sender recipient : UInt8) : Transaction :=
  (Transaction.new 5 (addressFromKeypair (symbolicKey recipient)) 1000 10 0 none
    (symbolicKey sender)).getD symbolicTransfer

/-- The two senders are given money, and the first one spends some of it. -/
def twoSenders (tx : Transaction) : List LedgerCall :=
  [.genesisCredit (addressFromKeypair (symbolicKey 1)) 100000,
    .genesisCredit (addressFromKeypair (symbolicKey 2)) 100000,
    .applyTransaction tx]

/-- The transfer of the second sender finds its id free. -/
theorem own_ids_do_not_meet :
    (∀ tx, .applyTransaction tx ∈ twoSenders (firstTransfer 1 3) → tx.verify = true →
      tx.id = tx.contentId)
    ∧ ((Session.run .betaDefaults (twoSenders (firstTransfer 1 3))).ledger.applyTransaction
        (firstTransfer 2 3)).1 ≠ .ok .duplicate := by
  have hids : ∀ tx, .applyTransaction tx ∈ twoSenders (firstTransfer 1 3) → tx.verify = true →
      tx.id = tx.contentId := by
    intro tx hsub _
    obtain rfl : tx = firstTransfer 1 3 := by simpa [twoSenders] using hsub
    decide +kernel
  have hacc : ∀ tx, .applied tx (.ok .accepted)
      ∈ (Session.run .betaDefaults (twoSenders (firstTransfer 1 3))).history →
      tx = firstTransfer 1 3 := by
    intro tx h
    simpa [twoSenders] using (Session.accepted_submitted _ _ h).1
  refine ⟨hids, (content_addressed .betaDefaults _ hids).2 _ (by decide +kernel) ?_ ?_⟩
  · intro tx h
    rw [hacc tx h]
    decide +kernel
  · intro tx h
    rw [hacc tx h]
    decide +kernel

/-- The first sender's transfer under the id of the second sender's. -/
def squatter : Transaction := { firstTransfer 1 3 with id := (firstTransfer 2 3).id }

/-- The second sender's valid transfer was never submitted, and is taken for a duplicate: its
id is occupied by another party's transaction. -/
theorem id_occupied :
    (firstTransfer 2 3).verify = true
    ∧ (firstTransfer 2 3).id = (firstTransfer 2 3).contentId
    ∧ .applyTransaction (firstTransfer 2 3) ∉ twoSenders squatter
    ∧ Prims.blake3 squatter.content ≠ Prims.blake3 (firstTransfer 2 3).content
    ∧ ((Session.run .betaDefaults (twoSenders squatter)).ledger.transactions.lookup
        (firstTransfer 2 3).id).map Transaction.contentId ≠ some (firstTransfer 2 3).id
    ∧ ((Session.run .betaDefaults (twoSenders squatter)).ledger.applyTransaction
        (firstTransfer 2 3)).1 = .ok .duplicate := by
  refine ⟨by decide +kernel, by decide +kernel, by decide +kernel, by decide +kernel,
    by decide +kernel, by decide +kernel⟩

end

end Mycelium.Coin

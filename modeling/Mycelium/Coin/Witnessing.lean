import Mycelium.Coin.LedgerRuns

/-!
# Mycelium coin — the order of witnesses does not matter

The third distinct witness of a transaction moves money, so the order of `add_witness`
calls decides *which* call performs the transfer. It decides nothing else:

* `addWitness_step` — on sound books a call never fails, adds one name to one stored row,
  and touches nothing of an account but the two money columns;
* `addWitnesses_spec` — hence after a list of calls every stored row has gained exactly the
  names the list has for it, a description in which order and repetitions are gone;
* `accounts_eq` — the money columns are closed forms over the stored rows (`Books`), so
  they are the same as soon as the rows are.
-/

namespace Mycelium.Coin

namespace LocalLedger

/-- A list of `add_witness` calls, with what each of them returned. -/
def addWitnesses (l : LocalLedger) :
    List (TxId × String) → List (Except String Bool) × LocalLedger
  | [] => ([], l)
  | (txId, peerId) :: calls =>
    let (r, l₁) := l.addWitness txId peerId
    let (rs, l₂) := l₁.addWitnesses calls
    (r :: rs, l₂)

/-- The columns of an account row that witnessing never writes. -/
def fixedColumns (acc : AccountState) : Address × UInt64 := (acc.address, acc.nextNonce)

/-- The names a list of calls has for one transaction. -/
def namedFor (txId : TxId) (calls : List (TxId × String)) : Finset String :=
  ((calls.filter fun c => c.1 = txId).map Prod.snd).toFinset

theorem mem_namedFor {txId : TxId} {calls : List (TxId × String)} {peerId : String} :
    peerId ∈ namedFor txId calls ↔ (txId, peerId) ∈ calls := by
  simp [namedFor]

/-- The stored row with a set of further witnesses. -/
def withWitnesses (names : Finset String) (tx : Transaction) : Transaction :=
  { tx with witnesses := tx.witnesses ∪ names }

/-! ## Sound ledgers -/

/-- What every reachable ledger satisfies and witnessing relies on: the books agree, the
cap leaves room in the word, and a stored transaction has its recipient's row. -/
structure Sound (l : LocalLedger) (credits : Address → Nat) (issued : Nat) : Prop where
  books : Books l credits issued
  bound : l.policy.maxBalanceMuon.toNat < 2 ^ 64 - 1
  recipient : ∀ id tx, l.transactions.lookup id = some tx →
    (l.accounts.lookup tx.toAddr).isSome

variable {l l' : LocalLedger} {credits : Address → Nat} {issued : Nat}

theorem isSome_setAccount {a b : Address} {acc : AccountState}
    (h : (l.accounts.lookup b).isSome) : ((l.setAccount a acc).accounts.lookup b).isSome := by
  unfold setAccount
  by_cases hb : b = a
  · subst hb
    rw [AList.lookup_insert]
    rfl
  · rw [AList.lookup_insert_ne hb]
    exact h

/-- One more witness leaves the recipients where they are. -/
theorem recipient_setTransaction {txId : TxId} {tx : Transaction} {peerId : String}
    (h : ∀ id tx, l.transactions.lookup id = some tx → (l'.accounts.lookup tx.toAddr).isSome)
    (hget : l.transactions.lookup txId = some tx) (id : TxId) (tx' : Transaction)
    (hget' : (l.setTransaction txId (withWitness tx peerId)).transactions.lookup id = some tx') :
    (l'.accounts.lookup tx'.toAddr).isSome := by
  rw [lookup_setTransaction] at hget'
  split at hget'
  · obtain rfl := Option.some.inj hget'
    exact h txId tx hget
  · exact h id tx' hget'

/-! ## One call -/

/-- Writing the row of an address that has one keeps the other columns of every row. -/
theorem fixedColumns_setAccount {a : Address} {acc : AccountState}
    (hrow : (l.accounts.lookup a).isSome) (hcols : fixedColumns acc = fixedColumns (l.account a))
    (b : Address) :
    ((l.setAccount a acc).accounts.lookup b).map fixedColumns
      = (l.accounts.lookup b).map fixedColumns := by
  unfold setAccount
  by_cases hb : b = a
  · subst hb
    obtain ⟨old, hold⟩ := Option.isSome_iff_exists.mp hrow
    rw [AList.lookup_insert, hold, Option.map_some, Option.map_some, hcols]
    unfold account
    rw [hold]
    rfl
  · rw [AList.lookup_insert_ne hb]

/-- What one call leaves: the row of `txId` has the witness, all else is as before. -/
structure Witnessed (l l' : LocalLedger) (txId : TxId) (peerId : String) : Prop where
  transactions : ∀ id, l'.transactions.lookup id
    = if id = txId then (l.transactions.lookup id).map (withWitness · peerId)
      else l.transactions.lookup id
  columns : ∀ a, (l'.accounts.lookup a).map fixedColumns = (l.accounts.lookup a).map fixedColumns

/-- **One call on sound books**: it does not fail, the books stay sound, and one name is
added to one row. -/
theorem addWitness_step (h : l.Sound credits issued) (txId : TxId) (peerId : String) :
    (∃ b, (l.addWitness txId peerId).1 = .ok b)
    ∧ (l.addWitness txId peerId).2.Sound credits issued
    ∧ Witnessed l (l.addWitness txId peerId).2 txId peerId := by
  rcases l.addWitness_cases txId peerId with
    ⟨heq, hknown⟩ | ⟨tx, hget, _, ⟨hsame, heq⟩ | ⟨hold, hnew, ⟨msg, herr, _⟩ | ⟨_, heq⟩⟩⟩
  · -- unknown transaction or known witness: inserting the name again changes nothing
    rw [heq]
    refine ⟨⟨false, rfl⟩, h, ⟨fun id => ?_, fun _ => rfl⟩⟩
    split
    · next hid =>
      subst hid
      cases hrow : l.transactions.lookup id with
      | none => rfl
      | some tx =>
        have hins : insert peerId tx.witnesses = tx.witnesses :=
          Finset.insert_eq_of_mem (hknown tx hrow)
        rw [Option.map_some, withWitness, hins]
    · rfl
  · rw [heq]
    -- a witness more, none that confirms
    refine ⟨⟨true, rfl⟩, ⟨h.books.witnessed hget hsame, h.bound, ?_⟩, ⟨fun id => ?_, fun _ => rfl⟩⟩
    · exact recipient_setTransaction h.recipient hget
    · rw [lookup_setTransaction]
      split
      · next hid => rw [hid, hget]; rfl
      · rfl
  · -- the cap check of the confirming witness cannot fail
    rw [h.books.confirm_cap_ok h.bound hget hold] at herr
    cases herr
  · rw [heq]
    -- the witness that confirms
    refine ⟨⟨true, rfl⟩, ⟨h.books.confirmed h.bound hget hold hnew, h.bound, ?_⟩,
      ⟨fun id => ?_, ?_⟩⟩
    · apply recipient_setTransaction _ hget
      intro id tx' hget'
      exact isSome_setAccount (h.recipient id tx' hget')
    · rw [lookup_setTransaction]
      split
      · next hid => rw [hid, hget]; rfl
      · rfl
    · exact fixedColumns_setAccount (h.recipient txId tx hget) rfl

/-! ## A list of calls -/

/-- **A list of calls on sound books.** Every stored row gains the names the list has for
it. Induction on the calls. -/
theorem addWitnesses_spec (calls : List (TxId × String)) (l : LocalLedger)
    (h : l.Sound credits issued) :
    (∀ r ∈ (l.addWitnesses calls).1, ∃ b, r = .ok b)
    ∧ (l.addWitnesses calls).2.Sound credits issued
    ∧ (∀ id, (l.addWitnesses calls).2.transactions.lookup id
        = (l.transactions.lookup id).map (withWitnesses (namedFor id calls)))
    ∧ (∀ a, ((l.addWitnesses calls).2.accounts.lookup a).map fixedColumns
        = (l.accounts.lookup a).map fixedColumns) := by
  -- induction on the calls: the step changes the row it names and fixed columns of no account
  induction calls generalizing l with
  | nil =>
    refine ⟨by simp [addWitnesses], h, fun id => ?_, fun _ => rfl⟩
    cases hrow : l.transactions.lookup id with
    | none => simp [addWitnesses, hrow]
    | some tx => simp [addWitnesses, hrow, withWitnesses, namedFor]
  | cons call calls ih =>
    obtain ⟨txId, peerId⟩ := call
    obtain ⟨hok, hsound, hstep⟩ := addWitness_step h txId peerId
    obtain ⟨hoks, hsound', hrows, hcols⟩ := ih _ hsound
    refine ⟨?_, hsound', fun id => ?_, fun a => (hcols a).trans (hstep.columns a)⟩
    · intro r hr
      rcases List.mem_cons.mp hr with rfl | hr
      · exact hok
      · exact hoks r hr
    · have hrest : (l.addWitnesses ((txId, peerId) :: calls)).2.transactions.lookup id
          = ((l.addWitness txId peerId).2.transactions.lookup id).map
              (withWitnesses (namedFor id calls)) := hrows id
      rw [hrest, hstep.transactions]
      cases hrow : l.transactions.lookup id with
      | none => simp
      | some tx =>
        by_cases hid : id = txId
        · subst hid
          simp [withWitnesses, withWitness, namedFor]
        · have hne : ¬ txId = id := fun hc => hid hc.symm
          simp [withWitnesses, namedFor, hid, hne]

/-- The accounts follow from the transactions: the books fix the money columns. -/
theorem accounts_eq (h : l.Sound credits issued) (h' : l'.Sound credits issued)
    (hrows : ∀ id, l.transactions.lookup id = l'.transactions.lookup id)
    (hcols : ∀ a, (l.accounts.lookup a).map fixedColumns = (l'.accounts.lookup a).map fixedColumns)
    (a : Address) : l.accounts.lookup a = l'.accounts.lookup a := by
  -- the sums over equal rows are equal, and the books give both amounts from them
  have hsent : l.sent a = l'.sent a := KvTree.sumBy_congr hrows _
  have hconf : l.confirmedTo a = l'.confirmedTo a := KvTree.sumBy_congr hrows _
  have hpend : l.pendingTo a = l'.pendingTo a := KvTree.sumBy_congr hrows _
  have hbal : (l.account a).balanceMuon.toNat = (l'.account a).balanceMuon.toNat := by
    have hb := h.books.balance a
    have hb' := h'.books.balance a
    omega
  have hpen : (l.account a).pendingReceived.toNat = (l'.account a).pendingReceived.toNat := by
    rw [h.books.pending, h'.books.pending, hpend]
  have hcol := hcols a
  unfold account at hbal hpen
  cases hrow : l.accounts.lookup a with
  | none =>
    rw [hrow] at hcol
    exact (Option.map_eq_none_iff.mp hcol.symm).symm
  | some acc =>
    rw [hrow] at hcol hbal hpen
    obtain ⟨acc', hrow', hcols'⟩ := Option.map_eq_some_iff.mp hcol.symm
    rw [hrow'] at hbal hpen
    rw [hrow']
    obtain ⟨haddr, hnonce⟩ := Prod.mk.inj hcols'
    -- a row has the four columns: address and nonce by the hypothesis, the amounts by the books
    congr 1
    cases acc
    cases acc'
    simp only [AccountState.mk.injEq]
    exact ⟨haddr.symm, UInt64.toNat_inj.mp hbal, hnonce.symm, UInt64.toNat_inj.mp hpen⟩

end LocalLedger

/-! ## Reachable ledgers -/

open LocalLedger

namespace Session

variable [Prims]

/-- A call keeps the recipient's row of every stored transaction. -/
theorem step_recipient {s : Session}
    (h : ∀ id tx, s.ledger.transactions.lookup id = some tx →
      (s.ledger.accounts.lookup tx.toAddr).isSome) (c : LedgerCall) :
    ∀ id tx, (s.step c).ledger.transactions.lookup id = some tx →
      ((s.step c).ledger.accounts.lookup tx.toAddr).isSome := by
  cases c with
  | applyTransaction tx =>
    rcases s.ledger.applyTransaction_cases tx with ⟨total, _, heq⟩ | ⟨r, _, heq⟩ <;>
      simp only [step, heq]
    · -- the new row was written together with its recipient's
      intro id tx' hget
      rw [settled_accounts]
      by_cases hid : id = tx.id
      · subst hid
        rw [settled_transactions, AList.lookup_insert] at hget
        obtain rfl := Option.some.inj hget
        simp [setAccount]
      · rw [settled_transactions, AList.lookup_insert_ne hid] at hget
        exact isSome_setAccount (isSome_setAccount (h id tx' hget))
    · exact h
  | addWitness txId peerId =>
    rcases s.ledger.addWitness_cases txId peerId with
      ⟨heq, _⟩ | ⟨tx, hget, _, ⟨_, heq⟩ | ⟨_, _, ⟨msg, _, heq⟩ | ⟨_, heq⟩⟩⟩ <;>
      simp only [step, heq]
    · exact h
    · exact recipient_setTransaction h hget
    · exact h
    · apply recipient_setTransaction _ hget
      intro id tx' hget'
      exact isSome_setAccount (h id tx' hget')
  | genesisCredit a amt =>
    rcases s.ledger.genesisCredit_cases a amt with ⟨_, heq⟩ | ⟨msg, heq⟩ <;>
      simp only [step, heq]
    · intro id tx hget
      exact isSome_setAccount (h id tx hget)
    · exact h

/-- Every ledger reachable under a shipped policy is sound. -/
theorem run_sound (p : ShippedPolicy) (calls : List LedgerCall) :
    (run p.policy calls).ledger.Sound (run p.policy calls).credits (run p.policy calls).issued where
  books := run_books p.maxBalance_lt calls
  bound := by
    rw [run_policy]
    exact p.maxBalance_lt
  recipient := by
    induction calls using List.reverseRecOn with
    | nil =>
      intro id tx hget
      cases hget
    | append_singleton calls c ih =>
      rw [run_append_singleton]
      exact step_recipient ih c

end Session

/-- **Witnessing is order-independent and idempotent.** On every ledger reachable under a
shipped policy no `add_witness` call fails, and two lists with the same calls, in whatever
order and however often each, lead to the same transactions and the same accounts. -/
theorem witnessing_order_independent [Prims] (p : ShippedPolicy) (calls : List LedgerCall)
    (xs ys : List (TxId × String)) (hsame : ∀ c, c ∈ xs ↔ c ∈ ys) :
    let l := (Session.run p.policy calls).ledger
    (∀ r ∈ (l.addWitnesses xs).1, ∃ b, r = .ok b)
    ∧ (∀ r ∈ (l.addWitnesses ys).1, ∃ b, r = .ok b)
    ∧ SameRows (l.addWitnesses xs).2 (l.addWitnesses ys).2 := by
  intro l
  have hsound := Session.run_sound p calls
  obtain ⟨hokx, hsx, hrowx, hcolx⟩ := addWitnesses_spec xs l hsound
  obtain ⟨hoky, hsy, hrowy, hcoly⟩ := addWitnesses_spec ys l hsound
  have hnamed : ∀ id, namedFor id xs = namedFor id ys := by
    intro id
    ext peerId
    rw [mem_namedFor, mem_namedFor, hsame]
  have hrows : ∀ id, (l.addWitnesses xs).2.transactions.lookup id
      = (l.addWitnesses ys).2.transactions.lookup id := by
    intro id
    rw [hrowx, hrowy, hnamed]
  refine ⟨hokx, hoky, hrows, ?_⟩
  apply accounts_eq hsx hsy hrows
  intro a
  rw [hcolx, hcoly]

section

attribute [local instance] symbolicPrims

/-- Three witnesses of the stored transfer, and the same ones in another order, one of them
twice. -/
def symbolicWitnesses : List (TxId × String) := [("tx", "a"), ("tx", "b"), ("tx", "c")]

def symbolicWitnessesAgain : List (TxId × String) :=
  [("tx", "c"), ("tx", "a"), ("tx", "c"), ("tx", "b")]

/-- The transfer is confirmed by its third call in one order and by its fourth in the other,
with the same rows at the end. -/
theorem witnessing_reordered :
    (∀ c, c ∈ symbolicWitnesses ↔ c ∈ symbolicWitnessesAgain)
    ∧ SameRows
        ((Session.run .betaDefaults symbolicCalls).ledger.addWitnesses symbolicWitnesses).2
        ((Session.run .betaDefaults symbolicCalls).ledger.addWitnesses symbolicWitnessesAgain).2
    ∧ ((((Session.run .betaDefaults symbolicCalls).ledger.addWitnesses symbolicWitnesses).2
        ).transactions.lookup "tx").map Transaction.isConfirmed = some true := by
  have hsame : ∀ c, c ∈ symbolicWitnesses ↔ c ∈ symbolicWitnessesAgain := by
    intro c
    simp only [symbolicWitnesses, symbolicWitnessesAgain, List.mem_cons, List.not_mem_nil, or_false]
    tauto
  exact ⟨hsame,
    (witnessing_order_independent .betaDefaults symbolicCalls _ _ hsame).2.2, by decide +kernel⟩

end

end Mycelium.Coin

import Mycelium.Lib.Voting
import Mycelium.Coin.Quorum

/-!
# Mycelium coin — a network of nodes

The nodes of a network tell each other what they have seen. A transaction can come from anywhere, at
any time and to any of them, and two that spend the same coins can be given to different nodes. A
`Witness` payload is one that some node has broadcast; it may be lost, repeated and overtaken.

* `Vouched` — the names among the witnesses of a row are those of nodes that hold the transaction
  and have said so;
* `confirmed_once` — so of two transactions with one nonce of one sender at most one is confirmed,
  on whatever nodes, as long as there are fewer than six;
* `replicas_agree` — and nodes that hold the same transactions and have heard of each other's
  witnesses have the same rows and the same accounts, in whatever order they were told.
-/

namespace Mycelium.Coin

open LocalLedger

/-! ## Rows over several calls -/

namespace Session

/-- The ledger holds a transaction under the id. -/
def Holds (s : Session) (id : TxId) : Prop := (s.ledger.transactions.lookup id).isSome = true

instance (s : Session) (id : TxId) : Decidable (s.Holds id) := inferInstanceAs (Decidable (_ = true))

/-- The genesis credits that were granted, in order. -/
def granted (s : Session) : List (Address × UInt64) :=
  s.history.filterMap fun e => match e with
    | .credited address amountMuon (.ok _) => some (address, amountMuon)
    | _ => none

/-- What an address was granted is a sum over the grants. -/
theorem credits_eq (s : Session) (a : Address) :
    s.credits a = (s.granted.map fun g => if g.1 = a then g.2.toNat else 0).sum := by
  unfold credits granted
  induction s.history with
  | nil => rfl
  | cons e history ih =>
    rw [List.map_cons, List.sum_cons, ih]
    cases e with
    | applied tx result => exact Nat.zero_add _
    | witnessed txId peerId result => exact Nat.zero_add _
    | credited address amountMuon result =>
      cases result with
      | ok _ => rfl
      | error e => exact Nat.zero_add _

/-- A transaction with a witness is stored. -/
theorem holds_of_mem_witnessesOf {s : Session} {id : TxId} {w : String}
    (h : w ∈ s.witnessesOf id) : s.Holds id := by
  unfold Holds
  unfold witnessesOf at h
  cases hrow : s.ledger.transactions.lookup id with
  | none =>
    rw [hrow] at h
    cases h
  | some tx => rfl

variable [Prims] {s : Session} {id : TxId} {w : String}

/-- No call deletes a transaction. -/
theorem Holds.step (h : s.Holds id) (c : LedgerCall) : (s.step c).Holds id := by
  unfold Holds at h ⊢
  rcases s.step_row c id with hsame | ⟨tx, _, _, _, _, hrow⟩ | ⟨tx, _, _, _, hrow⟩
  · rw [hsame]
    exact h
  · rw [hrow]
    rfl
  · rw [hrow]
    rfl

/-- The same for several calls. -/
theorem Holds.calls (h : s.Holds id) (calls : List LedgerCall) :
    (calls.foldl Session.step s).Holds id := by
  induction calls generalizing s with
  | nil => exact h
  | cons c calls ih => exact ih (h.step c)

/-- A call takes no witness away. -/
theorem witnessesOf_step (s : Session) (c : LedgerCall) (id : TxId) :
    s.witnessesOf id ⊆ (s.step c).witnessesOf id := by
  rcases s.step_row c id with hsame | ⟨tx, _, _, hid, hset, _⟩ | ⟨tx, _, _, hget, hrow⟩
  · unfold witnessesOf
    rw [hsame]
  · -- there was no row
    have hnone : s.witnessesOf id = ∅ := by
      unfold witnessesOf
      rw [← hid, hset.fresh]
      rfl
    rw [hnone]
    exact Finset.empty_subset _
  · rw [witnessesOf_of_lookup hget, witnessesOf_of_lookup hrow, withWitness_witnesses]
    exact Finset.subset_insert _ _

/-- Witnesses are only added. -/
theorem witnessesOf_foldl (calls : List LedgerCall) (s : Session) (id : TxId) :
    s.witnessesOf id ⊆ (calls.foldl step s).witnessesOf id := by
  induction calls generalizing s with
  | nil => exact Finset.Subset.refl _
  | cons c calls ih => exact (s.witnessesOf_step c id).trans (ih _)

/-- Only an accepted transaction changes the ledger. -/
theorem ledger_of_refused {tx : Transaction}
    (h : (s.ledger.applyTransaction tx).1 ≠ .ok .accepted) :
    (s.step (.applyTransaction tx)).ledger = s.ledger := by
  rcases s.ledger.applyTransaction_cases tx with ⟨total, _, heq⟩ | ⟨r, _, heq⟩
  · rw [heq] at h
    exact absurd rfl h
  · simp only [step, heq]

/-- What `add_witness` answers tells whether the name was added. -/
theorem witnessesOf_addWitness (s : Session) (id : TxId) (w : String) :
    (s.step (.addWitness id w)).witnessesOf id
      = if (s.ledger.addWitness id w).1 = .ok true then insert w (s.witnessesOf id)
        else s.witnessesOf id := by
  rcases s.ledger.addWitness_cases id w with
    ⟨heq, _⟩ | ⟨tx, hget, _, ⟨_, heq⟩ | ⟨_, _, ⟨msg, _, heq⟩ | ⟨_, heq⟩⟩⟩
  · simp [step, heq, witnessesOf]
  · have hrow : (s.step (.addWitness id w)).ledger.transactions.lookup id
        = some (withWitness tx w) := by
      simp only [step, heq, lookup_setTransaction, if_true]
    rw [witnessesOf_of_lookup hrow, witnessesOf_of_lookup hget, heq, if_pos rfl,
      withWitness_witnesses]
  · simp [step, heq, witnessesOf]
  · have hrow : (s.step (.addWitness id w)).ledger.transactions.lookup id
        = some (withWitness tx w) := by
      simp only [step, heq, lookup_setTransaction, if_true]
    rw [witnessesOf_of_lookup hrow, witnessesOf_of_lookup hget, heq, if_pos rfl,
      withWitness_witnesses]

omit [Prims] in
/-- `Ok(false)` for a transaction that is there: the name was among the witnesses. -/
theorem mem_of_addWitness_false (h : (s.ledger.addWitness id w).1 = .ok false) (hholds : s.Holds id) :
    w ∈ s.witnessesOf id := by
  obtain ⟨tx, hget⟩ := Option.isSome_iff_exists.mp hholds
  rw [witnessesOf_of_lookup hget]
  rcases s.ledger.addWitness_cases id w with
    ⟨_, hknown⟩ | ⟨tx, _, _, ⟨_, heq⟩ | ⟨_, _, ⟨msg, _, heq⟩ | ⟨_, heq⟩⟩⟩
  · exact hknown tx hget
  all_goals
    rw [heq] at h
    cases h

/-- **Where a row comes from**: it is a transaction that was handed to the ledger, with the
witnesses it got since. Induction on the calls. -/
theorem row_origin {p : SettlementPolicy} (calls : List LedgerCall) {tx : Transaction}
    (h : (run p calls).ledger.transactions.lookup id = some tx) :
    ∃ tx₀, .applyTransaction tx₀ ∈ calls ∧ tx₀.id = id ∧ tx.carrying ∅ = tx₀.carrying ∅ := by
  induction calls using List.reverseRecOn generalizing tx with
  | nil => cases h
  | append_singleton calls c ih =>
    rw [run_append_singleton] at h
    rcases (run p calls).step_row c id with
      hsame | ⟨tx₁, _, hc, hid, _, hrow⟩ | ⟨tx₁, w, _, hget, hrow⟩
    · rw [hsame] at h
      obtain ⟨tx₀, hmem, hid, hfields⟩ := ih h
      exact ⟨tx₀, List.mem_append_left _ hmem, hid, hfields⟩
    · rw [hrow] at h
      obtain rfl := Option.some.inj h
      exact ⟨tx₁, List.mem_append_right _ (by rw [hc]; exact List.mem_singleton.mpr rfl), hid, rfl⟩
    · rw [hrow] at h
      obtain rfl := Option.some.inj h
      obtain ⟨tx₀, hmem, hid, hfields⟩ := ih hget
      exact ⟨tx₀, List.mem_append_left _ hmem, hid, hfields⟩

end Session

/-- A sender has one row for each nonce. -/
theorem Nonces.unique {l : LocalLedger} {accepted : Address → Nat} (h : Nonces l accepted)
    {id id' : TxId} {tx tx' : Transaction} (hget : l.transactions.lookup id = some tx)
    (hget' : l.transactions.lookup id' = some tx') (hfrom : tx.fromAddr = tx'.fromAddr)
    (hnonce : tx.nonce = tx'.nonce) : id = id' := by
  by_contra hne
  -- the row of `id'` is among those left without that of `id`
  have hother : tx' ∈ KvTree.values (l.transactions.erase id) :=
    KvTree.mem_values_iff.mpr ⟨id', by rw [AList.lookup_erase_ne (Ne.symm hne)]; exact hget'⟩
  have hnodup : (l.storedNonces tx.fromAddr).Nodup :=
    (h.stored _).nodup_iff.mpr List.nodup_range
  have hfront := ((KvTree.values_perm_of_lookup hget).filter
    fun t => t.fromAddr = tx.fromAddr).map fun t => t.nonce.toNat
  rw [List.filter_cons_of_pos (by simp), List.map_cons] at hfront
  have htwice := (List.nodup_cons.mp (hfront.nodup_iff.mp hnodup)).1
  refine htwice (List.mem_map.mpr ⟨tx', List.mem_filter.mpr ⟨hother, ?_⟩, ?_⟩)
  · exact decide_eq_true hfrom.symm
  · rw [hnonce]

/-! ## What an event makes a node say -/

namespace CoinNode

variable [Prims]

omit [Prims] in
/-- Witnesses are read off the ledger. -/
theorem witnessesOf_of_ledger_eq {n n' : CoinNode} (h : n'.ledger = n.ledger) (id : TxId) :
    n'.witnessesOf id = n.witnessesOf id := by
  unfold ledger at h
  unfold witnessesOf Session.witnessesOf
  rw [h]

/-- A call broadcasts nothing. -/
theorem call_out (n : CoinNode) (c : LedgerCall) : (n.call c).out = n.out := rfl

/-- From `n` to `n'` the node broadcasts no witness. -/
def Silent (n n' : CoinNode) : Prop :=
  ∃ sent, n'.out = n.out ++ sent ∧ ∀ id w, .broadcast (.witness id w) ∉ sent

omit [Prims] in
/-- A node that did not say anything. -/
theorem Silent.of_out_eq {n n' : CoinNode} (h : n'.out = n.out) : Silent n n' :=
  ⟨[], by rw [h, List.append_nil], fun _ _ => List.not_mem_nil⟩

/-- A transaction is broadcast, which is no witness. -/
theorem sendTransaction_silent (n : CoinNode) (env : CoinEnv) (tx : Transaction) :
    Silent n (n.sendTransaction env tx).2 := by
  unfold sendTransaction
  dsimp only
  split
  · exact .of_out_eq rfl
  · exact ⟨[.broadcast (.transaction tx)], rfl, fun _ _ h => by cases List.mem_singleton.mp h⟩
  · exact .of_out_eq rfl

/-- So is a transfer of the own identity. -/
theorem submit_silent (n : CoinNode) (env : CoinEnv) (path : String) (toAddr : Address)
    (amountMuon feeMuon : UInt64) (memo : Option String) :
    Silent n (n.submitTransferFromIdentityPath env path toAddr amountMuon feeMuon memo).2 := by
  unfold submitTransferFromIdentityPath
  split
  · exact .of_out_eq rfl
  · exact n.sendTransaction_silent env _

omit [Prims] in
/-- The mark of a refill is not said. -/
theorem markRefillApplied_out (n : CoinNode) (env : CoinEnv) (requestId : String) :
    (n.markRefillApplied env requestId).2.out = n.out := by
  unfold markRefillApplied
  split <;> rfl

/-- A refill request is answered with a transfer. -/
theorem handleRefillRequest_silent (n : CoinNode) (env : CoinEnv) (req : RefillRequest) :
    Silent n (n.handleRefillRequest env req).2 := by
  have hsubmit := n.submit_silent env n.coinIdentityPath req.hotAddress req.amountMuon req.feeMuon
    (some "refill")
  rw [handleRefillRequest_eq]
  split
  · split
    · next n' heq =>
      rw [heq] at hsubmit
      obtain ⟨sent, hout, hnone⟩ := hsubmit
      exact ⟨sent, (n'.markRefillApplied_out env _).trans hout, hnone⟩
    · next n' heq =>
      rw [heq] at hsubmit
      exact hsubmit
  · exact .of_out_eq rfl

/-- Only an arriving transaction makes a node broadcast a witness. -/
theorem step_silent (n : CoinNode) (env : CoinEnv) {e : CoinEvent}
    (he : ∀ tx fromPeer, e ≠ .incoming (.transaction tx) fromPeer) : Silent n (n.step env e) := by
  cases e with
  | incoming payload fromPeer =>
    cases payload with
    | transaction tx => exact absurd rfl (he tx fromPeer)
    | witness txId peerId => exact .of_out_eq rfl
    | balanceQuery address =>
      exact ⟨[.sendDirect fromPeer _], rfl, fun _ _ h => by cases List.mem_singleton.mp h⟩
    | balanceResponse address balanceMuon pendingMuon => exact .of_out_eq rfl
    | refillRequest req => exact n.handleRefillRequest_silent env req
  | submit path toAddr amountMuon feeMuon memo =>
    exact n.submit_silent env path toAddr amountMuon feeMuon memo
  | send tx => exact n.sendTransaction_silent env tx
  | faucet =>
    refine .of_out_eq ?_
    show n.requestFaucetCoins.2.out = n.out
    unfold requestFaucetCoins
    dsimp only
    split
    · exact n.call_out _
    · rfl
  | genesisCredit address amountMuon => exact .of_out_eq rfl

/-- **An arriving transaction.** The node broadcasts its witness exactly when it is one, unless it
has been before. -/
theorem handleTransaction_out {n : CoinNode} {tx : Transaction} (env : CoinEnv)
    (hempty : tx.witnesses = ∅) :
    ((n.handleTransaction env tx).2.out = n.out
        ∧ (n.handleTransaction env tx).2.witnessesOf tx.id ⊆ n.witnessesOf tx.id)
    ∨ ((n.handleTransaction env tx).2.out = n.out ++ [.broadcast (.witness tx.id n.localPeerId)]
        ∧ n.localPeerId ∈ (n.handleTransaction env tx).2.witnessesOf tx.id) := by
  have hadded : ∀ s : Session, (s.step (.addWitness tx.id n.localPeerId)).witnessesOf tx.id
      = if (s.ledger.addWitness tx.id n.localPeerId).1 = .ok true
          then insert n.localPeerId (s.witnessesOf tx.id) else s.witnessesOf tx.id :=
    fun s => s.witnessesOf_addWitness tx.id n.localPeerId
  unfold handleTransaction
  dsimp only
  split
  · next e heq =>
    have hrefused : (n.call (.applyTransaction tx)).ledger = n.ledger :=
      Session.ledger_of_refused (by rw [heq]; exact nofun)
    exact .inl ⟨rfl, (witnessesOf_of_ledger_eq hrefused tx.id).le⟩
  · next hacc =>
    -- the row is the transaction as it came, without witnesses
    have hrow : (n.call (.applyTransaction tx)).ledger.transactions.lookup tx.id = some tx :=
      Session.lookup_accepted hacc
    have hnone : (n.call (.applyTransaction tx)).session.witnessesOf tx.id = ∅ := by
      rw [Session.witnessesOf_of_lookup hrow, hempty]
    split
    · next e heq =>
      refine .inl ⟨rfl, ?_⟩
      show ((n.call (.applyTransaction tx)).session.step _).witnessesOf tx.id ⊆ _
      rw [hadded, heq, if_neg nofun, hnone]
      exact Finset.empty_subset _
    · next answer heq =>
      refine .inr ⟨rfl, ?_⟩
      show _ ∈ ((n.call (.applyTransaction tx)).session.step _).witnessesOf tx.id
      cases answer with
      | true =>
        rw [hadded, heq, if_pos rfl]
        exact Finset.mem_insert_self _ _
      | false =>
        have hmem := Session.mem_of_addWitness_false heq (by rw [Session.Holds, hrow]; rfl)
        rw [hnone] at hmem
        cases hmem
  · next hdup =>
    have hrefused : (n.call (.applyTransaction tx)).ledger = n.ledger :=
      Session.ledger_of_refused (by rw [hdup]; exact nofun)
    have hsame : (n.call (.applyTransaction tx)).session.witnessesOf tx.id = n.witnessesOf tx.id :=
      witnessesOf_of_ledger_eq hrefused tx.id
    split
    · next e heq =>
      refine .inl ⟨rfl, ?_⟩
      show ((n.call (.applyTransaction tx)).session.step _).witnessesOf tx.id ⊆ _
      rw [hadded, heq, if_neg nofun]
      exact hsame.le
    · next heq =>
      refine .inr ⟨rfl, ?_⟩
      show _ ∈ ((n.call (.applyTransaction tx)).session.step _).witnessesOf tx.id
      rw [hadded, heq, if_pos rfl]
      exact Finset.mem_insert_self _ _
    · next heq =>
      refine .inl ⟨rfl, ?_⟩
      show ((n.call (.applyTransaction tx)).session.step _).witnessesOf tx.id ⊆ _
      rw [hadded, heq, if_neg (by simp)]
      exact hsame.le
  · next r hnacc hndup heq =>
    have hrefused : (n.call (.applyTransaction tx)).ledger = n.ledger :=
      Session.ledger_of_refused fun h => hnacc (Except.ok.inj (heq.symm.trans h))
    exact .inl ⟨rfl, (witnessesOf_of_ledger_eq hrefused tx.id).le⟩

/-- Whose name an event can add: the local peer's, when the transaction arrives, or the one in a
`Witness` payload. -/
theorem gained_cases {n : CoinNode} {env : CoinEnv} {e : CoinEvent} (he : e.Unwitnessed) {id : TxId}
    {w : String} (hw : w ∈ (n.step env e).witnessesOf id) (hold : w ∉ n.witnessesOf id) :
    (∃ tx fromPeer, e = .incoming (.transaction tx) fromPeer ∧ tx.id = id ∧ w = n.localPeerId)
    ∨ ∃ fromPeer, e = .incoming (.witness id w) fromPeer := by
  unfold witnessesOf at hw
  rw [n.step_session env e] at hw
  rcases Session.foldl_witnesses _ _ (fun tx htx => calls_unwitnessed he htx) hw with h | hcall
  · exact absurd h hold
  cases makes_of_mem_calls hcall with
  | seen tx fromPeer => exact .inl ⟨tx, fromPeer, rfl, rfl, rfl⟩
  | witness _ _ fromPeer => exact .inr ⟨fromPeer, rfl⟩

/-- No event takes a witness away. -/
theorem witnessesOf_step (n : CoinNode) (env : CoinEnv) (e : CoinEvent) (id : TxId) :
    n.witnessesOf id ⊆ (n.step env e).witnessesOf id := by
  unfold witnessesOf
  rw [step_session]
  exact Session.witnessesOf_foldl _ _ _

/-- Nor does a run. Induction on the events. -/
theorem witnessesOf_run (events : List (CoinEnv × CoinEvent)) (n : CoinNode) (id : TxId) :
    n.witnessesOf id ⊆ (n.run events).witnessesOf id := by
  unfold witnessesOf
  rw [run_session]
  exact Session.witnessesOf_foldl _ _ _

/-- What a node holds it keeps. -/
theorem holds_append {n : CoinNode} {events : List (CoinEnv × CoinEvent)} {id : TxId}
    (h : (n.run events).session.Holds id) (e : CoinEnv × CoinEvent) :
    (n.run (events ++ [e])).session.Holds id := by
  rw [run_append_singleton, step_session]
  exact h.calls _

/-- What a node has said stays said. -/
theorem mem_out_step {n : CoinNode} {env : CoinEnv} {e : CoinEvent} (he : e.Unwitnessed)
    {o : CoinOutput} (h : o ∈ n.out) : o ∈ (n.step env e).out := by
  by_cases htx : ∀ tx fromPeer, e ≠ .incoming (.transaction tx) fromPeer
  · obtain ⟨sent, hout, -⟩ := n.step_silent env htx
    rw [hout]
    exact List.mem_append_left _ h
  · push Not at htx
    obtain ⟨tx, fromPeer, rfl⟩ := htx
    show o ∈ (n.handleTransaction env tx).2.out
    rcases handleTransaction_out env he with ⟨hout, -⟩ | ⟨hout, -⟩
    · rw [hout]
      exact h
    · rw [hout]
      exact List.mem_append_left _ h

/-- **What an event makes a node say about witnesses**: its own name, for a transaction it holds
and is a witness of. -/
theorem said_step {n : CoinNode} {env : CoinEnv} {e : CoinEvent} (he : e.Unwitnessed) {id : TxId}
    {w : String} (h : .broadcast (.witness id w) ∈ (n.step env e).out) :
    .broadcast (.witness id w) ∈ n.out
    ∨ (w = n.localPeerId ∧ w ∈ (n.step env e).witnessesOf id) := by
  by_cases htx : ∀ tx fromPeer, e ≠ .incoming (.transaction tx) fromPeer
  · obtain ⟨sent, hout, hnone⟩ := n.step_silent env htx
    rw [hout] at h
    rcases List.mem_append.mp h with hold | hnew
    · exact .inl hold
    · exact absurd hnew (hnone id w)
  · push Not at htx
    obtain ⟨tx, fromPeer, rfl⟩ := htx
    have h' : .broadcast (.witness id w) ∈ (n.handleTransaction env tx).2.out := h
    rcases handleTransaction_out env he with ⟨hout, -⟩ | ⟨hout, hmem⟩
    · rw [hout] at h'
      exact .inl h'
    · rw [hout] at h'
      rcases List.mem_append.mp h' with hold | hnew
      · exact .inl hold
      · obtain ⟨rfl, rfl⟩ : id = tx.id ∧ w = n.localPeerId := by simpa using hnew
        exact .inr ⟨rfl, hmem⟩

/-- A node that becomes a witness says so. -/
theorem said_of_gained {n : CoinNode} {env : CoinEnv} {tx : Transaction} {fromPeer : String}
    (hempty : tx.witnesses = ∅) {w : String}
    (hw : w ∈ (n.step env (.incoming (.transaction tx) fromPeer)).witnessesOf tx.id)
    (hold : w ∉ n.witnessesOf tx.id) (hlocal : w = n.localPeerId) :
    .broadcast (.witness tx.id w) ∈ (n.step env (.incoming (.transaction tx) fromPeer)).out := by
  show _ ∈ (n.handleTransaction env tx).2.out
  rcases handleTransaction_out env hempty with ⟨-, hsub⟩ | ⟨hout, -⟩
  · exact absurd (hsub hw) hold
  · rw [hout, hlocal]
    exact List.mem_append_right _ (List.mem_singleton.mpr rfl)

/-- An event makes at most two calls. -/
theorem length_calls (n : CoinNode) (env : CoinEnv) (e : CoinEvent) : (n.calls env e).length ≤ 2 := by
  have htransfer : ∀ r, (transferCalls r).length ≤ 2 := by
    intro r
    cases r with
    | error e => exact Nat.zero_le 2
    | ok tx => exact Nat.le_of_ble_eq_true rfl
  unfold calls
  split
  · split <;> simp
  · simp
  · simp
  · simp
  · split
    · exact htransfer _
    · simp
  · exact htransfer _
  · simp
  · split <;> simp
  · simp

/-- An event makes two calls at most. -/
theorem length_allCalls (events : List (CoinEnv × CoinEvent)) (n : CoinNode) :
    (n.allCalls events).length ≤ 2 * events.length := by
  induction events generalizing n with
  | nil => exact Nat.le_refl 0
  | cons e events ih =>
    have hfirst := n.length_calls e.1 e.2
    have hrest := ih (n.step e.1 e.2)
    rw [allCalls, List.length_append, List.length_cons]
    omega

/-- What a run has its ledger settle carries no witnesses. -/
theorem allCalls_unwitnessed {tx : Transaction} (events : List (CoinEnv × CoinEvent))
    (harrive : ∀ e ∈ events, e.2.Unwitnessed) (n : CoinNode)
    (h : .applyTransaction tx ∈ n.allCalls events) : tx.witnesses = ∅ := by
  induction events generalizing n with
  | nil => cases h
  | cons e events ih =>
    rw [allCalls] at h
    rcases List.mem_append.mp h with hfirst | hlater
    · exact calls_unwitnessed (harrive e List.mem_cons_self) hfirst
    · exact ih (fun e' he' => harrive e' (List.mem_cons_of_mem e he')) _ hlater

end CoinNode

/-! ## The network -/

/-- What a node of a network is created with. -/
structure CoinHost where
  policy : SettlementPolicy
  localAddress : Address
  localPeerId : String
  coinIdentityPath : String

/-- One step of a network: an event at one of its nodes. -/
structure CoinNetEvent (ι : Type) where
  node : ι
  env : CoinEnv
  event : CoinEvent

section

variable {ι : Type} [DecidableEq ι]

/-- The events at one node. -/
def coinEventsOf (events : List (CoinNetEvent ι)) (i : ι) : List (CoinEnv × CoinEvent) :=
  (events.filter fun e => e.node = i).map fun e => (e.env, e.event)

/-- The events of a node are events of the network. -/
theorem mem_coinEventsOf {events : List (CoinNetEvent ι)} {i : ι} {e : CoinEnv × CoinEvent}
    (h : e ∈ coinEventsOf events i) : ∃ e' ∈ events, e'.event = e.2 := by
  obtain ⟨e', hmem, rfl⟩ := List.mem_map.mp h
  exact ⟨e', List.mem_of_mem_filter hmem, rfl⟩

/-- They are no more than all. -/
theorem length_coinEventsOf (events : List (CoinNetEvent ι)) (i : ι) :
    (coinEventsOf events i).length ≤ events.length := by
  unfold coinEventsOf
  rw [List.length_map]
  exact List.length_filter_le _ _

variable [Prims]

def CoinHost.start (h : CoinHost) : CoinNode :=
  .new h.policy h.localAddress h.localPeerId h.coinIdentityPath

/-- The node after its share of the events. -/
def nodeAfter (host : ι → CoinHost) (events : List (CoinNetEvent ι)) (i : ι) : CoinNode :=
  (host i).start.run (coinEventsOf events i)

/-- The event can happen after `events`: transactions arrive without witnesses, and what a
`Witness` payload says has been broadcast. -/
structure CanHappen (host : ι → CoinHost) (events : List (CoinNetEvent ι)) (e : CoinNetEvent ι) :
    Prop where
  unwitnessed : e.event.Unwitnessed
  said : ∀ txId peerId fromPeer, e.event = .incoming (.witness txId peerId) fromPeer →
    ∃ j, .broadcast (.witness txId peerId) ∈ (nodeAfter host events j).out

/-- The events make up a run of the network. -/
inductive CoinNetworkRun (host : ι → CoinHost) : List (CoinNetEvent ι) → Prop
  | nil : CoinNetworkRun host []
  | append {events : List (CoinNetEvent ι)} {e : CoinNetEvent ι} : CoinNetworkRun host events →
      CanHappen host events e → CoinNetworkRun host (events ++ [e])

variable {host : ι → CoinHost} {events : List (CoinNetEvent ι)}

/-- One more event changes the node it is for. -/
theorem nodeAfter_append (host : ι → CoinHost) (events : List (CoinNetEvent ι)) (e : CoinNetEvent ι)
    (i : ι) : nodeAfter host (events ++ [e]) i
      = if e.node = i then (nodeAfter host events i).step e.env e.event
        else nodeAfter host events i := by
  unfold nodeAfter coinEventsOf
  rw [List.filter_append, List.map_append]
  by_cases hi : e.node = i
  · rw [if_pos hi, List.filter_cons_of_pos (by simpa using hi), List.filter_nil, List.map_singleton,
      CoinNode.run_append_singleton]
  · rw [if_neg hi, List.filter_cons_of_neg (by simpa using hi), List.filter_nil, List.map_nil,
      List.append_nil]

/-- The nodes keep their names. -/
theorem localPeerId_nodeAfter (host : ι → CoinHost) (events : List (CoinNetEvent ι)) (i : ι) :
    (nodeAfter host events i).localPeerId = (host i).localPeerId :=
  CoinNode.run_localPeerId _ _

/-- The ledger of a node is one of a run of calls. -/
theorem session_nodeAfter (host : ι → CoinHost) (events : List (CoinNetEvent ι)) (i : ι) :
    (nodeAfter host events i).session
      = .run (host i).policy ((host i).start.allCalls (coinEventsOf events i)) :=
  CoinNode.new_run_session _ _ _ _ _

/-- In a run of the network no client adds a witness by hand. -/
theorem CoinNetworkRun.unwitnessed (h : CoinNetworkRun host events) :
    ∀ e ∈ events, e.event.Unwitnessed := by
  induction h with
  | nil => exact nofun
  | append _ hcan ih =>
    intro e he
    rcases List.mem_append.mp he with hold | hnew
    · exact ih e hold
    · rw [List.mem_singleton.mp hnew]
      exact hcan.unwitnessed

/-- So none does at the node. -/
theorem CoinNetworkRun.unwitnessed_of (h : CoinNetworkRun host events) (i : ι) :
    ∀ e ∈ coinEventsOf events i, e.2.Unwitnessed := by
  intro e he
  obtain ⟨e', hmem, heq⟩ := mem_coinEventsOf he
  rw [← heq]
  exact h.unwitnessed e' hmem

/-- **Who stands behind the witnesses.** A node has named itself only, for transactions it holds and
is a witness of; and every witness of a row has said so. -/
structure Vouched (host : ι → CoinHost) (events : List (CoinNetEvent ι)) : Prop where
  said : ∀ j id w, .broadcast (.witness id w) ∈ (nodeAfter host events j).out →
    w = (host j).localPeerId ∧ w ∈ (nodeAfter host events j).witnessesOf id
  rows : ∀ i id w, w ∈ (nodeAfter host events i).witnessesOf id →
    ∃ j, .broadcast (.witness id w) ∈ (nodeAfter host events j).out

/-- What has been said stays said over one more event. -/
theorem mem_out_append {e : CoinNetEvent ι} (he : e.event.Unwitnessed) {j : ι} {o : CoinOutput}
    (h : o ∈ (nodeAfter host events j).out) : o ∈ (nodeAfter host (events ++ [e]) j).out := by
  rw [nodeAfter_append]
  split
  · exact CoinNode.mem_out_step he h
  · exact h

/-- The witnesses of a node stay when the network goes on. -/
theorem witnessesOf_append (e : CoinNetEvent ι) (i : ι) (id : TxId) :
    (nodeAfter host events i).witnessesOf id ⊆ (nodeAfter host (events ++ [e]) i).witnessesOf id := by
  rw [nodeAfter_append]
  split
  · exact CoinNode.witnessesOf_step _ _ _ _
  · exact Finset.Subset.refl _

/-- **Every run is vouched for.** Induction on the run; an event says and adds names at one node. -/
theorem vouched (h : CoinNetworkRun host events) : Vouched host events := by
  induction h with
  | nil =>
    refine ⟨fun j id w hsaid => ?_, fun i id w hw => ?_⟩
    · cases hsaid
    · cases hw
  | @append events e hrun hcan ih =>
    refine ⟨fun j id w hsaid => ?_, fun i id w hw => ?_⟩
    · have hkept : .broadcast (.witness id w) ∈ (nodeAfter host events j).out →
          w = (host j).localPeerId ∧ w ∈ (nodeAfter host (events ++ [e]) j).witnessesOf id :=
        fun hold => ⟨(ih.said j id w hold).1, witnessesOf_append e j id (ih.said j id w hold).2⟩
      have hsaid' := hsaid
      rw [nodeAfter_append] at hsaid'
      split at hsaid'
      · next hj =>
        rcases CoinNode.said_step hcan.unwitnessed hsaid' with hold | ⟨hlocal, hmem⟩
        · exact hkept hold
        · rw [nodeAfter_append, if_pos hj]
          exact ⟨hlocal.trans (localPeerId_nodeAfter host events j), hmem⟩
      · exact hkept hsaid'
    · by_cases hold : w ∈ (nodeAfter host events i).witnessesOf id
      · obtain ⟨j, hj⟩ := ih.rows i id w hold
        exact ⟨j, mem_out_append hcan.unwitnessed hj⟩
      have hw' := hw
      rw [nodeAfter_append] at hw'
      split at hw'
      · next hi =>
        rcases CoinNode.gained_cases hcan.unwitnessed hw' hold with
          ⟨tx, fromPeer, hevent, rfl, hlocal⟩ | ⟨fromPeer, hevent⟩
        · -- the node is a new witness, and says so itself
          refine ⟨i, ?_⟩
          rw [nodeAfter_append, if_pos hi, hevent]
          rw [hevent] at hw'
          have hempty : tx.witnesses = ∅ := by
            have hun := hcan.unwitnessed
            rw [hevent] at hun
            exact hun
          exact CoinNode.said_of_gained hempty hw' hold hlocal
        · obtain ⟨j, hj⟩ := hcan.said id w fromPeer hevent
          exact ⟨j, mem_out_append hcan.unwitnessed hj⟩
      · exact absurd hw' hold

/-! ## One of two rivals -/

/-- The transaction is handed to some ledger of the network. -/
def Handed (host : ι → CoinHost) (events : List (CoinNetEvent ι)) (tx : Transaction) : Prop :=
  ∃ i, .applyTransaction tx ∈ (host i).start.allCalls (coinEventsOf events i)

/-- No two transactions are handed in under one id. -/
def IdsIdentify (host : ι → CoinHost) (events : List (CoinNetEvent ι)) : Prop :=
  ∀ tx tx', Handed host events tx → Handed host events tx' → tx.id = tx'.id → tx = tx'

/-- The fields of a row are those of the transaction handed in under its id. -/
theorem handed_of_row (hrun : CoinNetworkRun host events) {i : ι} {id : TxId} {tx : Transaction}
    (h : (nodeAfter host events i).ledger.transactions.lookup id = some tx) :
    Handed host events (tx.carrying ∅) ∧ tx.id = id := by
  unfold CoinNode.ledger at h
  rw [session_nodeAfter] at h
  obtain ⟨tx₀, hcall, hid, hfields⟩ := Session.row_origin _ h
  have hempty := CoinNode.allCalls_unwitnessed _ (hrun.unwitnessed_of i) _ hcall
  have hself : tx₀.carrying ∅ = tx₀ := by
    unfold Transaction.carrying
    rw [← hempty]
  rw [hself] at hfields
  have hids : (tx.carrying ∅).id = tx₀.id := congrArg Transaction.id hfields
  exact ⟨⟨i, hfields ▸ hcall⟩, hids.trans hid⟩

/-- Rows of one id agree in everything but the witnesses, on whatever nodes. -/
theorem IdsIdentify.row_eq (hids : IdsIdentify host events) (hrun : CoinNetworkRun host events)
    {i j : ι} {id : TxId} {tx tx' : Transaction}
    (hi : (nodeAfter host events i).ledger.transactions.lookup id = some tx)
    (hj : (nodeAfter host events j).ledger.transactions.lookup id = some tx') :
    tx.carrying ∅ = tx'.carrying ∅ := by
  obtain ⟨hhanded, hid⟩ := handed_of_row hrun hi
  obtain ⟨hhanded', hid'⟩ := handed_of_row hrun hj
  exact hids _ _ hhanded hhanded' (hid.trans hid'.symm)

/-- A node holds the transaction under this name. -/
def VotesFor (host : ι → CoinHost) (events : List (CoinNetEvent ι)) (w : String) (id : TxId) : Prop :=
  ∃ j, (host j).localPeerId = w ∧ (nodeAfter host events j).session.Holds id

/-- Two ids under which some nodes hold transactions with one nonce of one sender. -/
def Rivals (host : ι → CoinHost) (events : List (CoinNetEvent ι)) (id id' : TxId) : Prop :=
  ∃ i j tx tx', (nodeAfter host events i).ledger.transactions.lookup id = some tx
    ∧ (nodeAfter host events j).ledger.transactions.lookup id' = some tx'
    ∧ tx.fromAddr = tx'.fromAddr ∧ tx.nonce = tx'.nonce

/-- No node holds two rivals. -/
theorem single_vote (hpeers : Function.Injective fun i => (host i).localPeerId)
    (hrun : CoinNetworkRun host events) (hlen : 2 * events.length < 2 ^ 64)
    (hids : IdsIdentify host events) :
    Voting.Single (VotesFor host events) (Rivals host events) := by
  rintro w id id' ⟨k, hk, hholds⟩ ⟨k', hk', hholds'⟩ ⟨i, j, tx, tx', hi, hj, hfrom, hnonce⟩
  obtain rfl : k = k' := hpeers (hk.trans hk'.symm)
  obtain ⟨own, hown⟩ := Option.isSome_iff_exists.mp hholds
  obtain ⟨own', hown'⟩ := Option.isSome_iff_exists.mp hholds'
  -- what the node holds has the sender and the nonce of the rivals
  have hfields := hids.row_eq hrun hown hi
  have hfields' := hids.row_eq hrun hown' hj
  have hsession := session_nodeAfter host events k
  have hcalls : ((host k).start.allCalls (coinEventsOf events k)).length < 2 ^ 64 := by
    have hle := CoinNode.length_allCalls (coinEventsOf events k) (host k).start
    have hle' := length_coinEventsOf events k
    omega
  rw [hsession] at hown hown'
  have hownFrom : own.fromAddr = tx.fromAddr := (congrArg Transaction.fromAddr hfields :)
  have hownFrom' : own'.fromAddr = tx'.fromAddr := (congrArg Transaction.fromAddr hfields' :)
  have hownNonce : own.nonce = tx.nonce := (congrArg Transaction.nonce hfields :)
  have hownNonce' : own'.nonce = tx'.nonce := (congrArg Transaction.nonce hfields' :)
  exact (Session.run_nonces _ hcalls).unique hown hown'
    (hownFrom.trans (hfrom.trans hownFrom'.symm)) (hownNonce.trans (hnonce.trans hownNonce'.symm))

/-- Every witness of a row is a node that holds the transaction. -/
theorem votesFor_of_witness (hrun : CoinNetworkRun host events) {i : ι} {id : TxId} {tx : Transaction}
    (h : (nodeAfter host events i).ledger.transactions.lookup id = some tx) {w : String}
    (hw : w ∈ tx.witnesses) : VotesFor host events w id := by
  rw [← Session.witnessesOf_of_lookup h] at hw
  obtain ⟨j, hsaid⟩ := (vouched hrun).rows i id w hw
  obtain ⟨rfl, hmem⟩ := (vouched hrun).said j id w hsaid
  exact ⟨j, rfl, Session.holds_of_mem_witnessesOf hmem⟩

/-- **Of two rivals at most one is confirmed.** Whatever transactions are given to whatever nodes of
a network of fewer than six, and however the witnesses travel: two transactions with one nonce of
one sender that are both confirmed, each on some node, are the same. -/
theorem confirmed_once [Fintype ι] (host : ι → CoinHost)
    (hpeers : Function.Injective fun i => (host i).localPeerId) (hfew : Fintype.card ι < 6)
    {events : List (CoinNetEvent ι)} (hrun : CoinNetworkRun host events)
    (hlen : 2 * events.length < 2 ^ 64) (hids : IdsIdentify host events)
    {i j : ι} {id id' : TxId} {tx tx' : Transaction}
    (hi : (nodeAfter host events i).ledger.transactions.lookup id = some tx)
    (hj : (nodeAfter host events j).ledger.transactions.lookup id' = some tx')
    (hconfirmed : tx.isConfirmed = true) (hconfirmed' : tx'.isConfirmed = true)
    (hfrom : tx.fromAddr = tx'.fromAddr) (hnonce : tx.nonce = tx'.nonce) :
    id = id' ∧ tx.carrying ∅ = tx'.carrying ∅ := by
  have hpeersOf : ∀ w id, VotesFor host events w id →
      w ∈ Finset.univ.image fun i => (host i).localPeerId := by
    rintro w id ⟨j, rfl, -⟩
    exact Finset.mem_image_of_mem _ (Finset.mem_univ j)
  have hvotes : ∀ w ∈ tx.witnesses, VotesFor host events w id :=
    fun w hw => votesFor_of_witness hrun hi hw
  have hvotes' : ∀ w ∈ tx'.witnesses, VotesFor host events w id' :=
    fun w hw => votesFor_of_witness hrun hj hw
  have hthree := Transaction.isConfirmed_iff.mp hconfirmed
  have hthree' := Transaction.isConfirmed_iff.mp hconfirmed'
  have hall : (Finset.univ.image fun i => (host i).localPeerId).card ≤ Fintype.card ι :=
    Finset.card_image_le
  -- fewer than six nodes are too few for three witnesses of each
  obtain rfl : id = id' := (single_vote hpeers hrun hlen hids).eq_of_card_lt hvotes hvotes'
    ⟨i, j, tx, tx', hi, hj, hfrom, hnonce⟩ (fun w hw => hpeersOf w id (hvotes w hw))
    (fun w hw => hpeersOf w id' (hvotes' w hw)) (by omega)
  exact ⟨rfl, hids.row_eq hrun hi hj⟩

/-! ## Replicas -/

/-- A `Witness` payload for the transaction has come in after the node stored it. -/
def HeardBy (host : ι → CoinHost) (events : List (CoinNetEvent ι)) (i : ι) (id : TxId) (w : String) :
    Prop :=
  ∃ before env fromPeer after,
    coinEventsOf events i = before ++ (env, .incoming (.witness id w) fromPeer) :: after
    ∧ ((host i).start.run before).session.Holds id

/-- Every witness that was broadcast has been heard by all others that hold the transaction. -/
def AllHeard (host : ι → CoinHost) (events : List (CoinNetEvent ι)) : Prop :=
  ∀ j id w, .broadcast (.witness id w) ∈ (nodeAfter host events j).out →
    ∀ i, i ≠ j → (nodeAfter host events i).session.Holds id → HeardBy host events i id w

/-- Under a shipped policy a witness that is heard is recorded. -/
theorem mem_of_heardBy {p : ShippedPolicy} {i : ι} (hpolicy : (host i).policy = p.policy) {id : TxId}
    {w : String} (h : HeardBy host events i id w) : w ∈ (nodeAfter host events i).witnessesOf id := by
  obtain ⟨before, env, fromPeer, after, hevents, hholds⟩ := h
  have hrun : nodeAfter host events i
      = (((host i).start.run before).step env (.incoming (.witness id w) fromPeer)).run after := by
    unfold nodeAfter
    rw [hevents]
    unfold CoinNode.run
    rw [List.foldl_append, List.foldl_cons]
  rw [hrun]
  refine CoinNode.witnessesOf_run after _ id ?_
  show w ∈ (((host i).start.run before).session.step (.addWitness id w)).witnessesOf id
  have hsession : ((host i).start.run before).session
      = Session.run p.policy ((host i).start.allCalls before) := by
    rw [← hpolicy]
    exact CoinNode.new_run_session _ _ _ _ _
  obtain ⟨⟨answer, hok⟩, -, -⟩ := addWitness_step
    (Session.run_sound p ((host i).start.allCalls before)) id w
  rw [← hsession] at hok
  cases answer with
  | true =>
    rw [Session.witnessesOf_addWitness, if_pos hok]
    exact Finset.mem_insert_self _ _
  | false => exact Session.witnessesOf_step _ _ _ (Session.mem_of_addWitness_false hok hholds)

/-- What can happen now can happen later. -/
theorem CoinNetworkRun.extend (hrun : CoinNetworkRun host events) {more : List (CoinNetEvent ι)}
    (hmore : ∀ e ∈ more, CanHappen host events e) : CoinNetworkRun host (events ++ more) := by
  induction more generalizing events with
  | nil =>
    rw [List.append_nil]
    exact hrun
  | cons e more ih =>
    obtain ⟨hcan, hrest⟩ := List.forall_mem_cons.mp hmore
    rw [← List.singleton_append, ← List.append_assoc]
    refine ih (hrun.append hcan) fun e' he' => ⟨(hrest e' he').unwitnessed, fun txId w p hevent => ?_⟩
    obtain ⟨j, hj⟩ := (hrest e' he').said txId w p hevent
    exact ⟨j, mem_out_append hcan.unwitnessed hj⟩

/-- Nodes that have heard everything know the same witnesses. -/
theorem AllHeard.witnessesOf_subset (hheard : AllHeard host events) (hrun : CoinNetworkRun host events)
    {p : ShippedPolicy} {i j : ι} (hpolicy : (host j).policy = p.policy) {id : TxId}
    (hholds : (nodeAfter host events j).session.Holds id) :
    (nodeAfter host events i).witnessesOf id ⊆ (nodeAfter host events j).witnessesOf id := by
  intro w hw
  obtain ⟨k, hsaid⟩ := (vouched hrun).rows i id w hw
  by_cases hk : j = k
  · -- the node has said it itself
    rw [hk]
    exact ((vouched hrun).said k id w hsaid).2
  · exact mem_of_heardBy hpolicy (hheard k id w hsaid j hk hholds)

omit [DecidableEq ι] [Prims] in
/-- The nonces of a sender depend on the rows only. -/
theorem storedNonces_congr {l l' : LocalLedger}
    (h : ∀ id, l.transactions.lookup id = l'.transactions.lookup id) (a : Address) :
    (l.storedNonces a).Perm (l'.storedNonces a) := by
  have hperm : l.transactions.entries.Perm l'.transactions.entries := by
    apply List.lookup_ext l.transactions.nodupKeys l'.transactions.nodupKeys
    intro id tx
    have hid : l.transactions.entries.dlookup id = l'.transactions.entries.dlookup id := h id
    rw [hid]
  exact ((hperm.map _).filter _).map _

/-- **Replicas agree.** In a network under one shipped policy let every witness have been heard
wherever the transaction is held. Two nodes that hold the same ids and were credited the same have
the same rows, witnesses included, and the same balances, pending amounts and nonces. -/
theorem replicas_agree (p : ShippedPolicy) (host : ι → CoinHost)
    (hpolicy : ∀ i, (host i).policy = p.policy) {events : List (CoinNetEvent ι)}
    (hrun : CoinNetworkRun host events) (hlen : 2 * events.length < 2 ^ 64)
    (hids : IdsIdentify host events) (hheard : AllHeard host events) {i j : ι}
    (hheld : ∀ id, (nodeAfter host events i).session.Holds id
      ↔ (nodeAfter host events j).session.Holds id)
    (hcredits : ∀ a, (nodeAfter host events i).session.credits a
      = (nodeAfter host events j).session.credits a) :
    (∀ id, (nodeAfter host events i).ledger.transactions.lookup id
        = (nodeAfter host events j).ledger.transactions.lookup id)
    ∧ ∀ a, ((nodeAfter host events i).ledger.account a).balanceMuon
          = ((nodeAfter host events j).ledger.account a).balanceMuon
        ∧ ((nodeAfter host events i).ledger.account a).pendingReceived
          = ((nodeAfter host events j).ledger.account a).pendingReceived
        ∧ ((nodeAfter host events i).ledger.account a).nextNonce
          = ((nodeAfter host events j).ledger.account a).nextNonce := by
  -- the fields of a row are the transaction's, and its witnesses all that were broadcast
  have hrows : ∀ id, (nodeAfter host events i).ledger.transactions.lookup id
      = (nodeAfter host events j).ledger.transactions.lookup id := by
    intro id
    cases hi : (nodeAfter host events i).ledger.transactions.lookup id with
    | none =>
      have hnot : ¬ (nodeAfter host events j).session.Holds id := by
        rw [← hheld, Session.Holds, hi]
        exact Bool.false_ne_true
      exact (Option.not_isSome_iff_eq_none.mp hnot).symm
    | some tx =>
      have hholds : (nodeAfter host events i).session.Holds id := by
        rw [Session.Holds, hi]
        rfl
      obtain ⟨tx', hj⟩ := Option.isSome_iff_exists.mp ((hheld id).mp hholds)
      have hfields := hids.row_eq hrun hi hj
      have hsame : tx.witnesses = tx'.witnesses := by
        rw [← Session.witnessesOf_of_lookup hi, ← Session.witnessesOf_of_lookup hj]
        exact Finset.Subset.antisymm
          (hheard.witnessesOf_subset hrun (hpolicy j) ((hheld id).mp hholds))
          (hheard.witnessesOf_subset hrun (hpolicy i) hholds)
      have heq : (tx.carrying ∅).carrying tx.witnesses = (tx'.carrying ∅).carrying tx'.witnesses := by
        rw [hfields, hsame]
      rw [show tx = tx' from heq]
      exact hj.symm
  -- equal rows give equal sums, and the books give the accounts from the sums
  refine ⟨hrows, fun a => ?_⟩
  have hbooks : ∀ k, Books (nodeAfter host events k).ledger (nodeAfter host events k).session.credits
      (nodeAfter host events k).session.issued := by
    intro k
    rw [CoinNode.ledger, session_nodeAfter, hpolicy]
    exact Session.run_books p.maxBalance_lt _
  have hsent := KvTree.sumBy_congr hrows (sentBy a)
  have hconf := KvTree.sumBy_congr hrows (confirmedFor a)
  have hpend := KvTree.sumBy_congr hrows (pendingFor a)
  -- the next nonce counts the stored ones, which wants fewer than `2 ^ 64` calls
  have hnonces : ∀ k, ((nodeAfter host events k).ledger.storedNonces a).length
      = ((nodeAfter host events k).ledger.account a).nextNonce.toNat := by
    intro k
    have hcalls : ((host k).start.allCalls (coinEventsOf events k)).length < 2 ^ 64 := by
      have hle := CoinNode.length_allCalls (coinEventsOf events k) (host k).start
      have hle' := length_coinEventsOf events k
      omega
    rw [CoinNode.ledger, session_nodeAfter,
      ((Session.run_nonces (host k).policy hcalls).stored a).length_eq, List.length_range]
  have hlength := (storedNonces_congr hrows a).length_eq
  rw [hnonces, hnonces] at hlength
  have hbalance := (hbooks i).balance a
  have hbalance' := (hbooks j).balance a
  have hpending := (hbooks i).pending a
  have hpending' := (hbooks j).pending a
  rw [hcredits] at hbalance
  refine ⟨UInt64.toNat_inj.mp ?_, UInt64.toNat_inj.mp ?_, UInt64.toNat_inj.mp hlength⟩
  · unfold LocalLedger.sent LocalLedger.confirmedTo at hbalance hbalance'
    omega
  · unfold LocalLedger.pendingTo at hpending hpending'
    omega

end

/-! ## A network of three -/

/-- The nodes of a small network. -/
inductive Site where
  | north
  | east
  | west
deriving DecidableEq

namespace Site

instance : Fintype Site := ⟨{north, east, west}, fun site => by cases site <;> decide⟩

def name : Site → String
  | north => "north"
  | east => "east"
  | west => "west"

/-- The sites have different names. -/
theorem name_injective : Function.Injective name := by decide

def others : Site → Site × Site
  | north => (east, west)
  | east => (west, north)
  | west => (north, east)

end Site

section

attribute [local instance] symbolicPrims

def siteHost (site : Site) : CoinHost where
  policy := .betaDefaults
  localAddress := "mxc1"
  localPeerId := site.name
  coinIdentityPath := "identity"

/-- A node learns of the sender's money and of the transfer. -/
def toldOf (site : Site) : List (CoinNetEvent Site) :=
  [⟨site, quietEnv, .genesisCredit symbolicTransfer.fromAddr 100000⟩,
    ⟨site, quietEnv, .incoming (.transaction symbolicTransfer) "sender"⟩]

/-- A node hears of the witnesses of the two others. -/
def hears (site : Site) : List (CoinNetEvent Site) :=
  [⟨site, quietEnv, .incoming (.witness "tx" site.others.1.name) site.others.1.name⟩,
    ⟨site, quietEnv, .incoming (.witness "tx" site.others.2.name) site.others.2.name⟩]

def told : List (CoinNetEvent Site) := toldOf .north ++ toldOf .east ++ toldOf .west

/-- The transfer and all witnesses have reached all nodes. -/
def spread : List (CoinNetEvent Site) := told ++ (hears .north ++ hears .east ++ hears .west)

/-- What each site is told: the credit, the transfer, and the witnesses of the two others. -/
theorem coinEventsOf_spread (site : Site) : coinEventsOf spread site
    = [(quietEnv, .genesisCredit symbolicTransfer.fromAddr 100000),
      (quietEnv, .incoming (.transaction symbolicTransfer) "sender"),
      (quietEnv, .incoming (.witness "tx" site.others.1.name) site.others.1.name),
      (quietEnv, .incoming (.witness "tx" site.others.2.name) site.others.2.name)] := by
  cases site <;> rfl

/-- Once told, a node holds the transfer and has said that it is a witness. -/
theorem told_site (site : Site) :
    (nodeAfter siteHost told site).out = [.broadcast (.witness "tx" site.name)]
    ∧ (nodeAfter siteHost told site).session.Holds "tx" := by
  cases site <;> decide +kernel

/-- In the end it has said no more, and the transfer has three witnesses. -/
theorem spread_site (site : Site) :
    (nodeAfter siteHost spread site).out = [.broadcast (.witness "tx" site.name)]
    ∧ ((nodeAfter siteHost spread site).ledger.transactions.lookup "tx").map (fun tx =>
        decide (tx.carrying ∅ = symbolicTransfer ∧ tx.witnesses = {"north", "east", "west"}))
      = some true
    ∧ (nodeAfter siteHost spread site).ledger.transactions.keys = ["tx"]
    ∧ (nodeAfter siteHost spread site).session.granted = [(symbolicTransfer.fromAddr, 100000)] := by
  cases site <;> decide +kernel

/-- The spread is a run of the network: every witness that is told was said before. -/
theorem spread_run : CoinNetworkRun siteHost spread := by
  have htold : CoinNetworkRun siteHost ([] ++ told) := by
    refine CoinNetworkRun.nil.extend fun e he => ?_
    have hcases : e.event = .genesisCredit symbolicTransfer.fromAddr 100000
        ∨ e.event = .incoming (.transaction symbolicTransfer) "sender" := by
      simp only [told, toldOf, List.mem_append, List.mem_cons, List.not_mem_nil, or_false] at he
      rcases he with ((rfl | rfl) | rfl | rfl) | rfl | rfl <;> simp
    rcases hcases with hevent | hevent
    · exact ⟨by rw [hevent]; trivial, fun _ _ _ heq => by rw [hevent] at heq; cases heq⟩
    · exact ⟨by rw [hevent]; rfl, fun _ _ _ heq => by rw [hevent] at heq; cases heq⟩
  refine htold.extend fun e he => ?_
  have hcases : ∃ site, e.event = .incoming (.witness "tx" (Site.name site)) (Site.name site) := by
    simp only [hears, List.mem_append, List.mem_cons, List.not_mem_nil, or_false] at he
    rcases he with ((rfl | rfl) | rfl | rfl) | rfl | rfl <;> exact ⟨_, rfl⟩
  obtain ⟨site, hevent⟩ := hcases
  refine ⟨by rw [hevent]; trivial, fun txId w p heq => ⟨site, ?_⟩⟩
  rw [hevent] at heq
  obtain ⟨rfl, rfl⟩ : "tx" = txId ∧ site.name = w :=
    CoinPayload.witness.inj (CoinEvent.incoming.inj heq).1
  show _ ∈ (nodeAfter siteHost ([] ++ told) site).out
  rw [List.nil_append, (told_site site).1]
  exact List.mem_singleton.mpr rfl

/-- Only the transfer is handed in. -/
theorem spread_ids : IdsIdentify siteHost spread := by
  have hcalls : ∀ site, ∀ c ∈ (siteHost site).start.allCalls (coinEventsOf spread site),
      c = .applyTransaction symbolicTransfer ∨ ∀ tx, c ≠ .applyTransaction tx := by
    have hlist : ∀ site, (siteHost site).start.allCalls (coinEventsOf spread site)
        = [.genesisCredit symbolicTransfer.fromAddr 100000, .applyTransaction symbolicTransfer,
          .addWitness "tx" site.name, .addWitness "tx" site.others.1.name,
          .addWitness "tx" site.others.2.name] := by
      intro site
      cases site <;> decide +kernel
    intro site c hc
    rw [hlist] at hc
    simp only [List.mem_cons, List.not_mem_nil, or_false] at hc
    rcases hc with rfl | rfl | rfl | rfl | rfl
    · exact .inr fun _ h => by cases h
    · exact .inl rfl
    all_goals exact .inr fun _ h => by cases h
  have honly : ∀ tx, Handed siteHost spread tx → tx = symbolicTransfer := by
    rintro tx ⟨site, hmem⟩
    rcases hcalls site _ hmem with heq | hno
    · exact LedgerCall.applyTransaction.inj heq
    · exact absurd rfl (hno tx)
  intro tx tx' h h' _
  rw [honly tx h, honly tx' h']

/-- On every node the transfer has three witnesses. -/
theorem lookup_spread (site : Site) :
    (nodeAfter siteHost spread site).ledger.transactions.lookup "tx"
      = some (symbolicTransfer.carrying {"north", "east", "west"}) := by
  obtain ⟨tx, hget, hfields⟩ := Option.map_eq_some_iff.mp (spread_site site).2.1
  obtain ⟨hrest, hwitnesses⟩ := of_decide_eq_true hfields
  rw [hget, ← hrest, ← hwitnesses]
  rfl

/-- The transfer is confirmed on two nodes, and it is the same. -/
theorem confirmed_once_spread :
    CoinNetworkRun siteHost spread
    ∧ (nodeAfter siteHost spread .north).ledger.transactions.lookup "tx"
        = some (symbolicTransfer.carrying {"north", "east", "west"})
    ∧ (nodeAfter siteHost spread .west).ledger.transactions.lookup "tx"
        = some (symbolicTransfer.carrying {"north", "east", "west"})
    ∧ "tx" = "tx" :=
  ⟨spread_run, lookup_spread .north, lookup_spread .west,
    (confirmed_once siteHost Site.name_injective (by decide) spread_run (by decide) spread_ids
      (lookup_spread .north) (lookup_spread .west) (by decide) (by decide) rfl rfl).1⟩

/-- Every node has heard of the witnesses of the two others. -/
theorem spread_heard : AllHeard siteHost spread := by
  intro j id w hsaid i hne _
  rw [(spread_site j).1] at hsaid
  obtain ⟨rfl, rfl⟩ : id = "tx" ∧ w = j.name := by simpa using hsaid
  have hsplit := coinEventsOf_spread i
  have htold : nodeAfter siteHost told i = (siteHost i).start.run
      [(quietEnv, .genesisCredit symbolicTransfer.fromAddr 100000),
        (quietEnv, .incoming (.transaction symbolicTransfer) "sender")] := by
    cases i <;> rfl
  have hholds := (told_site i).2
  rw [htold] at hholds
  by_cases hfirst : j = i.others.1
  · subst hfirst
    exact ⟨[_, _], _, _, [_], hsplit, hholds⟩
  · have hsecond : j = i.others.2 := by
      revert hne hfirst
      cases i <;> cases j <;> decide
    subst hsecond
    exact ⟨[_, _, _], _, _, [], hsplit, CoinNode.holds_append hholds
      (quietEnv, .incoming (.witness "tx" i.others.1.name) i.others.1.name)⟩

/-- So two nodes have the same rows and the same accounts. -/
theorem replicas_agree_spread :
    AllHeard siteHost spread
    ∧ ∀ id, (nodeAfter siteHost spread .north).ledger.transactions.lookup id
        = (nodeAfter siteHost spread .east).ledger.transactions.lookup id := by
  have hholds : ∀ site id, (nodeAfter siteHost spread site).session.Holds id
      ↔ id ∈ (nodeAfter siteHost spread site).ledger.transactions.keys :=
    fun site id => AList.lookup_isSome
  refine ⟨spread_heard, (replicas_agree .betaDefaults siteHost (fun _ => rfl) spread_run (by decide)
    spread_ids spread_heard (fun id => ?_) fun a => ?_).1⟩
  · rw [hholds, hholds, (spread_site .north).2.2.1, (spread_site .east).2.2.1]
  · rw [Session.credits_eq, Session.credits_eq, (spread_site .north).2.2.2, (spread_site .east).2.2.2]

end

end Mycelium.Coin

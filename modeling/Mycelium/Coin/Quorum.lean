import Mycelium.Coin.Node
import Mycelium.Coin.Witnessing

/-!
# Mycelium coin — who the witnesses of a stored transaction are

A node adds a name to the witnesses of a stored transaction on two occasions: its own, when
the transaction arrives, and the name written into a `Witness` payload, whoever delivered it.

* `mem_gained` — one event adds no other names;
* `three_peers` — hence, when every payload that adds a name adds the name of its sender, a
  quorum of three is made of three distinct peers, and nobody contributes twice;
* `Session.row_after` — a stored row gains exactly the names that later calls have for it. A
  name that comes before the transaction is lost (`witnesses_after_arrival`).
-/

namespace Mycelium.Coin

open LocalLedger

/-- The peer an event comes from. -/
def CoinEvent.sender : CoinEvent → Option String
  | .incoming _ fromPeer => some fromPeer
  | _ => none

/-- If the event brings a transaction, it brings it without witnesses. -/
def CoinEvent.Unwitnessed : CoinEvent → Prop
  | .incoming (.transaction tx) _ => tx.witnesses = ∅
  | .send tx => tx.witnesses = ∅
  | _ => True

namespace Session

/-- The witnesses stored for an id. -/
def witnessesOf (s : Session) (id : TxId) : Finset String :=
  ((s.ledger.transactions.lookup id).map Transaction.witnesses).getD ∅

theorem witnessesOf_of_lookup {s : Session} {id : TxId} {tx : Transaction}
    (h : s.ledger.transactions.lookup id = some tx) : s.witnessesOf id = tx.witnesses := by
  unfold witnessesOf
  rw [h]
  rfl

variable [Prims]

/-- A call adds the witness it names, and a transaction those it carries. -/
theorem step_witnesses {s : Session} {c : LedgerCall} {id : TxId} {w : String}
    (hempty : ∀ tx, c = .applyTransaction tx → tx.witnesses = ∅)
    (hw : w ∈ (s.step c).witnessesOf id) :
    w ∈ s.witnessesOf id
    ∨ (c = .addWitness id w ∧ (s.ledger.transactions.lookup id).isSome = true) := by
  rcases s.step_row c id with hsame | ⟨tx, total, hc, _, _, hrow⟩ | ⟨tx, peerId, hc, hget, hrow⟩
  · unfold witnessesOf at hw ⊢
    rw [hsame] at hw
    exact .inl hw
  · rw [witnessesOf_of_lookup hrow, hempty tx hc] at hw
    cases hw
  · rw [witnessesOf_of_lookup hrow, withWitness_witnesses] at hw
    rcases Finset.mem_insert.mp hw with rfl | hold
    · exact .inr ⟨hc, by rw [hget]; rfl⟩
    · exact .inl (by rw [witnessesOf_of_lookup hget]; exact hold)

theorem foldl_witnesses {id : TxId} {w : String} (calls : List LedgerCall) (s : Session)
    (hempty : ∀ tx, .applyTransaction tx ∈ calls → tx.witnesses = ∅)
    (hw : w ∈ (calls.foldl step s).witnessesOf id) :
    w ∈ s.witnessesOf id ∨ .addWitness id w ∈ calls := by
  induction calls generalizing s with
  | nil => exact .inl hw
  | cons c calls ih =>
    rcases ih (s.step c) (fun tx htx => hempty tx (List.mem_cons_of_mem c htx)) hw with hold | hnew
    · rcases step_witnesses (fun tx hc => hempty tx (by rw [hc]; simp)) hold with h | ⟨hc, _⟩
      · exact .inl h
      · exact .inr (by rw [hc]; simp)
    · exact .inr (List.mem_cons_of_mem c hnew)

end Session

/-! ## The witnesses of a row, exactly -/

/-- The names that ledger calls have for the witnesses of `id`. -/
def namedBy (id : TxId) (calls : List LedgerCall) : Finset String :=
  (calls.filterMap fun
    | .addWitness txId peerId => if txId = id then some peerId else none
    | _ => none).toFinset

theorem mem_namedBy {id : TxId} {calls : List LedgerCall} {w : String} :
    w ∈ namedBy id calls ↔ .addWitness id w ∈ calls := by
  unfold namedBy
  rw [List.mem_toFinset, List.mem_filterMap]
  constructor
  · rintro ⟨c, hc, hsome⟩
    split at hsome
    · next txId peerId =>
      split at hsome
      · next hid =>
        obtain rfl := Option.some.inj hsome
        rw [← hid]
        exact hc
      · cases hsome
    · cases hsome
  · intro h
    exact ⟨_, h, if_pos rfl⟩

theorem namedBy_append (id : TxId) (calls calls' : List LedgerCall) :
    namedBy id (calls ++ calls') = namedBy id calls ∪ namedBy id calls' := by
  ext w
  simp only [mem_namedBy, Finset.mem_union, List.mem_append]

theorem withWitnesses_append (names names' : Finset String) (tx : Transaction) :
    withWitnesses names' (withWitnesses names tx) = withWitnesses (names ∪ names') tx := by
  unfold withWitnesses
  simp only [Finset.union_assoc]

/-- One call on a ledger reachable under a shipped policy: a stored row gains exactly the name
the call has for it. -/
theorem Session.step_row_exact [Prims] {p : ShippedPolicy} {before : List LedgerCall}
    {id : TxId} {tx : Transaction} (c : LedgerCall)
    (hget : (Session.run p.policy before).ledger.transactions.lookup id = some tx) :
    ((Session.run p.policy before).step c).ledger.transactions.lookup id
      = some (withWitnesses (namedBy id [c]) tx) := by
  have hother : namedBy id [c] = ∅ → some tx = some (withWitnesses (namedBy id [c]) tx) := by
    intro hnone
    rw [hnone]
    simp [withWitnesses]
  cases c with
  | addWitness txId peerId =>
    obtain ⟨_, _, hstep⟩ := addWitness_step (Session.run_sound p before) txId peerId
    have hrow := hstep.transactions id
    simp only [Session.step, hrow]
    by_cases hid : id = txId
    · subst hid
      rw [if_pos rfl, hget]
      simp [withWitness, withWitnesses, namedBy]
    · rw [if_neg hid, hget]
      exact hother (by simp [namedBy, Ne.symm hid])
  | applyTransaction tx' =>
    rcases (Session.run p.policy before).step_row (.applyTransaction tx') id with
      hsame | ⟨tx'', _, _, hid, hset, _⟩ | ⟨_, _, hc, _⟩
    · rw [hsame, hget]
      exact hother (by simp [namedBy])
    · -- a taken id is not settled again
      have hfresh := hset.fresh
      rw [hid, hget] at hfresh
      cases hfresh
    · cases hc
  | genesisCredit a amt =>
    rcases (Session.run p.policy before).step_row (.genesisCredit a amt) id with
      hsame | ⟨_, _, hc, _⟩ | ⟨_, _, hc, _⟩
    · rw [hsame, hget]
      exact hother (by simp [namedBy])
    · cases hc
    · cases hc

/-- **The witnesses of a stored row**: those it had, and every name the calls since have for it,
in whatever order. -/
theorem Session.row_after [Prims] {p : ShippedPolicy} {before : List LedgerCall}
    {id : TxId} {tx : Transaction}
    (hget : (Session.run p.policy before).ledger.transactions.lookup id = some tx)
    (calls : List LedgerCall) :
    (Session.run p.policy (before ++ calls)).ledger.transactions.lookup id
      = some (withWitnesses (namedBy id calls) tx) := by
  induction calls using List.reverseRecOn with
  | nil =>
    rw [List.append_nil, hget]
    simp [withWitnesses, namedBy]
  | append_singleton calls c ih =>
    rw [← List.append_assoc, Session.run_append_singleton, Session.step_row_exact c ih,
      withWitnesses_append, namedBy_append]

namespace CoinNode

variable [Prims]

abbrev witnessesOf (n : CoinNode) (id : TxId) : Finset String := n.session.witnessesOf id

/-- The witnesses of `id` that an event adds. -/
def gained (n : CoinNode) (env : CoinEnv) (e : CoinEvent) (id : TxId) : Finset String :=
  (n.step env e).witnessesOf id \ n.witnessesOf id

/-- The witnesses of `id` added by what the peer `q` delivers. -/
def contributed (q : String) (id : TxId) (n : CoinNode) :
    List (CoinEnv × CoinEvent) → Finset String
  | [] => ∅
  | e :: events =>
    (if e.2.sender = some q then n.gained e.1 e.2 id else ∅)
      ∪ (n.step e.1 e.2).contributed q id events

/-- A `Witness` payload that adds a name to a stored transaction names its sender. -/
def NamesSender (n : CoinNode) (_ : CoinEnv) (e : CoinEvent) : Prop :=
  ∀ txId peerId fromPeer, e = .incoming (.witness txId peerId) fromPeer →
    (n.ledger.transactions.lookup txId).isSome = true → peerId ∉ n.witnessesOf txId →
    peerId = fromPeer

/-! ## One event -/

/-- The ledger calls an event can make: for an arriving transaction, for a `Witness` payload,
for a transaction handed in or signed by the node itself, for a credit. -/
inductive Makes (n : CoinNode) : CoinEvent → LedgerCall → Prop
  | arrival (tx : Transaction) (fromPeer : String) :
      Makes n (.incoming (.transaction tx) fromPeer) (.applyTransaction tx)
  | seen (tx : Transaction) (fromPeer : String) :
      Makes n (.incoming (.transaction tx) fromPeer) (.addWitness tx.id n.localPeerId)
  | witness (txId : TxId) (peerId fromPeer : String) :
      Makes n (.incoming (.witness txId peerId) fromPeer) (.addWitness txId peerId)
  | sent (tx : Transaction) : Makes n (.send tx) (.applyTransaction tx)
  | signed (e : CoinEvent) (tx : Transaction) (h : tx.witnesses = ∅) :
      Makes n e (.applyTransaction tx)
  | credit (e : CoinEvent) (a : Address) (amt : UInt64) : Makes n e (.genesisCredit a amt)

theorem makes_of_mem_transferCalls {n : CoinNode} {env : CoinEnv} {path : String}
    {toAddr : Address} {amountMuon feeMuon : UInt64} {memo : Option String} {c : LedgerCall}
    (h : c ∈ transferCalls (n.buildTransfer env path toAddr amountMuon feeMuon memo))
    (e : CoinEvent) : n.Makes e c := by
  cases hbuilt : n.buildTransfer env path toAddr amountMuon feeMuon memo with
  | error msg =>
    rw [hbuilt] at h
    cases h
  | ok tx =>
    rw [hbuilt] at h
    rw [List.mem_singleton.mp h]
    exact .signed e tx (buildTransfer_fields hbuilt).2.2.2

/-- The calls of an event are of these kinds. -/
theorem makes_of_mem_calls {n : CoinNode} {env : CoinEnv} {e : CoinEvent} {c : LedgerCall}
    (h : c ∈ n.calls env e) : n.Makes e c := by
  -- by the event; a transaction adds a witness of its own only where it was accepted
  unfold calls at h
  split at h
  · next tx fromPeer =>
    split at h
    · rcases List.mem_pair.mp h with rfl | rfl
      · exact .arrival tx fromPeer
      · exact .seen tx fromPeer
    · rw [List.mem_singleton.mp h]
      exact .arrival tx fromPeer
  · next txId peerId fromPeer =>
    rw [List.mem_singleton.mp h]
    exact .witness txId peerId fromPeer
  · cases h
  · cases h
  · split at h
    · exact makes_of_mem_transferCalls h _
    · cases h
  · exact makes_of_mem_transferCalls h _
  · next tx =>
    rw [List.mem_singleton.mp h]
    exact .sent tx
  · split at h
    · rw [List.mem_singleton.mp h]
      exact .credit _ _ _
    · cases h
  · rw [List.mem_singleton.mp h]
    exact .credit _ _ _

/-- What an event that brings no witnesses has the ledger settle carries none. -/
theorem calls_unwitnessed {n : CoinNode} {env : CoinEnv} {e : CoinEvent} (he : e.Unwitnessed)
    {tx : Transaction} (h : .applyTransaction tx ∈ n.calls env e) : tx.witnesses = ∅ := by
  cases makes_of_mem_calls h with
  | arrival _ fromPeer => exact he
  | sent => exact he
  | signed _ _ htx => exact htx

/-- **One event adds the local peer, or the name in a `Witness` payload** to a transaction it
knows. -/
theorem mem_gained {n : CoinNode} {env : CoinEnv} {e : CoinEvent} (he : e.Unwitnessed)
    {id : TxId} {w : String} (hw : w ∈ n.gained env e id) :
    w = n.localPeerId
    ∨ ∃ fromPeer, e = .incoming (.witness id w) fromPeer
        ∧ (n.ledger.transactions.lookup id).isSome = true ∧ w ∉ n.witnessesOf id := by
  obtain ⟨hnew, hold⟩ := Finset.mem_sdiff.mp hw
  have hstep := n.step_session env e
  unfold witnessesOf at hnew
  rw [hstep] at hnew
  rcases Session.foldl_witnesses _ _ (fun tx htx => calls_unwitnessed he htx) hnew with h | hcall
  · exact absurd h hold
  cases makes_of_mem_calls hcall with
  | seen tx fromPeer => exact .inl rfl
  | witness _ _ fromPeer =>
    have hone : w ∈ (n.session.step (.addWitness id w)).witnessesOf id := hnew
    rcases Session.step_witnesses (by simp) hone with h | ⟨_, hsome⟩
    · exact absurd h hold
    · exact .inr ⟨fromPeer, rfl, hsome, hold⟩

/-! ## Runs -/

/-- Every witness is the local peer or has delivered a `Witness` payload. Induction on the
events. -/
theorem mem_witnesses_run {n : CoinNode} (events : List (CoinEnv × CoinEvent))
    (harrive : ∀ e ∈ events, e.2.Unwitnessed) (hnamed : n.Along NamesSender events)
    {id : TxId} (hstart : n.witnessesOf id = ∅) {w : String}
    (hw : w ∈ (n.run events).witnessesOf id) :
    w = n.localPeerId ∨ ∃ env name, (env, .incoming (.witness id name) w) ∈ events := by
  -- induction from the end: a witness was there before the last event, or the event brought it
  induction events using List.reverseRecOn with
  | nil =>
    rw [show n.run [] = n from rfl, hstart] at hw
    cases hw
  | append_singleton events e ih =>
    obtain ⟨hbefore, hlast⟩ := (along_append_singleton events e n).mp hnamed
    rw [run_append_singleton] at hw
    by_cases hold : w ∈ (n.run events).witnessesOf id
    · rcases ih (fun e' he' => harrive e' (List.mem_append_left _ he')) hbefore hold with
        hlocal | ⟨env, name, hmem⟩
      · exact .inl hlocal
      · exact .inr ⟨env, name, List.mem_append_left _ hmem⟩
    · rcases mem_gained (harrive e (by simp)) (Finset.mem_sdiff.mpr ⟨hw, hold⟩) with
        hlocal | ⟨fromPeer, he, hsome, hnew⟩
      · exact .inl (hlocal.trans (n.run_localPeerId events))
      -- a witness a payload brings is the name of its sender, by the condition
      · have hsender := hlast id w fromPeer he hsome hnew
        refine .inr ⟨e.1, w, List.mem_append_right _ ?_⟩
        nth_rewrite 2 [hsender]
        rw [← he]
        exact List.mem_singleton.mpr rfl

/-- What a peer contributes is its own name, or prompts the local peer to add itself. -/
theorem contributed_subset (q : String) (id : TxId) (events : List (CoinEnv × CoinEvent))
    (n : CoinNode) (harrive : ∀ e ∈ events, e.2.Unwitnessed) (hnamed : n.Along NamesSender events) :
    n.contributed q id events ⊆ {q, n.localPeerId} := by
  induction events generalizing n with
  | nil => simp [contributed]
  | cons e events ih =>
    obtain ⟨hfirst, hlater⟩ := hnamed
    have hrest := ih _ (fun e' he' => harrive e' (List.mem_cons_of_mem e he')) hlater
    rw [step_localPeerId] at hrest
    apply Finset.union_subset _ hrest
    split
    · next hsender =>
      intro w hw
      rcases mem_gained (harrive e (by simp)) hw with hlocal | ⟨fromPeer, he, hsome, hnew⟩
      · simp [hlocal]
      · have hq : fromPeer = q := by
          rw [he] at hsender
          exact Option.some.inj hsender
        rw [hfirst id w fromPeer he hsome hnew, hq]
        simp
    · simp

/-- What a fresh node accepted and stores is in its history. -/
theorem accepted_of_stored {policy : SettlementPolicy} {a : Address} {peer path : String}
    (events : List (CoinEnv × CoinEvent)) {id : TxId} {tx : Transaction}
    (h : ((CoinNode.new policy a peer path).run events).ledger.transactions.lookup id = some tx) :
    ∃ tx₀, .applied tx₀ (.ok .accepted) ∈ ((CoinNode.new policy a peer path).run events
      ).session.history ∧ tx₀.id = id := by
  have hrows : StoredRows ((CoinNode.new policy a peer path).run events).session := by
    rw [new_run_session]
    exact Session.run_storedRows policy _
  obtain ⟨tx₀, _, hacc, hid, _⟩ := hrows.origin id tx h
  exact ⟨tx₀, hacc, hid⟩

end CoinNode

/-- **Three witnesses are three peers.** Take a run of a fresh node in which transactions
arrive without witnesses and every `Witness` payload that adds a name to a stored transaction
names its sender. If a stored transaction has three witnesses then there are three distinct
peers each of which delivered a `Witness` payload for it or, being the local one, accepted it;
and what any one peer delivers adds at most one name besides the local peer's. -/
theorem three_peers [Prims] (policy : SettlementPolicy) (localAddress : Address)
    (localPeerId path : String) (events : List (CoinEnv × CoinEvent))
    (harrive : ∀ e ∈ events, e.2.Unwitnessed)
    (hnamed : (CoinNode.new policy localAddress localPeerId path).Along
      CoinNode.NamesSender events) :
    let n₀ := CoinNode.new policy localAddress localPeerId path
    let n := n₀.run events
    (∀ id tx, n.ledger.transactions.lookup id = some tx → 3 ≤ tx.witnesses.card →
      ∃ peers : Finset String, 3 ≤ peers.card ∧ ∀ p ∈ peers,
        (∃ env name, (env, .incoming (.witness id name) p) ∈ events)
        ∨ (p = localPeerId
            ∧ ∃ tx₀, .applied tx₀ (.ok .accepted) ∈ n.session.history ∧ tx₀.id = id))
    ∧ ∀ q id, ((n₀.contributed q id events).erase localPeerId).card ≤ 1 := by
  intro n₀ n
  refine ⟨?_, ?_⟩
  · intro id tx hget hcard
    refine ⟨tx.witnesses, hcard, fun p hp => ?_⟩
    have hw : p ∈ n.witnessesOf id := by
      rw [CoinNode.witnessesOf, Session.witnessesOf_of_lookup hget]
      exact hp
    rcases CoinNode.mem_witnesses_run events harrive hnamed rfl hw with hlocal | hdelivered
    · exact .inr ⟨hlocal, CoinNode.accepted_of_stored events hget⟩
    · exact .inl hdelivered
  -- besides the node's own name, a peer brings in its own at most
  · intro q id
    have hsub := CoinNode.contributed_subset q id events n₀ harrive hnamed
    have hone : (n₀.contributed q id events).erase localPeerId ⊆ {q} := by
      intro w hw
      obtain ⟨hne, hmem⟩ := Finset.mem_erase.mp hw
      rcases Finset.mem_insert.mp (hsub hmem) with rfl | hlocal
      · simp
      · exact absurd (Finset.mem_singleton.mp hlocal) hne
    calc ((n₀.contributed q id events).erase localPeerId).card
        ≤ ({q} : Finset String).card := Finset.card_le_card hone
      _ = 1 := Finset.card_singleton q

section

attribute [local instance] symbolicPrims

def observer : CoinNode := .new .betaDefaults "mxc1" "local" "identity"

/-- A transfer arrives, and two `Witness` payloads for it. -/
def transferWitnessed (first second : CoinEvent) : List (CoinEnv × CoinEvent) :=
  [(quietEnv, .genesisCredit symbolicTransfer.fromAddr 100000),
    (quietEnv, .incoming (.transaction symbolicTransfer) "mallory"),
    (quietEnv, first),
    (quietEnv, second)]

def honestWitnesses : List (CoinEnv × CoinEvent) :=
  transferWitnessed (.incoming (.witness "tx" "alice") "alice")
    (.incoming (.witness "tx" "bob") "bob")

/-- Both payloads come from one peer, which makes the names up. -/
def forgedWitnesses : List (CoinEnv × CoinEvent) :=
  transferWitnessed (.incoming (.witness "tx" "x") "mallory")
    (.incoming (.witness "tx" "y") "mallory")

/-- With two peers that name themselves the transfer has three witnesses, and three peers behind
them. -/
theorem three_peers_honest :
    (∀ e ∈ honestWitnesses, e.2.Unwitnessed)
    ∧ observer.Along CoinNode.NamesSender honestWitnesses
    ∧ ∃ tx, (observer.run honestWitnesses).ledger.transactions.lookup "tx" = some tx
        ∧ ∃ peers : Finset String, 3 ≤ peers.card ∧ ∀ p ∈ peers,
          (∃ env name, (env, .incoming (.witness "tx" name) p) ∈ honestWitnesses)
          ∨ (p = "local" ∧ ∃ tx₀, .applied tx₀ (.ok .accepted)
              ∈ (observer.run honestWitnesses).session.history ∧ tx₀.id = "tx") := by
  have harrive : ∀ e ∈ honestWitnesses, e.2.Unwitnessed := by
    simp [honestWitnesses, transferWitnessed, CoinEvent.Unwitnessed, symbolicTransfer]
  have hnamed : observer.Along CoinNode.NamesSender honestWitnesses := by
    refine ⟨?_, ?_, ?_, ?_, trivial⟩
    · rintro txId peerId fromPeer ⟨⟩
    · rintro txId peerId fromPeer ⟨⟩
    · rintro txId peerId fromPeer ⟨⟩ _ _
      rfl
    · rintro txId peerId fromPeer ⟨⟩ _ _
      rfl
  have hthree : ((observer.run honestWitnesses).ledger.transactions.lookup "tx").map
      (fun tx => tx.witnesses.card) = some 3 := by decide +kernel
  obtain ⟨tx, hget, hcard⟩ := Option.map_eq_some_iff.mp hthree
  exact ⟨harrive, hnamed, tx, hget,
    (three_peers .betaDefaults "mxc1" "local" "identity" honestWitnesses harrive hnamed).1
      "tx" tx hget (Nat.le_of_eq hcard.symm)⟩

/-- One peer is enough when it makes the names up: three witnesses, and no three peers behind
them. -/
theorem three_witnesses_one_peer :
    (∀ e ∈ forgedWitnesses, e.2.Unwitnessed)
    ∧ ((observer.run forgedWitnesses).ledger.transactions.lookup "tx").map
        (fun tx => tx.witnesses.card) = some 3
    ∧ (¬ ∃ peers : Finset String, 3 ≤ peers.card ∧ ∀ p ∈ peers,
        (∃ env name, (env, .incoming (.witness "tx" name) p) ∈ forgedWitnesses)
        ∨ (p = "local" ∧ ∃ tx₀, .applied tx₀ (.ok .accepted)
            ∈ (observer.run forgedWitnesses).session.history ∧ tx₀.id = "tx"))
    ∧ ((observer.contributed "mallory" "tx" forgedWitnesses).erase "local").card = 2 := by
  refine ⟨?_, by decide +kernel, ?_, by decide +kernel⟩
  · simp [forgedWitnesses, transferWitnessed, CoinEvent.Unwitnessed, symbolicTransfer]
  · rintro ⟨peers, hcard, hpeers⟩
    have hsub : peers ⊆ {"mallory", "local"} := by
      intro p hp
      rcases hpeers p hp with ⟨env, name, hmem⟩ | ⟨hlocal, _⟩
      · simp [forgedWitnesses, transferWitnessed] at hmem
        rcases hmem with ⟨_, _, rfl⟩ | ⟨_, _, rfl⟩ <;> simp
      · simp [hlocal]
    have hle : peers.card ≤ 2 := Finset.card_le_card hsub
    omega

end

/-! ## Transaction and witnesses in any order -/

/-- The name an event has for the witnesses of `id`, if it is a `Witness` payload for it. -/
def CoinEvent.witnessFor (id : TxId) : CoinEvent → Option String
  | .incoming (.witness txId peerId) _ => if txId = id then some peerId else none
  | _ => none

theorem CoinEvent.witnessFor_eq_some {id : TxId} {e : CoinEvent} {w : String} :
    e.witnessFor id = some w ↔ ∃ fromPeer, e = .incoming (.witness id w) fromPeer := by
  constructor
  · intro h
    unfold witnessFor at h
    split at h
    · next txId peerId fromPeer =>
      split at h
      · next hid =>
        obtain rfl := Option.some.inj h
        exact ⟨fromPeer, by rw [hid]⟩
      · cases h
    · cases h
  · rintro ⟨fromPeer, rfl⟩
    exact if_pos rfl

/-- The names in the `Witness` payloads for `id` among some events. -/
def payloadNames (id : TxId) (events : List (CoinEnv × CoinEvent)) : Finset String :=
  (events.filterMap fun e => e.2.witnessFor id).toFinset

theorem mem_payloadNames {id : TxId} {events : List (CoinEnv × CoinEvent)} {w : String} :
    w ∈ payloadNames id events
      ↔ ∃ e ∈ events, ∃ fromPeer, e.2 = .incoming (.witness id w) fromPeer := by
  unfold payloadNames
  rw [List.mem_toFinset, List.mem_filterMap]
  simp only [CoinEvent.witnessFor_eq_some]

namespace CoinNode

variable [Prims]

/-- A run names the local peer and the names in its payloads, and all of the latter. -/
theorem namedBy_allCalls (id : TxId) (events : List (CoinEnv × CoinEvent)) (n : CoinNode) :
    namedBy id (n.allCalls events) ⊆ insert n.localPeerId (payloadNames id events)
    ∧ payloadNames id events ⊆ namedBy id (n.allCalls events) := by
  -- induction on the events; the node's own name comes from accepting, the others from payloads
  induction events generalizing n with
  | nil => exact ⟨by simp [allCalls, namedBy], by simp [payloadNames]⟩
  | cons e events ih =>
    obtain ⟨env, e⟩ := e
    obtain ⟨hup, hdown⟩ := ih (n.step env e)
    rw [step_localPeerId] at hup
    rw [allCalls, namedBy_append]
    constructor
    · intro w hw
      rw [Finset.mem_insert, mem_payloadNames]
      rcases Finset.mem_union.mp hw with hfirst | hlater
      · cases makes_of_mem_calls (mem_namedBy.mp hfirst) with
        | seen tx fromPeer => exact .inl rfl
        | witness _ _ fromPeer => exact .inr ⟨_, List.mem_cons_self, fromPeer, rfl⟩
      · rcases Finset.mem_insert.mp (hup hlater) with hlocal | hpayload
        · exact .inl hlocal
        · obtain ⟨e', he', hw'⟩ := mem_payloadNames.mp hpayload
          exact .inr ⟨e', List.mem_cons_of_mem _ he', hw'⟩
    · intro w hw
      obtain ⟨e', he', fromPeer, hpayload⟩ := mem_payloadNames.mp hw
      rcases List.mem_cons.mp he' with rfl | hlater
      · apply Finset.mem_union_left
        rw [mem_namedBy]
        obtain rfl : e = .incoming (.witness id w) fromPeer := hpayload
        exact List.mem_singleton.mpr rfl
      · exact Finset.mem_union_right _ (hdown (mem_payloadNames.mpr ⟨e', hlater, fromPeer, hpayload⟩))

/-- An accepted arrival is stored, and witnessed by the local peer. -/
theorem calls_of_accepted {n : CoinNode} {env : CoinEnv} {tx : Transaction} {fromPeer : String}
    (hacc : (n.ledger.applyTransaction tx).1 = .ok .accepted) :
    n.calls env (.incoming (.transaction tx) fromPeer)
      = [.applyTransaction tx, .addWitness tx.id n.localPeerId] :=
  if_pos (.inl hacc)

end CoinNode

theorem Session.lookup_accepted [Prims] {s : Session} {tx : Transaction}
    (hacc : (s.ledger.applyTransaction tx).1 = .ok .accepted) :
    (s.step (.applyTransaction tx)).ledger.transactions.lookup tx.id = some tx := by
  rcases s.ledger.applyTransaction_cases tx with ⟨total, _, heq⟩ | ⟨r, hr, heq⟩
  · simp only [Session.step, heq, settled_transactions, AList.lookup_insert]
  · rw [heq] at hacc
    exact absurd hacc hr

/-- The row of a transaction that arrived after `before` and before `after`. -/
theorem CoinNode.row_after_arrival [Prims] (p : ShippedPolicy) (localAddress : Address)
    (localPeerId path : String) (before after : List (CoinEnv × CoinEvent)) (env : CoinEnv)
    {tx : Transaction} (fromPeer : String) (hempty : tx.witnesses = ∅)
    (hacc : (((CoinNode.new p.policy localAddress localPeerId path).run before
      ).ledger.applyTransaction tx).1 = .ok .accepted) :
    ((CoinNode.new p.policy localAddress localPeerId path).run
        (before ++ (env, .incoming (.transaction tx) fromPeer) :: after)
      ).ledger.transactions.lookup tx.id
      = some (tx.carrying (insert localPeerId (payloadNames tx.id after))) := by
  have hsession := new_run_session p.policy localAddress localPeerId path before
  have hpeer : ((CoinNode.new p.policy localAddress localPeerId path).run before).localPeerId
      = localPeerId := run_localPeerId _ _
  unfold ledger
  rw [new_run_session, allCalls_append]
  generalize (CoinNode.new p.policy localAddress localPeerId path).allCalls before = calls₀
    at hsession ⊢
  generalize (CoinNode.new p.policy localAddress localPeerId path).run before = n
    at hsession hpeer hacc ⊢
  -- the calls from the arrival on: settle, the local witness, and those of `after`
  obtain ⟨hup, hdown⟩ := namedBy_allCalls tx.id after
    (n.step env (.incoming (.transaction tx) fromPeer))
  rw [step_localPeerId, hpeer] at hup
  rw [allCalls, calls_of_accepted hacc, hpeer]
  have hstored : (Session.run p.policy (calls₀ ++ [.applyTransaction tx])
      ).ledger.transactions.lookup tx.id = some tx := by
    rw [Session.run_append_singleton, ← hsession]
    exact Session.lookup_accepted hacc
  have hafter := Session.row_after hstored (.addWitness tx.id localPeerId ::
    (n.step env (.incoming (.transaction tx) fromPeer)).allCalls after)
  rw [List.append_assoc] at hafter
  refine hafter.trans (congrArg some ?_)
  have hnames : namedBy tx.id (.addWitness tx.id localPeerId ::
      (n.step env (.incoming (.transaction tx) fromPeer)).allCalls after)
        = insert localPeerId (payloadNames tx.id after) := by
    rw [← List.singleton_append, namedBy_append]
    have hlocal : namedBy tx.id [.addWitness tx.id localPeerId] = {localPeerId} := by
      simp [namedBy]
    rw [hlocal]
    apply Finset.Subset.antisymm
    · apply Finset.union_subset _ hup
      simp
    · intro w hw
      rcases Finset.mem_insert.mp hw with rfl | hpayload
      · simp
      · exact Finset.mem_union_right _ (hdown hpayload)
  unfold withWitnesses Transaction.carrying
  rw [hnames, hempty, Finset.empty_union]

/-- **Who witnesses a transaction, whatever the order.** Let a node under a shipped policy
handle some events, then a transaction without witnesses, which it accepts, then further
events. At the end the transaction is stored with the local peer and the names in the
`Witness` payloads handled after it as its witnesses, whatever else was handled and in whatever
order. So it is confirmed exactly if these are at least three, and then its amount is among
the confirmed receipts that make up the recipient's balance. -/
theorem witnesses_after_arrival [Prims] (p : ShippedPolicy) (localAddress : Address)
    (localPeerId path : String) (before after : List (CoinEnv × CoinEvent)) (env : CoinEnv)
    (tx : Transaction) (fromPeer : String) (hempty : tx.witnesses = ∅)
    (hacc : (((CoinNode.new p.policy localAddress localPeerId path).run before
      ).ledger.applyTransaction tx).1 = .ok .accepted) :
    let n := (CoinNode.new p.policy localAddress localPeerId path).run
      (before ++ (env, .incoming (.transaction tx) fromPeer) :: after)
    let names := insert localPeerId (payloadNames tx.id after)
    n.ledger.transactions.lookup tx.id = some (tx.carrying names)
    ∧ ((tx.carrying names).isConfirmed = true ↔ 3 ≤ names.card)
    ∧ (3 ≤ names.card →
        tx.amountMuon.toNat ≤ n.ledger.confirmedTo tx.toAddr
        ∧ ((n.ledger.account tx.toAddr).balanceMuon.toNat : Int)
            = n.session.credits tx.toAddr + n.ledger.confirmedTo tx.toAddr
              - n.ledger.sent tx.toAddr) := by
  intro n names
  have hrow : n.ledger.transactions.lookup tx.id = some (tx.carrying names) :=
    CoinNode.row_after_arrival p localAddress localPeerId path before after env fromPeer hempty hacc
  refine ⟨hrow, Transaction.isConfirmed_iff, fun hthree => ⟨?_, ?_⟩⟩
  -- a confirmed row counts in what was paid to its recipient
  · have hconf : (tx.carrying names).isConfirmed = true := Transaction.isConfirmed_iff.mpr hthree
    have hle := KvTree.le_sumBy (f := confirmedFor tx.toAddr) hrow
    have hamount : confirmedFor tx.toAddr (tx.carrying names) = tx.amountMuon.toNat :=
      if_pos ⟨rfl, hconf⟩
    rw [hamount] at hle
    exact hle
  -- and the books hold of every session from an empty ledger
  · have hbooks : Books n.ledger n.session.credits n.session.issued := by
      have hsession := CoinNode.new_run_session p.policy localAddress localPeerId path
        (before ++ (env, .incoming (.transaction tx) fromPeer) :: after)
      show Books n.session.ledger n.session.credits n.session.issued
      rw [show n.session = _ from hsession]
      exact Session.run_books p.maxBalance_lt _
    have hbal := hbooks.balance tx.toAddr
    omega

section

attribute [local instance] symbolicPrims

def transferFunded : List (CoinEnv × CoinEvent) :=
  [(quietEnv, .genesisCredit symbolicTransfer.fromAddr 100000)]

def threeWitnesses : List (CoinEnv × CoinEvent) :=
  [(quietEnv, .incoming (.witness "tx" "a") "a"), (quietEnv, .incoming (.witness "tx" "b") "b"),
    (quietEnv, .incoming (.witness "tx" "c") "c")]

/-- Three witnesses after the transfer, and the local peer. -/
theorem witnesses_after_arrival_three :
    ((observer.run transferFunded).ledger.applyTransaction symbolicTransfer).1 = .ok .accepted
    ∧ (observer.run (transferFunded
          ++ (quietEnv, .incoming (.transaction symbolicTransfer) "m") :: threeWitnesses)
        ).ledger.transactions.lookup "tx"
        = some (symbolicTransfer.carrying
            (insert "local" (payloadNames "tx" threeWitnesses))) := by
  have hacc : ((observer.run transferFunded).ledger.applyTransaction symbolicTransfer).1
      = .ok .accepted := by decide +kernel
  exact ⟨hacc, (witnesses_after_arrival .betaDefaults "mxc1" "local" "identity" transferFunded
    threeWitnesses quietEnv symbolicTransfer "m" rfl hacc).1⟩

/-- The node after the witnesses and then the transfer. -/
def overtaken : CoinNode :=
  observer.run (transferFunded ++ threeWitnesses
    ++ [(quietEnv, .incoming (.transaction symbolicTransfer) "m")])

/-- Handled before the transfer, the same three witnesses are lost: the transfer is accepted,
has one witness at the end, and its amount is still pending. -/
theorem overtaken_not_confirmed :
    ((observer.run (transferFunded ++ threeWitnesses)).ledger.applyTransaction symbolicTransfer).1
      = .ok .accepted
    ∧ symbolicTransfer.witnesses = ∅
    ∧ (payloadNames "tx" threeWitnesses).card = 3
    ∧ (overtaken.ledger.transactions.lookup "tx").map Transaction.isConfirmed = some false
    ∧ (overtaken.ledger.account symbolicTransfer.toAddr).balanceMuon = 0
    ∧ (overtaken.ledger.account symbolicTransfer.toAddr).pendingReceived = 1000 := by
  refine ⟨by decide +kernel, rfl, by decide, ?_⟩
  decide +kernel

end

end Mycelium.Coin

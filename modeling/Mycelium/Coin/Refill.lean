import Mycelium.Coin.Node

/-!
# Mycelium coin — how often a refill request is paid

A cold node pays a refill request in four steps: look up the request id among the applied
ones, settle the transfer in its own ledger, broadcast it, and record the id. A failed
broadcast is reported like a refused transfer, after the ledger was debited, so the id is not
recorded; a failed record is only logged.

* `payments` — the transfers a run made on behalf of refill requests, read off the history
  of its ledger;
* `refillPayments_cases` — a delivery pays nothing, or it `Pays` exactly one transfer;
* `refill_paid_once` — with every payment broadcast and recorded, no id is paid twice.
-/

namespace Mycelium.Coin

open LocalLedger

namespace CoinNode

variable [Prims]

/-- The transfers an event made on behalf of a refill request: what the ledger accepted while
the request was handled. -/
def refillPayments (n : CoinNode) (env : CoinEnv) : CoinEvent → List (RefillRequest × Transaction)
  | .incoming (.refillRequest req) _ =>
    let n' := (n.handleRefillRequest env req).2
    (acceptedIn (n'.session.history.drop n.session.history.length)).map fun tx => (req, tx)
  | _ => []

/-- The transfers of a run on behalf of refill requests. -/
def payments (n : CoinNode) : List (CoinEnv × CoinEvent) → List (RefillRequest × Transaction)
  | [] => []
  | e :: events => n.refillPayments e.1 e.2 ++ (n.step e.1 e.2).payments events

/-- The node pays `tx` for `req`: the request is due and its transfer passes every check of
the ledger. -/
structure Pays (n : CoinNode) (env : CoinEnv) (req : RefillRequest) (tx : Transaction) : Prop where
  due : n.RefillDue env req
  built : n.buildRefill env req = .ok tx
  settles : ∃ total, n.ledger.Settles tx total

/-! ## One event -/

theorem acceptedIn_step {s : Session} (tx : Transaction) :
    acceptedIn ((s.step (.applyTransaction tx)).history.drop s.history.length)
      = if (s.ledger.applyTransaction tx).1 = .ok .accepted then [tx] else [] := by
  have hnew : (s.step (.applyTransaction tx)).history.drop s.history.length
      = [.applied tx (s.ledger.applyTransaction tx).1] := by
    simp [Session.step]
  rw [hnew, acceptedIn_applied]

/-- **What an event pays**: nothing, or one transfer for a request it was due to pay. -/
theorem refillPayments_cases (n : CoinNode) (env : CoinEnv) (e : CoinEvent) :
    n.refillPayments env e = []
    ∨ ∃ req fromPeer tx, e = .incoming (.refillRequest req) fromPeer ∧ n.Pays env req tx
        ∧ n.refillPayments env e = [(req, tx)] := by
  -- only a refill request pays, and only one that is due and whose transfer settles
  cases e with
  | incoming payload fromPeer =>
    cases payload with
    | refillRequest req =>
      unfold refillPayments
      dsimp only
      rw [handleRefillRequest_session]
      by_cases hdue : n.RefillDue env req
      swap
      · rw [if_neg hdue]
        simp [acceptedIn]
      rw [if_pos hdue]
      cases hbuilt : n.buildRefill env req with
      | error msg => simp [transferCalls, acceptedIn]
      | ok tx =>
        simp only [transferCalls, foldl_step_singleton, acceptedIn_step]
        rcases n.ledger.applyTransaction_cases tx with ⟨total, hset, heq⟩ | ⟨r, hr, heq⟩ <;>
          rw [heq]
        · exact .inr ⟨req, fromPeer, tx, rfl, ⟨hdue, hbuilt, total, hset⟩, rfl⟩
        · rw [if_neg hr]
          exact .inl rfl
    | _ => exact .inl rfl
  | _ => exact .inl rfl

/-! ## The marks -/

omit [Prims] in
/-- Recording an id never forgets another. -/
theorem markRefillApplied_keeps {n : CoinNode} {id : String} (h : n.refillAlreadyApplied id = true)
    (env : CoinEnv) (requestId : String) :
    (n.markRefillApplied env requestId).2.refillAlreadyApplied id = true := by
  unfold markRefillApplied
  split
  · exact h
  · unfold refillAlreadyApplied at h ⊢
    by_cases hid : id = requestId
    · rw [hid, AList.lookup_insert]
      rfl
    · rw [AList.lookup_insert_ne hid]
      exact h

/-- A recorded id stays recorded. -/
theorem step_keeps_mark {n : CoinNode} {id : String} (h : n.refillAlreadyApplied id = true)
    (env : CoinEnv) (e : CoinEvent) : (n.step env e).refillAlreadyApplied id = true := by
  have hframe : ∀ n' : CoinNode, SameRest n n' → n'.refillAlreadyApplied id = true := by
    intro n' hrest
    unfold refillAlreadyApplied at h ⊢
    rw [hrest.refillApplied, h]
  by_cases he : ∀ req fromPeer, e ≠ .incoming (.refillRequest req) fromPeer
  · exact hframe _ (n.step_rest env he)
  · push Not at he
    obtain ⟨req, fromPeer, rfl⟩ := he
    show (n.handleRefillRequest env req).2.refillAlreadyApplied id = true
    have hsub := n.submit_rest env n.coinIdentityPath req.hotAddress req.amountMuon
      req.feeMuon (some "refill")
    rw [handleRefillRequest_eq]
    split
    · split
      · next n' heq =>
        rw [heq] at hsub
        exact markRefillApplied_keeps (hframe n' hsub) env req.requestId
      · next e n' heq =>
        rw [heq] at hsub
        exact hframe n' hsub
    · exact h

/-- A payment that is broadcast and recorded leaves its id marked. -/
theorem Pays.marks {n : CoinNode} {env : CoinEnv} {req : RefillRequest} {tx : Transaction}
    (h : n.Pays env req tx) (hbroadcast : env.broadcast = .ok ()) (hmark : env.markRefill = .ok ()) :
    (n.handleRefillRequest env req).2.refillAlreadyApplied req.requestId = true := by
  obtain ⟨total, hset⟩ := h.settles
  have hsubmit : n.submitTransferFromIdentityPath env n.coinIdentityPath req.hotAddress
      req.amountMuon req.feeMuon (some "refill")
        = (n.call (.applyTransaction tx)).broadcastCoinInner env (.transaction tx) := by
    have hbuilt : n.buildTransfer env n.coinIdentityPath req.hotAddress req.amountMuon req.feeMuon
        (some "refill") = .ok tx := h.built
    unfold submitTransferFromIdentityPath
    rw [hbuilt]
    unfold sendTransaction
    simp only [hset.applyTransaction]
  rw [handleRefillRequest_eq, if_pos h.due, hsubmit]
  unfold broadcastCoinInner
  simp only [hbroadcast]
  unfold markRefillApplied
  rw [hmark]
  unfold refillAlreadyApplied
  simp only [AList.lookup_insert, Option.isSome_some]

/-! ## Runs -/

/-- A payment for a refill request is broadcast and its id recorded. -/
def RefillRecorded (n : CoinNode) (env : CoinEnv) (e : CoinEvent) : Prop :=
  ∀ req fromPeer tx, e = .incoming (.refillRequest req) fromPeer → n.Pays env req tx →
    env.broadcast = .ok () ∧ env.markRefill = .ok ()

/-- A recorded id is not paid. Induction on the events. -/
theorem payments_of_marked {id : String} (events : List (CoinEnv × CoinEvent)) (n : CoinNode)
    (h : n.refillAlreadyApplied id = true) :
    ∀ p ∈ n.payments events, p.1.requestId ≠ id := by
  induction events generalizing n with
  | nil => simp [payments]
  | cons e events ih =>
    intro p hp
    rcases List.mem_append.mp hp with hnow | hlater
    · rcases n.refillPayments_cases e.1 e.2 with hnone | ⟨req, fromPeer, tx, _, hpays, hone⟩
      · rw [hnone] at hnow
        cases hnow
      · rw [hone, List.mem_singleton] at hnow
        subst hnow
        intro hid
        have hunmarked := hpays.due.unmarked
        rw [hid, h] at hunmarked
        cases hunmarked
    · exact ih _ (step_keeps_mark h e.1 e.2) p hlater

/-- No id is paid twice. Induction on the events: what the first one pays it marks. -/
theorem payments_once (id : String) (events : List (CoinEnv × CoinEvent)) (n : CoinNode)
    (h : n.Along RefillRecorded events) :
    ((n.payments events).filter fun p => p.1.requestId = id).length ≤ 1 := by
  induction events generalizing n with
  | nil => simp [payments]
  | cons e events ih =>
    obtain ⟨hrecorded, hlater⟩ := h
    have hrest := ih _ hlater
    simp only [payments, List.filter_append, List.length_append]
    rcases n.refillPayments_cases e.1 e.2 with hnone | ⟨req, fromPeer, tx, he, hpays, hone⟩
    · rw [hnone]
      simpa using hrest
    rw [hone]
    -- a payment of this request marks it, and a marked request is not paid again
    by_cases hid : req.requestId = id
    · obtain ⟨hbroadcast, hmark⟩ := hrecorded req fromPeer tx he hpays
      have hmarked : (n.step e.1 e.2).refillAlreadyApplied id = true := by
        rw [he, ← hid]
        exact hpays.marks hbroadcast hmark
      have hempty : ((n.step e.1 e.2).payments events).filter (fun p => p.1.requestId = id) = [] := by
        rw [List.filter_eq_nil_iff]
        intro p hp hc
        exact payments_of_marked events _ hmarked p hp (by simpa using hc)
      rw [hempty]
      simp [hid]
    · simpa [hid] using hrest

/-- A stored row stays stored, with witnesses added at most. -/
theorem run_keeps_row {id : TxId} {tx : Transaction} (events : List (CoinEnv × CoinEvent))
    (n : CoinNode) (h : n.ledger.transactions.lookup id = some tx) :
    ∃ names, (n.run events).ledger.transactions.lookup id = some (tx.carrying names) := by
  have hcalls : ∀ (calls : List LedgerCall) (s : Session),
      (∃ names, s.ledger.transactions.lookup id = some (tx.carrying names)) →
      ∃ names, (calls.foldl Session.step s).ledger.transactions.lookup id
        = some (tx.carrying names) := by
    intro calls
    induction calls with
    | nil => exact fun s hs => hs
    | cons c calls ih =>
      rintro s ⟨names, hs⟩
      apply ih
      rcases s.step_row c id with hsame | ⟨tx', total, _, hid, hset, _⟩ | ⟨tx', peerId, _, hget, hrow⟩
      · exact ⟨names, hsame.trans hs⟩
      · -- a taken id is not settled again
        have hfresh := hset.fresh
        rw [hid, hs] at hfresh
        cases hfresh
      · obtain rfl : tx' = tx.carrying names := Option.some.inj (hget.symm.trans hs)
        exact ⟨insert peerId names, hrow⟩
  unfold ledger
  rw [run_session]
  exact hcalls _ n.session ⟨tx.witnesses, h⟩

/-- What a run paid it paid as requested, and the transfer is in its ledger. -/
theorem payments_stored (events : List (CoinEnv × CoinEvent)) (n : CoinNode) :
    ∀ p ∈ n.payments events, p.1.verify = true ∧ p.2.toAddr = p.1.hotAddress
      ∧ p.2.amountMuon = p.1.amountMuon
      ∧ ∃ names, (n.run events).ledger.transactions.lookup p.2.id = some (p.2.carrying names) := by
  induction events generalizing n with
  | nil => simp [payments]
  | cons e events ih =>
    intro p hp
    -- paid now, and the row stays; or paid by a later event
    rcases List.mem_append.mp hp with hnow | hlater
    · rcases n.refillPayments_cases e.1 e.2 with hnone | ⟨req, fromPeer, tx, he, hpays, hone⟩
      · rw [hnone] at hnow
        cases hnow
      rw [hone, List.mem_singleton] at hnow
      subst hnow
      obtain ⟨hto, hamount, -, -⟩ := buildTransfer_fields hpays.built
      refine ⟨hpays.due.verified, hto, hamount, ?_⟩
      apply run_keeps_row events (n.step e.1 e.2)
      obtain ⟨total, hset⟩ := hpays.settles
      have hsession : (n.step e.1 e.2).session = n.session.step (.applyTransaction tx) := by
        rw [step_session, he]
        show (if n.RefillDue e.1 req then transferCalls (n.buildRefill e.1 req) else []).foldl
          Session.step n.session = _
        rw [if_pos hpays.due, hpays.built]
        rfl
      unfold ledger
      rw [hsession]
      simp only [Session.step, hset.applyTransaction, settled_transactions, AList.lookup_insert]
    · exact ih _ p hlater

end CoinNode

/-- **A refill request is paid at most once, as signed.** In every run in which each payment
of a refill request is broadcast and its id recorded, for every request id the run makes at
most one transfer; and every transfer made for a request is for one with a valid signature,
of its amount, to its hot address, and stored in the ledger. -/
theorem refill_paid_once [Prims] (n : CoinNode) (events : List (CoinEnv × CoinEvent))
    (hrecorded : n.Along CoinNode.RefillRecorded events) :
    (∀ requestId, ((n.payments events).filter fun p => p.1.requestId = requestId).length ≤ 1)
    ∧ ∀ p ∈ n.payments events, p.1.verify = true ∧ p.2.toAddr = p.1.hotAddress
        ∧ p.2.amountMuon = p.1.amountMuon
        ∧ ∃ names, (n.run events).ledger.transactions.lookup p.2.id
            = some (p.2.carrying names) :=
  ⟨fun requestId => CoinNode.payments_once requestId events n hrecorded,
    CoinNode.payments_stored events n⟩

section

attribute [local instance] hashingPrims

/-- A world in which everything succeeds, and one in which the broadcast fails. -/
def calmEnv : CoinEnv := { quietEnv with loadOrCreateKeypair := fun _ => .ok (symbolicKey 1) }

def lossyEnv : CoinEnv := { calmEnv with broadcast := .error "no peers" }

/-- A hot wallet asks for 10 MXC. -/
def symbolicRefill : RefillRequest :=
  (RefillRequest.newSigned "r" 5 (symbolicKey 2) (addressFromKeypair (symbolicKey 1))
    (10 * muonPerMxc) 1000).getD ⟨"", "", "", 0, 0, 0, 0, [], []⟩

def coldNode : CoinNode :=
  .new .betaDefaults (addressFromKeypair (symbolicKey 1)) "cold-peer" "cold"

/-- The cold node is funded, and the request reaches it twice, the first time in `first`. -/
def deliveredTwice (first : CoinEnv) : List (CoinEnv × CoinEvent) :=
  [(calmEnv, .genesisCredit (addressFromKeypair (symbolicKey 1)) (100 * muonPerMxc)),
    (first, .incoming (.refillRequest symbolicRefill) "p99"),
    (calmEnv, .incoming (.refillRequest symbolicRefill) "p99")]

/-- When the broadcasts succeed the second delivery pays nothing. -/
theorem refill_paid_once_calm :
    coldNode.Along CoinNode.RefillRecorded (deliveredTwice calmEnv)
    ∧ (coldNode.payments (deliveredTwice calmEnv)).length = 1
    ∧ ((coldNode.payments (deliveredTwice calmEnv)).filter fun p => p.1.requestId = "r").length
        ≤ 1 := by
  have hrecorded : coldNode.Along CoinNode.RefillRecorded (deliveredTwice calmEnv) :=
    ⟨fun _ _ _ _ _ => ⟨rfl, rfl⟩, fun _ _ _ _ _ => ⟨rfl, rfl⟩, fun _ _ _ _ _ => ⟨rfl, rfl⟩,
      trivial⟩
  exact ⟨hrecorded, by decide +kernel, (refill_paid_once coldNode _ hrecorded).1 "r"⟩

/-- When the first broadcast fails the node pays a second time: two transfers of 10 MXC for one
request of 10 MXC. -/
theorem refill_paid_twice :
    ((coldNode.payments (deliveredTwice lossyEnv)).filter fun p => p.1.requestId = "r").length = 2
    ∧ ((coldNode.run (deliveredTwice lossyEnv)).ledger.account
        symbolicRefill.hotAddress).pendingReceived = 20 * muonPerMxc := by
  decide +kernel

end

end Mycelium.Coin

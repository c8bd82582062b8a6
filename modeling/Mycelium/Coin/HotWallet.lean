import Mycelium.Coin.Refill
import Mycelium.Lib.Loop
import Mathlib.Algebra.Order.Floor.Div

/-!
# Mycelium coin — the hot wallet

Translation of `HotWallet` (`mycelium-coin/src/hot_wallet.rs`): a node that keeps a bounded
balance on the device asks a cold wallet for more (`maybeRefill`) and sends it what is too much
(`enforceCap`). The configuration is the one that is read when a method starts.

* `submit_ok` — what a successful transfer of the node's own did: it settled, and was broadcast;
* `Returned` — the transfers of `enforceCap` so far, which one round extends by one;
* `enforce_cap_returns_excess` — the loop ends, and if it ends well it returned the excess;
* `refill_satisfiable_iff` — when what is asked for can be paid.
-/

namespace Mycelium.Coin

open LocalLedger

structure HotWalletConfig where
  /-- Max on-device balance (Muon). -/
  maxCacheMuon : UInt64
  refillThresholdMuon : UInt64
  refillAmountMuon : UInt64
  coldWalletAddress : Option Address
deriving DecidableEq

/-- `HotWalletConfig::default`. -/
def HotWalletConfig.default : HotWalletConfig where
  maxCacheMuon := 50 * muonPerMxc
  refillThresholdMuon := 50 * muonPerMxc * 80 / 100
  refillAmountMuon := 50 * muonPerMxc
  coldWalletAddress := none

/-- `HotWallet`; its `coin_node` is the node that the methods take and return. -/
structure HotWallet where
  config : HotWalletConfig
  identityPath : String

inductive RefillResult where
  | noColdWallet
  | notNeeded (currentMuon : UInt64)
  | refillBroadcast (amountMuon : UInt64) (requestId : String)
deriving DecidableEq

/-- `CoinNode::balance`: confirmed and pending. -/
def CoinNode.balance (n : CoinNode) : UInt64 × UInt64 :=
  let acc := n.ledger.account n.localAddress
  (acc.balanceMuon, acc.pendingReceived)

/-- The block of `maybe_refill` that reads the configuration: whom to ask and for how much, or
the early return. -/
def HotWalletConfig.refillOf (config : HotWalletConfig) (confirmed : UInt64) :
    Except RefillResult (Address × UInt64) :=
  match config.coldWalletAddress with
  | none => .error .noColdWallet
  | some coldAddr =>
    if config.refillThresholdMuon ≤ confirmed then .error (.notNeeded confirmed)
    else .ok (coldAddr, U64.satSub config.refillAmountMuon confirmed)

/-- What the loop of `enforce_cap` carries. -/
structure CapState where
  node : CoinNode
  excess : UInt64
  /-- Rounds so far: each submits in a world of its own. -/
  round : Nat

namespace HotWallet

variable [Prims]

/-- `maybe_refill`, with the request id it draws. -/
def maybeRefill (w : HotWallet) (env : CoinEnv) (requestId : String) (n : CoinNode) :
    Except String RefillResult × CoinNode :=
  match w.config.refillOf n.balance.1 with
  | .error result => (.ok result, n)
  | .ok (coldAddr, toRequest) =>
    match env.loadOrCreateKeypair w.identityPath with
    | .error e => (.error e, n)
    | .ok hotKp =>
      match RefillRequest.newSigned requestId env.nowMs hotKp coldAddr toRequest 1000 with
      | none => (.error "signing failed", n)
      | some req =>
        match n.broadcastCoinInner env (.refillRequest req) with
        | (.error e, n') => (.error e, n')
        | (.ok (), n') => (.ok (.refillBroadcast toRequest req.requestId), n')

/-- One round of the loop in `enforce_cap`: `.inr` leaves it. -/
def returnChunk (w : HotWallet) (envs : Nat → CoinEnv) (coldAddr : Address) (chunk : UInt64)
    (s : CapState) : CapState ⊕ (Except String Unit × CoinNode) :=
  if s.excess = 0 then .inr (.ok (), s.node)
  else
    let amt := min s.excess chunk
    match s.node.submitTransferFromIdentityPath (envs s.round) w.identityPath coldAddr amt 1000
        (some "auto-cap-return") with
    | (.error e, n') => .inr (.error e, n')
    | (.ok (), n') => .inl { node := n', excess := s.excess - amt, round := s.round + 1 }

/-- `enforce_cap`, in at most `fuel` rounds of its loop. -/
def enforceCap (w : HotWallet) (envs : Nat → CoinEnv) (fuel : Nat) (n : CoinNode) :
    Option (Except String Unit × CoinNode) :=
  let confirmed := n.balance.1
  if w.config.maxCacheMuon < confirmed then
    match w.config.coldWalletAddress with
    | none => some (.ok (), n)
    | some coldAddr =>
      let chunk := n.ledger.policy.maxTransferMuon
      loop (w.returnChunk envs coldAddr chunk) fuel
        { node := n, excess := confirmed - w.config.maxCacheMuon, round := 0 }
  else some (.ok (), n)

end HotWallet

/-! ## A transfer of the node's own -/

section

variable [Prims]

namespace CoinNode

/-- The node signs as itself, with its next nonce. -/
theorem buildTransfer_own {n : CoinNode} {env : CoinEnv} {path : String} {toAddr : Address}
    {amountMuon feeMuon : UInt64} {memo : Option String} {tx : Transaction}
    (h : n.buildTransfer env path toAddr amountMuon feeMuon memo = .ok tx) :
    tx.fromAddr = n.localAddress ∧ tx.nonce = (n.ledger.account n.localAddress).nextNonce
      ∧ tx.memo = memo := by
  unfold buildTransfer at h
  split at h
  · cases h
  next kp _ =>
  split at h
  · cases h
  next hself =>
  dsimp only at h
  split at h
  · cases h
  next tx' hnew =>
  obtain rfl := Except.ok.inj h
  unfold Transaction.new at hnew
  obtain ⟨signature, _, hsome⟩ := Option.bind_eq_some_iff.mp hnew
  obtain rfl := Option.some.inj hsome
  exact ⟨not_not.mp hself, rfl, rfl⟩

/-- **What a successful transfer did**: the transaction it built passed every check of the
ledger, was settled and was handed to the transport. -/
theorem submit_ok {n n' : CoinNode} {env : CoinEnv} {path : String} {toAddr : Address}
    {amountMuon feeMuon : UInt64} {memo : Option String}
    (h : n.submitTransferFromIdentityPath env path toAddr amountMuon feeMuon memo = (.ok (), n')) :
    ∃ tx total, n.buildTransfer env path toAddr amountMuon feeMuon memo = .ok tx
      ∧ n.ledger.Settles tx total
      ∧ n' = { n with
          session := n.session.step (.applyTransaction tx)
          out := n.out ++ [.broadcast (.transaction tx)] } := by
  unfold submitTransferFromIdentityPath at h
  split at h
  · cases (Prod.mk.inj h).1
  next tx hbuilt =>
  rcases n.ledger.applyTransaction_cases tx with ⟨total, hset, heq⟩ | ⟨r, hr, heq⟩
  · refine ⟨tx, total, hbuilt, hset, ?_⟩
    unfold sendTransaction at h
    simp only [heq] at h
    exact (Prod.mk.inj h).2.symm
  · -- any other answer of the ledger is reported as an error
    exfalso
    unfold sendTransaction at h
    simp only [heq] at h
    cases r with
    | error e => cases (Prod.mk.inj h).1
    | ok result =>
      cases result with
      | accepted => exact hr rfl
      | _ => cases (Prod.mk.inj h).1

end CoinNode

/-! ## Returning the excess -/

/-- What `enforce_cap` has sent to the cold wallet since `n₀`: the transfers `txs`, in all
`returned` Muon, each with a fee of 1000 and none above `chunk`. -/
structure Returned (n₀ : CoinNode) (coldAddr : Address) (chunk : UInt64) (returned : Nat)
    (txs : List Transaction) (n : CoinNode) : Prop where
  localAddress : n.localAddress = n₀.localAddress
  history : n.session.history
    = n₀.session.history ++ txs.map fun tx => .applied tx (.ok .accepted)
  out : n.out = n₀.out ++ txs.map fun tx => .broadcast (.transaction tx)
  dest : ∀ tx ∈ txs, tx.toAddr = coldAddr ∧ tx.amountMuon ≤ chunk
  total : (txs.map fun tx => tx.amountMuon.toNat).sum = returned
  balance : n.balance.1.toNat + returned + 1000 * txs.length = n₀.balance.1.toNat

omit [Prims] in
theorem Returned.start (n : CoinNode) (coldAddr : Address) (chunk : UInt64) :
    Returned n coldAddr chunk 0 [] n where
  localAddress := rfl
  history := by simp
  out := by simp
  dest := by simp
  total := rfl
  balance := by simp

/-- **One transfer more.** -/
theorem Returned.submit {n₀ n n' : CoinNode} {coldAddr : Address} {chunk amt : UInt64}
    {returned : Nat} {txs : List Transaction} (h : Returned n₀ coldAddr chunk returned txs n)
    {env : CoinEnv} {path : String} {memo : Option String} (hamt : amt ≤ chunk)
    (hok : n.submitTransferFromIdentityPath env path coldAddr amt 1000 memo = (.ok (), n')) :
    0 < amt.toNat ∧ ∃ tx, Returned n₀ coldAddr chunk (returned + amt.toNat) (txs ++ [tx]) n' := by
  obtain ⟨tx, total, hbuilt, hset, rfl⟩ := CoinNode.submit_ok hok
  obtain ⟨hto, hamount, hfee, -⟩ := CoinNode.buildTransfer_fields hbuilt
  have hfrom := (CoinNode.buildTransfer_own hbuilt).1
  have hpos : amt ≠ 0 := by
    intro hzero
    have hcheck := hset.amount
    rw [hamount, hzero] at hcheck
    cases hcheck
  have htotal : total.toNat = amt.toNat + 1000 := by
    have hsum := U64.checkedAdd_eq_some_iff.mp hset.total_eq
    rw [hamount, hfee] at hsum
    exact hsum
  have hstep : n.session.step (.applyTransaction tx)
      = { ledger := n.ledger.settled tx total
          history := n.session.history ++ [.applied tx (.ok .accepted)] } := by
    simp only [Session.step, hset.applyTransaction]
  -- the node pays, and it is not the recipient
  have hrow : ((n.ledger.settled tx total).account n.localAddress).balanceMuon
      = (n.ledger.account n.localAddress).balanceMuon - total := by
    rw [account_settled _ hset.distinct, ← hfrom, if_neg hset.distinct, if_pos rfl]
    rfl
  have hfunds : total.toNat ≤ (n.ledger.account n.localAddress).balanceMuon.toNat := by
    rw [← hfrom]
    exact U64.le_iff.mp hset.funds
  refine ⟨Nat.pos_of_ne_zero fun hzero => hpos (UInt64.toNat_inj.mp hzero), tx, ?_⟩
  exact {
    localAddress := h.localAddress
    history := by
      show (n.session.step (.applyTransaction tx)).history = _
      rw [hstep, h.history, List.map_append, List.append_assoc]
      rfl
    out := by
      show n.out ++ [.broadcast (.transaction tx)] = _
      rw [h.out, List.map_append, List.append_assoc]
      rfl
    dest := by
      intro tx' htx'
      rcases List.mem_append.mp htx' with hold | hnew
      · exact h.dest tx' hold
      · rw [List.mem_singleton.mp hnew, hamount]
        exact ⟨hto, hamt⟩
    total := by
      rw [List.map_append, List.sum_append, h.total, List.map_singleton, List.sum_singleton, hamount]
    balance := by
      have hbefore := h.balance
      have hafter : (CoinNode.balance { n with
          session := n.session.step (.applyTransaction tx)
          out := n.out ++ [.broadcast (.transaction tx)] }).1.toNat
            = n.balance.1.toNat - total.toNat := by
        show ((n.session.step (.applyTransaction tx)).ledger.account n.localAddress).balanceMuon.toNat
          = (n.ledger.account n.localAddress).balanceMuon.toNat - total.toNat
        rw [hstep, hrow, U64.toNat_sub_of_le hfunds]
      have hle : total.toNat ≤ n.balance.1.toNat := hfunds
      rw [hafter, List.length_append, List.length_singleton]
      omega }

omit [Prims] in
/-- Taking one chunk off leaves one chunk less to take. -/
theorem ceilDiv_sub_min {e c : Nat} (he : 0 < e) (hc : 0 < c) :
    e ⌈/⌉ c = (e - min e c) ⌈/⌉ c + 1 := by
  rw [Nat.ceilDiv_eq_add_pred_div, Nat.ceilDiv_eq_add_pred_div]
  rcases Nat.le_total e c with hle | hle
  · rw [Nat.min_eq_left hle, Nat.sub_self, Nat.zero_add, Nat.div_eq_of_lt (show c - 1 < c by omega)]
    rw [Nat.div_eq_of_lt_le (k := 1)] <;> omega
  · rw [Nat.min_eq_right hle, show e + c - 1 = (e - c + c - 1) + c by omega,
      Nat.add_div_right _ hc]

/-- The invariant of the loop: what was returned and what is left make up the excess, in
amounts and in chunks. -/
def CapInvariant (n₀ : CoinNode) (coldAddr : Address) (chunk excess : UInt64) (s : CapState) : Prop :=
  ∃ txs returned, Returned n₀ coldAddr chunk returned txs s.node
    ∧ returned + s.excess.toNat = excess.toNat
    ∧ txs.length + s.excess.toNat ⌈/⌉ chunk.toNat = excess.toNat ⌈/⌉ chunk.toNat

namespace HotWallet

variable {w : HotWallet} {envs : Nat → CoinEnv} {coldAddr : Address} {chunk : UInt64}

/-- **One round** keeps the invariant, and leaves less to return. -/
theorem returnChunk_round {n₀ : CoinNode} {excess : UInt64} {s s' : CapState}
    (hs : CapInvariant n₀ coldAddr chunk excess s)
    (h : w.returnChunk envs coldAddr chunk s = .inl s') :
    CapInvariant n₀ coldAddr chunk excess s' ∧ s'.excess.toNat < s.excess.toNat := by
  obtain ⟨txs, returned, hreturned, hamount, hcount⟩ := hs
  unfold returnChunk at h
  -- a round was taken, so there was an excess and the transfer was submitted
  split at h
  · cases h
  next hpos =>
  dsimp only at h
  split at h
  · cases h
  next n' hok =>
  obtain rfl := Sum.inl.inj h
  have hmin := U64.toNat_min s.excess chunk
  have hchunk : min s.excess chunk ≤ chunk := by
    rw [U64.le_iff, hmin]
    exact min_le_right _ _
  obtain ⟨hamt, tx, hnext⟩ := hreturned.submit hchunk hok
  rw [hmin] at hamt hnext
  -- what is left is the excess less the chunk, in numbers that do not wrap
  have hleft : (s.excess - min s.excess chunk).toNat
      = s.excess.toNat - min s.excess.toNat chunk.toNat := by
    rw [U64.toNat_sub_of_le (by rw [hmin]; exact min_le_left _ _), hmin]
  have hstep := ceilDiv_sub_min (e := s.excess.toNat) (c := chunk.toNat) (by omega) (by omega)
  refine ⟨⟨txs ++ [tx], _, hnext, ?_, ?_⟩, ?_⟩
  · show returned + min s.excess.toNat chunk.toNat + (s.excess - min s.excess chunk).toNat = _
    rw [hleft]
    omega
  · show (txs ++ [tx]).length + (s.excess - min s.excess chunk).toNat ⌈/⌉ chunk.toNat = _
    rw [hleft, List.length_append, List.length_singleton]
    omega
  · show (s.excess - min s.excess chunk).toNat < s.excess.toNat
    rw [hleft]
    omega

/-- Left without an error, the loop has returned everything. -/
theorem returnChunk_exit {n₀ n' : CoinNode} {excess : UInt64} {s : CapState}
    (hs : CapInvariant n₀ coldAddr chunk excess s)
    (h : w.returnChunk envs coldAddr chunk s = .inr (.ok (), n')) :
    ∃ txs, Returned n₀ coldAddr chunk excess.toNat txs n'
      ∧ txs.length = excess.toNat ⌈/⌉ chunk.toNat := by
  obtain ⟨txs, returned, hreturned, hamount, hcount⟩ := hs
  unfold returnChunk at h
  split at h
  · next hzero =>
    obtain rfl := (Prod.mk.inj (Sum.inr.inj h)).2
    have hnone : s.excess.toNat = 0 := by rw [hzero]; rfl
    rw [hnone, Nat.add_zero] at hamount
    rw [hnone, zero_ceilDiv, Nat.add_zero] at hcount
    exact ⟨txs, hamount ▸ hreturned, hcount⟩
  · dsimp only at h
    split at h
    · cases (Prod.mk.inj (Sum.inr.inj h)).1
    · cases h

end HotWallet

/-- **`enforce_cap` returns the excess.** For every hot wallet with a cold address, over every
ledger and policy, it ends; and when it ends well, a balance within the cap was left alone, and
one above it was brought down to the cap less the fees, by as many transfers as the excess has
chunks, each to the cold address and of at most one chunk. -/
theorem enforce_cap_returns_excess (w : HotWallet) {coldAddr : Address}
    (hcold : w.config.coldWalletAddress = some coldAddr) (envs : Nat → CoinEnv) (n : CoinNode) :
    ∃ r n', (∀ fuel, n.balance.1.toNat < fuel → w.enforceCap envs fuel n = some (r, n'))
      ∧ (r = .ok () →
        (n.balance.1 ≤ w.config.maxCacheMuon → n' = n)
        ∧ (w.config.maxCacheMuon < n.balance.1 →
          ∃ txs : List Transaction,
            n'.session.history
              = n.session.history ++ txs.map (fun tx => .applied tx (.ok .accepted))
            ∧ n'.out = n.out ++ txs.map (fun tx => .broadcast (.transaction tx))
            ∧ txs.length = (n.balance.1.toNat - w.config.maxCacheMuon.toNat)
                ⌈/⌉ n.ledger.policy.maxTransferMuon.toNat
            ∧ (∀ tx ∈ txs, tx.toAddr = coldAddr
                ∧ tx.amountMuon ≤ n.ledger.policy.maxTransferMuon)
            ∧ (txs.map fun tx => tx.amountMuon.toNat).sum
                = n.balance.1.toNat - w.config.maxCacheMuon.toNat
            ∧ n'.balance.1.toNat + 1000 * txs.length = w.config.maxCacheMuon.toNat)) := by
  by_cases hover : w.config.maxCacheMuon < n.balance.1
  swap
  · refine ⟨.ok (), n, fun fuel _ => ?_, fun _ => ⟨fun _ => rfl, fun h => absurd h hover⟩⟩
    unfold HotWallet.enforceCap
    simp only [if_neg hover]
  have hlt : w.config.maxCacheMuon.toNat < n.balance.1.toNat := U64.lt_iff.mp hover
  have hexcess : (n.balance.1 - w.config.maxCacheMuon).toNat
      = n.balance.1.toNat - w.config.maxCacheMuon.toNat := U64.toNat_sub_of_le (by omega)
  -- the loop, with the excess as its measure
  obtain ⟨⟨r, n'⟩, hpost, hloop⟩ := loop_ends
    (w.returnChunk envs coldAddr n.ledger.policy.maxTransferMuon)
    (CapInvariant n coldAddr n.ledger.policy.maxTransferMuon
      (n.balance.1 - w.config.maxCacheMuon))
    (fun result => result.1 = .ok () →
      ∃ txs, Returned n coldAddr n.ledger.policy.maxTransferMuon
          (n.balance.1 - w.config.maxCacheMuon).toNat txs result.2
        ∧ txs.length = (n.balance.1 - w.config.maxCacheMuon).toNat
            ⌈/⌉ n.ledger.policy.maxTransferMuon.toNat)
    (fun s => s.excess.toNat)
    (fun _ _ hs h => HotWallet.returnChunk_round hs h)
    (by
      rintro s ⟨r, n'⟩ hs h rfl
      exact HotWallet.returnChunk_exit hs h)
    (s := { node := n, excess := n.balance.1 - w.config.maxCacheMuon, round := 0 })
    ⟨[], 0, .start n coldAddr _, by simp, by simp⟩
  refine ⟨r, n', fun fuel hfuel => ?_, fun hok => ⟨fun hle => ?_, fun _ => ?_⟩⟩
  · unfold HotWallet.enforceCap
    simp only [if_pos hover, hcold]
    exact hloop fuel (by simp only [hexcess]; omega)
  · exact absurd (U64.le_iff.mp hle) (by omega)
  · obtain ⟨txs, hreturned, hcount⟩ := hpost hok
    rw [hexcess] at hreturned hcount
    have hbalance : n'.balance.1.toNat + (n.balance.1.toNat - w.config.maxCacheMuon.toNat)
        + 1000 * txs.length = n.balance.1.toNat := hreturned.balance
    exact ⟨txs, hreturned.history, hreturned.out, hcount, hreturned.dest, hreturned.total, by omega⟩

/-! ## What a refill asks for -/

/-- **What `maybe_refill` broadcasts**: one request, to the cold wallet and for the amount that
`refillOf` computes, if the identity loads and signs. -/
theorem maybeRefill_asks {w : HotWallet} {env : CoinEnv} {requestId id : String} {n n' : CoinNode}
    {amount : UInt64} (h : w.maybeRefill env requestId n = (.ok (.refillBroadcast amount id), n')) :
    ∃ coldAddr req, w.config.refillOf n.balance.1 = .ok (coldAddr, amount)
      ∧ n' = { n with out := n.out ++ [.broadcast (.refillRequest req)] }
      ∧ req.requestId = id ∧ req.coldAddress = coldAddr ∧ req.amountMuon = amount := by
  unfold HotWallet.maybeRefill at h
  split at h
  · next result hearly =>
    -- an early return asks for nothing
    obtain ⟨hresult, -⟩ := Prod.mk.inj h
    unfold HotWalletConfig.refillOf at hearly
    split at hearly
    · obtain rfl := Except.error.inj hearly
      cases hresult
    · split at hearly
      · obtain rfl := Except.error.inj hearly
        cases hresult
      · cases hearly
  next coldAddr toRequest hasks =>
  split at h
  · cases (Prod.mk.inj h).1
  next hotKp _ =>
  split at h
  · cases (Prod.mk.inj h).1
  next req hsigned =>
  split at h
  · cases (Prod.mk.inj h).1
  next n'' hsent =>
  obtain ⟨hresult, rfl⟩ := Prod.mk.inj h
  obtain ⟨rfl, rfl⟩ := RefillResult.refillBroadcast.inj (Except.ok.inj hresult)
  unfold RefillRequest.newSigned at hsigned
  obtain ⟨signature, _, hsome⟩ := Option.bind_eq_some_iff.mp hsigned
  obtain rfl := Option.some.inj hsome
  exact ⟨coldAddr, _, hasks, (Prod.mk.inj hsent).2.symm, rfl, rfl, rfl⟩

omit [Prims] in
theorem refillOf_ok {config : HotWalletConfig} {confirmed amount : UInt64} {coldAddr : Address}
    (h : config.refillOf confirmed = .ok (coldAddr, amount)) :
    config.coldWalletAddress = some coldAddr
      ∧ confirmed.toNat < config.refillThresholdMuon.toNat
      ∧ amount.toNat = config.refillAmountMuon.toNat - confirmed.toNat := by
  unfold HotWalletConfig.refillOf at h
  split at h
  · cases h
  next coldAddr' hcold =>
  split at h
  · cases h
  next hbelow =>
  obtain ⟨rfl, rfl⟩ := Prod.mk.inj (Except.ok.inj h)
  rw [U64.le_iff] at hbelow
  exact ⟨hcold, by omega, U64.toNat_satSub _ _⟩

/-- Whatever is asked for at these balances passes the amount check of the beta policy, and
fits under its balance cap. -/
def HotWalletConfig.Satisfiable (config : HotWalletConfig) (confirmed pending : UInt64) : Prop :=
  ∀ coldAddr amount, config.refillOf confirmed = .ok (coldAddr, amount) →
    SettlementPolicy.betaDefaults.checkTransferAmount amount = .ok ()
    ∧ SettlementPolicy.betaDefaults.checkBalanceCap confirmed pending amount = .ok ()

/-- Nothing is asked for, or at most 25 MXC are missing from the refill amount and the refill
amount with what is pending is at most 100 MXC. -/
def HotWalletConfig.WithinBeta (config : HotWalletConfig) (confirmed pending : UInt64) : Prop :=
  config.coldWalletAddress = none
  ∨ config.refillThresholdMuon ≤ confirmed
  ∨ config.refillAmountMuon.toNat ≤ confirmed.toNat + 25000000
    ∧ pending.toNat + config.refillAmountMuon.toNat ≤ 100000000

omit [Prims] in
/-- The two checks, for an amount that is asked for. -/
theorem checks_iff_withinBeta {config : HotWalletConfig}
    (hthreshold : config.refillThresholdMuon ≤ config.refillAmountMuon)
    {confirmed pending amount : UInt64} {coldAddr : Address}
    (h : config.refillOf confirmed = .ok (coldAddr, amount)) :
    (SettlementPolicy.betaDefaults.checkTransferAmount amount = .ok ()
      ∧ SettlementPolicy.betaDefaults.checkBalanceCap confirmed pending amount = .ok ())
    ↔ config.WithinBeta confirmed pending := by
  obtain ⟨hcold, hbelow, hamount⟩ := refillOf_ok h
  have hle := U64.le_iff.mp hthreshold
  have hmax : SettlementPolicy.betaDefaults.maxTransferMuon.toNat = 25000000 := by decide
  have hcap : SettlementPolicy.betaDefaults.maxBalanceMuon.toNat = 100000000 := by decide
  rw [SettlementPolicy.checkTransferAmount_ok_iff,
    SettlementPolicy.checkBalanceCap_ok_iff (by omega), hmax, hcap]
  unfold HotWalletConfig.WithinBeta
  rw [hcold, U64.le_iff]
  constructor
  · rintro ⟨⟨-, hmost⟩, hfits⟩
    exact .inr (.inr ⟨by omega, by omega⟩)
  · rintro (hnone | hnot | ⟨hmost, hfits⟩)
    · cases hnone
    · omega
    · exact ⟨⟨by omega, by omega⟩, by omega⟩

/-- A cold node under the beta policy could pay `req` with `tx`, but for the size of the amount:
it has the funds, its velocity window has room, and nothing else is in the way. -/
structure CoinNode.Able (c : CoinNode) (env : CoinEnv) (req : RefillRequest) (tx : Transaction) :
    Prop where
  policy : c.ledger.policy = .betaDefaults
  due : c.RefillDue env req
  built : c.buildRefill env req = .ok tx
  fresh : c.ledger.transactions.lookup tx.id = none
  verified : tx.verify = true
  size : tx.encodedLen ≤ SettlementPolicy.betaDefaults.maxTxBytes
  funds : req.amountMuon.toNat + req.feeMuon.toNat
    ≤ (c.ledger.account c.localAddress).balanceMuon.toNat
  velocity : SettlementPolicy.betaDefaults.checkVelocity
    (((c.ledger.velocity.lookup c.localAddress).map VelocityWindow.recent).getD [])
    tx.timestampMs req.amountMuon = .ok ()

theorem RefillRequest.distinct_of_verify {req : RefillRequest} (h : req.verify = true) :
    req.hotAddress ≠ req.coldAddress := by
  unfold RefillRequest.verify at h
  split at h
  · cases h
  split at h
  · cases h
  next hne => exact hne

/-- Such a node pays exactly what passes the two checks. -/
theorem CoinNode.Able.pays_iff {c : CoinNode} {env : CoinEnv} {req : RefillRequest}
    {tx : Transaction} (h : c.Able env req tx) :
    c.Pays env req tx
      ↔ SettlementPolicy.betaDefaults.checkTransferAmount req.amountMuon = .ok ()
        ∧ SettlementPolicy.betaDefaults.checkBalanceCap
            (c.ledger.account req.hotAddress).balanceMuon
            (c.ledger.account req.hotAddress).pendingReceived req.amountMuon = .ok () := by
  obtain ⟨hto, hamount, hfee, -⟩ := buildTransfer_fields h.built
  obtain ⟨hfrom, hnonce, hmemo⟩ := buildTransfer_own h.built
  -- what `apply_transaction` asks of a transfer that settles
  constructor
  · rintro ⟨-, -, total, hset⟩
    have hcheck := hset.amount
    have hcap := hset.cap
    rw [h.policy, hamount] at hcheck
    rw [h.policy, hto, hamount] at hcap
    exact ⟨hcheck, hcap⟩
  -- an able node meets every check but the two; the record goes through them in order
  · rintro ⟨hcheck, hcap⟩
    have hbound := U64.toNat_lt (c.ledger.account c.localAddress).balanceMuon
    have hfunds := h.funds
    have hdistinct := RefillRequest.distinct_of_verify h.due.verified
    refine ⟨h.due, h.built, req.amountMuon + req.feeMuon, ?_⟩
    have htotal : (req.amountMuon + req.feeMuon).toNat = req.amountMuon.toNat + req.feeMuon.toNat :=
      U64.toNat_add_of_lt (by omega)
    exact {
      fresh := h.fresh
      verified := h.verified
      distinct := by
        rw [hfrom, hto, ← h.due.addressed]
        exact hdistinct.symm
      nonce := by rw [hnonce, hfrom]
      total_eq := by
        rw [U64.checkedAdd_eq_some_iff, hamount, hfee]
        exact htotal
      funds := by
        rw [hfrom, U64.le_iff, htotal]
        exact hfunds
      memo := by
        rw [hmemo]
        decide
      amount := by
        rw [h.policy, hamount]
        exact hcheck
      size := by
        rw [h.policy]
        unfold SettlementPolicy.checkTxSize
        rw [if_neg (Nat.not_lt.mpr h.size), hamount]
        exact hcheck
      cap := by
        rw [h.policy, hto, hamount]
        exact hcap
      velocity := by
        rw [h.policy, hfrom, hamount]
        exact h.velocity }

/-- **When a refill can be paid.** For every configuration whose threshold is at most its refill
amount, and all balances: what is asked for passes the checks of the beta policy exactly when the
configuration is within them at these balances; and then, only then, does a cold node pay that
knows the balances and has nothing else in the way. -/
theorem refill_satisfiable_iff (config : HotWalletConfig)
    (hthreshold : config.refillThresholdMuon ≤ config.refillAmountMuon)
    (confirmed pending : UInt64) :
    (config.Satisfiable confirmed pending ↔ config.WithinBeta confirmed pending)
    ∧ ∀ (c : CoinNode) (env : CoinEnv) (req : RefillRequest) (tx : Transaction),
        config.refillOf confirmed = .ok (req.coldAddress, req.amountMuon) →
        (c.ledger.account req.hotAddress).balanceMuon = confirmed →
        (c.ledger.account req.hotAddress).pendingReceived = pending →
        c.Able env req tx →
        (c.Pays env req tx ↔ config.WithinBeta confirmed pending) := by
  constructor
  · constructor
    -- a wallet that does not ask is satisfied at any balance
    · intro hsat
      cases hasks : config.refillOf confirmed with
      | ok asked =>
        obtain ⟨coldAddr, amount⟩ := asked
        exact (checks_iff_withinBeta hthreshold hasks).mp (hsat coldAddr amount hasks)
      | error result =>
        unfold HotWalletConfig.refillOf at hasks
        split at hasks
        · next hnone => exact .inl hnone
        · split at hasks
          · next hnot => exact .inr (.inl hnot)
          · cases hasks
    · intro hwithin coldAddr amount hasks
      exact (checks_iff_withinBeta hthreshold hasks).mpr hwithin
  · rintro c env req tx hasks rfl rfl hable
    rw [hable.pays_iff]
    exact checks_iff_withinBeta hthreshold hasks

end

section

attribute [local instance] hashingPrims

/-- The node of key 1 with 80 MXC, as a hot wallet that may keep 50 of them. -/
def hotNode : CoinNode :=
  coldNode.run [(calmEnv, .genesisCredit (addressFromKeypair (symbolicKey 1)) (80 * muonPerMxc))]

def hotWallet : HotWallet where
  config := { HotWalletConfig.default with
    coldWalletAddress := some (addressFromKeypair (symbolicKey 2)) }
  identityPath := "hot"

/-- It returns 30 MXC in two transfers. -/
theorem enforce_cap_returns_excess_two :
    ∃ n', hotWallet.enforceCap (fun _ => calmEnv) 80000001 hotNode = some (.ok (), n')
      ∧ n'.balance.1.toNat + 1000 * 2 = 50000000 := by
  obtain ⟨r, n', hloop, hpost⟩ :=
    enforce_cap_returns_excess hotWallet
      (show hotWallet.config.coldWalletAddress = some (addressFromKeypair (symbolicKey 2)) from rfl)
      (fun _ => calmEnv) hotNode
  -- 30 MXC too many leave in two chunks, of 25 and of 5
  have hbalance : hotNode.balance.1 = 80000000 := by decide +kernel
  have hran := hloop 80000001 (by rw [hbalance]; decide)
  have hok : ((hotWallet.enforceCap (fun _ => calmEnv) 80000001 hotNode).map fun p => p.1.isOk)
      = some true := by
    decide +kernel
  rw [hran] at hok
  have hr : r = .ok () := by
    cases r with
    | error e => cases hok
    | ok u => rfl
  obtain ⟨-, hreturned⟩ := hpost hr
  have hcap : hotWallet.config.maxCacheMuon = 50000000 := by decide
  have hchunk : hotNode.ledger.policy.maxTransferMuon = 25000000 := by decide +kernel
  rw [hcap, hbalance, hchunk] at hreturned
  obtain ⟨txs, -, -, hcount, -, -, hafter⟩ := hreturned (by decide)
  have htwo : txs.length = 2 := hcount
  rw [htwo] at hafter
  exact ⟨n', by rw [hran, hr], hafter⟩

/-- With 30 MXC left the default configuration asks for 20 MXC, which can be paid. -/
theorem refill_satisfiable_twenty :
    hotWallet.config.refillOf (30 * muonPerMxc)
      = .ok (addressFromKeypair (symbolicKey 2), 20 * muonPerMxc)
    ∧ hotWallet.config.Satisfiable (30 * muonPerMxc) 0 :=
  ⟨rfl, (refill_satisfiable_iff hotWallet.config (by decide) (30 * muonPerMxc) 0).1.mpr
    (.inr (.inr (by decide)))⟩

/-- With nothing left it asks for 50 MXC, twice the largest transfer. -/
theorem default_refill_refused :
    hotWallet.config.refillThresholdMuon ≤ hotWallet.config.refillAmountMuon
    ∧ hotWallet.config.refillAmountMuon ≤ hotWallet.config.maxCacheMuon
    ∧ hotWallet.config.refillOf 0 = .ok (addressFromKeypair (symbolicKey 2), 50 * muonPerMxc)
    ∧ ¬ hotWallet.config.Satisfiable 0 0 := by
  have hasks : hotWallet.config.refillOf 0
      = .ok (addressFromKeypair (symbolicKey 2), 50 * muonPerMxc) := rfl
  refine ⟨by decide, by decide, hasks, fun hsat => ?_⟩
  have hcheck := (hsat _ _ hasks).1
  rw [SettlementPolicy.checkTransferAmount_ok_iff] at hcheck
  exact absurd hcheck.2 (by decide)

end

end Mycelium.Coin

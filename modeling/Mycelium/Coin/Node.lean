import Mycelium.Coin.Arrival

/-!
# Mycelium coin — the node

Translation of `CoinNode` (`mycelium-coin/src/node.rs`) and of the checks of a refill request
(`mycelium-coin/src/refill.rs`). A method takes the node to a node and an `anyhow::Result`;
what the world answers meanwhile (clock, transport, identity store, the write of the
`refill_applied` tree) is a `CoinEnv`, one per call.

* `handleIncoming`, `submitTransferFromIdentityPath`, `sendTransaction`,
  `requestFaucetCoins` — the methods;
* `calls` — the ledger calls a method makes, and `step_session`, that it makes no others: a
  run of the node is a run of its ledger (`run_session`), so what holds in every session of a
  ledger holds in every session of a node.
-/

namespace Mycelium.Coin

/-! ## Refill requests -/

namespace RefillRequest

/-- `bytes_for_signing`: every field but the signature, unframed. -/
def bytesForSigning (req : RefillRequest) : Bytes :=
  asBytes req.requestId ++ asBytes req.hotAddress ++ asBytes req.coldAddress
    ++ leBytes 8 req.amountMuon.toNat ++ leBytes 8 req.feeMuon.toNat
    ++ leBytes 8 req.createdAtMs.toNat ++ leBytes 8 req.expiresAtMs.toNat
    ++ req.hotPublicKey

/-- `REFILL_REQUEST_TTL_MS`. -/
def ttlMs : UInt64 := 15 * 60 * 1000

/-- `RefillRequest::new_signed`, with the id it draws and the time it reads. -/
def newSigned [Prims] (requestId : String) (createdAtMs : UInt64) (hotKeypair : Keypair)
    (coldAddress : Address) (amountMuon feeMuon : UInt64) : Option RefillRequest := do
  let req : RefillRequest :=
    { requestId, hotAddress := addressFromKeypair hotKeypair, coldAddress, amountMuon, feeMuon,
      createdAtMs, expiresAtMs := U64.satAdd createdAtMs ttlMs
      hotPublicKey := Prims.encodeProtobuf (Prims.identity.pub hotKeypair), signature := [] }
  let signature ← Prims.identity.sign hotKeypair req.bytesForSigning
  return { req with signature }

/-- `RefillRequest::verify`. -/
def verify [Prims] (req : RefillRequest) : Bool :=
  if !validateAddress req.hotAddress || !validateAddress req.coldAddress then false
  else if req.hotAddress = req.coldAddress then false
  else if req.expiresAtMs < req.createdAtMs then false
  else
    match Prims.tryDecodeProtobuf req.hotPublicKey with
    | none => false
    | some pk =>
      if addressFromPublicKey pk != req.hotAddress then false
      else Prims.identity.verify pk req.bytesForSigning req.signature

end RefillRequest

/-- `{result:?}`. The texts of `Invalid` hold no character that would be escaped. -/
def ApplyResult.debug : ApplyResult → String
  | .accepted => "Accepted"
  | .duplicate => "Duplicate"
  | .invalidNonce expected got =>
    "InvalidNonce \x7b expected: " ++ toString expected ++ ", got: " ++ toString got ++ " \x7d"
  | .insufficientFunds have_ need =>
    "InsufficientFunds \x7b have: " ++ toString have_ ++ ", need: " ++ toString need ++ " \x7d"
  | .invalid msg => "Invalid(\"" ++ msg ++ "\")"

/-! ## The node and its world -/

/-- What the transport is asked to carry. -/
inductive CoinOutput where
  | broadcast (payload : CoinPayload)
  | sendDirect (toPeer : String) (payload : CoinPayload)
deriving DecidableEq

/-- The answers of the world during one call. No call uses any of them twice, except the
clock, which the handler and `Transaction::new` read. -/
structure CoinEnv where
  nowMs : UInt64
  txTimeMs : UInt64
  loadOrCreateKeypair : String → Except String Keypair
  broadcast : Except String Unit
  sendDirect : Except String Unit
  markRefill : Except String Unit

/-- `CoinNode`: its ledger, with the calls made on it, and the `refill_applied` tree of the
same database. -/
structure CoinNode where
  session : Session
  refillApplied : KvTree.Of String Bytes
  localAddress : Address
  localPeerId : String
  coinIdentityPath : String
  out : List CoinOutput

namespace CoinNode

abbrev ledger (n : CoinNode) : LocalLedger := n.session.ledger

/-- `CoinNode::new` on a just created database. -/
def new (policy : SettlementPolicy) (localAddress : Address)
    (localPeerId coinIdentityPath : String) : CoinNode :=
  { session := .start policy, refillApplied := ∅, localAddress, localPeerId, coinIdentityPath,
    out := [] }

/-- Whatever the transport answers, it was asked. -/
def broadcastCoinInner (n : CoinNode) (env : CoinEnv) (payload : CoinPayload) :
    Except String Unit × CoinNode :=
  (env.broadcast, { n with out := n.out ++ [.broadcast payload] })

def sendDirectCoinInner (n : CoinNode) (env : CoinEnv) (toPeer : String) (payload : CoinPayload) :
    Except String Unit × CoinNode :=
  (env.sendDirect, { n with out := n.out ++ [.sendDirect toPeer payload] })

/-- `refill_already_applied`. -/
def refillAlreadyApplied (n : CoinNode) (requestId : String) : Bool :=
  (n.refillApplied.lookup requestId).isSome

/-- `mark_refill_applied`; a failed write leaves the tree as it was. -/
def markRefillApplied (n : CoinNode) (env : CoinEnv) (requestId : String) :
    Except String Unit × CoinNode :=
  match env.markRefill with
  | .error e => (.error e, n)
  | .ok () => (.ok (), { n with refillApplied := n.refillApplied.insert requestId [1] })

section

variable [Prims]

/-- A call on the node's ledger. -/
def call (n : CoinNode) (c : LedgerCall) : CoinNode := { n with session := n.session.step c }

/-! ## The methods -/

/-- The transfer that `submit_transfer_from_identity_path` signs. -/
def buildTransfer (n : CoinNode) (env : CoinEnv) (identityPath : String) (toAddr : Address)
    (amountMuon feeMuon : UInt64) (memo : Option String) : Except String Transaction :=
  match env.loadOrCreateKeypair identityPath with
  | .error e => .error e
  | .ok kp =>
    if addressFromKeypair kp ≠ n.localAddress then .error "identity does not match coin address"
    else
      let nonce := (n.ledger.account n.localAddress).nextNonce
      match Transaction.new env.txTimeMs toAddr amountMuon feeMuon nonce memo kp with
      | none => .error "signing failed"
      | some tx => .ok tx

/-- `send_transaction`. -/
def sendTransaction (n : CoinNode) (env : CoinEnv) (tx : Transaction) :
    Except String Unit × CoinNode :=
  let n' := n.call (.applyTransaction tx)
  match (n.ledger.applyTransaction tx).1 with
  | .error e => (.error e, n')
  | .ok .accepted => n'.broadcastCoinInner env (.transaction tx)
  | .ok result => (.error ("TX rejected: " ++ result.debug), n')

/-- `submit_transfer_from_identity_path`. -/
def submitTransferFromIdentityPath (n : CoinNode) (env : CoinEnv) (identityPath : String)
    (toAddr : Address) (amountMuon feeMuon : UInt64) (memo : Option String) :
    Except String Unit × CoinNode :=
  match n.buildTransfer env identityPath toAddr amountMuon feeMuon memo with
  | .error e => (.error e, n)
  | .ok tx => n.sendTransaction env tx

/-- An arriving transaction: whoever holds it already, or accepts it, is its witness. -/
def handleTransaction (n : CoinNode) (env : CoinEnv) (tx : Transaction) :
    Except String Unit × CoinNode :=
  let n₁ := n.call (.applyTransaction tx)
  let n₂ := n₁.call (.addWitness tx.id n.localPeerId)
  match (n.ledger.applyTransaction tx).1 with
  | .error e => (.error e, n₁)
  | .ok .accepted =>
    match (n₁.ledger.addWitness tx.id n.localPeerId).1 with
    | .error e => (.error e, n₂)
    | .ok _ => n₂.broadcastCoinInner env (.witness tx.id n.localPeerId)
  -- a known transaction is witnessed too, and told on only when that witness is new
  | .ok .duplicate =>
    match (n₁.ledger.addWitness tx.id n.localPeerId).1 with
    | .error e => (.error e, n₂)
    | .ok true => n₂.broadcastCoinInner env (.witness tx.id n.localPeerId)
    | .ok false => (.ok (), n₂)
  | .ok _ => (.ok (), n₁)

/-- A refill request. The failure of the transfer and that of the mark are only logged. -/
def handleRefillRequest (n : CoinNode) (env : CoinEnv) (req : RefillRequest) :
    Except String Unit × CoinNode :=
  if req.coldAddress ≠ n.localAddress then (.ok (), n)
  else if req.expiresAtMs < env.nowMs then (.ok (), n)
  else if !req.verify then (.ok (), n)
  else if n.refillAlreadyApplied req.requestId then (.ok (), n)
  else
    match n.submitTransferFromIdentityPath env n.coinIdentityPath req.hotAddress req.amountMuon
        req.feeMuon (some "refill") with
    | (.ok (), n') => (.ok (), (n'.markRefillApplied env req.requestId).2)
    | (.error _, n') => (.ok (), n')

/-- `handle_incoming`. -/
def handleIncoming (n : CoinNode) (env : CoinEnv) (payload : CoinPayload) (fromPeer : String) :
    Except String Unit × CoinNode :=
  match payload with
  | .transaction tx => n.handleTransaction env tx
  | .witness txId peerId =>
    ((n.ledger.addWitness txId peerId).1.map fun _ => (), n.call (.addWitness txId peerId))
  | .balanceQuery address =>
    let acc := n.ledger.account address
    n.sendDirectCoinInner env fromPeer
      (.balanceResponse address acc.balanceMuon acc.pendingReceived)
  | .balanceResponse _ _ _ => (.ok (), n)
  | .refillRequest req => n.handleRefillRequest env req

/-- `request_faucet_coins`. -/
def requestFaucetCoins (n : CoinNode) : Except String Unit × CoinNode :=
  let acc := n.ledger.account n.localAddress
  if acc.balanceMuon = 0 && acc.pendingReceived = 0 then
    ((n.ledger.genesisCredit n.localAddress (10 * muonPerMxc)).1,
      n.call (.genesisCredit n.localAddress (10 * muonPerMxc)))
  else (.ok (), n)

end

end CoinNode

/-! ## Runs -/

/-- Something that happens to the node. `genesisCredit` is a credit granted through another
handle of the shared ledger. -/
inductive CoinEvent where
  | incoming (payload : CoinPayload) (fromPeer : String)
  | submit (identityPath : String) (toAddr : Address) (amountMuon feeMuon : UInt64)
      (memo : Option String)
  | send (tx : Transaction)
  | faucet
  | genesisCredit (address : Address) (amountMuon : UInt64)
deriving DecidableEq

namespace CoinNode

variable [Prims]

/-- One event, in the world `env`. -/
def step (n : CoinNode) (env : CoinEnv) : CoinEvent → CoinNode
  | .incoming payload fromPeer => (n.handleIncoming env payload fromPeer).2
  | .submit path toAddr amountMuon feeMuon memo =>
    (n.submitTransferFromIdentityPath env path toAddr amountMuon feeMuon memo).2
  | .send tx => (n.sendTransaction env tx).2
  | .faucet => n.requestFaucetCoins.2
  | .genesisCredit address amountMuon => n.call (.genesisCredit address amountMuon)

/-- The node after a list of events, each in its own world. -/
def run (n : CoinNode) (events : List (CoinEnv × CoinEvent)) : CoinNode :=
  events.foldl (fun n e => n.step e.1 e.2) n

/-- One more event at the end of a run. -/
theorem run_append_singleton (n : CoinNode) (events : List (CoinEnv × CoinEvent))
    (e : CoinEnv × CoinEvent) : n.run (events ++ [e]) = (n.run events).step e.1 e.2 := by
  simp [run]

/-- Every event of a run meets `P` in the state it happens in. -/
def Along (P : CoinNode → CoinEnv → CoinEvent → Prop) (n : CoinNode) :
    List (CoinEnv × CoinEvent) → Prop
  | [] => True
  | e :: events => P n e.1 e.2 ∧ (n.step e.1 e.2).Along P events

/-- A condition along a run that is one event longer. -/
theorem along_append_singleton {P : CoinNode → CoinEnv → CoinEvent → Prop}
    (events : List (CoinEnv × CoinEvent)) (e : CoinEnv × CoinEvent) (n : CoinNode) :
    n.Along P (events ++ [e]) ↔ n.Along P events ∧ P (n.run events) e.1 e.2 := by
  induction events generalizing n with
  | nil => simp [Along, run]
  | cons e' events ih =>
    show (P n e'.1 e'.2 ∧ (n.step e'.1 e'.2).Along P (events ++ [e])) ↔ _
    rw [ih, ← and_assoc]
    rfl

/-! ## The ledger calls of an event -/

/-- A refill request that passes every check before the transfer. -/
structure RefillDue (n : CoinNode) (env : CoinEnv) (req : RefillRequest) : Prop where
  addressed : req.coldAddress = n.localAddress
  unexpired : env.nowMs ≤ req.expiresAtMs
  verified : req.verify = true
  unmarked : n.refillAlreadyApplied req.requestId = false

instance (n : CoinNode) (env : CoinEnv) (req : RefillRequest) : Decidable (n.RefillDue env req) :=
  decidable_of_iff
    (req.coldAddress = n.localAddress ∧ env.nowMs ≤ req.expiresAtMs ∧ req.verify = true
      ∧ n.refillAlreadyApplied req.requestId = false)
    ⟨fun ⟨h₁, h₂, h₃, h₄⟩ => ⟨h₁, h₂, h₃, h₄⟩, fun ⟨h₁, h₂, h₃, h₄⟩ => ⟨h₁, h₂, h₃, h₄⟩⟩

/-- The transfer of a due refill request. -/
def buildRefill (n : CoinNode) (env : CoinEnv) (req : RefillRequest) : Except String Transaction :=
  n.buildTransfer env n.coinIdentityPath req.hotAddress req.amountMuon req.feeMuon (some "refill")

/-- The calls of a transfer, if it could be built. -/
def transferCalls : Except String Transaction → List LedgerCall
  | .error _ => []
  | .ok tx => [.applyTransaction tx]

/-- The ledger calls an event makes. -/
def calls (n : CoinNode) (env : CoinEnv) : CoinEvent → List LedgerCall
  | .incoming (.transaction tx) _ =>
    if (n.ledger.applyTransaction tx).1 = .ok .accepted
        ∨ (n.ledger.applyTransaction tx).1 = .ok .duplicate
      then [.applyTransaction tx, .addWitness tx.id n.localPeerId]
      else [.applyTransaction tx]
  | .incoming (.witness txId peerId) _ => [.addWitness txId peerId]
  | .incoming (.balanceQuery _) _ => []
  | .incoming (.balanceResponse _ _ _) _ => []
  | .incoming (.refillRequest req) _ =>
    if n.RefillDue env req then transferCalls (n.buildRefill env req) else []
  | .submit path toAddr amountMuon feeMuon memo =>
    transferCalls (n.buildTransfer env path toAddr amountMuon feeMuon memo)
  | .send tx => [.applyTransaction tx]
  | .faucet =>
    if (n.ledger.account n.localAddress).balanceMuon = 0
        ∧ (n.ledger.account n.localAddress).pendingReceived = 0
      then [.genesisCredit n.localAddress (10 * muonPerMxc)]
      else []
  | .genesisCredit address amountMuon => [.genesisCredit address amountMuon]

/-! ## A run of the node is a run of its ledger -/

omit [Prims] in
/-- A broadcast does not touch the ledger. -/
@[simp] theorem broadcastCoinInner_session (n : CoinNode) (env : CoinEnv) (payload : CoinPayload) :
    (n.broadcastCoinInner env payload).2.session = n.session := rfl

omit [Prims] in
/-- Nor does the mark of a refill that was applied. -/
@[simp] theorem markRefillApplied_session (n : CoinNode) (env : CoinEnv) (requestId : String) :
    (n.markRefillApplied env requestId).2.session = n.session := by
  unfold markRefillApplied
  split <;> rfl

/-- A call on the node's ledger is a step of its session. -/
@[simp] theorem call_session (n : CoinNode) (c : LedgerCall) :
    (n.call c).session = n.session.step c := rfl

/-- A list of one call. -/
theorem foldl_step_singleton (s : Session) (c : LedgerCall) : [c].foldl Session.step s = s.step c :=
  rfl

/-- A transaction is applied before it is broadcast, whatever becomes of the broadcast. -/
theorem sendTransaction_session (n : CoinNode) (env : CoinEnv) (tx : Transaction) :
    (n.sendTransaction env tx).2.session = n.session.step (.applyTransaction tx) := by
  unfold sendTransaction
  dsimp only
  split <;> rfl

/-- A transfer of the own identity makes one call if it can be built, and none otherwise. -/
theorem submit_session (n : CoinNode) (env : CoinEnv) (path : String) (toAddr : Address)
    (amountMuon feeMuon : UInt64) (memo : Option String) :
    (n.submitTransferFromIdentityPath env path toAddr amountMuon feeMuon memo).2.session
      = (transferCalls (n.buildTransfer env path toAddr amountMuon feeMuon memo)).foldl
          Session.step n.session := by
  unfold submitTransferFromIdentityPath
  split
  · next e he => rw [he]; rfl
  · next tx htx =>
    rw [htx]
    exact n.sendTransaction_session env tx

/-- A gossiped transaction is applied, and witnessed if it was accepted. -/
theorem handleTransaction_session (n : CoinNode) (env : CoinEnv) (tx : Transaction)
    (fromPeer : String) :
    (n.handleTransaction env tx).2.session
      = (n.calls env (.incoming (.transaction tx) fromPeer)).foldl Session.step n.session := by
  unfold handleTransaction calls
  dsimp only
  split
  · next e he => rw [he, if_neg (by simp)]; rfl
  · next hacc =>
    rw [hacc, if_pos (.inl rfl)]
    split <;> rfl
  · next hdup =>
    rw [hdup, if_pos (.inr rfl)]
    split <;> rfl
  · next r hnacc hndup heq =>
    rw [heq, if_neg]
    · rfl
    · rintro (h | h)
      · exact hnacc (Except.ok.inj h)
      · exact hndup (Except.ok.inj h)

/-- A refill request does nothing, or it submits the transfer and marks the request. -/
theorem handleRefillRequest_eq (n : CoinNode) (env : CoinEnv) (req : RefillRequest) :
    n.handleRefillRequest env req =
      if n.RefillDue env req then
        match n.submitTransferFromIdentityPath env n.coinIdentityPath req.hotAddress
            req.amountMuon req.feeMuon (some "refill") with
        | (.ok (), n') => (.ok (), (n'.markRefillApplied env req.requestId).2)
        | (.error _, n') => (.ok (), n')
      else (.ok (), n) := by
  unfold handleRefillRequest
  -- the four early returns in the order of the source, then the transfer
  by_cases haddr : req.coldAddress = n.localAddress
  swap
  · rw [if_pos haddr, if_neg (fun h => haddr h.addressed)]
  rw [if_neg (by simpa using haddr)]
  by_cases hexp : req.expiresAtMs < env.nowMs
  · rw [if_pos hexp, if_neg]
    intro h
    have hle := U64.le_iff.mp h.unexpired
    have hlt := U64.lt_iff.mp hexp
    omega
  rw [if_neg hexp]
  by_cases hver : req.verify = true
  swap
  · rw [if_pos (by simpa using hver), if_neg (fun h => hver h.verified)]
  rw [if_neg (by simpa using hver)]
  by_cases hdone : n.refillAlreadyApplied req.requestId = true
  · rw [if_pos hdone, if_neg]
    intro h
    rw [h.unmarked] at hdone
    cases hdone
  rw [if_neg hdone, if_pos]
  refine ⟨haddr, ?_, hver, by simpa using hdone⟩
  rw [U64.le_iff]
  rw [U64.lt_iff] at hexp
  omega

/-- A refill request is paid by one transfer, if it is due. -/
theorem handleRefillRequest_session (n : CoinNode) (env : CoinEnv) (req : RefillRequest) :
    (n.handleRefillRequest env req).2.session
      = (if n.RefillDue env req then transferCalls (n.buildRefill env req) else []).foldl
          Session.step n.session := by
  rw [handleRefillRequest_eq]
  by_cases hdue : n.RefillDue env req
  · rw [if_pos hdue, if_pos hdue]
    have hsub := n.submit_session env n.coinIdentityPath req.hotAddress req.amountMuon
      req.feeMuon (some "refill")
    unfold buildRefill
    rw [← hsub]
    split
    · next n' heq => rw [heq, markRefillApplied_session]
    · next e n' heq => rw [heq]
  · rw [if_neg hdue, if_neg hdue]
    rfl

/-- The faucet gives once, to an account that has nothing. -/
theorem requestFaucetCoins_session (n : CoinNode) :
    n.requestFaucetCoins.2.session
      = (if (n.ledger.account n.localAddress).balanceMuon = 0
            ∧ (n.ledger.account n.localAddress).pendingReceived = 0
          then [LedgerCall.genesisCredit n.localAddress (10 * muonPerMxc)]
          else []).foldl Session.step n.session := by
  unfold requestFaucetCoins
  simp only [Bool.and_eq_true, decide_eq_true_eq]
  by_cases hempty : (n.ledger.account n.localAddress).balanceMuon = 0
      ∧ (n.ledger.account n.localAddress).pendingReceived = 0
  · rw [if_pos hempty, if_pos hempty, foldl_step_singleton]
    exact n.call_session _
  · rw [if_neg hempty, if_neg hempty]
    rfl

/-- **An event makes exactly its calls.** -/
theorem step_session (n : CoinNode) (env : CoinEnv) (e : CoinEvent) :
    (n.step env e).session = (n.calls env e).foldl Session.step n.session := by
  cases e with
  | incoming payload fromPeer =>
    cases payload with
    | transaction tx => exact n.handleTransaction_session env tx fromPeer
    | witness txId peerId => rfl
    | balanceQuery address => rfl
    | balanceResponse address balanceMuon pendingMuon => rfl
    | refillRequest req => exact n.handleRefillRequest_session env req
  | submit path toAddr amountMuon feeMuon memo => exact n.submit_session env path toAddr _ _ memo
  | send tx => exact n.sendTransaction_session env tx
  | faucet =>
    exact n.requestFaucetCoins_session
  | genesisCredit address amountMuon => rfl

/-- What the node signs is the transfer it was asked for, without witnesses. -/
theorem buildTransfer_fields {n : CoinNode} {env : CoinEnv} {path : String} {toAddr : Address}
    {amountMuon feeMuon : UInt64} {memo : Option String} {tx : Transaction}
    (h : n.buildTransfer env path toAddr amountMuon feeMuon memo = .ok tx) :
    tx.toAddr = toAddr ∧ tx.amountMuon = amountMuon ∧ tx.feeMuon = feeMuon ∧ tx.witnesses = ∅ := by
  unfold buildTransfer at h
  split at h
  · cases h
  split at h
  · cases h
  dsimp only at h
  split at h
  · cases h
  next tx' hnew =>
    obtain rfl := Except.ok.inj h
    unfold Transaction.new at hnew
    obtain ⟨signature, _, hsome⟩ := Option.bind_eq_some_iff.mp hnew
    obtain rfl := Option.some.inj hsome
    exact ⟨rfl, rfl, rfl, rfl⟩

/-- The ledger calls of a run. -/
def allCalls (n : CoinNode) : List (CoinEnv × CoinEvent) → List LedgerCall
  | [] => []
  | e :: events => n.calls e.1 e.2 ++ (n.step e.1 e.2).allCalls events

/-- **A run of the node is a run of its ledger.** -/
theorem run_session (events : List (CoinEnv × CoinEvent)) (n : CoinNode) :
    (n.run events).session = (n.allCalls events).foldl Session.step n.session := by
  induction events generalizing n with
  | nil => rfl
  | cons e events ih =>
    rw [allCalls, List.foldl_append, ← step_session]
    exact ih _

/-- The calls of a run are those of its parts. -/
theorem allCalls_append (events events' : List (CoinEnv × CoinEvent)) (n : CoinNode) :
    n.allCalls (events ++ events') = n.allCalls events ++ (n.run events).allCalls events' := by
  induction events generalizing n with
  | nil => rfl
  | cons e events ih =>
    rw [List.cons_append, allCalls, allCalls, ih, List.append_assoc]
    rfl

/-- The ledger of a fresh node after a run is one of a ledger run. -/
theorem new_run_session (policy : SettlementPolicy) (a : Address) (peer path : String)
    (events : List (CoinEnv × CoinEvent)) :
    ((CoinNode.new policy a peer path).run events).session
      = Session.run policy ((CoinNode.new policy a peer path).allCalls events) :=
  run_session events _

/-! ## What an event leaves alone -/

/-- Two nodes that differ in their sessions and outputs only. -/
structure SameRest (n n' : CoinNode) : Prop where
  refillApplied : n'.refillApplied = n.refillApplied
  localPeerId : n'.localPeerId = n.localPeerId

/-- A call changes the ledger only. -/
theorem call_rest (n : CoinNode) (c : LedgerCall) : SameRest n (n.call c) := ⟨rfl, rfl⟩

/-- Sending changes the ledger and the outputs. -/
theorem sendTransaction_rest (n : CoinNode) (env : CoinEnv) (tx : Transaction) :
    SameRest n (n.sendTransaction env tx).2 := by
  unfold sendTransaction
  dsimp only
  split <;> exact ⟨rfl, rfl⟩

/-- So does a transfer of the own identity. -/
theorem submit_rest (n : CoinNode) (env : CoinEnv) (path : String) (toAddr : Address)
    (amountMuon feeMuon : UInt64) (memo : Option String) :
    SameRest n (n.submitTransferFromIdentityPath env path toAddr amountMuon feeMuon memo).2 := by
  unfold submitTransferFromIdentityPath
  split
  · exact ⟨rfl, rfl⟩
  · exact n.sendTransaction_rest env _

/-- And a gossiped transaction. -/
theorem handleTransaction_rest (n : CoinNode) (env : CoinEnv) (tx : Transaction) :
    SameRest n (n.handleTransaction env tx).2 := by
  unfold handleTransaction
  dsimp only
  split
  · exact ⟨rfl, rfl⟩
  · split <;> exact ⟨rfl, rfl⟩
  · split <;> exact ⟨rfl, rfl⟩
  · exact ⟨rfl, rfl⟩

/-- And the faucet. -/
theorem requestFaucetCoins_rest (n : CoinNode) : SameRest n n.requestFaucetCoins.2 := by
  unfold requestFaucetCoins
  dsimp only
  split
  · exact n.call_rest _
  · exact ⟨rfl, rfl⟩

/-- Only a refill request changes anything but the ledger and the outputs. -/
theorem step_rest (n : CoinNode) (env : CoinEnv) {e : CoinEvent}
    (he : ∀ req fromPeer, e ≠ .incoming (.refillRequest req) fromPeer) :
    SameRest n (n.step env e) := by
  cases e with
  | incoming payload fromPeer =>
    cases payload with
    | transaction tx => exact n.handleTransaction_rest env tx
    | witness txId peerId => exact ⟨rfl, rfl⟩
    | balanceQuery address => exact ⟨rfl, rfl⟩
    | balanceResponse address balanceMuon pendingMuon => exact ⟨rfl, rfl⟩
    | refillRequest req => exact absurd rfl (he req fromPeer)
  | submit path toAddr amountMuon feeMuon memo =>
    exact n.submit_rest env path toAddr amountMuon feeMuon memo
  | send tx => exact n.sendTransaction_rest env tx
  | faucet => exact n.requestFaucetCoins_rest
  | genesisCredit address amountMuon => exact ⟨rfl, rfl⟩

omit [Prims] in
/-- The mark of a refill does not change the name of the node. -/
theorem markRefillApplied_localPeerId (n : CoinNode) (env : CoinEnv) (requestId : String) :
    (n.markRefillApplied env requestId).2.localPeerId = n.localPeerId := by
  unfold markRefillApplied
  split <;> rfl

/-- No event changes it. -/
theorem step_localPeerId (n : CoinNode) (env : CoinEnv) (e : CoinEvent) :
    (n.step env e).localPeerId = n.localPeerId := by
  by_cases he : ∀ req fromPeer, e ≠ .incoming (.refillRequest req) fromPeer
  · exact (n.step_rest env he).localPeerId
  · push Not at he
    obtain ⟨req, fromPeer, rfl⟩ := he
    show (n.handleRefillRequest env req).2.localPeerId = n.localPeerId
    have hsub := (n.submit_rest env n.coinIdentityPath req.hotAddress req.amountMuon
      req.feeMuon (some "refill")).localPeerId
    rw [handleRefillRequest_eq]
    split
    · split
      · next n' heq =>
        rw [heq] at hsub
        rw [markRefillApplied_localPeerId, hsub]
      · next n' heq =>
        rw [heq] at hsub
        exact hsub
    · rfl

/-- Nor does a run. Induction on the events. -/
theorem run_localPeerId (n : CoinNode) (events : List (CoinEnv × CoinEvent)) :
    (n.run events).localPeerId = n.localPeerId := by
  induction events using List.reverseRecOn with
  | nil => rfl
  | append_singleton events e ih => rw [run_append_singleton, step_localPeerId, ih]

end CoinNode

/-- A world in which everything succeeds and no key is at hand. -/
def quietEnv : CoinEnv where
  nowMs := 10
  txTimeMs := 10
  loadOrCreateKeypair _ := .error "no identity"
  broadcast := .ok ()
  sendDirect := .ok ()
  markRefill := .ok ()

end Mycelium.Coin

import Mycelium.Coin.Transaction

/-!
# Mycelium coin — settlement policy and velocity windows

Translation of `mycelium-coin/src/settlement_policy.rs` and `mycelium-coin/src/velocity.rs`:
the hard caps a settlement is checked against, and the per-address window of recent
outbound settlements.

Above this layer the amount checks are read through `checkTransferAmount_ok_iff` and
`checkBalanceCap_ok_iff`: the saturating sum in `check_balance_cap` decides the *exact*
inequality as soon as the cap itself is not the largest word.
-/

namespace Mycelium.Coin

def defaultMaxBalanceMxc : UInt64 := 100
def hardMaxBalanceMxc : UInt64 := 300
def defaultMaxTxMxc : UInt64 := 25
def maxTxSerializedBytes : Nat := 4096
def defaultMaxTxPerHour : UInt32 := 20
def defaultMaxOutboundMxcPerHour : UInt64 := 50
def hourMs : UInt64 := 3600000

structure SettlementPolicy where
  /-- Maximum confirmed + pending balance per address (muon). -/
  maxBalanceMuon : UInt64
  /-- Maximum single transfer amount excluding fee (muon). -/
  maxTransferMuon : UInt64
  /-- Max serialized transaction size on the wire. -/
  maxTxBytes : Nat
  maxTxPerHour : UInt32
  maxOutboundMuonPerHour : UInt64
deriving DecidableEq, Repr

namespace SettlementPolicy

def betaDefaults : SettlementPolicy where
  maxBalanceMuon := defaultMaxBalanceMxc * muonPerMxc
  maxTransferMuon := defaultMaxTxMxc * muonPerMxc
  maxTxBytes := maxTxSerializedBytes
  maxTxPerHour := defaultMaxTxPerHour
  maxOutboundMuonPerHour := defaultMaxOutboundMxcPerHour * muonPerMxc

def hardCap : SettlementPolicy :=
  { betaDefaults with maxBalanceMuon := hardMaxBalanceMxc * muonPerMxc }

/-- `check_transfer_amount`. -/
def checkTransferAmount (p : SettlementPolicy) (amountMuon : UInt64) : Except String Unit :=
  if amountMuon = 0 then .error "transfer amount must be positive"
  else if p.maxTransferMuon < amountMuon then
    .error s!"transfer exceeds max single settlement ({p.maxTransferMuon} muon cap)"
  else .ok ()

/-- `check_tx_size`: the size, and the amount a second time. -/
def checkTxSize (p : SettlementPolicy) (tx : Transaction) (encodedLen : Nat) :
    Except String Unit :=
  if p.maxTxBytes < encodedLen then
    .error s!"settlement event exceeds max size ({p.maxTxBytes} bytes)"
  else p.checkTransferAmount tx.amountMuon

/-- `check_balance_cap`. -/
def checkBalanceCap (p : SettlementPolicy)
    (balanceMuon pendingReceivedMuon incomingMuon : UInt64) : Except String Unit :=
  let total := U64.satAdd (U64.satAdd balanceMuon pendingReceivedMuon) incomingMuon
  if p.maxBalanceMuon < total then
    .error s!"balance would exceed vault cap ({p.maxBalanceMuon} muon max)"
  else .ok ()

/-- `check_velocity`: the loop over the recent events keeps a count and a saturating sum
of those inside the last hour. -/
def checkVelocity (p : SettlementPolicy) (recent : List (UInt64 × UInt64))
    (nowMs newAmountMuon : UInt64) : Except String Unit :=
  let windowStart := U64.satSub nowMs hourMs
  let (count, outbound) := recent.foldl
    (fun (acc : UInt32 × UInt64) e =>
      if windowStart ≤ e.1 then (acc.1 + 1, U64.satAdd acc.2 e.2) else acc) (0, 0)
  if p.maxTxPerHour ≤ count then
    .error "velocity limit: too many settlements per hour"
  else if p.maxOutboundMuonPerHour < U64.satAdd outbound newAmountMuon then
    .error "velocity limit: hourly outbound settlement cap exceeded"
  else .ok ()

theorem checkTransferAmount_ok_iff {p : SettlementPolicy} {amountMuon : UInt64} :
    p.checkTransferAmount amountMuon = .ok ()
      ↔ 0 < amountMuon.toNat ∧ amountMuon.toNat ≤ p.maxTransferMuon.toNat := by
  have hzero : amountMuon = 0 ↔ amountMuon.toNat = 0 := by
    rw [← UInt64.toNat_inj]
    rfl
  unfold checkTransferAmount
  split
  · next h =>
    rw [hzero.mp h]
    simp
  · next hne =>
    rw [hzero] at hne
    split
    · next h =>
      rw [U64.lt_iff] at h
      simp only [reduceCtorEq, false_iff]
      omega
    · next h =>
      rw [U64.lt_iff] at h
      simp only [true_iff]
      omega

/-- The balance-cap check decides the exact inequality: the clamped sum can only reach
`u64::MAX`, which is above every cap but the largest. -/
theorem checkBalanceCap_ok_iff {p : SettlementPolicy} (hp : p.maxBalanceMuon.toNat < 2 ^ 64 - 1)
    (b q i : UInt64) :
    p.checkBalanceCap b q i = .ok () ↔ b.toNat + q.toNat + i.toNat ≤ p.maxBalanceMuon.toNat := by
  unfold checkBalanceCap
  simp only [U64.lt_iff, U64.toNat_satAdd]
  split
  · simp only [reduceCtorEq, false_iff]
    omega
  · simp only [true_iff]
    omega

end SettlementPolicy

/-! ## Velocity windows -/

def maxStoredEvents : Nat := 64

/-- Outbound settlements of one address: `(timestamp_ms, amount_muon)`, oldest first. -/
structure VelocityWindow where
  events : List (UInt64 × UInt64) := []
deriving DecidableEq, Repr

namespace VelocityWindow

/-- `push`: append, then pop from the front while over the limit. -/
def push (w : VelocityWindow) (timestampMs amountMuon : UInt64) : VelocityWindow :=
  let events := w.events ++ [(timestampMs, amountMuon)]
  { events := events.drop (events.length - maxStoredEvents) }

def recent (w : VelocityWindow) : List (UInt64 × UInt64) := w.events

end VelocityWindow

end Mycelium.Coin

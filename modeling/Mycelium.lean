import Mycelium.Lib.Words
import Mycelium.Lib.Tree
import Mycelium.Lib.Fields
import Mycelium.Lib.Free
import Mycelium.Lib.Interleave
import Mycelium.Lib.Register
import Mycelium.Lib.Signature
import Mycelium.Lib.Tokens
import Mycelium.Lib.Views
import Mycelium.Lib.Digits
import Mycelium.Lib.KeyedRows
import Mycelium.Core.Prims
import Mycelium.Core.Hex
import Mycelium.Core.Symbolic
import Mycelium.Lib.Hoare
import Mycelium.Core.Data
import Mycelium.Core.SigningBytes
import Mycelium.Core.Transport
import Mycelium.Core.Crypto
import Mycelium.Core.HopSignature
import Mycelium.Core.StoredFormat
import Mycelium.Core.Sync
import Mycelium.Core.AtRest
import Mycelium.Node.Security
import Mycelium.Node.IngestGuard
import Mycelium.Node.Storage
import Mycelium.Node.Forwarding
import Mycelium.Node.State
import Mycelium.Node.Handlers
import Mycelium.Node.Run
import Mycelium.Node.Symbolic
import Mycelium.Node.Walk
import Mycelium.Node.Invariants
import Mycelium.Node.AtMostOnce
import Mycelium.Node.Frames
import Mycelium.Node.RemoteFrames
import Mycelium.Node.MultiHop
import Mycelium.Node.DataFrames
import Mycelium.Node.Traces
import Mycelium.Node.Delivery
import Mycelium.Node.Network
import Mycelium.Node.HopLimit
import Mycelium.Node.GroupFlood
import Mycelium.Node.StoreOrigin
import Mycelium.Node.Tables
import Mycelium.Node.KeyBinding
import Mycelium.Node.Reputation
import Mycelium.Node.Commands
import Mycelium.Node.Broadcast
import Mycelium.Node.Secrets
import Mycelium.Node.Durability
import Mycelium.Coin.Transaction
import Mycelium.Coin.SettlementPolicy
import Mycelium.Coin.Ledger
import Mycelium.Coin.LedgerSteps
import Mycelium.Coin.Accounting
import Mycelium.Coin.LedgerRuns
import Mycelium.Coin.Witnessing
import Mycelium.Coin.Faults
import Mycelium.Coin.Concurrency
import Mycelium.Coin.Arrival
import Mycelium.Coin.Node
import Mycelium.Coin.Refill
import Mycelium.Coin.HotWallet
import Mycelium.Core.Text
import Mycelium.Coin.Payment
import Mycelium.Core.Invite
import Mycelium.Core.Recovery
import Mycelium.Node.DialTargets
import Mycelium.Node.IdentityLoading
import Mycelium.App.Revocation
import Mycelium.App.InstalledFiles
import Mycelium.Lib.Framing
import Mycelium.App.SignedContents
import Mycelium.Coin.Quorum
import Mycelium.Coin.Velocity
import Mycelium.App.Message
import Mycelium.App.Storage
import Mycelium.App.Node
import Mycelium.App.Attribution
import Mycelium.App.AppStore
import Mycelium.App.Confinement
import Mycelium.App.Routes
import Mycelium.App.Listings
import Mycelium.App.Bundle
import Mycelium.App.Install
import Mycelium.App.Bulletins
import Mycelium.App.Send
import Mycelium.App.Announce
import Mycelium.App.GroupMessages
import Mycelium.App.Capability
import Mycelium.App.MiniappStorage
import Mycelium.App.Bridge
import Mycelium.App.Isolation
import Mycelium.App.StorageQuota
import Mycelium.App.SafeMode
import Mycelium.App.Mediation
import Mycelium.App.RateLimits
import Mycelium.App.Proximity
import Mycelium.App.ProximityFormat
import Mycelium.App.Dispatch
import Mycelium.App.Consent
import Mycelium.App.Membership
import Mycelium.App.Incoming
import Mycelium.App.BodyTag
import Mycelium.Node.StoreIndex
import Mycelium.Node.SyncExchange
import Mycelium.Node.PendingQueue
import Mycelium.Node.StrikeMachine
import Mycelium.Node.PeerCap
import Mycelium.Node.PeerView
import Mycelium.Node.ReplayVerdict
import Mycelium.Node.MessageIds
import Mycelium.Node.ScopeRouting
import Mycelium.Node.Subscriptions
import Mycelium.Node.RelayCandidates
import Mycelium.Core.Bloom
import Mycelium.Core.InnerFrame
import Mycelium.Node.SyncRound
import Mycelium.Node.Entries
import Mycelium.Node.Suppression
import Mycelium.Node.ForwardTick
import Mycelium.Relay.Rendezvous
import Mycelium.Relay.Gauges
import Mycelium.App.Histories
import Mycelium.App.PostExpiry
import Mycelium.App.GroupIntegrity
import Mycelium.App.HtmlScan
import Mycelium.App.SignBundle
import Mycelium.App.AttestedSigning
import Mycelium.Node.SeenCaches
import Mycelium.App.ValuesAtRest
import Mycelium.Sim.Determinism
import Mycelium.Sim.Accounting
import Mycelium.Coin.Network
import Mycelium.App.GroupConversation
import Mycelium.Core.Sealing
import Mycelium.Node.Signals
import Mycelium.App.Conversation

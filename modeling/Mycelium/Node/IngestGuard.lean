import Mycelium.Core.Transport
import Mycelium.Lib.Tree
import Mathlib.Data.Finset.Basic

/-!
# Mycelium node — rate limits and the replay window

Translation of `mycelium-node/src/ingest_guard.rs` (SD-032, SD-060), and of the bounded
id caches: the node's `BasicSeenCache` and the per-author `AuthorReplayWindow` are both a
set of ids with the order of their arrival, trimmed from the front (`IdCache`).

* `le_of_checkEnvelopeFreshness` — the freshness window in natural numbers.
-/

namespace Mycelium.Node

/-- `MAX_GOSSIP_PAYLOAD_BYTES`. -/
def maxGossipPayloadBytes : Nat := 65536

/-- `REPLAY_MAX_AGE_MS`: thirty minutes. -/
def replayMaxAgeMs : UInt64 := 30 * 60 * 1000

/-- `REPLAY_MAX_FUTURE_SKEW_MS`: five minutes. -/
def replayMaxFutureSkewMs : UInt64 := 5 * 60 * 1000

/-- `DIRECT_RATE_PER_MINUTE`. -/
def directRatePerMinute : Nat := 120

/-- `GOSSIP_RATE_PER_MINUTE`. -/
def gossipRatePerMinute : Nat := 60

/-- `RATE_WINDOW_MS`. -/
def rateWindowMs : UInt64 := 60 * 1000

/-- `AUTHOR_ID_WINDOW`. -/
def authorIdWindow : Nat := 512

inductive IngestReject where
  | stale
  | replay
  | rateLimit
  | oversize
deriving DecidableEq, Repr

/-! ## Freshness -/

/-- `check_envelope_freshness`. -/
def checkEnvelopeFreshness (createdAtMs now : UInt64) : Bool :=
  if U64.satAdd now replayMaxFutureSkewMs < createdAtMs then false
  else U64.satSub now createdAtMs ≤ replayMaxAgeMs

/-- A fresh envelope is at most five minutes ahead of the clock and at most thirty behind. -/
theorem le_of_checkEnvelopeFreshness {created now : UInt64}
    (h : checkEnvelopeFreshness created now = true) :
    created.toNat ≤ now.toNat + 300000 ∧ now.toNat ≤ created.toNat + 1800000 := by
  unfold checkEnvelopeFreshness at h
  have hskew : replayMaxFutureSkewMs.toNat = 300000 := rfl
  have hage : replayMaxAgeMs.toNat = 1800000 := rfl
  split at h
  · exact absurd h (by simp)
  · next hlt =>
    simp only [decide_eq_true_eq, U64.le_iff, U64.toNat_satSub] at h
    rw [U64.lt_iff, U64.toNat_satAdd] at hlt
    omega

/-! ## Bounded id caches -/

/-- A set of ids and their order of arrival, oldest first. -/
structure IdCache where
  set : Finset String := ∅
  order : List String := []

namespace IdCache

/-- The trimming loop: pop the oldest id until at most `cap` are left. -/
def trimLoop (cap : Nat) : Finset String → List String → IdCache
  | set, [] => { set, order := [] }
  | set, oldest :: rest =>
    if cap < rest.length + 1 then trimLoop cap (set.erase oldest) rest
    else { set, order := oldest :: rest }

def contains (c : IdCache) (id : String) : Bool := decide (id ∈ c.set)

/-- Add a new id at the back, then trim. -/
def push (c : IdCache) (cap : Nat) (id : String) : IdCache :=
  trimLoop cap (insert id c.set) (c.order ++ [id])

/-- Trimming takes ids away. Induction on the order. -/
theorem contains_of_trimLoop {cap : Nat} {id : String} {set : Finset String} {order : List String}
    (h : (trimLoop cap set order).contains id = true) : decide (id ∈ set) = true := by
  induction order generalizing set with
  | nil => exact h
  | cons oldest rest ih =>
    unfold trimLoop at h
    split at h
    · exact decide_eq_true (Finset.mem_of_mem_erase (of_decide_eq_true (ih h)))
    · exact h

/-- A cache takes the new id, and no other. -/
theorem contains_of_push {c : IdCache} {cap : Nat} {id new : String}
    (h : (c.push cap new).contains id = true) :
    id = new ∨ c.contains id = true := by
  have hmem := of_decide_eq_true (contains_of_trimLoop h)
  rcases Finset.mem_insert.mp hmem with hnew | hold
  · exact .inl hnew
  · exact .inr (decide_eq_true hold)

end IdCache

/-- `BasicSeenCache`. -/
structure BasicSeenCache where
  cap : Nat
  cache : IdCache := {}

namespace BasicSeenCache

def new (cap : Nat) : BasicSeenCache := { cap }

def len (c : BasicSeenCache) : Nat := c.cache.set.card

def contains (c : BasicSeenCache) (messageId : String) : Bool := c.cache.contains messageId

/-- `insert`: an id already present only triggers the trimming loop. -/
def insert (c : BasicSeenCache) (messageId : String) : BasicSeenCache :=
  if c.cache.contains messageId then
    { c with cache := IdCache.trimLoop c.cap c.cache.set c.cache.order }
  else { c with cache := c.cache.push c.cap messageId }

theorem contains_of_insert {c : BasicSeenCache} {id new : String}
    (h : (c.insert new).contains id = true) : id = new ∨ c.contains id = true := by
  unfold insert at h
  split at h
  · exact .inr (IdCache.contains_of_trimLoop h)
  · exact IdCache.contains_of_push h

end BasicSeenCache

/-! ## Rate limiting -/

/-- `FixedWindowRateLimiter`: a count and a window start per key. -/
structure FixedWindowRateLimiter where
  limit : Nat
  windowMs : UInt64
  buckets : KvTree.Of String (Nat × UInt64) := ∅

/-- `FixedWindowRateLimiter::allow`. -/
def FixedWindowRateLimiter.allow (l : FixedWindowRateLimiter) (key : String) (now : UInt64) :
    Bool × FixedWindowRateLimiter :=
  let entry := (l.buckets.lookup key).getD (0, now)
  let entry := if l.windowMs ≤ U64.satSub now entry.2 then (0, now) else entry
  if l.limit ≤ entry.1 then (false, { l with buckets := l.buckets.insert key entry })
  else (true, { l with buckets := l.buckets.insert key (entry.1 + 1, entry.2) })

/-- `AuthorReplayWindow`. -/
structure AuthorReplayWindow where
  maxPerAuthor : Nat
  byAuthor : KvTree.Of String IdCache := ∅

/-- `is_duplicate`: whether `(author, messageId)` was seen recently; if not, it is now. -/
def AuthorReplayWindow.isDuplicate (w : AuthorReplayWindow) (author messageId : String) :
    Bool × AuthorReplayWindow :=
  let entry := (w.byAuthor.lookup author).getD {}
  if entry.contains messageId then (true, { w with byAuthor := w.byAuthor.insert author entry })
  else (false, { w with byAuthor := w.byAuthor.insert author (entry.push w.maxPerAuthor messageId) })

/-! ## The guard

Each check takes the guard last, so that `guardCheck` can be given the check itself. -/

structure IngestGuard where
  rateDirect : FixedWindowRateLimiter := { limit := directRatePerMinute, windowMs := rateWindowMs }
  rateGossip : FixedWindowRateLimiter := { limit := gossipRatePerMinute, windowMs := rateWindowMs }
  replay : AuthorReplayWindow := { maxPerAuthor := authorIdWindow }

namespace IngestGuard

/-- `allow_direct`: freshness, then the author's id window, then the author's rate. -/
def allowDirect (author : String) (msg : DirectMessage) (now : UInt64) (g : IngestGuard) :
    Except IngestReject Unit × IngestGuard :=
  if !checkEnvelopeFreshness msg.envelope.createdAtMs now then (.error .stale, g)
  else
    let (dup, replay) := g.replay.isDuplicate author msg.envelope.id
    if dup then (.error .replay, { g with replay })
    else
      let (ok, rateDirect) := g.rateDirect.allow author now
      if !ok then (.error .rateLimit, { g with replay, rateDirect })
      else (.ok (), { g with replay, rateDirect })

/-- `check_gossip_payload`: size and per-peer rate. -/
def checkGossipPayload (fromPeer : String) (payloadLen : Nat) (now : UInt64) (g : IngestGuard) :
    Except IngestReject Unit × IngestGuard :=
  if maxGossipPayloadBytes < payloadLen then (.error .oversize, g)
  else
    let (ok, rateGossip) := g.rateGossip.allow fromPeer now
    if !ok then (.error .rateLimit, { g with rateGossip })
    else (.ok (), { g with rateGossip })

/-- `check_gossip_message`: freshness and the per-author id window. -/
def checkGossipMessage (fromPeer messageId : String) (createdAtMs now : UInt64)
    (g : IngestGuard) : Except IngestReject Unit × IngestGuard :=
  if !checkEnvelopeFreshness createdAtMs now then (.error .stale, g)
  else
    let (dup, replay) := g.replay.isDuplicate fromPeer messageId
    if dup then (.error .replay, { g with replay }) else (.ok (), { g with replay })

/-- An allowed message is fresh. -/
theorem fresh_of_allowDirect {g : IngestGuard} {author : String} {msg : DirectMessage}
    {now : UInt64} (h : (g.allowDirect author msg now).1 = .ok ()) :
    checkEnvelopeFreshness msg.envelope.createdAtMs now = true := by
  unfold allowDirect at h
  split at h
  · exact absurd h (by simp)
  · next hfresh => simpa using hfresh

end IngestGuard

end Mycelium.Node

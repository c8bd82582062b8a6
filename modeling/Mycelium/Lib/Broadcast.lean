import Mathlib.Tactic

/-!
# Lib — a bounded broadcast channel, as one receiver sees it

A broadcast channel keeps the last `cap` messages. A receiver that is further behind than that is
told how many it missed, and goes on with the oldest message that is kept; an error also tells it
that nobody can send any more. Positions count from the receiver's subscription.

* `Channel` / `recv` — the channel and one receive;
* `recv_of_retained` — a receiver that is not too far behind gets the oldest message kept;
* `retained_ne_nil_of_lags` — one that is has messages waiting, and gets none.
-/

namespace Broadcast

/-- The messages sent since the subscription, the position of the receiver, and how many handles
can still send. -/
structure Channel (α : Type) (cap : Nat) where
  sent : List α := []
  next : Nat := 0
  senders : Nat

/-- Why a receive fails. -/
inductive RecvError where
  | closed
  | lagged (missed : Nat)
deriving DecidableEq

/-- What a receive comes to. -/
inductive Received (α : Type) where
  | waits
  | ok (m : α)
  | err (e : RecvError)

namespace Channel

variable {α : Type} {cap : Nat} (ch : Channel α cap)

/-- The position of the oldest message that is kept. -/
def oldest : Nat := ch.sent.length - cap

/-- The messages the receiver can still get. -/
def retained : List α := ch.sent.drop (max ch.next ch.oldest)

/-- How many messages were sent that the receiver has not received. -/
def backlog : Nat := ch.sent.length - ch.next

def send (m : α) : Channel α cap := { ch with sent := ch.sent ++ [m] }

def recv : Received α × Channel α cap :=
  if ch.next < ch.oldest then
    (.err (.lagged (ch.oldest - ch.next)), { ch with next := ch.oldest })
  else
    match ch.sent[ch.next]? with
    | some m => (.ok m, { ch with next := ch.next + 1 })
    | none => if ch.senders = 0 then (.err .closed, ch) else (.waits, ch)

variable {ch}

theorem lags_iff : ch.next < ch.oldest ↔ cap < ch.backlog := by
  unfold oldest backlog
  omega

theorem recv_of_lags (h : cap < ch.backlog) :
    ch.recv = (.err (.lagged (ch.oldest - ch.next)), { ch with next := ch.oldest }) := by
  unfold recv
  rw [if_pos (lags_iff.mpr h)]

/-- A receiver that is not too far behind gets the oldest message kept. -/
theorem recv_of_retained {m : α} {rest : List α} (h : ch.backlog ≤ cap)
    (hretained : ch.retained = m :: rest) :
    ch.recv = (.ok m, { ch with next := ch.next + 1 }) := by
  have hnot : ¬ ch.next < ch.oldest := by
    rw [lags_iff]
    omega
  have hget : ch.sent[ch.next]? = some m := by
    have hmax : max ch.next ch.oldest = ch.next := by omega
    unfold retained at hretained
    rw [hmax] at hretained
    rw [← Nat.add_zero ch.next, ← List.getElem?_drop, hretained]
    rfl
  unfold recv
  rw [if_neg hnot, hget]

/-- One that is has messages waiting. -/
theorem retained_ne_nil_of_lags (hcap : 0 < cap) (h : cap < ch.backlog) : ch.retained ≠ [] := by
  intro hnil
  have hlen := List.drop_eq_nil_iff.mp hnil
  unfold backlog at h
  unfold oldest at hlen
  omega

/-- A receive that fails of a receiver that is not too far behind: nobody can send any more. -/
theorem senders_of_recv_err {e : RecvError} {ch' : Channel α cap} (h : ch.backlog ≤ cap)
    (hrecv : ch.recv = (.err e, ch')) : ch'.senders = 0 := by
  have hnot : ¬ ch.next < ch.oldest := by
    rw [lags_iff]
    omega
  unfold recv at hrecv
  rw [if_neg hnot] at hrecv
  split at hrecv
  · cases hrecv
  · split at hrecv
    · next hsenders =>
      obtain ⟨-, rfl⟩ := Prod.mk.inj hrecv
      exact hsenders
    · cases hrecv

end Channel

end Broadcast

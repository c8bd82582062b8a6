import Mycelium.App.Attribution
import Mycelium.Lib.Broadcast
import Mycelium.Lib.Trail

/-!
# Mycelium app — the task that takes messages from the node

Translation of `start_incoming_task`: the app subscribes to the node's broadcast channel, which
keeps 512 messages, and hands what it receives to `dispatch_incoming` until a receive fails. A
receive also fails when the task is more than 512 messages behind, and the loop ends there, with
the node still sending.

* `IncomingTask` — the task, the app and the channel, one event at a time;
* `incoming_consumed_iff` — the task goes on and takes message after message, in every
  interleaving, exactly if it never receives with more than 512 messages waiting.
-/

namespace Mycelium.App

open Broadcast Trail

/-- The capacity of `incoming_tx`. -/
def incomingCapacity : Nat := 512

/-- The task with the app it feeds; `dispatched` records what it was fed, and when. -/
structure IncomingTask where
  channel : Channel DirectMessage incomingCapacity
  app : AppNode
  running : Bool := true
  dispatched : List (UInt64 × DirectMessage) := []

/-- The node sends, a handle that can send goes away, or the task gets to run, at an instant. -/
inductive TaskEvent where
  | send (msg : DirectMessage)
  | drop
  | recv (now : UInt64)

/-- `start_incoming_task`: the runner and every handle can send. -/
def startIncomingTask (senders : Nat) (app : AppNode) : IncomingTask where
  channel := { senders }
  app

section

variable [Prims] [AppCodec] [Node.WireCodec]

namespace IncomingTask

/-- One turn of the loop. -/
def turn (t : IncomingTask) (now : UInt64) : IncomingTask :=
  match t.channel.recv with
  | (.waits, channel) => { t with channel }
  | (.ok msg, channel) =>
    { t with
      channel
      app := t.app.dispatchIncoming now msg
      dispatched := t.dispatched ++ [(now, msg)] }
  | (.err _, channel) => { t with channel, running := false }

def step (t : IncomingTask) : TaskEvent → IncomingTask
  -- nobody sends without a handle
  | .send msg => if t.channel.senders = 0 then t else { t with channel := t.channel.send msg }
  | .drop => { t with channel := { t.channel with senders := t.channel.senders - 1 } }
  | .recv now => if t.running then t.turn now else t

omit [Prims] [AppCodec] [Node.WireCodec] in
/-- The task is in its loop as long as there is a sender. -/
def Alive (t : IncomingTask) : Prop := t.running = true ∨ t.channel.senders = 0

instance : DecidablePred Alive :=
  fun t => inferInstanceAs (Decidable (t.running = true ∨ t.channel.senders = 0))

/-- A receive with messages retained hands the oldest one to the app. -/
def HandsOldest (t : IncomingTask) : TaskEvent → Prop
  | .recv now => t.running = true → ∀ msg rest, t.channel.retained = msg :: rest →
    (t.step (.recv now)).dispatched = t.dispatched ++ [(now, msg)]
      ∧ (t.step (.recv now)).app = t.app.dispatchIncoming now msg
  | _ => True

omit [Prims] [AppCodec] [Node.WireCodec] in
/-- The task receives with at most 512 messages waiting. -/
def KeepsUp (t : IncomingTask) : TaskEvent → Prop
  | .recv _ => t.running = true → t.channel.backlog ≤ incomingCapacity
  | _ => True

variable {t : IncomingTask}

/-- A task that keeps up goes on. -/
theorem Alive.step {e : TaskEvent} (h : t.Alive) (hup : t.KeepsUp e) : (t.step e).Alive := by
  cases e with
  | send msg =>
    simp only [IncomingTask.step]
    split
    · exact h
    · exact h
  | drop =>
    rcases h with h | h
    · exact .inl h
    · refine .inr ?_
      show t.channel.senders - 1 = 0
      omega
  | recv now =>
    simp only [IncomingTask.step]
    split
    · next hrunning =>
      have hbacklog := hup hrunning
      unfold turn
      split
      · exact .inl hrunning
      · exact .inl hrunning
      · next hrecv => exact .inr (Channel.senders_of_recv_err hbacklog hrecv)
    · exact h

/-- **One receive**: the oldest message goes to the app exactly if the task is not too far
behind. -/
theorem handsOldest_iff (e : TaskEvent) : t.HandsOldest e ↔ t.KeepsUp e := by
  cases e with
  | send msg => exact Iff.rfl
  | drop => exact Iff.rfl
  | recv now =>
    simp only [HandsOldest, KeepsUp, IncomingTask.step]
    refine forall_congr' fun hrunning => ?_
    rw [if_pos hrunning]
    refine ⟨?_, ?_⟩
    · -- with more messages waiting, the receive fails and there is an oldest one
      intro hhands
      by_contra hlags
      have hlags' : incomingCapacity < t.channel.backlog := by omega
      cases hretained : t.channel.retained with
      | nil => exact Channel.retained_ne_nil_of_lags (by decide) hlags' hretained
      | cons msg rest =>
        have hrecord := (hhands msg rest hretained).1
        unfold turn at hrecord
        rw [Channel.recv_of_lags hlags'] at hrecord
        simp at hrecord
    · intro hbacklog msg rest hretained
      unfold turn
      rw [Channel.recv_of_retained hbacklog hretained]
      exact ⟨rfl, rfl⟩

end IncomingTask

/-- **The app keeps consuming messages**, whatever the interleaving of sends and receives, exactly
if the task never receives with more than 512 messages waiting. -/
theorem incoming_consumed_iff (senders : Nat) (app : AppNode) (es : List TaskEvent) :
    Always IncomingTask.step IncomingTask.Alive (startIncomingTask senders app) es
        ∧ Each IncomingTask.step IncomingTask.HandsOldest (startIncomingTask senders app) es
      ↔ Each IncomingTask.step IncomingTask.KeepsUp (startIncomingTask senders app) es := by
  refine ⟨?_, ?_⟩
  · intro h
    exact Each.imp (fun t e => (t.handsOldest_iff e).mp) h.2
  · intro h
    refine ⟨?_, Each.imp (fun t e => (t.handsOldest_iff e).mpr) h⟩
    exact always_of_each IncomingTask.Alive id (fun halive _ hup => halive.step hup) (.inl rfl) h h

end

section

attribute [local instance] symbolicPrims Node.noCodec chatCodec

/-- The node sends 513 messages before the task gets to run. -/
def burst : List TaskEvent := List.replicate 513 (.send honestMessage) ++ [.recv 5000000]

/-- The runner and the handle of the app can send; the task has ended. -/
theorem burst_ends_task :
    ¬ Always IncomingTask.step IncomingTask.Alive (startIncomingTask 2 freshApp) burst := by
  intro h
  have hend := (always_iff_prefixes _ _).mp h burst (List.prefix_refl _)
  revert hend
  decide +kernel

end

end Mycelium.App

import Zeptoclaw.Lib.Run
import Zeptoclaw.Spec.Bus

/-!
# Messages for a busy session

The queue of `agent/loop.rs`: `try_queue_or_process`, `drain_pending_messages` and the
`start` loop, which takes one message from the bus at a time, beside callers that run
`process_message` directly. Each step of the system is one access to a lock, to the queue
or to the bus. A session's lock is fair: it is not free for a test while someone waits.
-/

namespace Zeptoclaw

inductive MessageQueueMode where
  | collect
  | followup
  deriving DecidableEq, Repr

/-- `pending_messages`: the queued messages of each session, in order of arrival. -/
structure PendingMessages where
  get : Str → List InboundMessage
  keyed : ∀ key, ∀ msg ∈ get key, msg.sessionKey = key

namespace PendingMessages

def empty : PendingMessages := ⟨fun _ => [], fun _ _ h => by cases h⟩

/-- `entry(session_key).or_default().push(msg)`. -/
def push (p : PendingMessages) (msg : InboundMessage) : PendingMessages where
  get := fun key => if key = msg.sessionKey then p.get key ++ [msg] else p.get key
  keyed := by
    intro key m hm
    split at hm
    · next hkey =>
      rcases List.mem_append.1 hm with hm | hm
      · exact p.keyed key m hm
      · rw [List.mem_singleton.1 hm, hkey]
    · exact p.keyed key m hm

def remove (p : PendingMessages) (key : Str) : PendingMessages where
  get := fun k => if k = key then [] else p.get k
  keyed := by
    intro k m hm
    split at hm
    · cases hm
    · exact p.keyed k m hm

end PendingMessages

/-! ## Draining -/

/-- `"{}. {}"` with the numbers from `n` on. -/
def numbered : ℕ → List InboundMessage → List Str
  | _, [] => []
  | n, msg :: rest => ((toString n).toList ++ ". ".toList ++ msg.content) :: numbered (n + 1) rest

def collectedContent (pending : List InboundMessage) : Str :=
  "[Queued messages while I was busy]\n\n".toList ++ ['\n'].intercalate (numbered 1 pending)

/-- What `drain_pending_messages` publishes after `msg` for the messages it took. -/
def republished (mode : MessageQueueMode) (msg : InboundMessage) (pending : List InboundMessage) : List InboundMessage :=
  if pending = [] then []
  else
    match mode with
    | .collect => [.new msg.channel msg.senderId msg.chatId (collectedContent pending)]
    | .followup => pending

/-- `drain_pending_messages`: the published messages and the queue that is left. -/
def drainPendingMessages (mode : MessageQueueMode) (msg : InboundMessage) (p : PendingMessages) :
    List InboundMessage × PendingMessages :=
  (republished mode msg (p.get msg.sessionKey), p.remove msg.sessionKey)

/-! ## The system -/

/-- What the `start` loop is doing. -/
inductive LoopPhase where
  | idle
  -- a message taken from the bus, the session's lock not yet tested
  | consumed (msg : InboundMessage)
  -- found busy, not yet queued
  | queueing (msg : InboundMessage)
  -- in `process_message`, before and behind the session's lock
  | waiting (msg : InboundMessage)
  | running (msg : InboundMessage)
  | draining (msg : InboundMessage)

inductive Holder (ι : Type*) where
  | free
  | loop
  | direct (caller : ι)
  deriving DecidableEq

structure QueueState (ι : Type*) where
  bus : List InboundMessage
  loop : LoopPhase
  lock : Str → Holder ι
  -- the direct callers that wait for the lock of a session
  waiters : Str → List ι
  pending : PendingMessages

namespace QueueState

variable {ι : Type*}

def init : QueueState ι := ⟨[], .idle, fun _ => .free, fun _ => [], .empty⟩

/-- `try_lock` fails. -/
def busy (s : QueueState ι) (key : Str) : Prop := s.lock key ≠ .free ∨ s.waiters key ≠ []

instance [DecidableEq ι] (s : QueueState ι) (key : Str) : Decidable (s.busy key) :=
  inferInstanceAs (Decidable (_ ∨ _))

def setLock (s : QueueState ι) (key : Str) (holder : Holder ι) : QueueState ι :=
  { s with lock := Function.update s.lock key holder }

def setWaiters (s : QueueState ι) (key : Str) (waiters : List ι) : QueueState ι :=
  { s with waiters := Function.update s.waiters key waiters }

end QueueState

/-- What happens next: a message arrives, the loop takes its next step, or a direct caller
comes, gets a session's lock, gives it back or gives up waiting. -/
inductive QueueInput (ι : Type*) where
  | publish (msg : InboundMessage)
  -- `accepted`: the message passes the pairing check
  | consume (accepted : Bool)
  | test
  | push
  | acquire
  | finish
  -- the run times out before it has the lock
  | timeout
  | drain
  | arrive (caller : ι) (key : Str)
  | take (caller : ι) (key : Str)
  | release (caller : ι) (key : Str)
  | abandon (caller : ι) (key : Str)

section Step

variable {ι : Type*} [DecidableEq ι]

/-- `try_queue_or_process`, up to the test. -/
def testSession (s : QueueState ι) (msg : InboundMessage) : QueueState ι :=
  if s.busy msg.sessionKey then { s with loop := .queueing msg } else { s with loop := .waiting msg }

/-- A step of the loop with its message. -/
def loopStep (mode : MessageQueueMode) (s : QueueState ι) : QueueInput ι → QueueState ι
  | .consume accepted =>
    match s.loop, s.bus with
    | .idle, msg :: rest => { s with bus := rest, loop := if accepted then .consumed msg else .idle }
    | _, _ => s
  | .test =>
    match s.loop with
    | .consumed msg => testSession s msg
    | _ => s
  | .push =>
    match s.loop with
    | .queueing msg => { s with loop := .idle, pending := s.pending.push msg }
    | _ => s
  | .acquire =>
    match s.loop with
    | .waiting msg =>
      if s.lock msg.sessionKey = .free then { s.setLock msg.sessionKey .loop with loop := .running msg } else s
    | _ => s
  | .finish =>
    match s.loop with
    | .running msg => { s.setLock msg.sessionKey .free with loop := .draining msg }
    | _ => s
  | .timeout =>
    match s.loop with
    | .waiting msg => { s with loop := .draining msg }
    | _ => s
  | .drain =>
    match s.loop with
    | .draining msg =>
      let (published, pending) := drainPendingMessages mode msg s.pending
      { s with loop := .idle, bus := s.bus ++ published, pending }
    | _ => s
  | _ => s

def queueStep (mode : MessageQueueMode) (s : QueueState ι) : QueueInput ι → QueueState ι
  | .publish msg => { s with bus := s.bus ++ [msg] }
  | .arrive caller key => s.setWaiters key (s.waiters key ++ [caller])
  | .take caller key =>
    if caller ∈ s.waiters key ∧ s.lock key = .free then
      (s.setLock key (.direct caller)).setWaiters key ((s.waiters key).erase caller)
    else s
  | .release caller key => if s.lock key = .direct caller then s.setLock key .free else s
  | .abandon caller key => s.setWaiters key ((s.waiters key).erase caller)
  | input => loopStep mode s input

end Step

end Zeptoclaw

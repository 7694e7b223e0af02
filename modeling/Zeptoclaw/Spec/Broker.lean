import Zeptoclaw.Lib.Assoc
import Zeptoclaw.Lib.Run
import Zeptoclaw.Lib.Text
import Mathlib.Logic.Function.Basic

/-!
# The approval broker

`ApprovalBroker` (`tools/approval_broker.rs`) and the handler that waits for its decision
(`cli/gateway.rs`). A request is known by the number of its registration, which stands for
its oneshot channel: the sender is in the queue, the receiver with the handler.
-/

namespace Zeptoclaw

structure ThreadKey where
  user : Str
  agent : Str
  deriving DecidableEq, Repr

structure PendingEntry where
  requestId : Str
  hardFloor : Bool
  createdAt : ℕ
  tx : ℕ
  deriving DecidableEq, Repr

abbrev Pending : Type := Assoc ThreadKey (List PendingEntry)

/-- The receiving end of a request. -/
inductive Receiver where
  | waiting
  | received (approved : Bool)
  -- the handler timed out or was cancelled, and dropped the receiver
  | gone
  -- the sender was dropped
  | closed
  deriving DecidableEq, Repr

@[ext]
structure ApprovalBroker where
  pending : Pending
  -- the thread of each request, in the order of registration
  registered : List ThreadKey
  receivers : ℕ → Receiver
  -- every `tx.send`, in order
  sent : List (ℕ × Bool)

namespace ApprovalBroker

def new : ApprovalBroker := ⟨∅, [], fun _ => .closed, []⟩

/-- The queue of a thread. -/
def queue (b : ApprovalBroker) (thread : ThreadKey) : List PendingEntry := (b.pending.lookup thread).getD []

/-- A queue is put back, or its key removed if it is empty. -/
def putQueue (pending : Pending) (thread : ThreadKey) (queue : List PendingEntry) : Pending :=
  if queue.isEmpty then pending.erase thread else pending.insert thread queue

/-- `entry.tx.send(approved)`, with `is_ok()`. -/
def send (b : ApprovalBroker) (approved : Bool) (entry : PendingEntry) : ApprovalBroker × Bool :=
  let b := { b with sent := b.sent ++ [(entry.tx, approved)] }
  if b.receivers entry.tx = .waiting then
    ({ b with receivers := Function.update b.receivers entry.tx (.received approved) }, true)
  else (b, false)

/-- `ApprovalBroker::register`. -/
def register (b : ApprovalBroker) (thread : ThreadKey) (requestId : Str) (hardFloor : Bool) (now : ℕ) :
    ApprovalBroker :=
  let entry : PendingEntry := ⟨requestId, hardFloor, now, b.registered.length⟩
  { b with
    pending := b.pending.insert thread (b.queue thread ++ [entry])
    registered := b.registered ++ [thread]
    receivers := Function.update b.receivers b.registered.length .waiting }

/-- `ApprovalBroker::resolve_by_id`. -/
def resolveById (b : ApprovalBroker) (thread : ThreadKey) (requestId : Str) (approved : Bool) :
    ApprovalBroker × Bool :=
  match b.pending.lookup thread with
  | none => (b, false)
  | some queue =>
    match queue.find? fun e => e.requestId = requestId with
    | none => (b, false)
    | some entry =>
      let rest := queue.eraseP fun e => e.requestId = requestId
      { b with pending := putQueue b.pending thread rest }.send approved entry

/-- `ApprovalBroker::resolve_fifo`. -/
def resolveFifo (b : ApprovalBroker) (thread : ThreadKey) (approved : Bool) : ApprovalBroker × Bool :=
  match b.pending.lookup thread with
  | none => (b, false)
  | some [] => (b, false)
  | some (entry :: rest) => { b with pending := putQueue b.pending thread rest }.send approved entry

/-- The walk of `resolve_all` through the queue: what stays, and what is drained. -/
def drain : List PendingEntry → List PendingEntry × List PendingEntry
  | [] => ([], [])
  | entry :: rest =>
    let (kept, drained) := drain rest
    if entry.hardFloor then (entry :: kept, drained) else (kept, entry :: drained)

/-- `ApprovalBroker::resolve_all`, with the number of drained requests. -/
def resolveAll (b : ApprovalBroker) (thread : ThreadKey) (approved : Bool) : ApprovalBroker × ℕ :=
  match b.pending.lookup thread with
  | none => (b, 0)
  | some queue =>
    let (kept, drained) := drain queue
    (drained.foldl (fun b e => (b.send approved e).1) { b with pending := putQueue b.pending thread kept },
      drained.length)

/-- An entry is older than `max_age`. -/
def agedOut (now maxAge : ℕ) (e : PendingEntry) : Bool := decide (maxAge < now - e.createdAt)

/-- What `sweep_expired` leaves of a queue. -/
def sweepQueue (now maxAge : ℕ) (queue : List PendingEntry) : Option (List PendingEntry) :=
  let kept := queue.filter fun e => !agedOut now maxAge e
  if kept.isEmpty then none else some kept

/-- The entries that `sweep_expired` drops. -/
def sweptEntries (b : ApprovalBroker) (now maxAge : ℕ) : List PendingEntry :=
  b.pending.entries.flatMap fun e => e.2.filter (agedOut now maxAge)

/-- `ApprovalBroker::sweep_expired`, with the number of swept entries. The receivers of the
dropped senders observe an error. -/
def sweepExpired (b : ApprovalBroker) (now maxAge : ℕ) : ApprovalBroker × ℕ :=
  let swept := b.sweptEntries now maxAge
  ({ b with
      pending := b.pending.retainMap fun _ queue => sweepQueue now maxAge queue
      receivers := fun tx =>
        if b.receivers tx = .waiting ∧ tx ∈ swept.map PendingEntry.tx then .closed else b.receivers tx },
    swept.length)

/-- The handler of a request times out or is cancelled. -/
def dropReceiver (b : ApprovalBroker) (tx : ℕ) : ApprovalBroker :=
  if b.receivers tx = .waiting then { b with receivers := Function.update b.receivers tx .gone } else b

end ApprovalBroker

/-- What handlers, the interceptor and the sweeper do. -/
inductive BrokerInput where
  | register (thread : ThreadKey) (requestId : Str) (hardFloor : Bool) (now : ℕ)
  | resolveById (thread : ThreadKey) (requestId : Str) (approved : Bool)
  | resolveFifo (thread : ThreadKey) (approved : Bool)
  | resolveAll (thread : ThreadKey) (approved : Bool)
  | sweepExpired (now maxAge : ℕ)
  | dropReceiver (tx : ℕ)
  deriving DecidableEq, Repr

/-- The thread an operation is about. -/
def BrokerInput.thread? : BrokerInput → Option ThreadKey
  | .register thread _ _ _ | .resolveById thread _ _ | .resolveFifo thread _ | .resolveAll thread _ => some thread
  | .sweepExpired _ _ | .dropReceiver _ => none

def brokerStep (b : ApprovalBroker) : BrokerInput → ApprovalBroker
  | .register thread requestId hardFloor now => b.register thread requestId hardFloor now
  | .resolveById thread requestId approved => (b.resolveById thread requestId approved).1
  | .resolveFifo thread approved => (b.resolveFifo thread approved).1
  | .resolveAll thread approved => (b.resolveAll thread approved).1
  | .sweepExpired now maxAge => (b.sweepExpired now maxAge).1
  | .dropReceiver tx => b.dropReceiver tx

end Zeptoclaw

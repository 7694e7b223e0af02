import Zeptoclaw.Lib.Utf8
import Zeptoclaw.Spec.Broker
import Zeptoclaw.Spec.Bus

/-!
# The approval mode of a thread

`ThreadApprovalStore` (`tools/thread_approval.rs`) and the confirmation of `/skip-approval`
(`cli/gateway.rs`). What the file system does to a save, and the reader and the writer of JSON,
are input. Times are those of the clock that the code reads.
-/

namespace Zeptoclaw

inductive ThreadApprovalMode where
  | requireApproval
  | autoApprove
  deriving DecidableEq, Repr

structure ThreadApprovalState where
  mode : ThreadApprovalMode
  updatedAt : ℤ
  updatedBy : Str
  deriving DecidableEq, Repr

/-- `ThreadApprovalState::default`. -/
def ThreadApprovalState.default (now : ℤ) : ThreadApprovalState := ⟨.requireApproval, now, []⟩

structure PersistedThread where
  userId : Str
  agentId : Str
  mode : ThreadApprovalMode
  updatedAt : ℤ
  updatedBy : Str
  deriving DecidableEq, Repr

structure PersistedFile where
  version : ℕ
  threads : List PersistedThread
  deriving DecidableEq, Repr

/-- The reader and the writer of `approval_thread.json`. -/
structure ApprovalJson where
  toVecPretty : PersistedFile → Bytes
  fromStr : Bytes → Option PersistedFile

/-- An `io::Error`. -/
inductive IoError where
  | invalidData (msg : Str)
  | os (msg : Str)
  deriving DecidableEq, Repr

/-- The config directory: `approval_thread.json` and its temporary file. -/
structure ApprovalDir where
  file : Option Bytes := none
  tmp : Option Bytes := none
  deriving DecidableEq, Repr

/-- How far a save gets. -/
inductive SaveOutcome where
  | serializeFails (error : Str)
  -- what the failed write leaves in the temporary file
  | writeFails (error : Str) (left : Option Bytes)
  | renameFails (error : Str)
  | saved
  deriving DecidableEq, Repr

structure ThreadApprovalStore where
  states : Assoc ThreadKey ThreadApprovalState
  root : Str
  dir : ApprovalDir

namespace ThreadApprovalStore

variable (json : ApprovalJson)

/-- `FILE_VERSION`. -/
def fileVersion : ℕ := 1

def persisted (states : Assoc ThreadKey ThreadApprovalState) : PersistedFile :=
  ⟨fileVersion, states.pairs.map fun e => ⟨e.1.user, e.1.agent, e.2.mode, e.2.updatedAt, e.2.updatedBy⟩⟩

def saveToDisk (outcome : SaveOutcome) (states : Assoc ThreadKey ThreadApprovalState) (dir : ApprovalDir) :
    Except IoError Unit × ApprovalDir :=
  let body := json.toVecPretty (persisted states)
  match outcome with
  | .serializeFails e => (.error (.invalidData ("serializing approval_thread.json: ".toList ++ e)), dir)
  | .writeFails e left => (.error (.os e), { dir with tmp := left })
  | .renameFails e => (.error (.os e), { dir with tmp := some body })
  | .saved => (.ok (), ⟨some body, none⟩)

def loadFromDisk (dir : ApprovalDir) : Assoc ThreadKey ThreadApprovalState :=
  match dir.file.bind json.fromStr with
  | some file =>
    file.threads.foldl (fun states t => states.insert ⟨t.userId, t.agentId⟩ ⟨t.mode, t.updatedAt, t.updatedBy⟩) ∅
  | none => ∅

/-- `open`. -/
def openStore (root : Str) (dir : ApprovalDir) : ThreadApprovalStore := ⟨loadFromDisk json dir, root, dir⟩

def get (store : ThreadApprovalStore) (now : ℤ) (thread : ThreadKey) : ThreadApprovalState :=
  (store.states.lookup thread).getD (.default now)

def isAutoApprove (store : ThreadApprovalStore) (now : ℤ) (thread : ThreadKey) : Bool :=
  (store.get now thread).mode = .autoApprove

/-- The result of `set`, and the store after it. -/
def set (store : ThreadApprovalStore) (thread : ThreadKey) (mode : ThreadApprovalMode) (source : Str) (now : ℤ)
    (outcome : SaveOutcome) : Except IoError ThreadApprovalState × ThreadApprovalStore :=
  let state : ThreadApprovalState := ⟨mode, now, source⟩
  let states := store.states.insert thread state
  -- a store without a directory is not saved
  if store.root.isEmpty then (.ok state, { store with states })
  else
    match saveToDisk json outcome states store.dir with
    | (.ok (), dir) => (.ok state, { store with states, dir })
    | (.error e, dir) => (.error e, { store with states, dir })

end ThreadApprovalStore

/-! ## The confirmation of `/skip-approval` -/

structure ConfirmPending where
  deadline : ℤ
  channel : Str
  chatId : Str
  deriving DecidableEq, Repr

inductive ConfirmOutcome where
  | consumed
  | fallthrough
  deriving DecidableEq, Repr

/-- A reply to a chat. -/
structure SpawnedReply where
  channel : Str
  chatId : Str
  text : Str
  deriving DecidableEq, Repr

/-- The state of the interceptor that a confirmation changes. -/
structure ConfirmState where
  pending : Assoc ThreadKey ConfirmPending
  store : ThreadApprovalStore
  replies : List SpawnedReply := []

def autoApproveEnabledText : Str :=
  "✅ AutoApprove enabled for this thread. Use `/require-approval` to switch back.".toList

def notPersistedText : Str := "⚠️ Couldn't persist the change. Try again.".toList

/-- `str::eq_ignore_ascii_case`. -/
def eqIgnoreAsciiCase (a b : Str) : Bool := a.map Char.toLower = b.map Char.toLower

/-- `handle_pending_confirm`, at `now` of the monotonic clock and `wall` of the other one. -/
def handlePendingConfirm (json : ApprovalJson) (s : ConfirmState) (thread : ThreadKey) (trimmed : Str) (msg : InboundMessage)
    (now wall : ℤ) (outcome : SaveOutcome) : ConfirmOutcome × ConfirmState :=
  match s.pending.lookup thread with
  | none => (.fallthrough, s)
  | some entry =>
    let s := { s with pending := s.pending.erase thread }
    -- an expired slot is dropped
    if entry.deadline ≤ now then (.fallthrough, s)
    else if eqIgnoreAsciiCase trimmed "confirm".toList then
      match s.store.set json thread .autoApprove msg.channel wall outcome with
      | (.ok _, store) =>
        (.consumed, { s with store, replies := s.replies ++ [⟨entry.channel, entry.chatId, autoApproveEnabledText⟩] })
      | (.error _, store) =>
        (.consumed, { s with store, replies := s.replies ++ [⟨entry.channel, entry.chatId, notPersistedText⟩] })
    else (.fallthrough, s)

end Zeptoclaw

import Zeptoclaw.Spec.Cron
import Mathlib.Logic.Function.Basic

/-!
# Runs of the scheduler

The service of `cron/mod.rs` over time, in three views. `CronSystem` is one process that may
stop between any two of its steps and be started again from its file. `CronFiles` has the calls
that change the store at the same time, with the snapshot each of them writes later. `CronLoop`
is the loop of ticks, with the changes of the store that are made while a tick dispatches.
-/

namespace Zeptoclaw

variable (cal : Calendar)

/-! ## A process that may stop -/

/-- A message on the bus, with the job and the occurrence it was sent for. -/
structure Delivery where
  jobId : Str
  occurrence : Option ℤ
  payload : CronPayload
  deriving DecidableEq, Repr

inductive CronPhase where
  /-- no process -/
  | down
  /-- `start` has the store in memory and sends the missed jobs -/
  | starting (missed : List CronJob)
  /-- between two ticks -/
  | idle
  /-- a tick sends the due jobs -/
  | sending (rest : List CronJob) (results : List DispatchResult)
  /-- a tick has merged its results -/
  | merged
  deriving DecidableEq, Repr

/-- `unsaved` tells whether a message was put on the bus since the store was last saved; no
step reads it. -/
structure CronSystem where
  now : ℤ
  file : CronStore
  memory : CronStore := {}
  phase : CronPhase := .down
  bus : List Delivery := []
  unsaved : Bool := false
  deriving DecidableEq, Repr

inductive CronEvent where
  | clock (t : ℤ)
  | start (onMiss : OnMiss)
  | sendMissed (delivered : Bool)
  | tick
  | send (result : SendResult) (endedAt : ℤ)
  | merge
  | save
  | crash
  deriving DecidableEq, Repr

namespace CronSystem

def deliver (s : CronSystem) (job : CronJob) (delivered : Bool) : CronSystem :=
  if delivered then { s with bus := s.bus ++ [⟨job.id, job.state.nextRunAtMs, job.payload⟩], unsaved := true } else s

/-- One step. A step that does not belong to the phase does nothing. -/
def step (s : CronSystem) : CronEvent → CronSystem
  | .clock t => { s with now := t }
  | .start onMiss =>
    match s.phase with
    | .down => { s with memory := s.file.catchUp cal s.now, phase := .starting (missedJobs onMiss s.now s.file) }
    | _ => s
  | .sendMissed delivered =>
    match s.phase with
    | .starting (job :: rest) => { s.deliver job delivered with phase := .starting rest }
    | _ => s
  | .tick =>
    match s.phase with
    | .idle => if dueJobs s.now s.memory = [] then s else { s with phase := .sending (dueJobs s.now s.memory) [] }
    | _ => s
  | .send result endedAt =>
    match s.phase with
    | .sending (job :: rest) results =>
      { s.deliver job (result = .delivered) with
        now := endedAt
        phase := .sending rest (results ++ [dispatchResult job result s.now endedAt]) }
    | _ => s
  | .merge =>
    match s.phase with
    | .sending [] results => { s with memory := s.memory.merge cal results, phase := .merged }
    | _ => s
  | .save =>
    match s.phase with
    | .starting [] => { s with file := s.memory, phase := .idle, unsaved := false }
    | .merged => { s with file := s.memory, phase := .idle, unsaved := false }
    | _ => s
  | .crash => { s with memory := {}, phase := .down, unsaved := false }

end CronSystem

/-! ## Calls at the same time -/

/-- What a call still has to do: take its snapshot, write it, or merge the results of a tick. -/
inductive CronCall where
  | changed
  | writing (serial : ℕ) (snapshot : CronStore)
  | ticking (due : List CronJob)
  deriving DecidableEq, Repr

/-- The snapshots are numbered as they are taken; `written` is the number of the one in the file. -/
structure CronFiles where
  memory : CronStore
  file : CronStore
  calls : ℕ → Option CronCall
  taken : ℕ
  written : ℕ

/-- What a dispatch came to, and when it began and ended. -/
structure Sent where
  result : SendResult
  startedAt : ℤ
  endedAt : ℤ
  deriving DecidableEq, Repr

/-- The results of a tick for its due jobs. -/
def dispatchAll (send : CronJob → Sent) (due : List CronJob) : List DispatchResult :=
  due.map fun job => dispatchResult job (send job).result (send job).startedAt (send job).endedAt

inductive CronFileEvent where
  | addJob (call : ℕ) (job : CronJob)
  | removeJob (call : ℕ) (jobId : Str)
  | tickBegin (call : ℕ) (now : ℤ)
  | tickMerge (call : ℕ) (send : CronJob → Sent)
  | snapshot (call : ℕ)
  | write (call : ℕ)

namespace CronFiles

def setCall (s : CronFiles) (call : ℕ) (c : Option CronCall) : CronFiles :=
  { s with calls := Function.update s.calls call c }

/-- One step. A new call takes a number that no call in progress has. -/
def step (s : CronFiles) : CronFileEvent → CronFiles
  | .addJob call job =>
    match s.calls call with
    | none => { s with memory := s.memory.push job }.setCall call (some .changed)
    | some _ => s
  | .removeJob call jobId =>
    match s.calls call with
    | none =>
      -- without a job to remove, nothing is saved
      if (s.memory.remove jobId).jobs.length < s.memory.jobs.length then
        { s with memory := s.memory.remove jobId }.setCall call (some .changed)
      else s
    | some _ => s
  | .tickBegin call now =>
    match s.calls call with
    | none => if dueJobs now s.memory = [] then s else s.setCall call (some (.ticking (dueJobs now s.memory)))
    | some _ => s
  | .tickMerge call send =>
    match s.calls call with
    | some (.ticking due) =>
      { s with memory := s.memory.merge cal (dispatchAll send due) }.setCall call (some .changed)
    | _ => s
  | .snapshot call =>
    match s.calls call with
    | some .changed => { s with taken := s.taken + 1 }.setCall call (some (.writing (s.taken + 1) s.memory))
    | _ => s
  | .write call =>
    match s.calls call with
    | some (.writing serial snapshot) => { s with file := snapshot, written := serial }.setCall call none
    | _ => s

/-- The service with a store that is in its file, and no call. -/
def init (store : CronStore) : CronFiles := ⟨store, store, fun _ => none, 0, 0⟩

/-- No call is in progress. -/
def Finished (s : CronFiles) : Prop := ∀ call, s.calls call = none

end CronFiles

/-! ## The loop of ticks -/

/-- A change of the store by another call. -/
inductive StoreEdit where
  | add (job : CronJob)
  | remove (jobId : Str)
  deriving DecidableEq, Repr

def CronStore.edit (store : CronStore) : StoreEdit → CronStore
  | .add job => store.push job
  | .remove jobId => store.remove jobId

/-- The store, and the identifiers of the one-shot jobs that were dispatched so far. -/
structure CronLoop where
  store : CronStore
  fired : List Str := []
  deriving DecidableEq, Repr

inductive LoopEvent where
  | edit (e : StoreEdit)
  | tick (now : ℤ) (send : CronJob → Sent) (edits : List StoreEdit)

def isAt (job : CronJob) : Bool :=
  match job.schedule with
  | .at _ => true
  | _ => false

/-- The store after a tick: the due jobs are those of the store at its beginning, the results
are merged into the store as the edits made meanwhile have left it. Without a due job nothing
is merged. -/
def CronStore.tick (store : CronStore) (now : ℤ) (send : CronJob → Sent) (edits : List StoreEdit) : CronStore :=
  if dueJobs now store = [] then edits.foldl CronStore.edit store
  else (edits.foldl CronStore.edit store).merge cal (dispatchAll send (dueJobs now store))

def CronLoop.step (s : CronLoop) : LoopEvent → CronLoop
  | .edit e => { s with store := s.store.edit e }
  | .tick now send edits =>
    { store := s.store.tick cal now send edits
      fired := s.fired ++ ((dueJobs now s.store).filter isAt).map CronJob.id }

end Zeptoclaw

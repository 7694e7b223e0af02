import Zeptoclaw.Lib.Assoc
import Zeptoclaw.Lib.Run
import Zeptoclaw.Spec.Bus

/-!
# Channels under supervision

The supervisor and the outbound dispatcher of `ChannelManager` (`channels/manager.rs`), and the
`HealthRegistry` (`health.rs`) that the supervisor reports to. Instants are in nanoseconds. A
channel is known by its name; whether it runs and whether a restart succeeds is up to the
channel, and comes with each visit of the supervisor.
-/

namespace Zeptoclaw

/-! ## The health registry -/

inductive HealthStatus where
  | ok
  | degraded
  | down
  deriving DecidableEq, Repr

structure HealthCheck where
  name : Str
  status : HealthStatus := .ok
  message : Option Str := none
  restartCount : ℕ := 0
  lastError : Option Str := none
  deriving DecidableEq, Repr

abbrev HealthRegistry : Type := Assoc Str HealthCheck

namespace HealthRegistry

variable (registry : HealthRegistry)

def register (check : HealthCheck) : HealthRegistry := registry.insert check.name check

/-- `if let Some(check) = checks.get_mut(name)`. -/
def modify (name : Str) (f : HealthCheck → HealthCheck) : HealthRegistry :=
  match registry.lookup name with
  | some check => registry.insert name (f check)
  | none => registry

def update (name : Str) (status : HealthStatus) (message : Option Str) : HealthRegistry :=
  registry.modify name fun check => { check with status, message }

def isReady : Bool := registry.entries.all fun e => decide (e.2.status ≠ .down)

def bumpRestart (name : Str) : HealthRegistry :=
  registry.modify name fun check => { check with restartCount := check.restartCount + 1 }

def setError (name error : Str) : HealthRegistry :=
  registry.modify name fun check => { check with status := .down, lastError := some error }

end HealthRegistry

/-! ## The supervisor -/

/-- `SUPERVISOR_COOLDOWN_SECS`. -/
def supervisorCooldownSecs : ℕ := 60

/-- `SUPERVISOR_MAX_RESTARTS`. -/
def supervisorMaxRestarts : ℕ := 5

structure SupervisorEntry where
  restartCount : ℕ := 0
  lastRestart : Option ℕ := none
  started : Bool := true
  deriving DecidableEq, Repr

/-- `last.elapsed().as_secs()`. -/
def elapsedSecs (now last : ℕ) : ℕ := (now - last) / 1000000000

/-- The cooldown of the last restart is not over. -/
def SupervisorEntry.coolingDown (entry : SupervisorEntry) (now : ℕ) : Bool :=
  entry.lastRestart.any fun last => decide (elapsedSecs now last < supervisorCooldownSecs)

/-- A look at a channel: whether it runs, and the time. If the supervisor restarts it, whether
`start` succeeds, and the time after it. -/
structure Visit where
  name : Str
  running : Bool
  now : ℕ
  startOk : Bool
  done : ℕ
  deriving DecidableEq, Repr

structure Supervisor where
  entries : Assoc Str SupervisorEntry
  health : Option HealthRegistry
  -- the calls of `stop` and `start`, in their order
  restarts : List Visit := []

namespace Supervisor

/-- What `start_all` leaves: a check and an entry for each channel that it started. -/
def start (health : Option HealthRegistry) (started : List Str) : Supervisor where
  entries := started.foldl (fun entries name => entries.insert name {}) ∅
  health := health.map fun registry => started.foldl (fun registry name => registry.register { name }) registry

/-- What the registry is told of a restart. -/
def report (registry : HealthRegistry) (v : Visit) (restartCount : ℕ) : HealthRegistry :=
  let registry := (if v.startOk then registry.update v.name .ok none else registry).bumpRestart v.name
  if supervisorMaxRestarts ≤ restartCount then
    registry.setError v.name ("exceeded max restarts (".toList ++ (toString supervisorMaxRestarts).toList ++ ")".toList)
  else registry

/-- The restart of a dead channel. -/
def restart (s : Supervisor) (v : Visit) (entry : SupervisorEntry) : Supervisor where
  entries := s.entries.insert v.name
    { entry with restartCount := entry.restartCount + 1, lastRestart := some v.done }
  health := s.health.map fun registry => report registry v (entry.restartCount + 1)
  restarts := s.restarts ++ [v]

/-- One channel in the loop over the snapshot. -/
def visit (s : Supervisor) (v : Visit) : Supervisor :=
  match s.entries.lookup v.name with
  | none => s
  | some entry =>
    if !entry.started then s
    else if v.running then s
    else if supervisorMaxRestarts ≤ entry.restartCount then s
    else if entry.coolingDown v.now then s
    else s.restart v entry

end Supervisor

/-- The clock does not go back: each look ends before the next one begins. -/
def ClockOrdered (visits : List Visit) : Prop :=
  (∀ v ∈ visits, v.now ≤ v.done) ∧ visits.Pairwise fun v w => v.done ≤ w.now

/-! ## The dispatcher -/

/-- Where a dispatcher task is. -/
inductive DispatchPhase where
  -- out of the loop
  | stopped
  | waiting
  -- a message taken from the bus, its channel not yet looked up
  | taken (msg : OutboundMessage)
  -- before the lock of the channel
  | sending (msg : OutboundMessage)
  deriving DecidableEq

/-- The message a task holds. -/
def DispatchPhase.held : DispatchPhase → List OutboundMessage
  | .stopped | .waiting => []
  | .taken msg | .sending msg => [msg]

/-- The queue, the registered channels and the dispatcher tasks, in the order of their spawning. -/
structure Dispatch where
  outbound : List OutboundMessage := []
  channels : List Str := []
  tasks : List DispatchPhase := []
  -- everything that was published, and what became of it: sent on its channel or dropped
  published : List OutboundMessage := []
  handled : List (OutboundMessage × Bool) := []

inductive DispatchInput where
  | register (name : Str)
  | publish (msg : OutboundMessage)
  -- `start_all`
  | spawn
  -- the loop sees the shutdown signal
  | shutdown (task : ℕ)
  | consume (task : ℕ)
  | lookup (task : ℕ)
  -- `channel.send(msg)`, whatever its answer
  | send (task : ℕ)

namespace Dispatch

def setTask (s : Dispatch) (task : ℕ) (phase : DispatchPhase) : Dispatch :=
  { s with tasks := s.tasks.set task phase }

def handle (s : Dispatch) (msg : OutboundMessage) (sent : Bool) : Dispatch :=
  { s with handled := s.handled ++ [(msg, sent)] }

end Dispatch

/-- One step of a `dispatch_outbound` task, of the manager or of a publisher. -/
def dispatchStep (s : Dispatch) : DispatchInput → Dispatch
  | .register name => { s with channels := name :: s.channels }
  | .publish msg => { s with outbound := s.outbound ++ [msg], published := s.published ++ [msg] }
  | .spawn => { s with tasks := s.tasks ++ [.waiting] }
  | .shutdown task =>
    match s.tasks[task]? with
    | some .waiting => s.setTask task .stopped
    | _ => s
  | .consume task =>
    match s.tasks[task]?, s.outbound with
    | some .waiting, msg :: rest => { s.setTask task (.taken msg) with outbound := rest }
    | _, _ => s
  | .lookup task =>
    match s.tasks[task]? with
    | some (.taken msg) =>
      if msg.channel ∈ s.channels then s.setTask task (.sending msg) else (s.setTask task .waiting).handle msg false
    | _ => s
  | .send task =>
    match s.tasks[task]? with
    | some (.sending msg) => (s.setTask task .waiting).handle msg true
    | _ => s

end Zeptoclaw

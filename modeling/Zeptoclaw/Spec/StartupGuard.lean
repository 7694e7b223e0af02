import Zeptoclaw.Lib.Run
import Mathlib.Algebra.Group.Nat.Defs
import Mathlib.Data.List.Chain

/-!
# The startup guard

`gateway/startup_guard.rs`, and the places of `cmd_gateway` (`cli/gateway.rs`) that check
it and record crashes and clean starts. The guard's state lives in a file that outlasts
the process.
-/

namespace Zeptoclaw

structure CrashState where
  consecutiveCrashes : UInt32
  lastCrashTs : ℕ
  totalCrashes : UInt32
  deriving DecidableEq, Repr

/-- What is at the guard's path. -/
inductive CrashFile where
  | absent
  | malformed
  | stored (state : CrashState)
  deriving DecidableEq, Repr

/-- `StartupGuard::load_state`. -/
def CrashFile.loadState : CrashFile → CrashState
  | .stored state => state
  | .absent | .malformed => ⟨0, 0, 0⟩

structure StartupGuard where
  threshold : UInt32
  windowSecs : ℕ
  deriving DecidableEq, Repr

namespace StartupGuard

variable (g : StartupGuard)

/-- The last crash is outside the window. -/
def stale (state : CrashState) (now : ℕ) : Bool := decide (g.windowSecs < now - state.lastCrashTs)

/-- `StartupGuard::check`. -/
def check (file : CrashFile) (now : ℕ) : Bool :=
  if g.threshold = 0 then false
  else
    let state := file.loadState
    if state.consecutiveCrashes < g.threshold then false
    else if g.stale state now then false
    else true

/-- The counter that a crash adds to: it is reset if the crash before is stale. -/
def counter (state : CrashState) (now : ℕ) : UInt32 :=
  if 0 < state.lastCrashTs ∧ g.stale state now then 0 else state.consecutiveCrashes

/-- `StartupGuard::record_crash`. -/
def recordCrash (file : CrashFile) (now : ℕ) : CrashFile :=
  let state := file.loadState
  .stored ⟨g.counter state now + 1, now, state.totalCrashes + 1⟩

/-- `StartupGuard::record_clean_start`. -/
def recordCleanStart (file : CrashFile) : CrashFile :=
  .stored { file.loadState with consecutiveCrashes := 0, lastCrashTs := 0 }

end StartupGuard

/-- What a run records in the file. -/
inductive GuardOp where
  | crash (now : ℕ)
  | cleanStart
  deriving DecidableEq, Repr

def GuardOp.time? : GuardOp → Option ℕ
  | .crash now => some now
  | .cleanStart => none

def guardStep (g : StartupGuard) (file : CrashFile) : GuardOp → CrashFile
  | .crash now => g.recordCrash file now
  | .cleanStart => StartupGuard.recordCleanStart file

/-- A run of `cmd_gateway` with the startup guard enabled. -/
structure GatewayRun where
  startedAt : ℕ
  -- crashes of a task that was spawned before the clean start is recorded
  crashesBefore : List ℕ
  -- start-up got as far as `record_clean_start`
  cleanStart : Bool
  -- crashes of the agent loop or the proxy from then on
  crashesAfter : List ℕ
  deriving DecidableEq, Repr

def GatewayRun.ops (run : GatewayRun) : List GuardOp :=
  run.crashesBefore.map .crash ++ (if run.cleanStart then [.cleanStart] else []) ++ run.crashesAfter.map .crash

/-- `cmd_gateway`: whether it enters degraded mode, and the file it leaves. -/
def cmdGateway (g : StartupGuard) (file : CrashFile) (run : GatewayRun) : Bool × CrashFile :=
  (g.check file run.startedAt, runSteps (guardStep g) file run.ops)

/-- The file after some runs. -/
def afterRuns (g : StartupGuard) (file : CrashFile) (runs : List GatewayRun) : CrashFile :=
  runSteps (fun file run => (cmdGateway g file run).2) file runs

end Zeptoclaw

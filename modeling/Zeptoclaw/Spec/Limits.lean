import Zeptoclaw.Lib.Run
import Mathlib.Algebra.Group.Nat.Defs
import Mathlib.Logic.Function.Basic

/-!
# Limits of a run

The tool call counter (`agent/tool_call_limit.rs`), the token budget (`agent/budget.rs`)
and the places of `agent/loop.rs` that read and write them. Both counters belong to the
`AgentLoop`, so that all its runs share them; the steps of several runs interleave between
any two accesses.
-/

namespace Zeptoclaw

/-! ## The tool call counter -/

/-- `ToolCallLimitTracker`, with an `AtomicU32`. -/
structure ToolCallLimitTracker where
  limit : Option ℕ
  count : ℕ
  deriving DecidableEq, Repr

namespace ToolCallLimitTracker

variable (t : ToolCallLimitTracker)

def increment (n : ℕ) : ToolCallLimitTracker := { t with count := (t.count + n % 2 ^ 32) % 2 ^ 32 }

def isExceeded : Bool := t.limit.any fun max => max ≤ t.count

def reset : ToolCallLimitTracker := { t with count := 0 }

def remaining : Option ℕ := t.limit.map fun max => max - t.count

end ToolCallLimitTracker

/-- Where a run stands between two accesses to the counter. -/
inductive LimitPhase where
  | idle
  -- before the memory flush
  | started
  -- the provider is called
  | waiting
  -- the response has this many tool calls
  | responded (calls : ℕ)
  -- not exceeded at the top of the loop
  | checked (calls : ℕ)
  -- cut to what remained
  | truncated (calls : ℕ)
  -- executed, but not counted
  | executed (calls : ℕ)
  | counted
  -- the limit ended the loop
  | stopped
  | ended
  deriving DecidableEq, Repr

structure LimitRun where
  phase : LimitPhase
  executed : ℕ
  deriving DecidableEq, Repr

structure LimitState (ι : Type*) where
  tracker : ToolCallLimitTracker
  runs : ι → LimitRun

/-- A step of one run. -/
inductive LimitInput (ι : Type*) where
  | start (run : ι)
  -- the tool calls that the memory flush executes, if there is one
  | flush (run : ι) (calls : ℕ)
  | respond (run : ι) (calls : ℕ)
  | check (run : ι)
  | truncate (run : ι)
  -- `pause`: a tool asks to end the turn
  | execute (run : ι) (pause : Bool)
  | count (run : ι)
  | recheck (run : ι)
  -- an error, a timeout, the loop guard, the token budget or the last iteration ends the run
  | leave (run : ι)

/-- The run that takes the step. -/
def LimitInput.run {ι : Type*} : LimitInput ι → ι
  | .start r | .flush r _ | .respond r _ | .check r | .truncate r | .execute r _ | .count r | .recheck r | .leave r => r

/-- What a step does to the counter and to its run. -/
def limitMove {ι : Type*} (t : ToolCallLimitTracker) (run : LimitRun) : LimitInput ι → ToolCallLimitTracker × LimitRun
  | .start _ => if run.phase = .idle then (t.reset, ⟨.started, 0⟩) else (t, run)
  | .flush _ calls =>
    match run.phase with
    | .started => (t, ⟨.waiting, run.executed + calls⟩)
    | _ => (t, run)
  | .respond _ calls =>
    match run.phase with
    | .waiting => (t, { run with phase := if calls = 0 then .ended else .responded calls })
    | _ => (t, run)
  | .check _ =>
    match run.phase with
    | .responded calls => (t, { run with phase := if t.isExceeded then .stopped else .checked calls })
    | _ => (t, run)
  | .truncate _ =>
    match run.phase with
    | .checked calls => (t, { run with phase := .truncated (t.remaining.elim calls (min calls)) })
    | _ => (t, run)
  | .execute _ pause =>
    match run.phase with
    | .truncated calls => (t, ⟨if pause then .ended else .executed calls, run.executed + calls⟩)
    | _ => (t, run)
  | .count _ =>
    match run.phase with
    | .executed calls => (t.increment calls, { run with phase := .counted })
    | _ => (t, run)
  | .recheck _ =>
    match run.phase with
    | .counted => (t, { run with phase := if t.isExceeded then .stopped else .waiting })
    | _ => (t, run)
  | .leave _ =>
    match run.phase with
    | .idle | .stopped | .ended => (t, run)
    | _ => (t, { run with phase := .ended })

section LimitStep

variable {ι : Type*} [DecidableEq ι]

def LimitState.init (limit : Option ℕ) : LimitState ι := ⟨⟨limit, 0⟩, fun _ => ⟨.idle, 0⟩⟩

/-- One step of the runs on an `AgentLoop`. -/
def limitStep (s : LimitState ι) (input : LimitInput ι) : LimitState ι :=
  let moved := limitMove s.tracker (s.runs input.run) input
  ⟨moved.1, Function.update s.runs input.run moved.2⟩

end LimitStep

/-! ## The token budget -/

/-- `TokenBudget`, with two `AtomicU64`. -/
structure TokenBudget where
  limit : ℕ
  inputUsed : ℕ
  outputUsed : ℕ
  deriving DecidableEq, Repr

namespace TokenBudget

variable (b : TokenBudget)

def record (input output : ℕ) : TokenBudget :=
  { b with inputUsed := (b.inputUsed + input) % 2 ^ 64, outputUsed := (b.outputUsed + output) % 2 ^ 64 }

def totalUsed : ℕ := (b.inputUsed + b.outputUsed) % 2 ^ 64

def isUnlimited : Bool := b.limit = 0

def isExceeded : Bool := !b.isUnlimited && decide (b.limit ≤ b.totalUsed)

def reset : TokenBudget := { b with inputUsed := 0, outputUsed := 0 }

end TokenBudget

/-- Where a run calls the provider. -/
inductive CallSite where
  | flush
  | first
  | loop
  | synthesis
  | stream
  deriving DecidableEq, Repr

/-- The provider's answer to `chat` or `chat_stream`. -/
inductive ChatResult where
  | contextOverflow
  | failed
  | ok (toolCalls : ℕ) (usage : Option (ℕ × ℕ))
  deriving DecidableEq, Repr

/-- How a batch of tool calls ends, before the budget is looked at. -/
inductive BatchEnd where
  -- the tool call limit was already reached, or a tool pauses the turn, or the loop guard
  -- stops it
  | stopped
  -- the batch reaches the tool call limit
  | limitHit
  | next
  deriving DecidableEq, Repr

inductive BudgetPhase where
  | flushing
  | checking
  | calling (site : CallSite) (attempt : ℕ)
  | looping (toolCalls : ℕ)
  | afterLoop (hasToolCalls : Bool)
  | ended
  deriving DecidableEq, Repr

inductive BudgetEvent where
  | called (site : CallSite)
  | recorded (input output : ℕ)
  deriving DecidableEq, Repr

structure BudgetRun where
  budget : TokenBudget
  phase : BudgetPhase
  iteration : ℕ
  trace : List BudgetEvent
  deriving DecidableEq, Repr

/-- What the run reads from elsewhere, and what other runs do to the shared budget. -/
inductive BudgetInput where
  -- whether the memory flush calls the provider
  | flush (called : Bool)
  -- whether the response cache has the reply
  | check (hit : Bool)
  | result (r : ChatResult)
  -- `left`: the tool calls of the batch after it was cut to the tool call limit
  | batch (left : ℕ) (last : BatchEnd)
  | finish
  | otherReset
  | otherRecord (input output : ℕ)
  deriving DecidableEq, Repr

structure BudgetConfig where
  maxToolIterations : ℕ
  overflowRetries : ℕ
  contextMonitor : Bool
  deriving DecidableEq, Repr

namespace BudgetRun

/-- `process_message` and `process_message_streaming` reset the budget first. -/
def init (limit : ℕ) : BudgetRun := ⟨⟨limit, 0, 0⟩, .flushing, 0, []⟩

def call (run : BudgetRun) (site : CallSite) (attempt : ℕ) : BudgetRun :=
  { run with phase := .calling site attempt, trace := run.trace ++ [.called site] }

def goto (run : BudgetRun) (phase : BudgetPhase) : BudgetRun := { run with phase }

/-- The usage of a response, if it has one. -/
def recordUsage (run : BudgetRun) : Option (ℕ × ℕ) → BudgetRun
  | some (input, output) =>
    { run with budget := run.budget.record input output, trace := run.trace ++ [.recorded input output] }
  | none => run

end BudgetRun

/-- The provider has answered. The final streaming call has no retries, and its usage does
not count against the budget. -/
def answered (cfg : BudgetConfig) (run : BudgetRun) (site : CallSite) (attempt : ℕ) : ChatResult → BudgetRun
  | .contextOverflow =>
    if site ≠ .stream ∧ attempt < cfg.overflowRetries ∧ cfg.contextMonitor = true then run.call site (attempt + 1)
    else run.goto .ended
  | .failed => run.goto .ended
  | .ok toolCalls usage =>
    match site with
    | .first | .loop => (run.recordUsage usage).goto (.looping toolCalls)
    | .synthesis => (run.recordUsage usage).goto .ended
    | _ => run.goto .ended

/-- An iteration of the tool loop, from its batch to the next call. -/
def afterBatch (streaming : Bool) (run : BudgetRun) (left : ℕ) : BatchEnd → BudgetRun
  | .stopped => run.goto (.afterLoop (0 < left))
  | .limitHit =>
    if streaming then run.goto (.afterLoop false)
    else if run.budget.isExceeded then run.goto (.afterLoop (0 < left))
    else run.call .synthesis 0
  | .next => if run.budget.isExceeded then run.goto (.afterLoop (0 < left)) else run.call .loop 0

def budgetStep (cfg : BudgetConfig) (streaming : Bool) (run : BudgetRun) : BudgetInput → BudgetRun
  | .otherReset => { run with budget := run.budget.reset }
  | .otherRecord input output => { run with budget := run.budget.record input output }
  | .flush called =>
    match run.phase with
    | .flushing => (if called then run.call .flush 0 else run).goto .checking
    | _ => run
  | .check hit =>
    match run.phase with
    | .checking =>
      if run.budget.isExceeded then run.goto .ended
      -- only `process_message` looks into the cache
      else if hit ∧ streaming = false then run.goto .ended
      else run.call .first 0
    | _ => run
  | .result r =>
    match run.phase with
    | .calling site attempt => answered cfg run site attempt r
    | _ => run
  | .batch left last =>
    match run.phase with
    | .looping toolCalls =>
      if 0 < toolCalls ∧ run.iteration < cfg.maxToolIterations then
        afterBatch streaming { run with iteration := run.iteration + 1 } left last
      else run.goto (.afterLoop (0 < toolCalls))
    | _ => run
  | .finish =>
    match run.phase with
    | .afterLoop hasToolCalls => if streaming ∧ hasToolCalls = false then run.call .stream 0 else run.goto .ended
    | _ => run

end Zeptoclaw

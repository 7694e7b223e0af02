import Zeptoclaw.Lib.Assoc
import Zeptoclaw.Lib.Offset
import Zeptoclaw.Spec.Error
import Zeptoclaw.Spec.Skills

/-!
# Sub-agents

The tool `delegate` (`tools/delegate.rs`) and the scratchpad that its sub-agents share (`agent/scratchpad.rs`). The calls
of the tool run concurrently: each step of a call is an input of `Swarm.step`, and between two steps other calls take
theirs. What a sub-agent returns comes with the step at which it ends. A call that takes too long is dropped by the agent.
-/

namespace Zeptoclaw

open Text

structure SwarmRole where
  systemPrompt : Str := []
  tools : List Str := []

structure SwarmConfig where
  enabled : Bool := true
  maxConcurrent : ℕ := 3
  roles : Assoc Str SwarmRole := ∅

/-- What the tool takes from the configuration, and `str::to_lowercase`. -/
structure DelegateEnv where
  swarm : SwarmConfig := {}
  memoryDisabled : Bool := false
  toLowercase : Str → Str

/-! ## The scratchpad -/

/-- The outputs of the roles. -/
abbrev SwarmScratchpad : Type := Assoc Str Str

namespace SwarmScratchpad

/-- The order of `str`. -/
def keyLe (a b : Str × Str) : Bool := !List.lex b.1 a.1 fun c d => decide (c.toNat < d.toNat)

/-- An output in the prompt; the slice panics where 2000 is inside of a character. -/
def truncated (output : Str) : Option Str :=
  if 2000 < byteLen output then (splitAtByte 2000 output).map fun cut => cut.1 ++ "... [truncated]".toList else some output

def line (entry : Str × Str) : Option Str :=
  (truncated entry.2).map fun output => "- ".toList ++ entry.1 ++ ": ".toList ++ output

/-- `format_for_prompt`; nothing, if it panics. -/
def formatForPrompt (entries : SwarmScratchpad) : Option (Option Str) :=
  if entries.pairs = [] then some none
  else ((entries.pairs.mergeSort keyLe).mapM line).map fun lines =>
    some (List.intercalate ['\n'] ("Previous agent outputs:".toList :: lines))

end SwarmScratchpad

/-! ## Sub-agents -/

structure TaskSpec where
  role : Str
  task : Str
  tools : Option (List Str)
  deriving DecidableEq, Repr

/-- What a sub-agent is created with. -/
structure SubAgent where
  prompt : Str
  task : Str
  tools : List Str
  deriving DecidableEq, Repr

section Create

variable (env : DelegateEnv)

def roleConfig (role : Str) : Option SwarmRole := env.swarm.roles.lookup (env.toLowercase role)

/-- The prompt without the outputs of others. -/
def rolePrompt (role : Str) : Str :=
  match roleConfig env role with
  | some rc => if rc.systemPrompt = [] then general else rc.systemPrompt
  | none => general
where
  general := "You are a specialist with the role: ".toList ++ role ++
    (". Complete the task given to you thoroughly and return your findings. " ++
      "You can send interim updates to the user via the message tool.").toList

/-- The prompt; nothing, if the scratchpad makes it panic. -/
def subAgentPrompt (scratchpad : SwarmScratchpad) (injectPriorContext : Bool) (role : Str) : Option Str :=
  if injectPriorContext then
    scratchpad.formatForPrompt.map fun
      | some context => rolePrompt env role ++ "\n\n".toList ++ context
      | none => rolePrompt env role
  else some (rolePrompt env role)

/-- The names of the tools that a sub-agent may have. -/
def subAgentTools : List Str :=
  ["echo", "read_file", "write_file", "list_dir", "edit_file", "shell", "web_fetch", "message"].map String.toList ++
    if env.memoryDisabled then [] else ["memory_search", "memory_get"].map String.toList

/-- `create_sub_agent_tools`. -/
def createSubAgentTools (whitelist : Option (List Str)) : List Str :=
  match whitelist with
  | some names => (subAgentTools env).filter fun t => t ∈ names
  | none => subAgentTools env

/-- The tools of the call, else those of the role, else all. -/
def allowedToolNames (spec : TaskSpec) : Option (List Str) :=
  spec.tools.or (((roleConfig env spec.role).filter fun rc => rc.tools ≠ []).map SwarmRole.tools)

def createSubAgent (spec : TaskSpec) (prompt : Str) : SubAgent :=
  ⟨prompt, spec.task, createSubAgentTools env (allowedToolNames env spec)⟩

end Create

/-! ## The arguments -/

inductive MergeStrategy where
  | concatenate
  | summarize
  deriving DecidableEq, Repr

/-- A call that passed its checks. The action `run` is an aggregate of one task. -/
structure DelegateRequest where
  specs : List TaskSpec
  parallel : Bool := false
  merge : MergeStrategy := .concatenate
  deriving DecidableEq, Repr

/-- `as_str`. -/
def Json.asStr : Json → Option Str
  | .string s => some s
  | _ => none

/-- `as_array`. -/
def Json.asArray : Json → Option (List Json)
  | .array items => some items
  | _ => none

/-- `as_bool`. -/
def Json.asBool : Json → Option Bool
  | .bool b => some b
  | _ => none

/-- A list of tool names; what is no text is left out. -/
def toolNames (args : Json) : Option (List Str) :=
  ((args.get "tools".toList).bind Json.asArray).map (List.filterMap Json.asStr)

def missingArgument (name : Str) : ZeptoError := .tool ("Missing required '".toList ++ name ++ "' argument".toList)

def parseTask (item : Json) : Except ZeptoError TaskSpec :=
  let role := ((item.get "role".toList).bind Json.asStr).getD "assistant".toList
  match (item.get "task".toList).bind Json.asStr with
  | some task => .ok ⟨role, task, toolNames item⟩
  | none => .error (.tool "Each task in aggregate must have 'task' field".toList)

def parseRun (args : Json) : Except ZeptoError DelegateRequest :=
  match (args.get "role".toList).bind Json.asStr with
  | none => .error (missingArgument "role".toList)
  | some role =>
    match (args.get "task".toList).bind Json.asStr with
    | none => .error (missingArgument "task".toList)
    | some task => .ok { specs := [⟨role, task, toolNames args⟩] }

def parseAggregate (args : Json) : Except ZeptoError DelegateRequest :=
  match (args.get "tasks".toList).bind Json.asArray with
  | none => .error (.tool "'aggregate' requires 'tasks' array".toList)
  | some tasks =>
    (tasks.mapM parseTask).map fun specs =>
      { specs
        parallel := ((args.get "parallel".toList).bind Json.asBool).getD false
        merge :=
          if (args.get "merge_strategy".toList).bind Json.asStr = some "summarize".toList then .summarize else .concatenate }

/-- The checks of `DelegateTool::execute`, and the reading of its arguments. -/
def parseDelegate (env : DelegateEnv) (channel : Option Str) (args : Json) : Except ZeptoError DelegateRequest :=
  if channel = some "delegate".toList then
    .error (.tool "Cannot delegate from within a delegated task (recursion limit)".toList)
  else if !env.swarm.enabled then .error (.tool "Delegation is disabled in configuration".toList)
  else
    let action := ((args.get "action".toList).bind Json.asStr).getD "run".toList
    if action = "run".toList then parseRun args
    else if action = "aggregate".toList then parseAggregate args
    else .error (.tool ("Unknown action '".toList ++ action ++ "'. Valid actions are: run, aggregate".toList))

/-! ## Calls -/

/-- `format_results`. -/
def formatResults (results : List (Str × Str)) : MergeStrategy → Str
  | .summarize => "## Aggregated Results\n\n".toList ++
    results.flatMap fun (role, result) => "### ".toList ++ role ++ '\n' :: result ++ "\n\n".toList
  | .concatenate => List.intercalate "\n\n".toList (results.map fun (role, result) => '[' :: role ++ "]: ".toList ++ result)

/-- Where a task is. -/
inductive Job where
  | pending
  -- the prompt is made, and there is no permit yet
  | waiting (agent : SubAgent)
  | running (agent : SubAgent)
  | ended (result : Except ZeptoError Str)
  -- the result has been used
  | collected (result : Except ZeptoError Str)

def Job.isRunning : Job → Bool
  | .running _ => true
  | _ => false

/-- The future of the task has its result. -/
def Job.hasEnded : Job → Bool
  | .ended _ | .collected _ => true
  | _ => false

/-- A sub-agent whose future is dropped. -/
def Job.stop : Job → Job
  | .running _ => .pending
  | job => job

inductive DelegateOutcome where
  | answered (result : Except ZeptoError Str)
  | panicked
  | dropped

structure DelegateCall where
  request : DelegateRequest
  jobs : List (TaskSpec × Job)
  results : List (Str × Str) := []
  outcome : Option DelegateOutcome := none

/-- A step of a call; tasks are known by their places. -/
inductive CallInput where
  -- `run_single_delegate` up to the semaphore
  | prepare (j : ℕ)
  | acquire (j : ℕ)
  -- the sub-agent returns
  | finish (j : ℕ) (result : Except ZeptoError Str)
  -- the next result is written to the scratchpad
  | collect
  -- the future of the call is dropped, or unwound by a panic of a sub-agent
  | drop

/-- What the calls of the tool share. -/
structure SwarmShared where
  scratchpad : SwarmScratchpad := ∅
  permits : ℕ

namespace DelegateCall

def start (request : DelegateRequest) : DelegateCall where
  request := request
  jobs := request.specs.map fun spec => (spec, .pending)
  outcome := if request.specs = [] then some (.answered (.ok (formatResults [] request.merge))) else none

/-- The result of `run_single_delegate`. -/
def delegateResult (role : Str) : Except ZeptoError Str → Except ZeptoError Str
  | .ok output => .ok output
  | .error e => .error (.tool ("Sub-agent '".toList ++ role ++ "' failed: ".toList ++ e.display))

/-- The sub-agents at work. -/
def running (call : DelegateCall) : ℕ := call.jobs.countP fun job => job.2.isRunning

/-- The results of a parallel call are used when all tasks have ended. -/
def allEnded (call : DelegateCall) : Bool := call.jobs.all fun job => job.2.hasEnded

/-- A result is put to those before it. -/
def addResult (call : DelegateCall) (role result : Str) (jobs : List (TaskSpec × Job)) : DelegateCall :=
  let results := call.results ++ [(role, result)]
  { call with
    jobs, results
    outcome :=
      if results.length = call.jobs.length then some (.answered (.ok (formatResults results call.request.merge))) else none }

/-- A step of a call that has no outcome yet, if the call can take it. -/
def move (env : DelegateEnv) (shared : SwarmShared) (call : DelegateCall) : CallInput → Option (DelegateCall × SwarmShared)
  | .prepare j =>
    match call.jobs[j]? with
    | some (spec, .pending) =>
      if call.request.parallel || decide (j = call.results.length) then
        match subAgentPrompt env shared.scratchpad (!call.request.parallel) spec.role with
        | some prompt => some ({ call with jobs := call.jobs.set j (spec, .waiting (createSubAgent env spec prompt)) }, shared)
        | none => some ({ call with outcome := some .panicked }, shared)
      else none
    | _ => none
  | .acquire j =>
    match call.jobs[j]? with
    | some (spec, .waiting agent) =>
      if 0 < shared.permits then
        some ({ call with jobs := call.jobs.set j (spec, .running agent) }, { shared with permits := shared.permits - 1 })
      else none
    | _ => none
  | .finish j result =>
    match call.jobs[j]? with
    | some (spec, .running _) =>
      some ({ call with jobs := call.jobs.set j (spec, .ended (delegateResult spec.role result)) },
        { shared with permits := shared.permits + 1 })
    | _ => none
  | .collect =>
    match call.jobs[call.results.length]? with
    | some (spec, .ended (.ok output)) =>
      if call.request.parallel && !call.allEnded then none
      else some (call.addResult spec.role output (call.jobs.set call.results.length (spec, .collected (.ok output))),
        { shared with scratchpad := shared.scratchpad.insert spec.role output })
    | some (spec, .ended (.error e)) =>
      if !call.request.parallel then
        some ({ call with
          jobs := call.jobs.set call.results.length (spec, .collected (.error e))
          outcome := some (.answered (.error e)) }, shared)
      else if !call.allEnded then none
      else some (call.addResult spec.role ("[error]: ".toList ++ e.display)
        (call.jobs.set call.results.length (spec, .collected (.error e))), shared)
    | _ => none
  | .drop =>
    -- the permits of its sub-agents are given back
    some ({ call with
      jobs := call.jobs.map fun job => (job.1, job.2.stop)
      outcome := some .dropped }, { shared with permits := shared.permits + call.running })

end DelegateCall

/-! ## The tool -/

structure Swarm where
  shared : SwarmShared
  calls : List DelegateCall := []

inductive SwarmInput where
  | call (channel : Option Str) (args : Json)
  | step (c : ℕ) (input : CallInput)

namespace Swarm

/-- `DelegateTool::new`. -/
def new (env : DelegateEnv) : Swarm where
  shared := { permits := if env.swarm.maxConcurrent = 0 then 1 else env.swarm.maxConcurrent }

def step (env : DelegateEnv) (s : Swarm) : SwarmInput → Swarm
  | .call channel args =>
    match parseDelegate env channel args with
    | .ok request => { s with calls := s.calls ++ [.start request] }
    | .error _ => s
  | .step c input =>
    match s.calls[c]? with
    | some call =>
      if call.outcome.isSome then s
      else
        match call.move env s.shared input with
        | some (call, shared) => { shared, calls := s.calls.set c call }
        | none => s
    | none => s

end Swarm

end Zeptoclaw

import Zeptoclaw.Lib.Run
import Zeptoclaw.Spec.Bus
import Zeptoclaw.Spec.Compaction
import Zeptoclaw.Spec.Gate

/-!
# The tool loop

The runs of `process_message` and `process_message_streaming` (`agent/loop.rs`) as far as
they decide which tool calls are executed: the memory flush before compaction, the tool
loop with its batches, and the end of the run. The calls of a batch are futures that the
scheduler advances one gate at a time, in any order unless the batch is sequential. What
the run reads from elsewhere (the provider's responses, the approval handler's answers,
the limits, the loop guard, the safety layer) is input.
-/

namespace Zeptoclaw

/-- `is_trusted_local_session`. -/
def isTrustedLocalSession (msg : InboundMessage) : Bool :=
  msg.channel = "cli".toList && msg.isSet "interactive_cli".toList && msg.isSet "trusted_local_session".toList &&
    !msg.isSet "is_batch".toList

structure AgentConfig where
  hooks : HooksConfig
  agentMode : AgentMode
  gate : ApprovalGate
  approvalHandler : Bool
  registry : Str → Option ToolCategory
  dryRun : Bool
  maxToolIterations : ℕ
  -- the agent's own provider, which the memory flush uses
  provider : Bool

/-! ## The trace -/

/-- Which call of the run an event belongs to: the `index`-th of the flush response or of
the batch of an iteration. -/
inductive CallRef where
  | flush (index : ℕ)
  | batch (iteration index : ℕ)
  deriving DecidableEq, Repr

inductive GateKind where
  | hookPassed
  | modePassed
  | handlerAnswered (answer : ApprovalResponse)
  | approvalPassed
  | executed
  deriving DecidableEq, Repr

structure GateEvent where
  ref : CallRef
  call : ToolCall
  kind : GateKind
  deriving DecidableEq, Repr

/-! ## Memory flush -/

/-- A call of the flush response that is executed: its arguments parse and its tool is
registered. The name need not be `longterm_memory`. -/
def flushExecutes (lib : AgentLib) (cfg : AgentConfig) (call : ToolCall) : Bool :=
  match lib.fromStr call.arguments with
  | .ok _ => (cfg.registry call.name).isSome
  | .error _ => false

/-- The calls of the flush response, in order. -/
def flushCalls (lib : AgentLib) (cfg : AgentConfig) : ℕ → List ToolCall → List GateEvent
  | _, [] => []
  | index, call :: rest =>
    if flushExecutes lib cfg call then ⟨.flush index, call, .executed⟩ :: flushCalls lib cfg (index + 1) rest
    else flushCalls lib cfg (index + 1) rest

/-- The flush turn is made: under normal urgency, with a provider, and with the
`longterm_memory` tool registered. -/
def flushHappens (cfg : AgentConfig) (urgency : Option CompactionUrgency) : Bool :=
  urgency = some .normal && cfg.provider && (cfg.registry "longterm_memory".toList).isSome

/-- `memory_flush`; the reply is `none` if the provider fails or times out. -/
def memoryFlush (lib : AgentLib) (cfg : AgentConfig) (urgency : Option CompactionUrgency)
    (reply : Option (List ToolCall)) : List GateEvent :=
  if flushHappens cfg urgency then flushCalls lib cfg 0 (reply.getD []) else []

/-! ## One tool call -/

/-- What a call's future does next. -/
inductive CallStage where
  | hook
  | mode
  | approval
  | dryRun
  | execute
  | finished
  deriving DecidableEq, Repr

/-- What `execute_tool` makes of a call that reaches it: the safety layer or taint tracking
block it, or it goes on to the registry. -/
inductive KernelOutcome where
  | blocked
  | passed

/-- The arguments of a call; text that is no JSON becomes a `_parse_error` object. -/
def callArgs (lib : AgentLib) (call : ToolCall) : Json :=
  match lib.fromStr call.arguments with
  | .ok args => args
  | .error e => .object [("_parse_error".toList, .string ("Invalid arguments JSON: ".toList ++ e))]

/-- The agent-mode check of a call, `none` if it passes. -/
def modeBlocks (cfg : AgentConfig) (trusted : Bool) (name : Str) : Option Str :=
  match cfg.registry name with
  | none => none
  | some category =>
    match ModePolicy.check cfg.agentMode category with
    | .blocked =>
      some ("Tool '".toList ++ name ++ "' is blocked in ".toList ++ cfg.agentMode.display ++
        " mode (category: ".toList ++ category.display ++ ")".toList)
    | .requiresApproval =>
      if trusted || cfg.gate.requiresApproval name then none
      else
        some ("Tool '".toList ++ name ++ "' requires approval in ".toList ++ cfg.agentMode.display ++
          " mode (category: ".toList ++ category.display ++ "). Not executed.".toList)
    | .allowed => none

/-- One step of a call's future, with the kinds of the events it adds. The closures of the
two loops have the same gates in the same order; the text a call hands back is left out. -/
def callStep (lib : AgentLib) (cfg : AgentConfig) (msg : InboundMessage) (call : ToolCall) (stage : CallStage)
    (answer : ApprovalResponse) (outcome : KernelOutcome) : CallStage × List GateKind :=
  match stage with
  | .hook =>
    match beforeTool cfg.hooks call.name msg.channel with
    | some _ => (.finished, [])
    | none => (.mode, [.hookPassed])
  | .mode =>
    match modeBlocks cfg (isTrustedLocalSession msg) call.name with
    | some _ => (.finished, [])
    | none => (.approval, [.modePassed])
  | .approval =>
    if isTrustedLocalSession msg then (.dryRun, [])
    else
      let asked := if cfg.approvalHandler && asksHandler lib cfg.gate call.name (callArgs lib call) then
        [GateKind.handlerAnswered answer] else []
      match resolveToolApproval lib cfg.gate cfg.approvalHandler call.name (callArgs lib call) answer with
      | some _ => (.finished, asked)
      | none => (.dryRun, asked ++ [.approvalPassed])
  | .dryRun => if cfg.dryRun then (.finished, []) else (.execute, [])
  | .execute =>
    match outcome with
    | .blocked => (.finished, [])
    | .passed =>
      -- a tool that is not registered has nothing to execute
      if (cfg.registry call.name).isSome then (.finished, [.executed]) else (.finished, [])
  | .finished => (.finished, [])

/-! ## The run -/

/-- `run_sequential`: approvals are asked one at a time, and calls that write files, run
commands or name unknown tools keep their order. -/
def runSequential (cfg : AgentConfig) (trusted : Bool) (calls : List ToolCall) : Bool :=
  (!trusted && cfg.approvalHandler && calls.any fun call => cfg.gate.requiresApproval call.name) ||
    calls.any fun call =>
      match cfg.registry call.name with
      | some category => category = .filesystemWrite || category = .shell
      | none => true

inductive Stage where
  | chatting
  | batch (calls : List (ToolCall × CallStage)) (sequential : Bool)
  | finalStream
  | finished

/-- What stops or continues the loop once a batch is done. -/
inductive AfterBatch where
  | pause
  | limitHit
  | guardStop
  | budgetStop
  | next
  deriving DecidableEq, Repr

inductive RunInput where
  /-- The provider's response (`none`: an error), and what is left of the tool-call limit. -/
  | response (calls : Option (List ToolCall)) (remaining : Option ℕ)
  | advance (index : ℕ) (answer : ApprovalResponse) (outcome : KernelOutcome)
  | batchDone (verdict : AfterBatch)
  /-- Tool calls in the final stream are forwarded to the caller. -/
  | streamEnds (calls : List ToolCall)

structure RunState where
  stage : Stage
  iteration : ℕ
  trace : List GateEvent

/-- The batch of a response: cut to what is left of the limit. -/
def truncateBatch (calls : List ToolCall) : Option ℕ → List ToolCall
  | none => calls
  | some allowed => calls.take allowed

/-- The head of the loop with a response at hand. -/
def startBatch (cfg : AgentConfig) (msg : InboundMessage) (streaming : Bool) (st : RunState)
    (calls : List ToolCall) (remaining : Option ℕ) : RunState :=
  if calls = [] then { st with stage := if streaming then .finalStream else .finished }
  else if cfg.maxToolIterations ≤ st.iteration then { st with stage := .finished }
  else if remaining = some 0 then { st with stage := .finished }
  else
    let batch := truncateBatch calls remaining
    { st with
      stage := .batch (batch.map fun call => (call, .hook)) (runSequential cfg (isTrustedLocalSession msg) batch)
      iteration := st.iteration + 1 }

/-- The scheduler advances a call; in a sequential batch only the first unfinished one. -/
def advanceCall (lib : AgentLib) (cfg : AgentConfig) (msg : InboundMessage) (st : RunState)
    (calls : List (ToolCall × CallStage)) (sequential : Bool) (index : ℕ) (answer : ApprovalResponse)
    (outcome : KernelOutcome) : RunState :=
  match calls[index]? with
  | none => st
  | some (call, stage) =>
    if sequential && !(calls.take index).all fun c => c.2 = .finished then st
    else
      let (stage, kinds) := callStep lib cfg msg call stage answer outcome
      { st with
        stage := .batch (calls.set index (call, stage)) sequential
        trace := st.trace ++ kinds.map fun kind => ⟨.batch st.iteration index, call, kind⟩ }

/-- The end of a batch: the loop asks the provider again, or ends. -/
def finishBatch (streaming : Bool) (st : RunState) (calls : List (ToolCall × CallStage))
    (verdict : AfterBatch) : RunState :=
  if calls.all fun c => c.2 = .finished then
    match verdict with
    | .next => { st with stage := .chatting }
    | .limitHit => { st with stage := if streaming then .finalStream else .finished }
    | _ => { st with stage := .finished }
  else st

def runStep (lib : AgentLib) (cfg : AgentConfig) (msg : InboundMessage) (streaming : Bool) (st : RunState)
    (input : RunInput) : RunState :=
  match st.stage, input with
  | .chatting, .response none _ => { st with stage := .finished }
  | .chatting, .response (some calls) remaining => startBatch cfg msg streaming st calls remaining
  | .batch calls sequential, .advance index answer outcome =>
    advanceCall lib cfg msg st calls sequential index answer outcome
  | .batch calls _, .batchDone verdict => finishBatch streaming st calls verdict
  | .finalStream, .streamEnds _ => { st with stage := .finished }
  | _, _ => st

/-- A run of either entry point, up to the last input. -/
def runMessage (lib : AgentLib) (cfg : AgentConfig) (msg : InboundMessage) (streaming : Bool)
    (urgency : Option CompactionUrgency) (flushReply : Option (List ToolCall)) (inputs : List RunInput) : RunState :=
  runSteps (runStep lib cfg msg streaming) ⟨.chatting, 0, memoryFlush lib cfg urgency flushReply⟩ inputs

/-- The trace of a run of `process_message`. -/
def processMessage (lib : AgentLib) (cfg : AgentConfig) (msg : InboundMessage)
    (urgency : Option CompactionUrgency) (flushReply : Option (List ToolCall)) (inputs : List RunInput) :
    List GateEvent :=
  (runMessage lib cfg msg false urgency flushReply inputs).trace

/-- The trace of a run of `process_message_streaming`. -/
def processMessageStreaming (lib : AgentLib) (cfg : AgentConfig) (msg : InboundMessage)
    (urgency : Option CompactionUrgency) (flushReply : Option (List ToolCall)) (inputs : List RunInput) :
    List GateEvent :=
  (runMessage lib cfg msg true urgency flushReply inputs).trace

end Zeptoclaw

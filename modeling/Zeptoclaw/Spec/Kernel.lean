import Zeptoclaw.Lib.Assoc
import Zeptoclaw.Lib.Run
import Zeptoclaw.Spec.Error
import Zeptoclaw.Spec.Taint

/-!
# Gated tool execution

`execute_tool` (`kernel/gate.rs`), which every tool call of the agent loop and of the MCP
server goes through, on a registry (`tools/registry.rs`). The safety layer is its scan;
what a tool returns is an input of the call.
-/

namespace Zeptoclaw

/-! ## Tools -/

inductive Tool where
  | shell
  | webSearch
  | webFetch
  | httpRequest
  | other (name : Str)
  deriving DecidableEq, Repr

/-- `Tool::name`. -/
def Tool.name : Tool → Str
  | .shell => "shell".toList
  | .webSearch => "web_search".toList
  | .webFetch => "web_fetch".toList
  | .httpRequest => "http_request".toList
  | .other name => name

structure ToolOutput where
  forLlm : Str
  forUser : Option Str
  isError : Bool
  isAsync : Bool
  pauseForInput : Bool
  deriving DecidableEq, Repr

def ToolOutput.error (content : Str) : ToolOutput := ⟨content, none, true, false, false⟩

abbrev ToolRegistry : Type := Assoc Str Tool

namespace ToolRegistry

def register (registry : ToolRegistry) (tool : Tool) : ToolRegistry := registry.insert tool.name tool

/-- `opt_in_tool_hint`. -/
def optInToolHint (name : Str) : Str :=
  if name = "grep".toList ∨ name = "find".toList then
    " (coding tool — enable with `--template coder` or set `tools.coding_tools: true` in config)".toList
  else []

end ToolRegistry

/-! ## Safety -/

inductive CheckDirection where
  | input
  | output
  deriving DecidableEq, Repr

structure SafetyResult where
  content : Str
  warnings : List Str
  wasModified : Bool
  blocked : Bool
  blockReason : Option Str
  deriving DecidableEq, Repr

/-- The safety layer; a scan may ignore policy rules. -/
structure SafetyLayer where
  scanWithOptions : (text : Str) → CheckDirection → (ignoredPolicyRules : List Str) → SafetyResult

def SafetyLayer.scan (safety : SafetyLayer) (text : Str) (direction : CheckDirection) : SafetyResult :=
  safety.scanWithOptions text direction []

/-- `FILE_BODY_IGNORED_POLICY_RULES`. -/
def fileBodyIgnoredPolicyRules : List Str := ["shell_injection".toList]

/-- A segment of the input is scanned, and reported if it is blocked. -/
def checkSegment (safety : SafetyLayer) (ignored : List Str) (content : Str) : Option SafetyResult :=
  let result := safety.scanWithOptions content .input ignored
  if result.blocked then some result else none

/-- A file tool: the path, then the first blocked body among the fields. -/
def scanFileTool (safety : SafetyLayer) (bodies : List Str) (input : Json) : Option SafetyResult :=
  match checkSegment safety [] ((input.strField "path".toList).getD []) with
  | some result => some result
  | none => (bodies.filterMap input.strField).findSome? (checkSegment safety fileBodyIgnoredPolicyRules)

/-- `scan_tool_input`. -/
def scanToolInput (safety : SafetyLayer) (name : Str) (input : Json) : Option SafetyResult :=
  if name = "write_file".toList then scanFileTool safety ["content".toList] input
  else if name = "edit_file".toList then
    scanFileTool safety ["old_text".toList, "new_text".toList, "diff".toList] input
  else checkSegment safety [] input.toStr

/-! ## Execution -/

/-- What the audit chain and the metrics are told about a call. -/
structure CallRecord where
  name : Str
  outcome : Str
  success : Bool
  deriving DecidableEq, Repr

structure KernelState where
  taint : Option TaintEngine
  -- every tool that ran, with its input
  executed : List (Tool × Json)
  records : List CallRecord

namespace KernelState

def record (s : KernelState) (name : Str) (outcome : String) (success : Bool) : KernelState :=
  { s with records := s.records ++ [⟨name, outcome.toList, success⟩] }

end KernelState

/-- A call of `execute_tool`. -/
structure GateCall where
  name : Str
  input : Json
  -- what the tool returns, if it runs
  returned : Except ZeptoError ToolOutput

/-- The input is blocked by the safety layer. -/
def inputBlocked (safety : Option SafetyLayer) (call : GateCall) : Option SafetyResult :=
  safety.bind fun layer => scanToolInput layer call.name call.input

/-- The taint violation of the input. -/
def taintViolation (taint : Option TaintEngine) (call : GateCall) : Option TaintViolation :=
  taint.bind fun engine =>
    match engine.checkSink call.name call.input with
    | .ok () => none
    | .error violation => some violation

/-- `ToolRegistry::execute_with_context`. -/
def executeWithContext (registry : ToolRegistry) (s : KernelState) (call : GateCall) :
    KernelState × Except ZeptoError ToolOutput :=
  match registry.lookup call.name with
  | none =>
    (s, .ok (.error ("Tool not found: ".toList ++ call.name ++ ToolRegistry.optInToolHint call.name)))
  | some tool => ({ s with executed := s.executed ++ [(tool, call.input)] }, call.returned)

/-- The steps of `execute_tool` after the tool has returned an output. -/
def finishTool (safety : Option SafetyLayer) (s : KernelState) (call : GateCall) (output : ToolOutput) :
    KernelState × ToolOutput :=
  match (safety.map fun layer => layer.scan output.forLlm .output).filter SafetyResult.blocked with
  | some result =>
    (s.record call.name "blocked_output_safety" false,
      .error ("Tool '".toList ++ call.name ++ "' output blocked by safety: ".toList ++
        "; ".toList.intercalate result.warnings))
  | none =>
    let s : KernelState := { s with taint := s.taint.map fun engine => (engine.labelOutput call.name output.forLlm).1 }
    (s.record call.name (if output.isError then "tool_error" else "success") (!output.isError), output)

/-- `execute_tool`. -/
def executeTool (registry : ToolRegistry) (safety : Option SafetyLayer) (s : KernelState) (call : GateCall) :
    KernelState × Except ZeptoError ToolOutput :=
  match inputBlocked safety call with
  | some result =>
    (s.record call.name "blocked_input_safety" false,
      .ok (.error ("Tool '".toList ++ call.name ++ "' input blocked by safety: ".toList ++
        "; ".toList.intercalate result.warnings)))
  | none =>
    match taintViolation s.taint call with
    | some violation =>
      (s.record call.name "blocked_taint" false,
        .ok (.error ("Tool '".toList ++ call.name ++ "' blocked by taint tracking: ".toList ++ violation.display)))
    | none =>
      match executeWithContext registry s call with
      | (s, .error err) => (s.record call.name "execution_error" false, .error err)
      | (s, .ok output) =>
        let (s, output) := finishTool safety s call output
        (s, .ok output)

end Zeptoclaw

import Zeptoclaw.Spec.Session

/-!
# The gates before a tool call

Hooks (`hooks/mod.rs`), agent modes (`security/agent_mode.rs`), the approval gate
(`tools/approval.rs`), the hard floor (`tools/hard_floor.rs`) and
`resolve_tool_approval` (`agent/loop.rs`).
-/

namespace Zeptoclaw

/-- `serde_json::Value`; a number is its text. -/
inductive Json where
  | null
  | bool (b : Bool)
  | number (text : Str)
  | string (s : Str)
  | array (items : List Json)
  | object (fields : List (Str × Json))

/-- `Value::get` on a field name, then `as_str`. -/
def Json.strField (field : Str) : Json → Option Str
  | .object fields =>
    match fields.find? fun f => f.1 = field with
    | some (_, .string s) => some s
    | _ => none
  | _ => none

/-- What the agent takes from the `serde_json` and `regex` crates. -/
structure AgentLib where
  fromStr : Str → Except Str Json
  toStringPretty : Json → Str
  isMatch : (pattern : Str) → (text : Str) → Bool

/-! ## Hooks -/

inductive HookAction where
  | log
  | block
  | notify
  deriving DecidableEq, Repr

structure HookRule where
  action : HookAction
  tools : List Str
  channels : List Str
  message : Option Str

structure HooksConfig where
  enabled : Bool
  beforeTool : List HookRule

def HookRule.matchesTool (rule : HookRule) (toolName : Str) : Bool :=
  rule.tools.any fun t => t = ['*'] || t = toolName

def HookRule.matchesChannel (rule : HookRule) (channelName : Str) : Bool :=
  rule.channels.isEmpty || rule.channels.any fun c => c = ['*'] || c = channelName

/-- `HookEngine::before_tool`: the message of the first matching rule that blocks. -/
def beforeTool (config : HooksConfig) (toolName channel : Str) : Option Str :=
  if !config.enabled then none
  else
    (config.beforeTool.find? fun rule =>
      rule.matchesTool toolName && rule.matchesChannel channel && rule.action = .block).map fun rule =>
        rule.message.getD ("Tool '".toList ++ toolName ++ "' blocked by hook".toList)

/-! ## Agent modes -/

inductive ToolCategory where
  | filesystemRead
  | filesystemWrite
  | networkRead
  | networkWrite
  | shell
  | hardware
  | memory
  | messaging
  | destructive
  deriving DecidableEq, Repr

def ToolCategory.display : ToolCategory → Str
  | .filesystemRead => "filesystem_read".toList
  | .filesystemWrite => "filesystem_write".toList
  | .networkRead => "network_read".toList
  | .networkWrite => "network_write".toList
  | .shell => "shell".toList
  | .hardware => "hardware".toList
  | .memory => "memory".toList
  | .messaging => "messaging".toList
  | .destructive => "destructive".toList

inductive AgentMode where
  | observer
  | assistant
  | autonomous
  deriving DecidableEq, Repr

def AgentMode.display : AgentMode → Str
  | .observer => "observer".toList
  | .assistant => "assistant".toList
  | .autonomous => "autonomous".toList

inductive CategoryPermission where
  | allowed
  | requiresApproval
  | blocked
  deriving DecidableEq, Repr

/-- `ModePolicy::check`. -/
def ModePolicy.check : AgentMode → ToolCategory → CategoryPermission
  | .autonomous, _ => .allowed
  | .observer, .filesystemRead => .allowed
  | .observer, .networkRead => .allowed
  | .observer, .memory => .allowed
  | .observer, _ => .blocked
  | .assistant, .shell => .requiresApproval
  | .assistant, .hardware => .requiresApproval
  | .assistant, .destructive => .requiresApproval
  | .assistant, _ => .allowed

/-! ## The approval gate -/

inductive ApprovalPolicy where
  | alwaysAllow
  | alwaysRequire
  | requireForTools (tools : List Str)
  | requireForDangerous

structure ApprovalGate where
  enabled : Bool
  policy : ApprovalPolicy

/-- `matches_tool_pattern`. -/
def matchesToolPattern (pattern toolName : Str) : Bool :=
  if pattern = ['*'] then true
  else if pattern.getLast? = some '*' then pattern.dropLast <+: toolName
  else
    match pattern with
    | '*' :: suffix => suffix <:+ toolName
    | _ => pattern = toolName

def defaultDangerousTools : List Str :=
  ["shell".toList, "write_file".toList, "edit_file".toList]

/-- `ApprovalGate::requires_approval`. -/
def ApprovalGate.requiresApproval (gate : ApprovalGate) (toolName : Str) : Bool :=
  if !gate.enabled then false
  else
    match gate.policy with
    | .alwaysAllow => false
    | .alwaysRequire => true
    | .requireForTools tools => tools.any fun pattern => matchesToolPattern pattern toolName
    | .requireForDangerous => defaultDangerousTools.any fun pattern => matchesToolPattern pattern toolName

/-- `ApprovalGate::format_approval_request`. -/
def formatApprovalRequest (lib : AgentLib) (toolName : Str) (args : Json) : Str :=
  "[Approval Required]\nTool: ".toList ++ toolName ++ "\nArguments:\n".toList ++ lib.toStringPretty args ++
    "\n\nApprove execution? (yes/no)".toList

inductive ApprovalResponse where
  | approved
  | denied (reason : Str)
  | timedOut
  deriving DecidableEq, Repr

/-! ## The hard floor -/

structure HardFloorRule where
  id : Str
  reason : Str
  pattern : Str

/-- `DEFAULT_RULES`. -/
def hardFloorRules : List HardFloorRule :=
  [⟨"rm_rf_root".toList, "`rm -rf /` or `rm -rf /*` would wipe the entire filesystem.".toList,
      r"\brm\s+(-[rRfF]+\s+)+/(\s|\*|$)".toList⟩,
    ⟨"rm_rf_home".toList, "`rm -rf` against $HOME / ~ recursively deletes the user's data.".toList,
      "\\brm\\s+(-[rRfF]+\\s+)+(\\$HOME|\\$\\\x7bHOME\\\x7d|~)(\\s|$)".toList⟩,
    ⟨"mkfs_any".toList, "`mkfs.*` formats a filesystem, destroying all data on the target.".toList,
      r"\bmkfs(\.\w+)?\s+\S".toList⟩,
    ⟨"dd_to_block_device".toList, "`dd of=/dev/...` writes raw bytes to a block device.".toList,
      r"\bdd\s+([^|;]*\s)?of=/dev/(sd[a-z]\d*|nvme\d+n\d+(p\d+)?|hd[a-z]\d*|xvd[a-z]\d*|vd[a-z]\d*|disk\d*)(\s|$)".toList⟩,
    ⟨"wipefs_or_partition_destroy".toList, "`wipefs` / destructive `parted` removes partition tables.".toList,
      r"\b(wipefs\s+\S|parted\s+[^|;]*\b(mklabel|rm)\b)".toList⟩,
    ⟨"fork_bomb".toList, "Classic fork-bomb pattern exhausts process limits.".toList,
      ":\\s*\\(\\s*\\)\\s*\\\x7b\\s*:\\s*\\|\\s*:\\s*&\\s*\\\x7d\\s*;\\s*:".toList⟩,
    ⟨"chmod_777_root_recursive".toList, "`chmod -R 777 /` makes the entire filesystem world-writable.".toList,
      r"\bchmod\s+(-R\s+)?[0-7]*7[0-7]*7[0-7]*7\s+/(\s|$)".toList⟩,
    ⟨"shutdown_or_reboot".toList, "`shutdown` / `reboot` / `halt` takes the host offline.".toList,
      r"\b(shutdown\s+\S|reboot\b|halt\b|poweroff\b|init\s+[06]\b)".toList⟩]

/-- `HardFloorMatcher::check`. -/
def hardFloorCheck (lib : AgentLib) (toolName : Str) (args : Json) : Option HardFloorRule :=
  if toolName ≠ "shell".toList then none
  else
    match args.strField "command".toList with
    | none => none
    | some command => hardFloorRules.find? fun r => lib.isMatch r.pattern command

/-! ## Approval of one call -/

/-- The handler is asked, if there is one. -/
def asksHandler (lib : AgentLib) (gate : ApprovalGate) (toolName : Str) (args : Json) : Bool :=
  (hardFloorCheck lib toolName args).isSome || gate.requiresApproval toolName

/-- `resolve_tool_approval`: `none` lets the call through. `answer` is what the handler
says if it is asked. -/
def resolveToolApproval (lib : AgentLib) (gate : ApprovalGate) (handler : Bool) (toolName : Str) (args : Json)
    (answer : ApprovalResponse) : Option Str :=
  if (hardFloorCheck lib toolName args).isNone && !gate.requiresApproval toolName then none
  else if handler then
    match answer with
    | .approved => none
    | .denied reason =>
      some ("Tool '".toList ++ toolName ++ "' was denied by user approval. ".toList ++ reason)
    | .timedOut =>
      match hardFloorCheck lib toolName args with
      | some rule =>
        some ("Tool '".toList ++ toolName ++ "' was denied: HardFloor approval (".toList ++ rule.id ++
          ") timed out.".toList)
      | none => some ("Tool '".toList ++ toolName ++ "' approval timed out and was not executed.".toList)
  else
    some ("Tool '".toList ++ toolName ++ "' requires user approval and was not executed. ".toList ++
      formatApprovalRequest lib toolName args)

end Zeptoclaw

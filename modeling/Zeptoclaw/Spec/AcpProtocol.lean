import Zeptoclaw.Lib.Assoc
import Zeptoclaw.Spec.Gate
import Zeptoclaw.Spec.Workspace

/-!
# The agent client protocol

The JSON-RPC messages of `channels/acp_protocol.rs` and what the two ACP channels share. A
response and an update are data, not text; the parsing of requests and of their parameters is a
parameter.
-/

namespace Zeptoclaw

open Text

/-- `JSONRPC_SERVER_ERROR`. -/
def jsonrpcServerError : ℤ := -32000

/-- `MAX_PROMPT_BYTES`. -/
def maxPromptBytes : ℕ := 102400

structure BaseChannelConfig where
  allowlist : List Str := []
  denyByDefault : Bool := false
  deriving DecidableEq, Repr

def BaseChannelConfig.isAllowed (config : BaseChannelConfig) (userId : Str) : Bool :=
  if config.allowlist.isEmpty then !config.denyByDefault else config.allowlist.contains userId

structure JsonRpcRequest where
  jsonrpc : Str
  id : Option Json
  method : Str
  params : Option Json

/-- `PromptContentBlock`; embedded resources, images, audio and unknown blocks are not read. -/
inductive PromptContentBlock where
  | text (t : Str)
  | resourceLink (uri name : Str)
  | other
  deriving DecidableEq, Repr

structure SessionPromptParams where
  sessionId : Str
  prompt : List PromptContentBlock
  deriving DecidableEq, Repr

def PromptContentBlock.part : PromptContentBlock → Option Str
  | .text t => some t
  | .resourceLink uri name => some ("[Resource: ".toList ++ name ++ " (".toList ++ uri ++ ")]".toList)
  | .other => none

def promptBlocksToText (blocks : List PromptContentBlock) : Str :=
  trim (['\n'].intercalate (blocks.filterMap PromptContentBlock.part))

/-- `serde_json` on a request, on the parameters of each method, and on a custom payload. -/
structure AcpParse where
  request : Str → Except Str JsonRpcRequest
  -- the name of the client, if there is one
  initParams : Json → Option (Option Str)
  -- the working directory
  sessionNew : Json → Option (Option Str)
  sessionPrompt : Json → Option SessionPromptParams
  -- the session
  sessionCancel : Json → Option Str
  -- the directory to list
  sessionList : Json → Except Str (Option Str)
  payload : Str → Option Json

/-- The methods that the channels know. -/
inductive AcpMethod where
  -- `initialize`
  | init
  | sessionNew
  | sessionPrompt
  | sessionCancel
  | sessionList
  deriving DecidableEq, Repr

def AcpMethod.name : AcpMethod → Str
  | .init => "initialize".toList
  | .sessionNew => "session/new".toList
  | .sessionPrompt => "session/prompt".toList
  | .sessionCancel => "session/cancel".toList
  | .sessionList => "session/list".toList

def AcpMethod.ofName (name : Str) : Option AcpMethod :=
  [init, sessionNew, sessionPrompt, sessionCancel, sessionList].find? fun m => m.name = name

/-- `SessionInfo`; its title and time are never set. -/
structure SessionInfo where
  sessionId : Str
  cwd : Str
  pending : Bool
  deriving DecidableEq, Repr

/-- The result or the error of a response. What `initialize` returns is a constant. -/
inductive AcpReply where
  | initialized
  | sessionNew (sessionId : Str)
  | promptDone (stopReason : Str)
  | cancelDone
  | sessionList (sessions : List SessionInfo)
  | error (code : ℤ) (message : Str)
  deriving DecidableEq, Repr

structure JsonRpcResponse where
  id : Option Json
  reply : AcpReply

/-- The payload of a `session/update`. -/
inductive SessionUpdate where
  | agentMessage (content : Str)
  | agentMessageChunk (content : Str)
  | agentCustom (name : Str) (payload : Json)

def stopReason (cancelled : Bool) : Str := if cancelled then "cancelled".toList else "end_turn".toList

/-- `"Error: "` is stripped once. -/
def stripAgentErrorPrefix (s : Str) : Str :=
  if "Error: ".toList <+: s then s.drop "Error: ".toList.length else s

/-- `cwd_contains_traversal`. -/
def cwdContainsTraversal (cwd : Str) : Bool := (components cwd).contains .parent

/-- The checks of `session/new` on the working directory. -/
def validateCwd (parse : AcpParse) (params : Option Json) : Except Str Str :=
  match ((params.bind parse.sessionNew).join).filter fun cwd => !cwd.isEmpty with
  | none => .error "session/new: cwd is required".toList
  | some cwd =>
    if cwd.head? ≠ some '/' then .error "session/new: cwd must be an absolute path".toList
    else if 4096 < byteLen cwd then .error "session/new: cwd exceeds 4096 bytes".toList
    else if cwdContainsTraversal cwd then .error "session/new: cwd must not contain '..' path segments".toList
    else .ok cwd

/-- The checks of `session/prompt` on its parameters: the session and the text. The two channels
word the limit differently. -/
def validatePrompt (parse : AcpParse) (limitText : Str) (params : Option Json) : Except Str (Str × Str) :=
  match params.bind parse.sessionPrompt with
  | none => .error "session/prompt: missing or invalid params".toList
  | some params =>
    let content := promptBlocksToText params.prompt
    if content.isEmpty then .error "session/prompt: prompt content is empty".toList
    else if maxPromptBytes < byteLen content then
      .error ("session/prompt: content too large (".toList ++ (toString (byteLen content)).toList ++ " bytes, limit ".toList ++
        (toString maxPromptBytes).toList ++ limitText)
    else .ok (params.sessionId, content)

def inFlightText : Str := "session/prompt: a prompt is already in flight for this session".toList

def unknownSessionText (sessionId : Str) : Str := "ACP: unknown session ".toList ++ sessionId

end Zeptoclaw

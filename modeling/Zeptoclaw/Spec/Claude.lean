import Zeptoclaw.Spec.Gate
import Zeptoclaw.Spec.Stream

/-!
# The Claude provider

`providers/claude.rs`: the conversion of messages and responses, and the parser task of a
streamed response. The JSON library is a parameter.
-/

namespace Zeptoclaw

open Text Lines

namespace Claude

structure ImageSource where
  sourceType : Str
  mediaType : Str
  data : Str
  deriving DecidableEq, Repr

inductive ContentBlock where
  | text (text : Str)
  | toolUse (id name : Str) (input : Json)
  | toolResult (toolUseId content : Str) (isError : Option Bool)
  | image (source : ImageSource)

inductive Content where
  | text (text : Str)
  | blocks (blocks : List ContentBlock)

structure ClaudeMessage where
  role : Str
  content : Content

/-! ## Messages -/

/-- An image that has not been resolved to base64 is left out. -/
def imageBlock : ContentPart → Option ContentBlock
  | .text text => some (.text text)
  | .image (.base64 data) mediaType => some (.image ⟨"base64".toList, mediaType, data⟩)
  | .image _ _ => none

/-- The loop variables of `convert_messages`. -/
structure Conversion where
  system : Option Str
  messages : List ClaudeMessage
  pendingToolResults : List ContentBlock

namespace Conversion

/-- Pending tool results become a user message. -/
def flush (c : Conversion) : Conversion :=
  if c.pendingToolResults.isEmpty then c
  else
    { c with
      messages := c.messages ++ [⟨"user".toList, .blocks c.pendingToolResults⟩]
      pendingToolResults := [] }

def push (c : Conversion) (role : Str) (content : Content) : Conversion :=
  { c with messages := c.messages ++ [⟨role, content⟩] }

end Conversion

section Messages

variable (fromStr : Str → Option Json)

/-- The blocks of an assistant message with tool calls. -/
def assistantBlocks (content : Str) (calls : List ToolCall) : List ContentBlock :=
  (if content = [] then [] else [.text content]) ++
    calls.map fun tc => .toolUse tc.id tc.name ((fromStr tc.arguments).getD (.object []))

def convertMessage (c : Conversion) (m : Message) : Conversion :=
  match m.role with
  | .system => { c with system := some m.content }
  | .user =>
    if m.hasImages then c.flush.push "user".toList (.blocks (m.contentParts.filterMap imageBlock))
    else c.flush.push "user".toList (.text m.content)
  | .assistant =>
    match m.toolCalls with
    | some calls => c.flush.push "assistant".toList (.blocks (assistantBlocks fromStr m.content calls))
    | none => c.flush.push "assistant".toList (.text m.content)
  | .tool =>
    match m.toolCallId with
    | some id => { c with pendingToolResults := c.pendingToolResults ++ [.toolResult id m.content none] }
    | none => c

/-- The system text and the messages. -/
def convertMessages (messages : List Message) : Option Str × List ClaudeMessage :=
  let c := (messages.foldl (convertMessage fromStr) ⟨none, [], []⟩).flush
  (c.system, c.messages)

end Messages

/-! ## Responses -/

structure LLMResponse where
  content : Str
  toolCalls : List LLMToolCall
  usage : Option Usage
  deriving DecidableEq, Repr

/-- One content block. `toString` returns no error for a `Value`. -/
def convertBlock (toString : Json → Str) (acc : Str × List LLMToolCall) : ContentBlock → Str × List LLMToolCall
  | .text text => ((if acc.1 = [] then [] else acc.1 ++ ['\n']) ++ text, acc.2)
  | .toolUse id name input => (acc.1, acc.2 ++ [⟨id, name, toString input⟩])
  | .toolResult _ _ _ => acc
  | .image _ => acc

def convertResponse (toString : Json → Str) (blocks : List ContentBlock) (inputTokens outputTokens : ℕ) : LLMResponse :=
  let acc := blocks.foldl (convertBlock toString) ([], [])
  ⟨acc.1, acc.2, some (Usage.new inputTokens outputTokens)⟩

/-! ## Streaming -/

/-- The event types that the parser tells apart. -/
inductive EventType where
  | messageStart
  | contentBlockStart
  | contentBlockDelta
  | contentBlockStop
  | messageDelta
  | messageStop
  | other
  deriving DecidableEq, Repr

inductive DeltaType where
  | textDelta
  | inputJsonDelta
  | other
  deriving DecidableEq, Repr

structure SseUsage where
  inputTokens : Option ℕ
  outputTokens : Option ℕ
  deriving DecidableEq, Repr

structure SseMessage where
  usage : Option SseUsage
  deriving DecidableEq, Repr

structure SseContentBlock where
  -- the type is `tool_use`
  isToolUse : Bool
  id : Option Str
  name : Option Str
  deriving DecidableEq, Repr

structure SseDelta where
  deltaType : Option DeltaType
  text : Option Str
  partialJson : Option Str
  deriving DecidableEq, Repr

structure SseEvent where
  eventType : EventType
  delta : Option SseDelta
  contentBlock : Option SseContentBlock
  usage : Option SseUsage
  message : Option SseMessage
  deriving DecidableEq, Repr

/-- The variables of the parser task, and what it has sent. -/
structure StreamState where
  assembledContent : Str
  toolCalls : List LLMToolCall
  currentToolId : Option Str
  currentToolName : Option Str
  currentToolJson : Str
  inputTokens : ℕ
  outputTokens : ℕ
  sent : List StreamEvent
  -- the task has returned
  returned : Bool
  deriving DecidableEq, Repr

namespace StreamState

def init : StreamState := ⟨[], [], none, none, [], 0, 0, [], false⟩

variable (receiver : List StreamEvent → Bool) (s : StreamState)

def send (e : StreamEvent) : StreamState := { s with sent := sendTo receiver s.sent e }

/-- The tool calls, if there are any, and the end of the stream. -/
def finish : StreamState :=
  let s' := if s.toolCalls.isEmpty then s else { s.send receiver (.toolCalls s.toolCalls) with toolCalls := [] }
  { s'.send receiver (.done s'.assembledContent (some (Usage.new s'.inputTokens s'.outputTokens))) with returned := true }

def fail (message : Str) : StreamState := { s.send receiver (.error message) with returned := true }

/-- A text that arrives; without a receiver the task returns. -/
def textDelta (text : Str) : StreamState × Flow :=
  let s' := { s with assembledContent := s.assembledContent ++ text }
  if receiver s.sent then (s'.send receiver (.delta text), .next) else ({ s' with returned := true }, .stop)

def startBlock (block : SseContentBlock) : StreamState :=
  if block.isToolUse then { s with currentToolId := block.id, currentToolName := block.name, currentToolJson := [] }
  else s

/-- Both fields are taken, also when only one of them is set. -/
def stopBlock : StreamState :=
  match s.currentToolId, s.currentToolName with
  | some id, some name =>
    { s with
      currentToolId := none
      currentToolName := none
      currentToolJson := []
      toolCalls := s.toolCalls ++ [⟨id, name, if s.currentToolJson = [] then "\x7b\x7d".toList else s.currentToolJson⟩] }
  | _, _ => { s with currentToolId := none, currentToolName := none }

end StreamState

section Task

variable (receiver : List StreamEvent → Bool)

/-- What the parser does with an event. -/
def handleEvent (s : StreamState) (sse : SseEvent) : StreamState × Flow :=
  match sse.eventType with
  | .messageStart =>
    match sse.message.bind SseMessage.usage with
    | some usage => ({ s with inputTokens := usage.inputTokens.getD 0 }, .next)
    | none => (s, .next)
  | .contentBlockStart => (sse.contentBlock.elim s s.startBlock, .next)
  | .contentBlockDelta =>
    match sse.delta with
    | some ⟨some .textDelta, some text, _⟩ => s.textDelta receiver text
    | some ⟨some .inputJsonDelta, _, some json⟩ => ({ s with currentToolJson := s.currentToolJson ++ json }, .next)
    | _ => (s, .next)
  | .contentBlockStop => (s.stopBlock, .next)
  | .messageDelta => (sse.usage.elim s fun usage => { s with outputTokens := usage.outputTokens.getD 0 }, .next)
  | .messageStop => (s.finish receiver, .stop)
  | .other => (s, .next)

/-- A line of the body. `[DONE]` leaves the loop over the lines of the buffer. -/
def handleLine (parse : Str → Option SseEvent) (s : StreamState) (line : Str) : StreamState × Flow :=
  match sseLine line with
  | .skip => (s, .next)
  | .done => (s, .leave)
  | .data data => (parse data).elim (s, .next) (handleEvent receiver s)

/-- The events that the parser task of `chat_stream` sends. -/
def chatStream (parse : Str → Option SseEvent) (chunks : List (Except Str Bytes)) : List StreamEvent :=
  let s := (readChunks (handleLine receiver parse) (fun s => s.fail receiver) .init chunks).state
  if s.returned then s.sent else (s.finish receiver).sent

end Task

end Claude

end Zeptoclaw

import Zeptoclaw.Spec.Stream

/-!
# The OpenAI provider: the parser task of a streamed response

`providers/openai.rs`: `apply_stream_chunk`, `finalize_tool_calls` and the task that
`chat_stream` spawns. The JSON library is a parameter.
-/

namespace Zeptoclaw

open Text Lines

namespace OpenAi

structure StreamFunctionDelta where
  name : Option Str
  arguments : Option Str
  deriving DecidableEq, Repr

structure StreamToolCallDelta where
  index : ℕ
  id : Option Str
  function : Option StreamFunctionDelta
  deriving DecidableEq, Repr

/-- The delta of a choice. -/
structure StreamDelta where
  content : Option Str
  toolCalls : Option (List StreamToolCallDelta)
  deriving DecidableEq, Repr

structure StreamChunk where
  choices : List StreamDelta
  -- the tokens of the prompt and of the completion
  usage : Option (ℕ × ℕ)
  deriving DecidableEq, Repr

structure PendingToolCall where
  id : Str
  name : Str
  arguments : Str
  deriving DecidableEq, Repr

def PendingToolCall.default : PendingToolCall := ⟨[], [], []⟩

/-- The variables of the parser task, and what it has sent. -/
structure StreamState where
  assembledContent : Str
  pendingToolCalls : List PendingToolCall
  usage : Option Usage
  sent : List StreamEvent
  -- the task has returned
  returned : Bool
  deriving DecidableEq, Repr

def StreamState.init : StreamState := ⟨[], [], none, [], false⟩

/-- A fragment of a tool call. -/
def PendingToolCall.extend (pending : PendingToolCall) (d : StreamToolCallDelta) : PendingToolCall where
  id := d.id.getD pending.id
  name := (d.function.bind StreamFunctionDelta.name).getD pending.name
  arguments := pending.arguments ++ (d.function.bind StreamFunctionDelta.arguments).getD []

/-- The list grows up to the index of the fragment. -/
def applyToolCallDelta (pending : List PendingToolCall) (d : StreamToolCallDelta) : List PendingToolCall :=
  (pending ++ List.replicate (d.index + 1 - pending.length) PendingToolCall.default).modify d.index fun p => p.extend d

def applyChoice (s : StreamState) (d : StreamDelta) : StreamState :=
  { s with
    assembledContent := s.assembledContent ++ d.content.getD []
    pendingToolCalls := (d.toolCalls.getD []).foldl applyToolCallDelta s.pendingToolCalls }

/-- `apply_stream_chunk`: the new state and the deltas to send. -/
def applyStreamChunk (s : StreamState) (chunk : StreamChunk) : StreamState × List Str :=
  let s' := chunk.usage.elim s fun u => { s with usage := some (Usage.new u.1 u.2) }
  (chunk.choices.foldl applyChoice s', chunk.choices.filterMap StreamDelta.content)

def finalizeToolCalls (pending : List PendingToolCall) : List LLMToolCall :=
  pending.filterMap fun p => if p.id = [] ∨ p.name = [] then none else some ⟨p.id, p.name, p.arguments⟩

section Task

variable (receiver : List StreamEvent → Bool)

/-- The deltas one by one; without a receiver the task returns. -/
def sendDeltas : StreamState → List Str → StreamState × Flow
  | s, [] => (s, .next)
  | s, d :: deltas =>
    if receiver s.sent then sendDeltas { s with sent := s.sent ++ [.delta d] } deltas
    else ({ s with returned := true }, .stop)

/-- A line of the body. After `[DONE]` nothing is read. -/
def handleLine (parse : Str → Option StreamChunk) (s : StreamState) (line : Str) : StreamState × Flow :=
  match sseLine line with
  | .skip => (s, .next)
  | .done => (s, .stop)
  | .data data =>
    match parse data with
    | none => (s, .next)
    | some chunk => sendDeltas receiver (applyStreamChunk s chunk).1 (applyStreamChunk s chunk).2

def StreamState.send (s : StreamState) (e : StreamEvent) : StreamState := { s with sent := sendTo receiver s.sent e }

def StreamState.fail (s : StreamState) (message : Str) : StreamState :=
  { s.send receiver (.error message) with returned := true }

def StreamState.finish (s : StreamState) : StreamState :=
  let calls := finalizeToolCalls s.pendingToolCalls
  let s' := if calls.isEmpty then s else s.send receiver (.toolCalls calls)
  s'.send receiver (.done s'.assembledContent s'.usage)

/-- The events that the parser task of `chat_stream` sends. -/
def chatStream (parse : Str → Option StreamChunk) (chunks : List (Except Str Bytes)) : List StreamEvent :=
  let s := (readChunks (handleLine receiver parse) (fun s => s.fail receiver) .init chunks).state
  if s.returned then s.sent else (s.finish receiver).sent

end Task

end OpenAi

end Zeptoclaw

import Zeptoclaw.Lib.Lines
import Zeptoclaw.Lib.Utf8

/-!
# Streamed responses

The events of a streamed response (`providers/types.rs`) and what the parser tasks of the
Claude and the OpenAI provider have in common: the bytes of a chunk are decoded and
appended to a line buffer, and every complete line is taken from it. The receiver may be
dropped at any time; `receiver sent` tells whether it still listens after the events it
was sent.
-/

namespace Zeptoclaw

open Text Lines Utf8

structure LLMToolCall where
  id : Str
  name : Str
  arguments : Str
  deriving DecidableEq, Repr

/-- `Usage`, with `u32` counts. -/
structure Usage where
  promptTokens : ℕ
  completionTokens : ℕ
  totalTokens : ℕ
  deriving DecidableEq, Repr

def Usage.new (promptTokens completionTokens : ℕ) : Usage :=
  ⟨promptTokens, completionTokens, (promptTokens + completionTokens) % 2 ^ 32⟩

inductive StreamEvent where
  | delta (text : Str)
  | toolCalls (calls : List LLMToolCall)
  | done (content : Str) (usage : Option Usage)
  -- a `ZeptoError::Provider`
  | error (message : Str)
  deriving DecidableEq, Repr

/-- A line of the body, once trimmed. -/
inductive SseLine where
  | skip
  | done
  | data (data : Str)
  deriving DecidableEq, Repr

/-- `str::strip_prefix`. -/
def stripStart (p s : Str) : Option Str := if p <+: s then some (s.drop p.length) else none

def sseData (data : Str) : SseLine := if data = "[DONE]".toList then .done else .data data

/-- How both parsers read a line. -/
def sseLine (raw : Str) : SseLine :=
  let line := trim raw
  if line = [] ∨ "event:".toList <+: line then .skip
  else
    match stripStart "data: ".toList line with
    | some data => sseData data
    | none =>
      match stripStart "data:".toList line with
      | some data => sseData data
      | none => .skip

/-- An event is received if the receiver still listens. -/
def sendTo (receiver : List StreamEvent → Bool) (sent : List StreamEvent) (e : StreamEvent) : List StreamEvent :=
  if receiver sent then sent ++ [e] else sent

/-- A chunk of the body, or the error the connection ends with. -/
def readChunk {σ : Type*} (handle : σ → Str → σ × Flow) (fail : σ → Str → σ) (r : Reader σ) :
    Except Str Bytes → Reader σ
  | .ok bytes => feed handle r (fromUtf8Lossy bytes)
  | .error e => if r.stopped then r else ⟨fail r.state ("Stream read error: ".toList ++ e), r.buffer, true⟩

/-- All chunks of the body. -/
def readChunks {σ : Type*} (handle : σ → Str → σ × Flow) (fail : σ → Str → σ) (init : σ)
    (chunks : List (Except Str Bytes)) : Reader σ :=
  chunks.foldl (readChunk handle fail) ⟨init, [], false⟩

end Zeptoclaw

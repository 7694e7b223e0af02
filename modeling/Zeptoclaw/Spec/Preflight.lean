import Zeptoclaw.Lib.Behind
import Zeptoclaw.Spec.Compaction
import Zeptoclaw.Spec.Serde

/-!
# The pre-flight check

`ContextMonitor::preflight_check` (`agent/context_monitor.rs`), which trims tool results before a request
goes out, and `sync_trimmed_tool_results` (`agent/loop.rs`), which writes the trims back to the session.
Ratios are exact rationals. A result of `none` is a panic: an unsigned subtraction below zero.
-/

namespace Zeptoclaw

open Text

structure ToolDefinition where
  name : Str
  description : Str
  parameters : Json

inductive PreflightAction where
  | ok
  | trimmed
  | needsCompaction
  deriving DecidableEq, Repr

/-- The part of `ContextMonitor` that the check reads. -/
structure ContextMonitor where
  contextLimit : ℕ := 180000
  emergencyThreshold : ℚ := 90 / 100
  inputHeadroomRatio : ℚ := 75 / 100
  singleToolResultShare : ℚ := 50 / 100
  safetyMargin : ℚ := 12 / 10

/-- `ContextMonitor::estimate_tokens_full`. -/
def estimateTokensFull (messages : List Message) (toolDefinitions : List ToolDefinition) (safetyMargin : ℚ) : ℕ :=
  let msgTokens := (messages.map estimateMessageTokens).sum
  let toolDefTokens := (toolDefinitions.map fun td =>
    ((byteLen td.name + byteLen td.description : ℕ) : ℚ) / charsPerToken +
      byteLen td.parameters.toStr / toolResultCharsPerToken).sum
  asUsize ((msgTokens + toolDefTokens) * safetyMargin)

/-- `safe_truncate`: moves the end back to a character boundary. -/
def safeTruncate (s : Str) (maxBytes : ℕ) : Str := if byteLen s ≤ maxBytes then s else takeBytes maxBytes s

/-- `safe_truncate_tail`: moves the start forward to a character boundary. -/
def safeTruncateTail (s : Str) (maxBytes : ℕ) : Str :=
  if byteLen s ≤ maxBytes then s else (takeBytes maxBytes s.reverse).reverse

/-- `"\n...[truncated {truncated} bytes]...\n"`. -/
def truncatedNote (truncated : ℕ) : Str :=
  "\n...[truncated ".toList ++ (toString truncated).toList ++ " bytes]...\n".toList

def compactedText : Str := "[compacted]".toList

/-- A tool message whose content is longer than the cap. -/
def isOversized (cap : ℕ) (msg : Message) : Bool := msg.role == .tool && cap < byteLen msg.content

/-- Pass 1 for one message: the head and the tail of a content that is longer than the cap. The products do not
overflow, since the content is longer than the cap and is in memory. -/
def trimResult (cap : ℕ) (msg : Message) : Option Message :=
  if isOversized cap msg then
    let head := safeTruncate msg.content (cap * 7 / 10)
    let tail := safeTruncateTail msg.content (cap * 3 / 10)
    if byteLen head + byteLen tail ≤ byteLen msg.content then
      let truncated := byteLen msg.content - byteLen head - byteLen tail
      some (msg.setContent (head ++ truncatedNote truncated ++ tail))
    else none
  else some msg

/-- A tool message that is not compacted yet. -/
def isOpenResult (msg : Message) : Bool := msg.role == .tool && msg.content != compactedText

/-- The loop of pass 2, behind the messages that are done: the oldest results are replaced one by one until the
messages fit. -/
def compactFrom (fits : List Message → Bool) : List Message → List Message → List Message
  | done, [] => done
  | done, msg :: rest =>
    if isOpenResult msg then
      let compacted := msg.setContent compactedText
      if fits (done ++ compacted :: rest) then done ++ compacted :: rest
      else compactFrom fits (done ++ [compacted]) rest
    else compactFrom fits (done ++ [msg]) rest

namespace ContextMonitor

variable (monitor : ContextMonitor)

def contextBudget : ℕ := asUsize (monitor.contextLimit * monitor.inputHeadroomRatio)

/-- `single_result_cap_chars`. -/
def singleResultCap : ℕ :=
  let singleResultCapTokens := asUsize (monitor.contextLimit * monitor.singleToolResultShare)
  asUsize (singleResultCapTokens * toolResultCharsPerToken)

/-- The messages alone are within the budget. -/
def fitsBudget (messages : List Message) : Bool :=
  estimateTokensWithMargin messages monitor.safetyMargin ≤ monitor.contextBudget

def preflightCheck (messages : List Message) (toolDefinitions : List ToolDefinition) :
    Option (List Message × PreflightAction) := do
  let capped ← messages.mapM (trimResult monitor.singleResultCap)
  let compacts := !monitor.fitsBudget capped
  let messages' := if compacts then compactFrom monitor.fitsBudget [] capped else capped
  let trimmed := messages.any (isOversized monitor.singleResultCap) || (compacts && capped.any isOpenResult)
  let finalTotal := estimateTokensFull messages' toolDefinitions monitor.safetyMargin
  let hardLimit := asUsize (monitor.contextLimit * monitor.emergencyThreshold)
  let compactionLimit := min monitor.contextBudget hardLimit
  return (messages', if compactionLimit < finalTotal then .needsCompaction else if trimmed then .trimmed else .ok)

end ContextMonitor

/-! ## Writing back -/

/-- A resolved tool message goes to the most recent message of the session with its identifier. -/
def syncResult (sessionMessages : List Message) (resolved : Message) : List Message :=
  if resolved.role ≠ .tool then sessionMessages
  else
    modifyLast (fun m => m.role == .tool && m.toolCallId == resolved.toolCallId)
      (fun m =>
        if m.content ≠ resolved.content then
          { m with content := resolved.content, contentParts := resolved.contentParts }
        else m)
      sessionMessages

/-- `sync_trimmed_tool_results`. -/
def syncTrimmedToolResults (sessionMessages resolvedMessages : List Message) : List Message :=
  resolvedMessages.foldl syncResult sessionMessages

end Zeptoclaw

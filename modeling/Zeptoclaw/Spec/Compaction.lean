import Mathlib.Data.Rat.Floor
import Zeptoclaw.Spec.Session

/-!
# Context compaction

Token estimation (`agent/context_monitor.rs`) and the recovery from an overflowing
context (`agent/compaction.rs`). Ratios and margins are exact rationals. A result
of `none` is a panic: a text is cut off a character boundary.
-/

namespace Zeptoclaw

open Text

inductive CompactionUrgency where
  | normal
  | emergency
  | critical
  deriving DecidableEq, Repr

/-! ## Token estimation -/

def charsPerToken : ℚ := 4

def toolResultCharsPerToken : ℚ := 2

def imageTokenEstimate : ℚ := 2000

def messageFramingTokens : ℚ := 4

def usizeMax : ℕ := 2 ^ 64 - 1

/-- `value as usize`: towards zero, saturating. -/
def asUsize (x : ℚ) : ℕ := min ⌊x⌋.toNat usizeMax

/-- `ContextMonitor::estimate_message_tokens`. -/
def estimateMessageTokens (msg : Message) : ℚ :=
  let cpt := if msg.role = .tool then toolResultCharsPerToken else charsPerToken
  let contentTokens := byteLen msg.content / cpt
  let partsTokens := (msg.contentParts.map fun part =>
    match part with
    | .text text => byteLen text / cpt
    | .image _ _ => imageTokenEstimate).sum
  let toolCallTokens := (msg.calls.map fun tc =>
    byteLen tc.name / charsPerToken + byteLen tc.arguments / toolResultCharsPerToken).sum
  max contentTokens partsTokens + toolCallTokens + messageFramingTokens

/-- `ContextMonitor::estimate_tokens_with_margin`. -/
def estimateTokensWithMargin (messages : List Message) (safetyMargin : ℚ) : ℕ :=
  asUsize ((messages.map estimateMessageTokens).sum * safetyMargin)

/-! ## Truncation and shrinking -/

/-- `truncate_messages`: the leading system message, if there is one, and the most
recent messages. -/
def truncateMessages (messages : List Message) (keepRecent : ℕ) : List Message :=
  if messages.length ≤ keepRecent then messages
  else
    match messages with
    | [] => []
    | first :: rest =>
      if keepRecent = 0 then if first.role = .system then [first] else []
      else if first.role = .system then first :: rest.drop (rest.length - keepRecent)
      else (first :: rest).drop ((first :: rest).length - keepRecent)

/-- The longest prefix of at most `n` bytes. -/
def takeBytes : ℕ → Str → Str
  | _, [] => []
  | n, c :: rest => if c.utf8Size ≤ n then c :: takeBytes (n - c.utf8Size) rest else []

/-- `String::truncate`, which panics off a character boundary. -/
def truncateBytes (s : Str) (n : ℕ) : Option Str :=
  if byteLen s ≤ n then some s
  else if byteLen (takeBytes n s) = n then some (takeBytes n s) else none

/-- `"\n...[shrunk from {} to {} bytes]"`. -/
def shrunkNote (original kept : ℕ) : Str :=
  "\n...[shrunk from ".toList ++ (toString original).toList ++ " to ".toList ++
    (toString kept).toList ++ " bytes]".toList

/-- One tool result cut to a budget. The loop of the source that pops characters
until the end is a character boundary never runs: the end of a string is one. -/
def shrinkMessage (budget : ℕ) (msg : Message) : Option Message :=
  if byteLen msg.content ≤ budget then some msg
  else
    (truncateBytes msg.content budget).map fun cut =>
      let content := cut ++ shrunkNote (byteLen msg.content) (byteLen cut)
      { msg with
        content
        contentParts := if msg.contentParts.isEmpty then msg.contentParts else [.text content] }

/-- `shrink_tool_results`: the messages, and how many of them were shrunk. -/
def shrinkToolResults (maxBytesPerResult : ℕ) : List Message → Option (List Message × ℕ)
  | [] => some ([], 0)
  | msg :: rest =>
    if msg.isToolResult && maxBytesPerResult < byteLen msg.content then do
      let msg ← shrinkMessage maxBytesPerResult msg
      let (rest, shrunkCount) ← shrinkToolResults maxBytesPerResult rest
      return (msg :: rest, shrunkCount + 1)
    else do
      let (rest, shrunkCount) ← shrinkToolResults maxBytesPerResult rest
      return (msg :: rest, shrunkCount)

/-- The loop of `shrink_tool_results_progressive`; `pos` counts the tool results met
so far out of `total`. -/
def shrinkFrom (total recentCount targetMaxBytes : ℕ) : ℕ → List Message → Option (List Message)
  | _, [] => some []
  | pos, msg :: rest =>
    if msg.isToolResult then do
      let budget := if total - recentCount ≤ pos then targetMaxBytes else targetMaxBytes / 4
      let msg ← shrinkMessage budget msg
      let rest ← shrinkFrom total recentCount targetMaxBytes (pos + 1) rest
      return msg :: rest
    else do
      let rest ← shrinkFrom total recentCount targetMaxBytes pos rest
      return msg :: rest

/-- `shrink_tool_results_progressive`. -/
def shrinkToolResultsProgressive (messages : List Message) (targetMaxBytes recentCount : ℕ) :
    Option (List Message) :=
  let total := messages.countP Message.isToolResult
  if total = 0 then some messages else shrinkFrom total recentCount targetMaxBytes 0 messages

/-! ## Recovery -/

/-- Truncate, then shrink, then truncate to three messages, stopping as soon as the
messages fit: the tiers that the normal and the emergency recovery share. -/
def recoverByTiers (fits : List Message → Bool) (keepRecent budget recentCount : ℕ)
    (messages : List Message) : Option (List Message × ℕ) :=
  let recovered := truncateMessages messages keepRecent
  if fits recovered then some (recovered, 1)
  else do
    let recovered ← shrinkToolResultsProgressive recovered budget recentCount
    if fits recovered then return (recovered, 2)
    return (truncateMessages recovered 3, 3)

/-- The recovery over any test of whether the messages fit. -/
def recoverContext (fits : List Message → Bool) (urgency : CompactionUrgency)
    (keepRecentTier1 toolResultBudget : ℕ) (messages : List Message) : Option (List Message × ℕ) :=
  if fits messages then some (messages, 0)
  else
    match urgency with
    | .critical => some (truncateMessages messages 6, 3)
    | .emergency =>
      recoverByTiers fits (min keepRecentTier1 5)
        (min (max (toolResultBudget / 2) 1) toolResultBudget) 2 messages
    | .normal => recoverByTiers fits keepRecentTier1 toolResultBudget 3 messages

/-- The estimate is within 95 % of the limit. -/
def fitsTarget (contextLimit : ℕ) (safetyMargin : ℚ) (messages : List Message) : Bool :=
  decide ((estimateTokensWithMargin messages safetyMargin : ℚ) ≤ contextLimit * (95 / 100))

/-- `try_recover_context_with_urgency`: the recovered messages and the tier used. -/
def tryRecoverContextWithUrgency (messages : List Message) (contextLimit : ℕ)
    (urgency : CompactionUrgency) (keepRecentTier1 toolResultBudget : ℕ) (safetyMargin : ℚ) :
    Option (List Message × ℕ) :=
  recoverContext (fitsTarget contextLimit safetyMargin) urgency keepRecentTier1 toolResultBudget messages

end Zeptoclaw

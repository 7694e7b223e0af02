import Zeptoclaw.Spec.Repair
import Zeptoclaw.Spec.ToolLoop

/-!
# The transcript of a run

What `process_message` (`agent/loop.rs`) adds to the session from the user message to the
final save, with compaction disabled (`context_monitor` is `None`). The provider's
responses, the results of the tool calls, the verdicts of the loop guard and what the run
reads from the shared limits are input.
-/

namespace Zeptoclaw

/-- `LLMResponse`, without its usage. -/
structure LlmResponse where
  content : Str
  toolCalls : List ToolCall
  deriving DecidableEq, Repr

/-- `LoopGuardAction`. -/
inductive LoopGuardAction where
  | allow
  | warn (reason : Str) (suggestedDelayMs : Option ℕ)
  | block (reason : Str)
  | circuitBreak (totalRepetitions : ℕ)
  deriving DecidableEq, Repr

/-- The message the guard adds to the session. -/
def LoopGuardAction.message : LoopGuardAction → Option Message
  | .allow => none
  | .warn reason delay =>
    let hint := match delay with
      | some ms => " (suggested delay: ".toList ++ (toString ms).toList ++ "ms)".toList
      | none => []
    some (.system ("[LoopGuard] ".toList ++ reason ++ hint ++ ['.']))
  | .block reason => some (.system ("[LoopGuard] blocked: ".toList ++ reason ++ ['.']))
  | .circuitBreak n =>
    some (.system ("[LoopGuard] circuit breaker tripped (".toList ++ (toString n).toList ++
      " total repetitions).".toList))

/-- The guard ends the loop. -/
def LoopGuardAction.stops : LoopGuardAction → Bool
  | .block _ | .circuitBreak _ => true
  | _ => false

/-- `check_loop_guard`, with the guard's verdict. -/
def checkLoopGuard (verdict : LoopGuardAction) (session : List Message) : List Message × Bool :=
  (session ++ verdict.message.toList, verdict.stops)

/-- `check_loop_guard_outcomes`, with the verdict on each result in turn; every result has
the identifier of a call of the batch. -/
def checkLoopGuardOutcomes (session : List Message) : List (Option LoopGuardAction) → List Message × Bool
  | [] => (session, false)
  | none :: verdicts => checkLoopGuardOutcomes session verdicts
  | some verdict :: verdicts =>
    let session := session ++ verdict.message.toList
    if verdict.stops then (session, true) else checkLoopGuardOutcomes session verdicts

/-- What the future of a tool call hands back besides the call's identifier. -/
structure ToolOutcome where
  result : Str
  pause : Bool
  deriving DecidableEq, Repr

/-- The results of a batch, in call order: one call after the other, or `join_all`. -/
def batchResults (calls : List ToolCall) (outcomes : ℕ → ToolOutcome) : List (Str × ToolOutcome) :=
  calls.mapIdx fun i call => (call.id, outcomes i)

/-- What one iteration of the loop reads from elsewhere. -/
structure IterationInput where
  -- the shared tool call counter, at the top of the loop and after the batch was counted
  limitExceeded : Bool
  remaining : Option ℕ
  limitReached : Bool
  outcomes : ℕ → ToolOutcome
  -- `none`: the guard is not enabled
  guard : Option (LoopGuardAction × (ℕ → Option LoopGuardAction))
  budgetExceeded : Bool
  -- the answer to the synthesis call or to the next call; `none` is an error
  answer : Option LlmResponse

/-- The loop guard after a batch, if it is enabled: the session, and the reply if it ends the
loop. -/
def guardBatch (guard : Option (LoopGuardAction × (ℕ → Option LoopGuardAction))) (results : ℕ)
    (session : List Message) : List Message × Option Str :=
  match guard with
  | none => (session, none)
  | some (verdict, outcomes) =>
    let (session, stop) := checkLoopGuard verdict session
    if stop then (session, some "Stopped tool loop due to repeated tool-call pattern.".toList)
    else
      let (session, stop) := checkLoopGuardOutcomes session ((List.range results).map outcomes)
      if stop then (session, some "Stopped tool loop due to repeated identical outcomes.".toList)
      else (session, none)

/-- How an iteration ends. -/
inductive IterationEnd where
  -- `break`, with the reply of the run
  | done (session : List Message) (reply : Str)
  | next (session : List Message) (response : LlmResponse)
  -- the provider's error ends the run, and nothing is saved
  | failed

/-- One iteration of the tool loop, for a response with tool calls. -/
def iterate (session : List Message) (response : LlmResponse) (input : IterationInput) : IterationEnd :=
  if input.limitExceeded then .done session response.content
  else
    let calls := truncateBatch response.toolCalls input.remaining
    let session := session ++ [.assistantWithTools response.content calls]
    let results := batchResults calls input.outcomes
    let session := session ++ results.map fun r => .toolResult r.1 r.2.result
    if results.any fun r => r.2.pause then .done session response.content
    else if input.limitReached then
      if input.budgetExceeded then .done session "Tool call limit reached. Token budget exceeded.".toList
      else
        -- the synthesis call is made without tools, and ends the loop
        match input.answer with
        | none => .failed
        | some answer => .done session answer.content
    else
      match guardBatch input.guard results.length session with
      | (session, some reply) => .done session reply
      | (session, none) =>
        if input.budgetExceeded then .done session response.content
        else
          match input.answer with
          | none => .failed
          | some answer => .next session answer

/-- The tool loop goes on: the response has tool calls, and the iterations are not used up. -/
def LlmResponse.continues (response : LlmResponse) (maxIterations iteration : ℕ) : Bool :=
  !response.toolCalls.isEmpty && decide (iteration < maxIterations)

/-- The tool loop; `none` if it fails, or if the inputs end before it does. -/
def toolLoop (maxIterations : ℕ) : ℕ → List Message → LlmResponse → List IterationInput → Option (List Message × Str)
  | iteration, session, response, [] =>
    if response.continues maxIterations iteration then none else some (session, response.content)
  | iteration, session, response, input :: rest =>
    if response.continues maxIterations iteration then
      match iterate session response input with
      | .done session reply => some (session, reply)
      | .failed => none
      | .next session response => toolLoop maxIterations (iteration + 1) session response rest
    else some (session, response.content)

/-- Where `get_or_create` finds the session. -/
inductive SessionSource where
  | cached (messages : List Message)
  | stored (messages : List Message)
  | created
  deriving DecidableEq, Repr

/-- The messages that `get_or_create` returns; a session from the disk is repaired if
`auto_repair` is on. -/
def SessionSource.load (autoRepair : Bool) : SessionSource → List Message
  | .cached messages => messages
  | .stored messages => if autoRepair then (repairMessages messages).1 else messages
  | .created => []

/-- The user message that `inbound_to_message` makes: the text, with the image parts. -/
def userMessage (content : Str) (images : List ContentPart) : Message :=
  { Message.user content with contentParts := .text content :: images }

/-- How the run goes on once the user message is added. -/
inductive FirstAnswer where
  -- the token budget is exceeded, or the provider fails
  | failed
  -- the response cache has the reply
  | cacheHit (reply : Str)
  | response (r : LlmResponse)

/-- The session that a run of `process_message` saves, if it comes to that. -/
def savedSession (autoRepair : Bool) (maxIterations : ℕ) (source : SessionSource) (content : Str)
    (images : List ContentPart) (first : FirstAnswer) (inputs : List IterationInput) : Option (List Message) :=
  let session := source.load autoRepair ++ [userMessage content images]
  match first with
  | .failed => none
  | .cacheHit reply => some (session ++ [.assistant reply])
  | .response r =>
    match toolLoop maxIterations 0 session r inputs with
    | none => none
    | some (session, reply) => some (session ++ [.assistant reply])

end Zeptoclaw

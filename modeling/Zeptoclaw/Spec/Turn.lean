import Zeptoclaw.Lib.Run
import Zeptoclaw.Spec.Session
import Zeptoclaw.Spec.Stream
import Mathlib.Logic.Function.Basic

/-!
# Turns of a session

What `process_message_streaming` and `process_inbound_message_streaming` (`agent/loop.rs`)
do with the events of the final streaming call, and how the runs for one session key load
and save the session (`session/mod.rs`).
-/

namespace Zeptoclaw

open Text

/-! ## The final streaming call -/

def resolveStreamedResponseText (deltaAccum doneContent : Str) : Str :=
  if trim doneContent = [] then deltaAccum else doneContent

def supportsCustomUiChannel (channel : Str) : Bool := channel = "acp_http".toList || channel = "acp".toList

/-- The forwarding task: the messages it saves and the events it passes on, while the
receiver listens. -/
def forward (session : List Message) : List StreamEvent → Option (List Message) × List StreamEvent
  | [] => (none, [])
  | .done content usage :: _ => (some (session ++ [.assistant content]), [.done content usage])
  | .toolCalls calls :: _ => (none, [.toolCalls calls])
  | .delta text :: events =>
    let rest := forward session events
    (rest.1, .delta text :: rest.2)
  | .error message :: events =>
    let rest := forward session events
    (rest.1, .error message :: rest.2)

/-- A message to the channel. -/
inductive Outbound where
  | chunk (content : Str)
  | chunkEnd
  | full (content : Str)
  deriving DecidableEq, Repr

def Outbound.content : Outbound → Str
  | .chunk content | .full content => content
  | .chunkEnd => []

/-- The variables of the loop over the received events, and the chunks it published. -/
structure Consumer where
  hadDelta : Bool
  finalContent : Str
  streamedContent : Str
  published : List Outbound
  deriving DecidableEq, Repr

/-- The loop of `process_inbound_message_streaming`; the channel may close before `Done`. -/
def consume (c : Consumer) : List StreamEvent → Except Str Consumer
  | [] => .ok c
  | .delta text :: events =>
    consume { c with
      hadDelta := true
      streamedContent := c.streamedContent ++ text
      published := c.published ++ [.chunk text] } events
  | .done content _ :: _ => .ok { c with finalContent := resolveStreamedResponseText c.streamedContent content }
  | .toolCalls _ :: _ => .ok { c with finalContent := c.streamedContent }
  | .error message :: _ => .error message

/-- The last message of a completed turn. -/
def lastOutbound (extract : Str → Str) (channel : Str) (c : Consumer) : Outbound :=
  let cleaned := if supportsCustomUiChannel channel then extract c.finalContent else c.finalContent
  if c.hadDelta then .chunkEnd else .full cleaned

/-- How a turn ends: what was published if it completed, and what was saved. -/
structure TurnEnd where
  published : Option (List Outbound)
  saved : Option (List Message)
  deriving DecidableEq, Repr

/-- The turn from the final streaming call on. `extract` takes the UI messages out of the
text. -/
def finishTurn (extract : Str → Str) (channel : Str) (session : List Message) (events : List StreamEvent) : TurnEnd :=
  let forwarded := forward session events
  match consume ⟨false, [], [], []⟩ forwarded.2 with
  | .ok c => ⟨some (c.published ++ [lastOutbound extract channel c]), forwarded.1⟩
  | .error _ => ⟨none, forwarded.1⟩

/-! ## The runs for one session key -/

/-- A message of the session; those of a turn are marked with the run they belong to. -/
structure TurnMessage (ι : Type*) where
  message : Message
  turn : Option ι
  deriving DecidableEq, Repr

inductive TurnPhase where
  | idle
  -- holds the lock of the session
  | locked
  -- has loaded the session and added the user message
  | loaded
  -- the forwarding task has a clone of the session; the lock is free
  | deferred
  | ended
  deriving DecidableEq, Repr

structure TurnRun (ι : Type*) where
  phase : TurnPhase
  session : List (TurnMessage ι)
  -- the number of saves when the session was loaded
  loadedAt : ℕ
  -- the reply that was saved
  saved : Option Str
  deriving DecidableEq, Repr

structure TurnState (ι : Type*) where
  stored : List (TurnMessage ι)
  saves : ℕ
  lock : Option ι
  runs : ι → TurnRun ι

inductive TurnInput (ι : Type*) where
  | lock (run : ι)
  | load (run : ι)
  -- a message of the tool loop
  | add (run : ι) (message : Message)
  | compact (run : ι) (recovered : List (TurnMessage ι))
  -- the reply is added and the session saved under the lock
  | save (run : ι) (reply : Str)
  -- the streaming entry point returns its receiver
  | spawn (run : ι)
  -- `Done` reaches the forwarding task
  | deferredSave (run : ι) (reply : Str)
  -- the task ends without `Done`; also when it finds the receiver dropped
  | dropTask (run : ι)
  -- an error or a timeout ends the run
  | abort (run : ι)

section TurnStep

variable {ι : Type*} [DecidableEq ι]

def TurnState.init (stored : List Message) : TurnState ι :=
  ⟨stored.map fun m => ⟨m, none⟩, 0, none, fun _ => ⟨.idle, [], 0, none⟩⟩

/-- The state of one run. -/
def TurnState.setRun (s : TurnState ι) (r : ι) (run : TurnRun ι) : TurnState ι :=
  { s with runs := Function.update s.runs r run }

/-- `SessionManager::save` of the run's session with its reply. -/
def TurnState.saveRun (s : TurnState ι) (r : ι) (reply : Str) : TurnState ι :=
  let session := (s.runs r).session ++ [⟨.assistant reply, some r⟩]
  { s.setRun r { s.runs r with phase := .ended, session, saved := some reply } with
    stored := session
    saves := s.saves + 1 }

/-- One step of the runs for a session; `streaming` tells the entry point of each. -/
def turnStep (user : ι → Message) (streaming : ι → Bool) (s : TurnState ι) : TurnInput ι → TurnState ι
  | .lock r =>
    if (s.runs r).phase = .idle ∧ s.lock = none then
      { s.setRun r { s.runs r with phase := .locked } with lock := some r }
    else s
  | .load r =>
    if (s.runs r).phase = .locked then
      s.setRun r { s.runs r with phase := .loaded, session := s.stored ++ [⟨user r, some r⟩], loadedAt := s.saves }
    else s
  | .add r message =>
    if (s.runs r).phase = .loaded then
      s.setRun r { s.runs r with session := (s.runs r).session ++ [⟨message, none⟩] }
    else s
  | .compact r recovered =>
    if (s.runs r).phase = .loaded then s.setRun r { s.runs r with session := recovered } else s
  | .save r reply => if (s.runs r).phase = .loaded then { s.saveRun r reply with lock := none } else s
  | .spawn r =>
    if (s.runs r).phase = .loaded ∧ streaming r = true then
      { s.setRun r { s.runs r with phase := .deferred } with lock := none }
    else s
  | .deferredSave r reply => if (s.runs r).phase = .deferred then s.saveRun r reply else s
  | .dropTask r => if (s.runs r).phase = .deferred then s.setRun r { s.runs r with phase := .ended } else s
  | .abort r =>
    if (s.runs r).phase = .locked ∨ (s.runs r).phase = .loaded then
      { s.setRun r { s.runs r with phase := .ended } with lock := none }
    else s

end TurnStep

end Zeptoclaw

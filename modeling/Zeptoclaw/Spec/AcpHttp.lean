import Zeptoclaw.Spec.AcpProtocol
import Zeptoclaw.Spec.Bus

/-!
# Prompts on the ACP channel over HTTP

`channels/acp_http.rs`: every connection with a prompt has a handler of its own, and all handlers
share two maps, each under a lock of its own. A handler goes from one lock to the next in single
steps (`register_prompt`, `stream_prompt_response`), and so does `send`: it takes the sender from the
map, and then delivers. The agent works through the prompts of a session in the order of the bus;
the dispatcher sends one outbound message after the other. A handler is known by the number of
its prompt, and so is the channel whose receiver it holds; every message and fragment is noted with
the number of the prompt that caused it, which the program does not have. The channel is not
stopped, and no session expires.
-/

namespace Zeptoclaw

open Text

def acpHttpChannelName : Str := "acp_http".toList

def acpHttpSenderId : Str := "acp_client".toList

/-- `PROMPT_FRAGMENT_BUFFER`. -/
def promptFragmentBuffer : ℕ := 64

inductive PromptFragment where
  | chunk (content : Str)
  | full (content : Str) (cancelled : Bool)
  | finish (cancelled : Bool)
  | error (content : Str)
  | custom (name : Str) (payload : Json)

/-- The fragment ends the reply. -/
def PromptFragment.isTerminal : PromptFragment → Bool
  | .chunk _ => false
  | .custom _ _ => false
  | .full _ _ => true
  | .finish _ => true
  | .error _ => true

/-- An event of the stream. -/
inductive SseFrame where
  | update (update : SessionUpdate)
  | response (response : JsonRpcResponse)
  | heartbeat

/-- What is written for a fragment. -/
def PromptFragment.frames (id : Option Json) : PromptFragment → List SseFrame
  | .chunk content => [.update (.agentMessageChunk content)]
  | .custom name payload => [.update (.agentCustom name payload)]
  | .full content cancelled =>
    [.update (.agentMessage content), .response ⟨id, .promptDone (stopReason cancelled)⟩]
  | .finish cancelled => [.response ⟨id, .promptDone (stopReason cancelled)⟩]
  | .error content => [.response ⟨id, .error jsonrpcServerError (stripAgentErrorPrefix content)⟩]

/-- Where a handler is: what it does next. -/
inductive HandlerPhase where
  -- it is in `pending`; the sender is put into `pending_http`
  | pendingInserted
  -- the message is published
  | senderInserted
  -- the headers are written
  | published
  -- a fragment is received
  | waiting
  -- the entry in `pending` is removed; with the error if the message was not published
  | leaving (error : Option ZeptoError)
  -- the entry in `pending_http` is removed
  | leftPending (error : Option ZeptoError)
  | done
  deriving DecidableEq, Repr

structure AcpHandler where
  sessionId : Str
  requestId : Option Json
  inbound : InboundMessage
  phase : HandlerPhase := .pendingInserted
  -- what is in its channel, with the prompt that caused it
  buffer : List (ℕ × PromptFragment) := []
  -- what it wrote, with the prompt that caused it
  written : List (Option ℕ × SseFrame) := []

/-- An entry of `pending`, with the handler that put it there. -/
structure HttpPending where
  cancelled : Bool
  owner : ℕ
  deriving DecidableEq, Repr

/-- A `send` that has cloned a sender. -/
structure FragmentDelivery where
  channel : ℕ
  origin : ℕ
  fragment : PromptFragment

structure AcpHttpChannel where
  sessions : List Str
  pending : Assoc Str HttpPending := ∅
  -- the sender of each session, by the number of its channel
  pendingHttp : Assoc Str ℕ := ∅
  handlers : List AcpHandler := []
  -- the answers to prompts that were not accepted
  refused : List JsonRpcResponse := []
  -- the messages that were put into the queue of the bus, and the prompts that the agent has finished
  queue : List (ℕ × InboundMessage) := []
  finished : List ℕ := []
  -- the outbound messages on the bus, and the one that is being sent
  outbox : List (ℕ × OutboundMessage) := []
  inFlight : Option FragmentDelivery := none

/-- A step of a handler, of the agent or of the dispatcher. -/
inductive AcpHttpEvent where
  -- a connection asks with `session/prompt`
  | prompt (id params : Option Json)
  | insertSender (i : ℕ)
  | publish (i : ℕ) (bus : BusState)
  | headers (i : ℕ) (ok : Bool)
  -- `through`: how many frames get to the client
  | receive (i through : ℕ)
  | closed (i through : ℕ)
  | timeout (i through : ℕ)
  | heartbeat (i : ℕ) (ok : Bool)
  | removePending (i : ℕ)
  | removeSender (i : ℕ)
  | cancel (sessionId : Str)
  | emit (i : ℕ) (content : Str) (metadata : List (Str × Str)) (kind : OutboundMessageKind)
  | finish (i : ℕ)
  | dispatch
  | deliver

namespace AcpHttpChannel

variable (base : BaseChannelConfig) (parse : AcpParse)

/-! ## Handlers -/

/-- The checks of `register_prompt`: the session and the text, or the answer. -/
def promptChecks (s : AcpHttpChannel) (params : Option Json) : Except AcpReply (Str × Str) :=
  if !base.isAllowed acpHttpSenderId then .error (.error (-32000) "Unauthorized".toList)
  else
    match validatePrompt parse ")".toList params with
    | .error msg => .error (.error (-32602) msg)
    | .ok (sessionId, content) =>
      if !s.sessions.contains sessionId then .error (.error (-32000) (unknownSessionText sessionId))
      else if (s.pending.lookup sessionId).isSome then .error (.error (-32602) inFlightText)
      else .ok (sessionId, content)

/-- A connection with a prompt: it is refused, or gets a handler and an entry in `pending`. -/
def acceptPrompt (s : AcpHttpChannel) (id params : Option Json) : AcpHttpChannel :=
  match s.promptChecks base parse params with
  | .error reply => { s with refused := s.refused ++ [⟨id, reply⟩] }
  | .ok (sessionId, content) =>
    let inbound := (InboundMessage.new acpHttpChannelName acpHttpSenderId sessionId content).withMetadata
      "streaming_capable".toList "true".toList
    { s with
      pending := s.pending.insert sessionId ⟨false, s.handlers.length⟩
      handlers := s.handlers ++ [{ sessionId, requestId := id, inbound }] }

/-- The step of the handler, if it is there. -/
def atPhase (s : AcpHttpChannel) (i : ℕ) (phase : HandlerPhase) (f : AcpHandler → AcpHttpChannel) : AcpHttpChannel :=
  match s.handlers[i]? with
  | some h => if h.phase = phase then f h else s
  | none => s

/-- One handler is changed. -/
def setHandler (s : AcpHttpChannel) (i : ℕ) (h : AcpHandler) : AcpHttpChannel :=
  { s with handlers := s.handlers.set i h }

def insertSender (s : AcpHttpChannel) (i : ℕ) : AcpHttpChannel :=
  s.atPhase i .pendingInserted fun h =>
    { s.setHandler i { h with phase := .senderInserted } with pendingHttp := s.pendingHttp.insert h.sessionId i }

def publish (s : AcpHttpChannel) (i : ℕ) (bus : BusState) : AcpHttpChannel :=
  s.atPhase i .senderInserted fun h =>
    let (result, queue) := bus.publishInbound i h.inbound s.queue
    let phase := match result with
      | .ok () => .published
      | .error e => .leaving (some (.channel ("ACP-HTTP: failed to publish inbound: ".toList ++ e.display)))
    { s.setHandler i { h with phase } with queue }

def writeHeaders (s : AcpHttpChannel) (i : ℕ) (ok : Bool) : AcpHttpChannel :=
  s.atPhase i .published fun h => s.setHandler i { h with phase := if ok then .waiting else .leaving none }

/-- The handler leaves its loop with a last frame, if it gets through. -/
def leaveWith (h : AcpHandler) (through : ℕ) (message : Str) : AcpHandler :=
  { h with
    phase := .leaving none
    written := h.written ++ ([SseFrame.response ⟨h.requestId, .error (-32603) message⟩].take through).map fun f => (none, f) }

/-- A fragment is received and written. -/
def receive (s : AcpHttpChannel) (i through : ℕ) : AcpHttpChannel :=
  s.atPhase i .waiting fun h =>
    match h.buffer with
    | [] => s
    | (origin, fragment) :: rest =>
      let frames := (fragment.frames h.requestId).take through
      s.setHandler i { h with
        buffer := rest
        written := h.written ++ frames.map fun f => (some origin, f)
        phase := if fragment.isTerminal || frames.isEmpty then .leaving none else .waiting }

/-- A sender of the channel is left. -/
def hasSender (s : AcpHttpChannel) (i : ℕ) : Bool :=
  s.pendingHttp.pairs.any (fun e => e.2 = i) || s.inFlight.any fun d => d.channel = i

/-- All senders were dropped. -/
def closed (s : AcpHttpChannel) (i through : ℕ) : AcpHttpChannel :=
  s.atPhase i .waiting fun h =>
    if h.buffer.isEmpty && !s.hasSender i then s.setHandler i (leaveWith h through "agent session closed".toList) else s

/-- The deadline passes. A fragment that is there goes first, and so does the end of the senders. -/
def timeout (s : AcpHttpChannel) (i through : ℕ) : AcpHttpChannel :=
  s.atPhase i .waiting fun h =>
    if h.buffer.isEmpty && s.hasSender i then s.setHandler i (leaveWith h through "session/prompt timed out".toList) else s

def heartbeat (s : AcpHttpChannel) (i : ℕ) (ok : Bool) : AcpHttpChannel :=
  s.atPhase i .waiting fun h =>
    if h.buffer.isEmpty && s.hasSender i then
      s.setHandler i (if ok then { h with written := h.written ++ [(none, .heartbeat)] } else { h with phase := .leaving none })
    else s

/-- `state.pending.remove`, of the cleanup or of the roll back. -/
def removePending (s : AcpHttpChannel) (i : ℕ) : AcpHttpChannel :=
  match s.handlers[i]? with
  | some h =>
    match h.phase with
    | .leaving error =>
      { s.setHandler i { h with phase := .leftPending error } with pending := s.pending.erase h.sessionId }
    | _ => s
  | none => s

/-- `pending_http.remove`; a handler that rolls back then answers with its error. -/
def removeSender (s : AcpHttpChannel) (i : ℕ) : AcpHttpChannel :=
  match s.handlers[i]? with
  | some h =>
    match h.phase with
    | .leftPending error =>
      let last := error.toList.map fun e =>
        (none, SseFrame.response ⟨h.requestId, .error (-32603) ("internal error: ".toList ++ e.display)⟩)
      { s.setHandler i { h with phase := .done, written := h.written ++ last } with
        pendingHttp := s.pendingHttp.erase h.sessionId }
    | _ => s
  | none => s

/-- `session/cancel`. -/
def cancel (s : AcpHttpChannel) (sessionId : Str) : AcpHttpChannel :=
  match s.pending.lookup sessionId with
  | some p => { s with pending := s.pending.insert sessionId { p with cancelled := true } }
  | none => s

/-! ## The agent and the dispatcher -/

/-- The message of the prompt that the agent works on for a session: the first it has not finished. -/
def current (s : AcpHttpChannel) (i : ℕ) : Option InboundMessage := do
  let msg ← (s.queue.find? fun e => e.1 = i).map Prod.snd
  let first ← s.queue.find? fun e => e.2.chatId = msg.chatId && !s.finished.contains e.1
  if first.1 = i then some msg else none

/-- The agent emits a message for the prompt it works on. -/
def emit (s : AcpHttpChannel) (i : ℕ) (content : Str) (metadata : List (Str × Str)) (kind : OutboundMessageKind) :
    AcpHttpChannel :=
  match s.current i with
  | some msg =>
    { s with outbox := s.outbox ++ [(i, { channel := msg.channel, chatId := msg.chatId, content, metadata, kind })] }
  | none => s

def finish (s : AcpHttpChannel) (i : ℕ) : AcpHttpChannel :=
  match s.current i with
  | some _ => { s with finished := s.finished ++ [i] }
  | none => s

/-- The fragment of an outbound message, if it makes one. -/
def toFragment (cancelled : Bool) (msg : OutboundMessage) : Option PromptFragment :=
  if msg.isError then some (.error msg.content)
  else
    match msg.kind with
    | .chunk => some (.chunk msg.content)
    | .chunkEnd => some (.finish cancelled)
    | .custom => do
      let name ← msg.get outboundCustomNameKey
      let rawPayload ← msg.get outboundCustomPayloadKey
      let payload ← parse.payload rawPayload
      return .custom name payload
    | .full => some (if msg.keepTyping then .chunk msg.content else .full msg.content cancelled)

/-- `send`, up to the clone of the sender. -/
def dispatch (s : AcpHttpChannel) : AcpHttpChannel :=
  match s.inFlight, s.outbox with
  | none, (origin, msg) :: rest =>
    let s := { s with outbox := rest }
    if msg.channel ≠ acpHttpChannelName || !s.sessions.contains msg.chatId then s
    else
      let cancelled := (s.pending.lookup msg.chatId).any HttpPending.cancelled
      match s.pendingHttp.lookup msg.chatId, toFragment parse cancelled msg with
      | some channel, some fragment => { s with inFlight := some ⟨channel, origin, fragment⟩ }
      | _, _ => s
  | _, _ => s

/-- The rest of `send`: it waits while the channel is full, and does nothing if the receiver is gone. -/
def deliver (s : AcpHttpChannel) : AcpHttpChannel :=
  match s.inFlight with
  | none => s
  | some d =>
    match s.handlers[d.channel]? with
    | none => s
    | some h =>
      if h.phase = .done then { s with inFlight := none }
      else if h.buffer.length < promptFragmentBuffer then
        { s.setHandler d.channel { h with buffer := h.buffer ++ [(d.origin, d.fragment)] } with inFlight := none }
      else s

def step (s : AcpHttpChannel) : AcpHttpEvent → AcpHttpChannel
  | .prompt id params => s.acceptPrompt base parse id params
  | .insertSender i => s.insertSender i
  | .publish i bus => s.publish i bus
  | .headers i ok => s.writeHeaders i ok
  | .receive i through => s.receive i through
  | .closed i through => s.closed i through
  | .timeout i through => s.timeout i through
  | .heartbeat i ok => s.heartbeat i ok
  | .removePending i => s.removePending i
  | .removeSender i => s.removeSender i
  | .cancel sessionId => s.cancel sessionId
  | .emit i content metadata kind => s.emit i content metadata kind
  | .finish i => s.finish i
  | .dispatch => s.dispatch parse
  | .deliver => s.deliver

end AcpHttpChannel

end Zeptoclaw

import Zeptoclaw.Spec.AcpProtocol
import Zeptoclaw.Spec.Bus

/-!
# The ACP channel on standard input and output

`channels/acp.rs`. One task reads requests line by line and finishes each before the next; while
it waits for the bus to take the message of a prompt, outbound messages are sent. Every write
succeeds. Accepted prompts are numbered in order, which the program does not do: a pending prompt
and a response that completes a prompt have its number. Times are nanoseconds of the monotonic
clock.
-/

namespace Zeptoclaw

open Text

def acpChannelName : Str := "acp".toList

def acpSenderId : Str := "acp_client".toList

/-- `MAX_ACP_SESSIONS`. -/
def maxAcpSessions : ℕ := 1000

structure AcpChannelConfig where
  base : BaseChannelConfig := {}
  sessionTtlSecs : Option ℕ := none
  deriving DecidableEq, Repr

structure PendingPrompt where
  requestId : Json
  cancelled : Bool
  number : ℕ

structure SessionEntry where
  cwd : Str
  lastActive : ℕ
  deriving DecidableEq, Repr

structure AcpState where
  initialized : Bool := false
  customUpdatesSupported : Bool := false
  sessions : Assoc Str SessionEntry := ∅
  pending : Assoc Str PendingPrompt := ∅

namespace AcpState

/-- The sessions that were not active for `ttl`. -/
def expired (ttl now : ℕ) (s : AcpState) : List Str :=
  (s.sessions.retain fun _ entry => decide (ttl ≤ now - entry.lastActive)).keys

/-- Expired sessions are removed, and their pending prompts. -/
def sweepExpired (ttl now : ℕ) (s : AcpState) : AcpState :=
  let expired := s.expired ttl now
  { s with
    sessions := s.sessions.retain fun id _ => !expired.contains id
    pending := s.pending.retain fun id _ => !expired.contains id }

/-- The session was active, if it is known. -/
def touch (sessionId : Str) (now : ℕ) (s : AcpState) : AcpState :=
  match s.sessions.lookup sessionId with
  | some entry => { s with sessions := s.sessions.insert sessionId { entry with lastActive := now } }
  | none => s

def isLive (sessionId : Str) (s : AcpState) : Bool := (s.sessions.lookup sessionId).isSome

end AcpState

/-- A line of the output. -/
inductive Written where
  -- the number of the prompt that the response completes
  | response (completes : Option ℕ) (response : JsonRpcResponse)
  | update (sessionId : Str) (update : SessionUpdate)

/-- The response, if it completes the prompt. -/
def Written.completion (number : ℕ) : Written → Option JsonRpcResponse
  | .response (some n) r => if n = number then some r else none
  | .response none _ => none
  | .update _ _ => none

/-- A prompt whose message the bus has not taken yet. -/
structure Publishing where
  sessionId : Str
  requestId : Json
  number : ℕ
  inbound : InboundMessage

/-- A prompt that was accepted. -/
structure AcceptedPrompt where
  sessionId : Str
  requestId : Json

structure AcpChannel where
  state : AcpState := {}
  stdout : List Written := []
  publishing : Option Publishing := none
  -- the messages that were put into the queue of the bus, with the number of the prompt
  queue : List (ℕ × InboundMessage) := []
  accepted : List AcceptedPrompt := []
  -- the input was read to its end
  ended : Bool := false

namespace AcpChannel

variable (cfg : AcpChannelConfig) (parse : AcpParse)

/-! ## Requests -/

/-- A response that completes no prompt. -/
def respond (c : AcpChannel) (id : Option Json) (reply : AcpReply) : AcpChannel :=
  { c with stdout := c.stdout ++ [.response none ⟨id, reply⟩] }

/-- The response to a prompt. -/
def complete (c : AcpChannel) (number : ℕ) (requestId : Json) (reply : AcpReply) : AcpChannel :=
  { c with stdout := c.stdout ++ [.response (some number) ⟨some requestId, reply⟩] }

def notify (c : AcpChannel) (sessionId : Str) (update : SessionUpdate) : AcpChannel :=
  { c with stdout := c.stdout ++ [.update sessionId update] }

def handleInitialize (c : AcpChannel) (id params : Option Json) : AcpChannel :=
  let client := (params.bind parse.initParams).join
  let c := { c with
    state.initialized := true
    state.customUpdatesSupported := client = some "openshell-scheduler".toList }
  c.respond id .initialized

/-- What `session/new` says before it changes anything: the working directory, or its answer. -/
def sessionNewChecks (c : AcpChannel) (params : Option Json) : Except AcpReply Str :=
  if !cfg.base.isAllowed acpSenderId then .error (.error jsonrpcServerError "Unauthorized".toList)
  else
    match validateCwd parse params with
    | .error msg => .error (.error (-32602) msg)
    | .ok cwd =>
      if !c.state.initialized then
        .error (.error (-32600) "initialize must be called before session/new".toList)
      else .ok cwd

/-- The sweep of `session/new`, if a time to live is configured. -/
def sweep (now : ℕ) (s : AcpState) : AcpState :=
  match cfg.sessionTtlSecs with
  | some ttl => s.sweepExpired (ttl * 1000000000) now
  | none => s

def handleSessionNew (c : AcpChannel) (id params : Option Json) (now : ℕ) (newId : Str) : AcpChannel :=
  match c.sessionNewChecks cfg parse params with
  | .error reply => c.respond id reply
  | .ok cwd =>
    let sessionId := "acp_".toList ++ newId
    let c := { c with state := sweep cfg now c.state }
    if maxAcpSessions ≤ c.state.sessions.entries.length then
      c.respond id (.error jsonrpcServerError
        ("Too many sessions (limit: ".toList ++ (toString maxAcpSessions).toList ++ ")".toList))
    else
      let c := { c with state.sessions := c.state.sessions.insert sessionId ⟨cwd, now⟩ }
      c.respond id (.sessionNew sessionId)

/-- What `session/prompt` says before it looks at the session: the session and the text, or its answer. -/
def sessionPromptChecks (c : AcpChannel) (params : Option Json) : Except AcpReply (Str × Str) :=
  if !cfg.base.isAllowed acpSenderId then .error (.error jsonrpcServerError "Unauthorized".toList)
  else if !c.state.initialized then
    .error (.error (-32600) "initialize must be called before session/prompt".toList)
  else
    match validatePrompt parse " bytes)".toList params with
    | .error msg => .error (.error (-32602) msg)
    | .ok prompt => .ok prompt

/-- `handle_session_prompt` up to the call of the bus. -/
def handleSessionPrompt (c : AcpChannel) (id : Json) (params : Option Json) (now : ℕ) : AcpChannel :=
  match c.sessionPromptChecks cfg parse params with
  | .error reply => c.respond (some id) reply
  | .ok (sessionId, content) =>
    if !c.state.isLive sessionId then
      c.respond (some id) (.error jsonrpcServerError (unknownSessionText sessionId))
    else
      let c := { c with state := c.state.touch sessionId now }
      if (c.state.pending.lookup sessionId).isSome then c.respond (some id) (.error (-32602) inFlightText)
      else
        let number := c.accepted.length
        { c with
          state.pending := c.state.pending.insert sessionId ⟨id, false, number⟩
          accepted := c.accepted ++ [⟨sessionId, id⟩]
          publishing := some ⟨sessionId, id, number, .new acpChannelName acpSenderId sessionId content⟩ }

/-- The rest of `handle_session_prompt`, once the bus has answered. The error goes to the caller,
which responds with it. -/
def finishPublish (c : AcpChannel) (p : Publishing) (bus : BusState) : AcpChannel :=
  let (result, queue) := bus.publishInbound p.number p.inbound c.queue
  let c := { c with publishing := none, queue }
  match result with
  | .ok () => c
  | .error e =>
    let error := ZeptoError.channel ("ACP: failed to publish inbound: ".toList ++ e.display)
    let c := { c with state.pending := c.state.pending.erase p.sessionId }
    c.complete p.number p.requestId (.error (-32603) ("Internal error: ".toList ++ error.display))

/-- A response to a request; a notification has none. -/
def respondIfRequest (c : AcpChannel) (id : Option Json) (reply : AcpReply) : AcpChannel :=
  match id with
  | some id => c.respond (some id) reply
  | none => c

/-- The pending prompt of a live session is marked as cancelled. -/
def markCancelled (s : AcpState) (sessionId : Str) : AcpState :=
  if s.isLive sessionId then
    match s.pending.lookup sessionId with
    | some p => { s with pending := s.pending.insert sessionId { p with cancelled := true } }
    | none => s
  else s

def handleSessionCancel (c : AcpChannel) (id params : Option Json) : AcpChannel :=
  if !cfg.base.isAllowed acpSenderId then
    c.respondIfRequest id (.error jsonrpcServerError "Unauthorized".toList)
  else
    match params.bind parse.sessionCancel with
    | none => c.respondIfRequest id (.error (-32602) "Invalid params: sessionId required".toList)
    | some sessionId =>
      let c := { c with state := markCancelled c.state sessionId }
      c.respondIfRequest id .cancelDone

/-- The sessions of a directory, or all of them. -/
def sessionInfos (s : AcpState) (cwdFilter : Option Str) : List SessionInfo :=
  (s.sessions.pairs.filter fun e => cwdFilter.all fun cwd => e.2.cwd = cwd).map fun e =>
    ⟨e.1, e.2.cwd, (s.pending.lookup e.1).isSome⟩

def handleSessionList (c : AcpChannel) (id params : Option Json) : AcpChannel :=
  if !cfg.base.isAllowed acpSenderId then c.respond id (.error jsonrpcServerError "Unauthorized".toList)
  else if !c.state.initialized then
    c.respond id (.error (-32600) "initialize must be called before session/list".toList)
  else
    match params.elim (.ok none) parse.sessionList with
    | .error e => c.respond id (.error (-32602) ("Invalid params: ".toList ++ e))
    | .ok cwdFilter => c.respond id (.sessionList (sessionInfos c.state cwdFilter))

/-- What a line of the input is. -/
inductive Line where
  | blank
  | parseError (error : Str)
  | badVersion (id : Option Json)
  -- a request-only method without an id
  | ignored
  | request (method : AcpMethod) (id params : Option Json)
  | unknown (id : Option Json) (method : Str)

def readLine (text : Str) : Line :=
  let line := trim text
  if line.isEmpty then .blank
  else
    match parse.request line with
    | .error e => .parseError e
    | .ok request =>
      if request.jsonrpc ≠ "2.0".toList then .badVersion request.id
      else
        match AcpMethod.ofName request.method with
        | none => .unknown request.id request.method
        | some method =>
          if method ≠ .sessionCancel && request.id.isNone then .ignored else .request method request.id request.params

/-- One round of `run_stdin_loop`. -/
def handleLine (c : AcpChannel) (line : Line) (now : ℕ) (newId : Str) : AcpChannel :=
  match line with
  | .blank => c
  | .parseError e => c.respond none (.error (-32700) ("Parse error: ".toList ++ e))
  | .badVersion id => c.respond id (.error (-32600) "Invalid Request: jsonrpc must be 2.0".toList)
  | .ignored => c
  | .unknown id method => c.respond id (.error (-32601) ("Method not found: ".toList ++ method))
  | .request .init id params => c.handleInitialize parse id params
  | .request .sessionNew id params => c.handleSessionNew cfg parse id params now newId
  | .request .sessionPrompt id params => c.handleSessionPrompt cfg parse (id.getD .null) params now
  | .request .sessionCancel id params => c.handleSessionCancel cfg parse id params
  | .request .sessionList id params => c.handleSessionList cfg parse id params

/-- The end of `run_stdin_loop`: every pending prompt is completed. -/
def drain (c : AcpChannel) : AcpChannel :=
  { c with
    state.pending := ∅
    stdout := c.stdout ++ c.state.pending.pairs.map fun e =>
      .response (some e.2.number) ⟨some e.2.requestId, .promptDone "cancelled".toList⟩
    ended := true }

/-! ## Outbound messages -/

def sendChunk (c : AcpChannel) (sessionId content : Str) (now : ℕ) : AcpChannel :=
  if c.state.isLive sessionId then
    let c := { c with state := c.state.touch sessionId now }
    c.notify sessionId (.agentMessageChunk content)
  else c

def sendChunkEnd (c : AcpChannel) (sessionId : Str) : AcpChannel :=
  if c.state.isLive sessionId then
    match c.state.pending.lookup sessionId with
    | none => c
    | some p =>
      let c := { c with state.pending := c.state.pending.erase sessionId }
      c.complete p.number p.requestId (.promptDone (stopReason p.cancelled))
  else c

/-- The name and the payload of a custom message, if it has them. -/
def customParts (msg : OutboundMessage) : Option (Str × Json) := do
  let name ← msg.get outboundCustomNameKey
  let payloadText ← msg.get outboundCustomPayloadKey
  let payload ← parse.payload payloadText
  return (name, payload)

/-- Whether the message was handled, and the channel after it. -/
def sendCustom (c : AcpChannel) (msg : OutboundMessage) (now : ℕ) : Bool × AcpChannel :=
  match customParts parse msg with
  | none => (false, c)
  | some (name, payload) =>
    if !c.state.customUpdatesSupported then (false, c)
    else if c.state.isLive msg.chatId then
      let c := { c with state := c.state.touch msg.chatId now }
      (true, c.notify msg.chatId (.agentCustom name payload))
    else (true, c)

/-- A complete reply. -/
def sendFull (c : AcpChannel) (msg : OutboundMessage) : AcpChannel :=
  let pending := c.state.pending.lookup msg.chatId
  let c := { c with state.pending := c.state.pending.erase msg.chatId }
  if !c.state.isLive msg.chatId then c
  else
    match pending with
    | none => c.notify msg.chatId (.agentMessage msg.content)
    | some p =>
      if msg.isError then
        c.complete p.number p.requestId (.error jsonrpcServerError (stripAgentErrorPrefix msg.content))
      else
        (c.notify msg.chatId (.agentMessage msg.content)).complete p.number p.requestId
          (.promptDone (stopReason p.cancelled))

def send (c : AcpChannel) (msg : OutboundMessage) (now : ℕ) : AcpChannel :=
  if msg.channel ≠ acpChannelName then c
  else
    match msg.kind with
    | .chunk => c.sendChunk msg.chatId msg.content now
    | .chunkEnd => c.sendChunkEnd msg.chatId
    | .custom =>
      match c.sendCustom parse msg now with
      | (true, c) => c
      | (false, c) =>
        match (msg.get outboundCustomSummaryKey).filter fun summary => !summary.isEmpty with
        | none => c
        | some summary => c.sendChunk msg.chatId summary now
    | .full => if msg.keepTyping then c.sendChunk msg.chatId msg.content now else c.sendFull msg

end AcpChannel

/-! ## Runs -/

inductive AcpEvent where
  -- the next line of the input; a new session gets the identifier
  | line (text : Str) (now : ℕ) (newId : Str)
  -- the bus answers the handler that waits for it
  | published (bus : BusState)
  | outbound (msg : OutboundMessage) (now : ℕ)
  | endOfInput

namespace AcpChannel

/-- The task is between two lines. -/
def reads (c : AcpChannel) : Bool := !c.ended && c.publishing.isNone

/-- A line and the end of the input wait for the task. -/
def step (cfg : AcpChannelConfig) (parse : AcpParse) (c : AcpChannel) : AcpEvent → AcpChannel
  | .line text now newId => if c.reads then c.handleLine cfg parse (readLine parse text) now newId else c
  | .published bus =>
    match c.publishing with
    | some p => c.finishPublish p bus
    | none => c
  | .outbound msg now => c.send parse msg now
  | .endOfInput => if c.reads then c.drain else c

/-- The responses that complete a prompt. -/
def completions (number : ℕ) (stdout : List Written) : List JsonRpcResponse :=
  stdout.filterMap (Written.completion number)

end AcpChannel

end Zeptoclaw

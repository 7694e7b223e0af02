import Zeptoclaw.Spec.AcpProtocol
import Zeptoclaw.Spec.AcpRequest
import Zeptoclaw.Spec.Bus
import Zeptoclaw.Spec.Cache

/-!
# The webhook channel

`channels/webhook.rs`: a connection is read until the request is complete or the client stops sending, the request is
parsed and checked, and its message goes to the bus (`handle_connection`). SHA-256, the upper case of a text and the
parsing of JSON are parameters.
-/

namespace Zeptoclaw

open Text Utf8

/-- `MAX_HEADER_SIZE + MAX_BODY_SIZE`, the size of the buffer. -/
def webhookBufferSize : ℕ := 8192 + 1048576

/-- `WebhookChannelConfig`, without the address it listens on. -/
structure WebhookChannelConfig where
  path : Str := "/webhook".toList
  authToken : Option Str := none
  signatureSecret : Option Str := none
  signatureHeader : Str := "X-ZeptoClaw-Signature-256".toList
  senderId : Option Str := none
  chatId : Option Str := none
  trustPayloadIdentity : Bool := false
  deriving DecidableEq, Repr

structure WebhookPayload where
  message : Str
  sender : Option Str
  chatId : Option Str
  deriving DecidableEq, Repr

namespace Webhook

/-! ## Responses -/

def http200Ok : Str :=
  ("HTTP/1.1 200 OK\r\nContent-Type: application/json\r\nContent-Length: 16\r\nConnection: close\r\n\r\n" ++
    "\x7b\"status\":\"ok\"\x7d").toList

def http400BadRequest : Str :=
  "HTTP/1.1 400 Bad Request\r\nContent-Type: application/json\r\nConnection: close\r\n\r\n".toList

def http401Unauthorized : Str :=
  ("HTTP/1.1 401 Unauthorized\r\nContent-Type: application/json\r\nContent-Length: 26\r\nConnection: close\r\n\r\n" ++
    "\x7b\"error\":\"unauthorized\"\x7d").toList

def http404NotFound : Str :=
  ("HTTP/1.1 404 Not Found\r\nContent-Type: application/json\r\nContent-Length: 23\r\nConnection: close\r\n\r\n" ++
    "\x7b\"error\":\"not found\"\x7d").toList

def http405MethodNotAllowed : Str :=
  ("HTTP/1.1 405 Method Not Allowed\r\nContent-Type: application/json\r\nContent-Length: 32\r\nConnection: close\r\n\r\n" ++
    "\x7b\"error\":\"method not allowed\"\x7d").toList

def http413PayloadTooLarge : Str :=
  ("HTTP/1.1 413 Payload Too Large\r\nContent-Type: application/json\r\nContent-Length: 31\r\nConnection: close\r\n\r\n" ++
    "\x7b\"error\":\"payload too large\"\x7d").toList

/-- `{"error":"…"}`. -/
def errorBody (e : Str) : Str := "\x7b\"error\":\"".toList ++ e ++ "\"\x7d".toList

/-- A length, a blank line and a body. -/
def withLength (body : Str) : Str := "Content-Length: ".toList ++ (toString (byteLen body)).toList ++ blankLine ++ body

def badRequest (e : Str) : Str := http400BadRequest ++ withLength (errorBody e)

def internalError : Str :=
  let body := errorBody "internal server error".toList
  "HTTP/1.1 500 Internal Server Error\r\nContent-Type: application/json\r\nContent-Length: ".toList ++
    (toString (byteLen body)).toList ++ "\r\nConnection: close\r\n\r\n".toList ++ body

/-! ## Checks -/

def constantTimeEq (a b : Str) : Bool :=
  let a := encode a
  let b := encode b
  if a.length ≠ b.length then false
  else (a.zip b).foldl (fun result xy => result ||| (xy.1 ^^^ xy.2)) 0 = 0

def validateAuth (headers : List (Str × Str)) (requiredToken : Option Str) : Bool :=
  match requiredToken with
  | none => true
  | some token =>
    let expected := "Bearer ".toList ++ token
    headers.any fun header =>
      eqIgnoreAsciiCase header.1 "authorization".toList && constantTimeEq (trim header.2) expected

section

variable (sha256 : Bytes → Bytes)

def hmacSha256Hex (key message : Bytes) : Str :=
  let k := if 64 < key.length then (sha256 key).take 32 else key
  let k := k ++ List.replicate (64 - k.length) 0
  let inner := sha256 (k.map (· ^^^ 0x36) ++ message)
  hexEncode (sha256 (k.map (· ^^^ 0x5c) ++ inner))

def validateSignature (headers : List (Str × Str)) (body headerName : Str) (secret : Option Str) : Bool :=
  match secret with
  | none => true
  | some secret =>
    match headers.find? fun header => eqIgnoreAsciiCase header.1 headerName with
    | none => false
    | some header => constantTimeEq (trim header.2) ("sha256=".toList ++ hmacSha256Hex sha256 (encode secret) (encode body))

end

/-- `as_deref().map(str::trim).unwrap_or_default()`. -/
def trimmed (s : Option Str) : Str := (s.map trim).getD []

def resolveIdentity (payload : WebhookPayload) (config : WebhookChannelConfig) : Except ZeptoError (Str × Str) :=
  if config.trustPayloadIdentity then
    let sender := trimmed payload.sender
    let chatId := trimmed payload.chatId
    if sender = [] ∨ chatId = [] then .error (.channel "message, sender, and chat_id must be non-empty".toList)
    else .ok (sender, chatId)
  else
    let sender := trimmed config.senderId
    if sender = [] then
      .error (.config "Webhook channel requires sender_id unless trust_payload_identity=true".toList)
    else
      let chatId := trimmed config.chatId
      .ok (sender, if chatId = [] then sender else chatId)

/-! ## Requests -/

section

variable (toUppercase : Str → Str)

def parseHttpRequest (raw : Bytes) : Except ZeptoError ParsedRequest :=
  match fromUtf8 raw with
  | none => .error (.channel "Invalid UTF-8 in HTTP request".toList)
  | some rawStr =>
    let (headerSection, body) := (cutFirst blankLine rawStr).getD (rawStr, [])
    match lines headerSection with
    | [] => .error (.channel "Empty HTTP request".toList)
    | requestLine :: rest =>
      match splitWhitespace requestLine with
      | [] => .error (.channel "Missing HTTP method".toList)
      | [_] => .error (.channel "Missing HTTP path".toList)
      | method :: path :: _ => .ok ⟨toUppercase method, path, rest.filterMap parseHeader, body⟩

/-- What a read of the connection comes to; a read of no bytes is its end. -/
inductive Read where
  | read (bytes : Bytes)
  | failed
  -- nothing arrives for 5 s
  | timeout
  deriving DecidableEq, Repr

inductive Received where
  | received (bytes : Bytes)
  | payloadTooLarge
  | readError
  -- no read has returned yet
  | reading
  deriving DecidableEq, Repr

/-- Whether the loop stops after a read. The whole buffer is parsed. -/
def stopsReading (buf : Bytes) : Bool :=
  match findHeaderEnd buf with
  | none => false
  | some headerEnd =>
    match parseHttpRequest toUppercase buf with
    | .ok req => contentLength req.headers ≤ buf.length - headerEnd - 4
    | .error _ => true

/-- The read loop of `handle_connection`. A read takes no more than the room in the buffer. -/
def readLoop (buf : Bytes) (events : List Read) : Received :=
  if webhookBufferSize ≤ buf.length then .payloadTooLarge
  else
    match events with
    | [] => .reading
    | .failed :: _ => .readError
    | .timeout :: _ => .received buf
    | .read [] :: _ => .received buf
    | .read (b :: bytes) :: events =>
      let buf := buf ++ (b :: bytes).take (webhookBufferSize - buf.length)
      if stopsReading toUppercase buf then .received buf else readLoop buf events

end

/-! ## Connections -/

/-- What the channel takes from its libraries and from the bus. -/
structure Lib where
  toUppercase : Str → Str
  sha256 : Bytes → Bytes
  -- `serde_json::from_str` on a payload, with the text of its error
  fromStr : Str → Except Str WebhookPayload
  -- the bus takes the message
  publishInbound : InboundMessage → Bool

/-- What is written to the connection, and what has been given to the bus. -/
structure Outcome where
  response : Option Str := none
  published : Option InboundMessage := none
  deriving DecidableEq, Repr

variable (lib : Lib) (config : WebhookChannelConfig) (base : BaseChannelConfig)

/-- What `handle_connection` does with a request. -/
def handleRequest (request : ParsedRequest) : Outcome :=
  if request.method ≠ "POST".toList then { response := http405MethodNotAllowed }
  else if request.path.takeWhile (· ≠ '?') ≠ config.path then { response := http404NotFound }
  else if !validateAuth request.headers config.authToken then { response := http401Unauthorized }
  else if !validateSignature lib.sha256 request.headers request.body config.signatureHeader config.signatureSecret then
    { response := http401Unauthorized }
  else
    match lib.fromStr request.body with
    | .error e => { response := badRequest ("invalid JSON: ".toList ++ e) }
    | .ok payload =>
      if trim payload.message = [] then { response := badRequest "message must be non-empty".toList }
      else
        match resolveIdentity payload config with
        | .error e => { response := badRequest e.display }
        | .ok (senderId, chatId) =>
          if !base.isAllowed senderId then { response := http401Unauthorized }
          else
            let inbound := InboundMessage.new "webhook".toList senderId chatId (trim payload.message)
            if lib.publishInbound inbound then { response := http200Ok, published := inbound }
            else { response := internalError }

/-- `handle_connection`, for the reads of the connection. -/
def handleConnection (events : List Read) : Outcome :=
  match readLoop lib.toUppercase [] events with
  | .payloadTooLarge => { response := http413PayloadTooLarge }
  | .readError | .reading => {}
  | .received buf =>
    if buf = [] then {}
    else
      match parseHttpRequest lib.toUppercase buf with
      | .error _ => { response := badRequest "malformed request".toList }
      | .ok request => handleRequest lib config base request

end Webhook

end Zeptoclaw

import Zeptoclaw.Lib.Text
import Zeptoclaw.Spec.Error

/-!
# Messages on the bus

The messages of `bus/message.rs` and the inbound queue of `bus/mod.rs`. A metadata map is the
list of its entries. A message that the interceptor consumes is reported like one that was queued
(`publishes_publishInbound`).
-/

namespace Zeptoclaw

inductive MediaType where
  | image
  | audio
  | video
  | document
  deriving DecidableEq, Repr

structure MediaAttachment where
  mediaType : MediaType
  url : Option Str
  data : Option (List ℕ)
  filename : Option Str
  mimeType : Option Str
  deriving DecidableEq, Repr

structure InboundMessage where
  channel : Str
  senderId : Str
  chatId : Str
  content : Str
  media : List MediaAttachment
  sessionKey : Str
  metadata : List (Str × Str)
  deriving DecidableEq, Repr

namespace InboundMessage

/-- The session key that `InboundMessage::new` derives. -/
def defaultSessionKey (channel chatId : Str) : Str := channel ++ ':' :: chatId

/-- `InboundMessage::new`. -/
def new (channel senderId chatId content : Str) : InboundMessage where
  channel
  senderId
  chatId
  content
  media := []
  sessionKey := defaultSessionKey channel chatId
  metadata := []

/-- `metadata.get(key)`. -/
def get (msg : InboundMessage) (key : Str) : Option Str := (msg.metadata.find? fun f => f.1 = key).map Prod.snd

/-- A metadata field has the value `"true"`. -/
def isSet (msg : InboundMessage) (key : Str) : Bool :=
  (msg.metadata.find? fun f => f.1 = key).any fun f => f.2 = "true".toList

/-- The bearer token that the pairing check reads. -/
def authToken (msg : InboundMessage) : Option Str := msg.get "auth_token".toList

/-- `with_metadata`, with a key that the message does not have. -/
def withMetadata (msg : InboundMessage) (key value : Str) : InboundMessage :=
  { msg with metadata := msg.metadata ++ [(key, value)] }

end InboundMessage

/-! ## Outbound messages -/

inductive OutboundMessageKind where
  | full
  | chunk
  | chunkEnd
  | custom
  deriving DecidableEq, Repr

structure OutboundMessage where
  channel : Str
  chatId : Str
  content : Str
  replyTo : Option Str := none
  metadata : List (Str × Str) := []
  kind : OutboundMessageKind := .full
  deriving DecidableEq, Repr

/-- `OUTBOUND_ERROR_KEY`. -/
def outboundErrorKey : Str := "error".toList

/-- `OUTBOUND_CUSTOM_NAME_KEY`. -/
def outboundCustomNameKey : Str := "custom.name".toList

/-- `OUTBOUND_CUSTOM_PAYLOAD_KEY`. -/
def outboundCustomPayloadKey : Str := "custom.payload".toList

/-- `OUTBOUND_CUSTOM_SUMMARY_KEY`. -/
def outboundCustomSummaryKey : Str := "custom.summary".toList

namespace OutboundMessage

/-- `metadata.get(key)`. -/
def get (msg : OutboundMessage) (key : Str) : Option Str := (msg.metadata.find? fun f => f.1 = key).map Prod.snd

def isError (msg : OutboundMessage) : Bool := msg.get outboundErrorKey = some "true".toList

def keepTyping (msg : OutboundMessage) : Bool := msg.get "keep_typing".toList = some "true".toList

end OutboundMessage

/-! ## Publishing -/

/-- The bus at the time of a call: its interceptor, and whether the receiver was dropped. -/
structure BusState where
  interceptor : Option (InboundMessage → Bool) := none
  closed : Bool := false

namespace BusState

variable {ι : Type*} (bus : BusState)

/-- The interceptor consumes the message. -/
def consumes (msg : InboundMessage) : Bool := bus.interceptor.any fun interceptor => interceptor msg

/-- `publish_inbound_with_status`: the answer, and the messages that were put into the queue. Each
is noted with what it was published for, which the program does not have. -/
def publishInboundWithStatus (origin : ι) (msg : InboundMessage) (queue : List (ι × InboundMessage)) :
    Except ZeptoError Bool × List (ι × InboundMessage) :=
  if bus.consumes msg then (.ok true, queue)
  else if bus.closed then (.error .busClosed, queue)
  else (.ok false, queue ++ [(origin, msg)])

def publishInbound (origin : ι) (msg : InboundMessage) (queue : List (ι × InboundMessage)) :
    Except ZeptoError Unit × List (ι × InboundMessage) :=
  let (status, queue) := bus.publishInboundWithStatus origin msg queue
  (status.map fun _ => (), queue)

end BusState

/-! ## What a publication does -/

namespace BusState

/-- What the bus does with a message. -/
inductive Publishes {ι : Type*} (bus : BusState) (origin : ι) (msg : InboundMessage) (queue : List (ι × InboundMessage)) :
    Except ZeptoError Unit → List (ι × InboundMessage) → Prop where
  | consumed (h : bus.consumes msg = true) : Publishes bus origin msg queue (.ok ()) queue
  | failed (h : bus.consumes msg = false) (closed : bus.closed = true) : Publishes bus origin msg queue (.error .busClosed) queue
  | queued (h : bus.consumes msg = false) (closed : bus.closed = false) :
    Publishes bus origin msg queue (.ok ()) (queue ++ [(origin, msg)])

theorem publishes_publishInbound {ι : Type*} (bus : BusState) (origin : ι) (msg : InboundMessage)
    (queue : List (ι × InboundMessage)) : Publishes bus origin msg queue (bus.publishInbound origin msg queue).1
      (bus.publishInbound origin msg queue).2 := by
  unfold publishInbound publishInboundWithStatus
  cases hconsumes : bus.consumes msg with
  | true => exact .consumed hconsumes
  | false =>
    cases hclosed : bus.closed with
    | true => exact .failed hconsumes hclosed
    | false => exact .queued hconsumes hclosed

end BusState

end Zeptoclaw

import Zeptoclaw.Lib.Occurrence
import Zeptoclaw.Spec.Serde
import Zeptoclaw.Spec.SessionStore

/-!
# The answers of a containerised agent

`gateway/ipc.rs`: an agent in a container prints its answer as JSON between two markers, and the
gateway looks for it in all that the container has printed. The JSON of an answer is written by
`serde_json`; its reader, and the text of a date, are parameters.
-/

namespace Zeptoclaw

/-! ## Answers -/

structure UsageSnapshot where
  inputTokens : UInt64
  outputTokens : UInt64
  toolCalls : UInt64
  errors : UInt64
  deriving DecidableEq, Repr

inductive AgentResult where
  | success (content : Str) (session : Option Session)
  | error (message code : Str)
  deriving DecidableEq, Repr

structure AgentResponse where
  requestId : Str
  result : AgentResult
  usage : Option UsageSnapshot
  deriving DecidableEq, Repr

def responseStartMarker : Str := "<<<AGENT_RESPONSE_START>>>".toList

def responseEndMarker : Str := "<<<AGENT_RESPONSE_END>>>".toList

/-! ## Their JSON -/

def Role.toJson : Role → Json
  | .system => .string "system".toList
  | .user => .string "user".toList
  | .assistant => .string "assistant".toList
  | .tool => .string "tool".toList

def ToolCall.toJson (call : ToolCall) : Json :=
  .object [("id".toList, .string call.id), ("name".toList, .string call.name), ("arguments".toList, .string call.arguments)]

def ImageSource.toJson : ImageSource → Json
  | .base64 data => .object [("kind".toList, .string "base64".toList), ("data".toList, .string data)]
  | .filePath path => .object [("kind".toList, .string "file_path".toList), ("path".toList, .string path)]
  | .url address => .object [("kind".toList, .string "url".toList), ("url".toList, .string address)]

def ContentPart.toJson : ContentPart → Json
  | .text content => .object [("type".toList, .string "text".toList), ("text".toList, .string content)]
  | .image source mediaType =>
    .object [("type".toList, .string "image".toList), ("source".toList, source.toJson), ("media_type".toList, .string mediaType)]

/-- A field that is left out when there is no value. -/
def optionalField (name : String) (value : Option Json) : List (Str × Json) :=
  match value with
  | some v => [(name.toList, v)]
  | none => []

def Message.toJson (message : Message) : Json :=
  .object ([("role".toList, message.role.toJson), ("content".toList, .string message.content),
    ("content_parts".toList, .array (message.contentParts.map ContentPart.toJson))] ++
    optionalField "tool_calls" (message.toolCalls.map fun calls => .array (calls.map ToolCall.toJson)) ++
    optionalField "tool_call_id" (message.toolCallId.map .string))

def UsageSnapshot.toJson (usage : UsageSnapshot) : Json :=
  .object [("input_tokens".toList, .number (toString usage.inputTokens.toNat).toList),
    ("output_tokens".toList, .number (toString usage.outputTokens.toNat).toList),
    ("tool_calls".toList, .number (toString usage.toolCalls.toNat).toList),
    ("errors".toList, .number (toString usage.errors.toNat).toList)]

section Serialize

-- the text of an instant
variable (dateText : ℕ → Str)

def Session.toJson (session : Session) : Json :=
  .object [("key".toList, .string session.key), ("messages".toList, .array (session.messages.map Message.toJson)),
    ("summary".toList, (session.summary.map Json.string).getD .null),
    ("created_at".toList, .string (dateText session.createdAt)), ("updated_at".toList, .string (dateText session.updatedAt))]

def AgentResult.toJson : AgentResult → Json
  | .success content session =>
    .object [("Success".toList, .object [("content".toList, .string content),
      ("session".toList, (session.map (Session.toJson dateText)).getD .null)])]
  | .error message code =>
    .object [("Error".toList, .object [("message".toList, .string message), ("code".toList, .string code)])]

namespace AgentResponse

def toJson (r : AgentResponse) : Json :=
  .object ([("request_id".toList, .string r.requestId), ("result".toList, r.result.toJson dateText)] ++
    optionalField "usage" (r.usage.map UsageSnapshot.toJson))

def toMarkedJson (r : AgentResponse) : Str :=
  responseStartMarker ++ '\n' :: (r.toJson dateText).toStr ++ '\n' :: responseEndMarker

end AgentResponse

end Serialize

/-- `fromStr` is `serde_json::from_str`. -/
def parseMarkedResponse (fromStr : Str → Option AgentResponse) (stdout : Str) : Option AgentResponse :=
  match Text.cutLast responseStartMarker stdout with
  | none => none
  | some (_, rest) =>
    match Text.cutFirst responseEndMarker rest with
    | none => none
    | some (json, _) => fromStr (Text.trim json)

end Zeptoclaw

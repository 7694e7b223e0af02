import Zeptoclaw.Lib.Text

/-!
# Sessions

The session types (`session/types.rs`) and the file name of a session
(`session/mod.rs`, `session/history.rs`).
-/

namespace Zeptoclaw

open Text

/-- Where image data lives. -/
inductive ImageSource where
  | base64 (data : Str)
  | filePath (path : Str)
  | url (url : Str)
  deriving DecidableEq, Repr

/-- A content part of a message. -/
inductive ContentPart where
  | text (text : Str)
  | image (source : ImageSource) (mediaType : Str)
  deriving DecidableEq, Repr

/-- The role of a message sender. -/
inductive Role where
  | system
  | user
  | assistant
  | tool
  deriving DecidableEq, Repr

/-- A tool call made by the assistant. `arguments` is JSON text. -/
structure ToolCall where
  id : Str
  name : Str
  arguments : Str
  deriving DecidableEq, Repr

/-- A message of a conversation. -/
structure Message where
  role : Role
  content : Str
  contentParts : List ContentPart
  toolCalls : Option (List ToolCall)
  toolCallId : Option Str
  deriving DecidableEq, Repr

namespace Message

/-- The constructors `Message::user`, `assistant` and `system` differ in the role only. -/
def ofRole (role : Role) (content : Str) : Message :=
  { role, content, contentParts := [.text content], toolCalls := none, toolCallId := none }

def user (content : Str) : Message := ofRole .user content

def assistant (content : Str) : Message := ofRole .assistant content

def system (content : Str) : Message := ofRole .system content

def toolResult (toolCallId content : Str) : Message :=
  { ofRole .tool content with toolCallId := some toolCallId }

def assistantWithTools (content : Str) (toolCalls : List ToolCall) : Message :=
  { ofRole .assistant content with toolCalls := some toolCalls }

/-- `Message::user_with_images`. -/
def userWithImages (text : Str) (images : List ContentPart) : Message :=
  { ofRole .user text with contentParts := .text text :: images }

/-- `Message::has_tool_calls`. -/
def hasToolCalls (m : Message) : Bool := (m.toolCalls.map fun tc => !tc.isEmpty).getD false

/-- `Message::is_tool_result`. -/
def isToolResult (m : Message) : Bool := m.role == .tool && m.toolCallId.isSome

/-- `Message::has_images`. -/
def hasImages (m : Message) : Bool :=
  m.contentParts.any fun
    | .image _ _ => true
    | _ => false

/-- Another content, which the content parts, if there are any, then hold as their only text. -/
def setContent (m : Message) (content : Str) : Message :=
  { m with
    content
    contentParts := if m.contentParts.isEmpty then m.contentParts else [.text content] }

/-- The tool calls a message carries, none counting as the empty list. -/
def calls (m : Message) : List ToolCall := m.toolCalls.getD []

/-- The identifiers of the tool calls a message carries. -/
def callIds (m : Message) : List Str := m.calls.map ToolCall.id

end Message

/-! ## File names -/

namespace SessionManager

/-- What `sanitize_key` pushes for one character: those that are problematic in
file names, and the percent sign itself, are percent-encoded. -/
def escapeChar : Char → Str
  | '/' => ['%', '2', 'F']
  | '\\' => ['%', '5', 'C']
  | ':' => ['%', '3', 'A']
  | '*' => ['%', '2', 'A']
  | '?' => ['%', '3', 'F']
  | '"' => ['%', '2', '2']
  | '<' => ['%', '3', 'C']
  | '>' => ['%', '3', 'E']
  | '|' => ['%', '7', 'C']
  | '%' => ['%', '2', '5']
  | c => [c]

/-- `SessionManager::sanitize_key`. -/
def sanitizeKey (key : Str) : Str := key.flatMap escapeChar

/-- The value of a hexadecimal digit of either case. -/
def hexDigit (c : Char) : Option ℕ :=
  if '0' ≤ c ∧ c ≤ '9' then some (c.toNat - 48)
  else if 'a' ≤ c ∧ c ≤ 'f' then some (c.toNat - 87)
  else if 'A' ≤ c ∧ c ≤ 'F' then some (c.toNat - 55)
  else none

/-- Digits to a number that fits a byte, from the most significant digit on. -/
def hexDigits : ℕ → Str → Option ℕ
  | acc, [] => some acc
  | acc, c :: rest =>
    match hexDigit c with
    | none => none
    | some d => if acc * 16 + d < 256 then hexDigits (acc * 16 + d) rest else none

/-- `u8::from_str_radix(src, 16)`: a leading plus sign is allowed, an empty
number is not. -/
def u8FromStrRadix16 : Str → Option ℕ
  | [] => none
  | '+' :: rest => if rest.isEmpty then none else hexDigits 0 rest
  | src => hexDigits 0 src

/-- What `unsanitize_key` pushes for a percent sign followed by `hex`, the next
two characters or what is left of them. -/
def pushEscape (hex : Str) : Str :=
  if byteLen hex = 2 then
    match u8FromStrRadix16 hex with
    | some byte => [Char.ofNat byte]
    -- a malformed escape is kept as it stands
    | none => '%' :: hex
  else '%' :: hex

/-- `SessionManager::unsanitize_key`. -/
def unsanitizeKey : Str → Str
  | [] => []
  | '%' :: a :: b :: rest => pushEscape [a, b] ++ unsanitizeKey rest
  | '%' :: rest => pushEscape rest
  | c :: rest => c :: unsanitizeKey rest

/-- The file a session is stored in, below the sessions directory. -/
def sessionFile (key : Str) : Str := sanitizeKey key ++ ".json".toList

end SessionManager

namespace ConversationHistory

/-- What the private copy of `sanitize_key` in `session/history.rs` pushes for one
character. -/
def escapeChar : Char → Str
  | '/' => ['%', '2', 'F']
  | '\\' => ['%', '5', 'C']
  | ':' => ['%', '3', 'A']
  | '*' => ['%', '2', 'A']
  | '?' => ['%', '3', 'F']
  | '"' => ['%', '2', '2']
  | '<' => ['%', '3', 'C']
  | '>' => ['%', '3', 'E']
  | '|' => ['%', '7', 'C']
  | '%' => ['%', '2', '5']
  | c => [c]

/-- `ConversationHistory::sanitize_key`. -/
def sanitizeKey (key : Str) : Str := key.flatMap escapeChar

end ConversationHistory

end Zeptoclaw

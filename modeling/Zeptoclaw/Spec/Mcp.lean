import Zeptoclaw.Lib.TextLines
import Zeptoclaw.Spec.Encryption
import Zeptoclaw.Spec.Kernel
import Zeptoclaw.Spec.Skills

/-!
# The Model Context Protocol over standard streams

The server (`mcp_server/handler.rs`, `mcp_server/stdio.rs`) reads a request from each line and
writes the answer as a line; its tool calls go through `execute_tool`. The client's transport
(`tools/mcp/transport.rs`) puts a header with the length in front of each message and expects the
same of what it reads. `fromStr` is `serde_json::from_str`.
-/

namespace Zeptoclaw

open Text Utf8

/-! ## Messages -/

structure McpError where
  code : ℤ
  message : Str
  deriving DecidableEq, Repr

structure McpResponse where
  id : Option Json
  result : Option Json := none
  error : Option McpError := none

structure McpTool where
  name : Str
  description : Str
  inputSchema : Json

def McpError.toJson (e : McpError) : Json :=
  .object [("code".toList, .number (toString e.code).toList), ("message".toList, .string e.message)]

/-- `id` is written as `null` when there is none; a result or an error is left out. -/
def McpResponse.toJson (r : McpResponse) : Json :=
  .object ([("jsonrpc".toList, .string "2.0".toList), ("id".toList, r.id.getD .null)] ++
    (r.result.map fun v => ("result".toList, v)).toList ++ (r.error.map fun e => ("error".toList, e.toJson)).toList)

def McpTool.toJson (t : McpTool) : Json :=
  .object [("description".toList, .string t.description), ("inputSchema".toList, t.inputSchema), ("name".toList, .string t.name)]

/-- `CallToolResult` with one block of text. -/
def callToolResult (text : Str) (isError : Bool) : Json :=
  .object [("content".toList, .array [.object [("text".toList, .string text), ("type".toList, .string "text".toList)]]),
    ("isError".toList, .bool isError)]

def McpResponse.makeError (id : Option Json) (code : ℤ) (message : Str) : McpResponse := { id, error := some ⟨code, message⟩ }

/-! ## The handler -/

/-- What the server has of the kernel: its tools, their definitions and the safety layer. -/
structure McpKernel where
  tools : ToolRegistry
  definitions : List McpTool
  safety : Option SafetyLayer

def isNotification (method : Str) : Bool := "notifications/".toList.isPrefixOf method

def handleInitialize (id : Option Json) : McpResponse :=
  { id, result := some (.object [("capabilities".toList, .object [("tools".toList, .object [])]),
      ("protocolVersion".toList, .string "2024-11-05".toList),
      ("serverInfo".toList, .object [("name".toList, .string "zeptoclaw".toList), ("version".toList, .string "0.9.2".toList)])]) }

def handleNotificationsInitialized (id : Option Json) : McpResponse := { id, result := some (.object []) }

section Server

-- the tools, and what the tools that run return, in their order
variable (kernel : McpKernel) (returns : ℕ → Except ZeptoError ToolOutput)

def handleToolsList (id : Option Json) : McpResponse :=
  { id, result := some (.object [("tools".toList, .array (kernel.definitions.map McpTool.toJson))]) }

/-- The call that the parameters of `tools/call` stand for, or what is wrong with them. -/
def toolsCallParams (params : Option Json) : Except Str (Str × Json) :=
  match params with
  | none => .error "Missing params for tools/call".toList
  | some params =>
    match params.strField "name".toList with
    | none => .error "Missing or invalid 'name' in tools/call params".toList
    | some name => .ok (name, (params.get "arguments".toList).getD (.object []))

def handleToolsCall (s : KernelState) (id : Option Json) (params : Option Json) : KernelState × McpResponse :=
  match toolsCallParams params with
  | .error message => (s, .makeError id (-32602) message)
  | .ok (name, arguments) =>
    match executeTool kernel.tools kernel.safety s ⟨name, arguments, returns s.executed.length⟩ with
    | (s, .ok output) => (s, { id, result := some (callToolResult output.forLlm output.isError) })
    | (s, .error e) =>
      (s, { id, result := some (callToolResult ("Tool execution error: ".toList ++ e.display) true) })

def handleRequest (s : KernelState) (id : Option Json) (method : Str) (params : Option Json) : KernelState × McpResponse :=
  if method = "initialize".toList then (s, handleInitialize id)
  else if method = "notifications/initialized".toList then (s, handleNotificationsInitialized id)
  else if method = "tools/list".toList then (s, handleToolsList kernel id)
  else if method = "tools/call".toList then handleToolsCall kernel returns s id params
  else (s, .makeError id (-32601) ("Method not found: ".toList ++ method))

/-! ## Lines -/

/-- A missing or null `id` is none. -/
def extractId (value : Json) : Option Json :=
  match value.get "id".toList with
  | some .null | none => none
  | some id => some id

variable (fromStr : Str → Option Json)

/-- A request that passes the checks of `process_line`, or the answer to one that does not. -/
def parseLine (line : Str) : Except McpResponse (Option Json × Str × Option Json) :=
  match fromStr line with
  | none => .error (.makeError none (-32700) "Parse error: invalid JSON".toList)
  | some parsed =>
    if parsed.strField "jsonrpc".toList ≠ some "2.0".toList then
      .error (.makeError (extractId parsed) (-32600) "Missing or invalid 'jsonrpc' field (expected \"2.0\")".toList)
    else
      match parsed.strField "method".toList with
      | none => .error (.makeError (extractId parsed) (-32600) "Missing or invalid 'method' field".toList)
      | some method => .ok (extractId parsed, method, parsed.get "params".toList)

def processLine (s : KernelState) (line : Str) : KernelState × Option McpResponse :=
  match parseLine fromStr line with
  | .error response => (s, some response)
  | .ok (id, method, params) =>
    let (s, response) := handleRequest kernel returns s id method params
    (s, if isNotification method then none else some response)

structure McpServer where
  state : KernelState
  stdout : Str := []

/-- A line of the input in the loop of `run_stdio`. -/
def serveLine (m : McpServer) (line : Str) : McpServer :=
  let line := trim line
  if line = [] then m
  else
    match processLine kernel returns fromStr m.state line with
    | (state, none) => { m with state }
    | (state, some response) => ⟨state, m.stdout ++ response.toJson.toStr ++ ['\n']⟩

/-- The lines of the input with their newlines, with the line at hand; the last one may have none. -/
def inputLines (line : Bytes) : Bytes → List Bytes
  | [] => if line = [] then [] else [line]
  | b :: rest => if b = 10 then (line ++ [b]) :: inputLines [] rest else inputLines (line ++ [b]) rest

/-- The loop of `run_stdio`; `next_line` fails on a line that is not UTF-8, and the loop is left. -/
def serveLines (m : McpServer) : List Bytes → McpServer × Except Str Unit
  | [] => (m, .ok ())
  | line :: rest =>
    match fromUtf8 line with
    | none => (m, .error "stream did not contain valid UTF-8".toList)
    | some text => serveLines (serveLine kernel returns fromStr m (chomp text)) rest

/-- `run_stdio` over the whole input. -/
def runStdio (state : KernelState) (stdin : Bytes) : McpServer × Except Str Unit :=
  serveLines kernel returns fromStr { state } (inputLines [] stdin)

end Server

/-! ## The frames of the client -/

/-- What `StdioTransport` writes. -/
def frame (body : Str) : Str := "Content-Length: ".toList ++ (toString (byteLen body)).toList ++ "\r\n\r\n".toList ++ body

/-- What a text that is no number is told of. -/
def parseIntErrorText (s : Str) : Str :=
  if s = [] then "cannot parse integer from empty string".toList
  else if stripPlus s = [] ∨ ¬ (stripPlus s).all Char.isDigit then "invalid digit found in string".toList
  else "number too large to fit in target type".toList

/-- A header line: the length so far, or none behind the last header. -/
def headerLine (contentLength : Option ℕ) (line : Bytes) : Except Str (Option (Option ℕ)) :=
  match fromUtf8 line with
  | none => .error "Failed to read header line: stream did not contain valid UTF-8".toList
  | some text =>
    let trimmed := trim text
    if trimmed = [] then .ok none
    else if "Content-Length:".toList.isPrefixOf trimmed then
      let val := trim (trimmed.drop "Content-Length:".length)
      match parseUnsigned (2 ^ 64) val with
      | some n => .ok (some (some n))
      | none => .error ("Invalid Content-Length value: ".toList ++ parseIntErrorText val)
    else .ok (some contentLength)

/-- `read_content_length`, with the bytes of the line that are read: the length, and what is left of the stream. -/
def readContentLength (contentLength : Option ℕ) (line : Bytes) : Bytes → Except Str (ℕ × Bytes)
  | [] =>
    -- the last line has no newline; behind it the stream ends
    if line = [] then .error "MCP server closed stdout while reading headers".toList
    else
      match headerLine contentLength line with
      | .error e => .error e
      | .ok none =>
        match contentLength with
        | some n => .ok (n, [])
        | none => .error "MCP server response missing Content-Length header".toList
      | .ok (some _) => .error "MCP server closed stdout while reading headers".toList
  | b :: rest =>
    if b = 10 then
      match headerLine contentLength (line ++ [b]) with
      | .error e => .error e
      | .ok none =>
        match contentLength with
        | some n => .ok (n, rest)
        | none => .error "MCP server response missing Content-Length header".toList
      | .ok (some contentLength) => readContentLength contentLength [] rest
    else readContentLength contentLength (line ++ [b]) rest

/-- A framed response: its body, and what is left of the stream. -/
def readFrame (stream : Bytes) : Except Str (Bytes × Bytes) :=
  match readContentLength none [] stream with
  | .error e => .error ("Failed to read Content-Length: ".toList ++ e)
  | .ok (n, rest) =>
    if rest.length < n then .error "Failed to read response body: early eof".toList
    else .ok (rest.take n, rest.drop n)

end Zeptoclaw

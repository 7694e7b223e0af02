import Zeptoclaw.Lib.Occurrence
import Zeptoclaw.Lib.TextLines
import Zeptoclaw.Spec.Encryption
import Zeptoclaw.Spec.ThreadApproval

/-!
# Requests of the ACP channel over HTTP

`channels/acp_http.rs`: the bytes of a connection are read until the request is complete
(`handle_connection`), the request is parsed (`parse_request`), and its token is compared
(`validate_auth`). What panics gives `none` on the outside. The upper case of a text is a
parameter.
-/

namespace Zeptoclaw

open Text Utf8

/-- `MAX_REQUEST_BYTES`. -/
def maxRequestBytes : ℕ := 118784

/-- The blank line behind the headers. -/
def blankLine : Str := "\r\n\r\n".toList

/-- The first of the windows of four bytes that is the blank line. -/
def findHeaderEnd (data : Bytes) : Option ℕ :=
  (List.range (data.length - 3)).find? fun i => (data.drop i).take 4 = encode blankLine

/-! ## Parsing -/

structure ParsedRequest where
  method : Str
  path : Str
  headers : List (Str × Str)
  body : Str
  deriving DecidableEq, Repr

/-- A header; a line without a colon is passed over. -/
def parseHeader (line : Str) : Option (Str × Str) :=
  (cutFirst ":".toList line).map fun cut => (trim cut.1, trim cut.2)

def contentLength (headers : List (Str × Str)) : ℕ :=
  match headers.find? fun header => eqIgnoreAsciiCase header.1 "content-length".toList with
  | some (_, v) => (parseUnsigned (2 ^ 64) (trim v)).getD 0
  | none => 0

section Parsing

variable (toUppercase : Str → Str)

/-- The request without its body, from the header section. -/
def parseHeaderSection (headerSection : Str) : Option ParsedRequest :=
  match lines headerSection with
  | [] => none
  | requestLine :: rest =>
    match splitWhitespace requestLine with
    | method :: path :: _ => some ⟨toUppercase method, path, rest.filterMap parseHeader, []⟩
    | _ => none

/-- The sum is checked: where it wraps, the slice would end before it begins. -/
def parseRequest (raw : Bytes) : Option (Option ParsedRequest) :=
  match fromUtf8 raw with
  | none => some none
  | some s =>
    match cutFirst blankLine s with
    | none => some none
    | some (headerSection, _) =>
      match parseHeaderSection toUppercase headerSection with
      | none => some none
      | some req =>
        let contentLen := contentLength req.headers
        let bodyStart := byteLen headerSection + 4
        if bodyStart + contentLen < 2 ^ 64 then
          let bodyEnd := min (bodyStart + contentLen) (byteLen s)
          (slice s bodyStart bodyEnd).map fun body => some { req with body }
        else none

/-! ## Reading -/

/-- What a read of the connection comes to; a read of no bytes is its end. -/
inductive ReadEvent where
  | read (bytes : Bytes)
  | failed
  -- the read takes more than 10 s
  | timeout
  -- all reads together take more than 30 s
  | deadline
  deriving DecidableEq, Repr

inductive ReadResult where
  | received (bytes : Bytes)
  | payloadTooLarge
  | readError
  | readTimeout
  | deadlineExceeded
  | panicked
  -- no read has returned yet
  | reading
  deriving DecidableEq, Repr

/-- Whether the loop stops after a read. -/
def stopsReading (buf : Bytes) : Option Bool :=
  match findHeaderEnd buf with
  | none => some false
  | some hend =>
    (parseRequest toUppercase (buf.take (hend + 4))).map fun
      | some req => decide (contentLength req.headers ≤ buf.length - hend - 4)
      -- the request line is not one
      | none => true

/-- The read loop of `handle_connection`, with what is in the buffer. A read takes no more than the room in it. -/
def readLoop (buf : Bytes) (events : List ReadEvent) : ReadResult :=
  if maxRequestBytes ≤ buf.length then .payloadTooLarge
  else
    match events with
    | [] => .reading
    | .failed :: _ => .readError
    | .timeout :: _ => .readTimeout
    | .deadline :: _ => .deadlineExceeded
    | .read [] :: _ => .received buf
    | .read (b :: bytes) :: events =>
      let buf := buf ++ (b :: bytes).take (maxRequestBytes - buf.length)
      match stopsReading toUppercase buf with
      | none => .panicked
      | some true => .received buf
      | some false => readLoop buf events

end Parsing

/-! ## The token -/

def constantTimeEq (a b : Str) : Bool :=
  let a := encode a
  let b := encode b
  -- the difference of the lengths in a byte
  let result := UInt8.ofNat (a.length ^^^ b.length)
  (List.range (max a.length b.length)).foldl (fun result i => result ||| (a[i]?.getD 0 ^^^ b[i]?.getD 0)) result = 0

def validateAuth (headers : List (Str × Str)) (token : Option Str) : Bool :=
  match token with
  | none => true
  | some required =>
    let expected := "Bearer ".toList ++ required
    headers.any fun header =>
      eqIgnoreAsciiCase header.1 "authorization".toList && constantTimeEq (trim header.2) expected

end Zeptoclaw

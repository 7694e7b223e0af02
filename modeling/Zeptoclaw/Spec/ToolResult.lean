import Zeptoclaw.Lib.Offset
import Zeptoclaw.Lib.Regex
import Zeptoclaw.Lib.TextLines

/-!
# The size of tool results

`tools/output.rs`: output is kept line by line until a limit on the lines or on the bytes is reached.

`utils/sanitize.rs`: encoded data in a result is replaced by a note of its size, and of a result that is still too long the
beginning and the end are kept.
-/

namespace Zeptoclaw

open Text

/-! ## Output line by line -/

/-- The notice for the limit on the lines. -/
def linesNotice (maxLines remainingLines : ℕ) : Str :=
  "... [output truncated at ".toList ++ (toString maxLines).toList ++ " lines, ".toList ++
    (toString remainingLines).toList ++ " lines omitted]".toList

/-- The notice for the limit on the bytes. -/
def bytesNotice (maxBytes omitted : ℕ) : Str :=
  "... [output truncated at ".toList ++ (toString maxBytes).toList ++ " bytes, ".toList ++
    (toString omitted).toList ++ " bytes omitted]".toList

/-- The loop over the segments that are left. -/
def truncateSegments (output : Str) (maxLines maxBytes : ℕ) : ℕ → ℕ → Str → List Str → Option Str
  | _, _, result, [] => some result
  | lineIndex, byteCount, result, segment :: segments =>
    if maxLines ≤ lineIndex then
      some (result ++ linesNotice maxLines ((splitInclusive output).length - lineIndex))
    else if maxBytes < byteCount + byteLen segment then
      let remainingBudget := maxBytes - byteCount
      let stop := floorBoundary segment remainingBudget
      -- `&segment[..end]`
      match splitAtByte stop segment with
      | none => none
      | some (kept, _) =>
        let result := result ++ kept
        let result := if result.getLast? = some '\n' then result else result ++ ['\n']
        some (result ++ bytesNotice maxBytes (byteLen output - (byteCount + stop)))
    else truncateSegments output maxLines maxBytes (lineIndex + 1) (byteCount + byteLen segment) (result ++ segment) segments

/-- `truncate_tool_output`; `none` is a panic. -/
def truncateToolOutput (output : Str) (maxLines maxBytes : ℕ) : Option Str :=
  if output = [] then some [] else truncateSegments output maxLines maxBytes 0 0 [] (splitInclusive output)

/-- `MIN_HEX_BLOB_LEN`. -/
def minHexBlobLen : ℕ := 200

/-- `DEFAULT_TRUNCATION_HEAD_BYTES`. -/
def defaultTruncationHeadBytes : ℕ := 10240

/-- `DEFAULT_TRUNCATION_TAIL_BYTES`. -/
def defaultTruncationTailBytes : ℕ := 2048

/-! ## Encoded data -/

/-- The type of a data URI. -/
def isMediaTypeChar (c : Char) : Bool := c.isAlphanum || c == '/' || c == '+' || c == '-' || c == '.'

def isBase64Char (c : Char) : Bool := c.isAlphanum || c == '+' || c == '/' || c == '='

def isHexChar (c : Char) : Bool := c.isDigit || ('a' ≤ c && c ≤ 'f') || ('A' ≤ c && c ≤ 'F')

/-- `BASE64_URI_RE`. -/
def base64UriRe : Regex Char :=
  .seq (.lit "data:".toList)
    (.seq (.rep isMediaTypeChar 1 none) (.seq (.lit ";base64,".toList) (.rep isBase64Char 1 none)))

/-- `HEX_BLOB_RE`. -/
def hexBlobRe : Regex Char := .rep isHexChar minHexBlobLen none

def base64Removed (blob : Str) : Str :=
  "[base64 data removed, ".toList ++ (toString (byteLen blob)).toList ++ " bytes]".toList

def hexRemoved (blob : Str) : Str := "[hex data removed, ".toList ++ (toString (byteLen blob)).toList ++ " chars]".toList

/-- The two replacements. -/
def removeBlobs (result : Str) : Str := hexBlobRe.replaceAll hexRemoved (base64UriRe.replaceAll base64Removed result)

/-! ## Truncation -/

/-- `take_prefix_charsafe`; `none` is a panic. -/
def takePrefixCharsafe (s : Str) (maxBytes : ℕ) : Option Str :=
  let stop := floorBoundary s (min maxBytes (byteLen s))
  (splitAtByte stop s).map Prod.fst

/-- `take_suffix_charsafe`. -/
def takeSuffixCharsafe (s : Str) (maxBytes : ℕ) : Option Str :=
  if byteLen s ≤ maxBytes then some s
  else
    let start := ceilBoundary s (byteLen s - maxBytes)
    (splitAtByte start s).map Prod.snd

def truncatedNotice (truncated : ℕ) : Str :=
  "\n...[truncated ".toList ++ (toString truncated).toList ++ " bytes]...".toList

/-- The end that is kept beside the beginning; it is dropped if the two overlap. -/
def tailBeside (out head : Str) (tailCandidateBudget : ℕ) : Option Str :=
  if 0 < tailCandidateBudget ∧ byteLen head < byteLen out then
    (takeSuffixCharsafe out tailCandidateBudget).map fun tail =>
      if byteLen out < byteLen head + byteLen tail then [] else tail
  else some []

/-- `sanitize_tool_result`. -/
def sanitizeToolResult (result : Str) (maxBytes : ℕ) : Option Str :=
  let out := removeBlobs result
  if maxBytes < byteLen out then do
    let total := byteLen out
    let head ← takePrefixCharsafe out (min defaultTruncationHeadBytes maxBytes)
    let remainingBudget := maxBytes - byteLen head
    let tailCandidateBudget := min defaultTruncationTailBytes remainingBudget
    let tail ← tailBeside out head tailCandidateBudget
    let truncated := total - (byteLen head + byteLen tail)
    some (if tail = [] then head ++ truncatedNotice truncated else head ++ truncatedNotice truncated ++ '\n' :: tail)
  else some out

end Zeptoclaw

import Zeptoclaw.Lib.Occurrence
import Zeptoclaw.Lib.TextLines
import Zeptoclaw.Lib.Utf8

/-!
# Edits of a file by replacement

`tools/filesystem.rs`, the replacement mode of the edit tool: the text to replace is looked
for as it stands, then under Unicode normalization, then under a normalization of white
space, and what is found is mapped back to offsets of the file. The normal form `nfc` is
that of a library and is a parameter.
-/

namespace Zeptoclaw

inductive MatchTier where
  | exact
  | unicodeNormalized
  | whitespaceNormalized
  deriving DecidableEq, Repr

def MatchTier.display : MatchTier → Str
  | .exact => "exact".toList
  | .unicodeNormalized => "unicode-normalized".toList
  | .whitespaceNormalized => "whitespace-normalized".toList

/-- A match in the file: the offset of its first byte, and of the byte behind it. -/
structure UniqueMatch where
  start : ℕ
  stop : ℕ
  tier : MatchTier
  deriving DecidableEq, Repr

inductive EditMatchError where
  | notFound
  | multipleMatches (n : ℕ)
  deriving DecidableEq, Repr

/-! ## White space -/

def isSpaceOrTab (c : Char) : Bool := c == ' ' || c == '\t'

/-- The runs of spaces and tabs of a line; `prevWs` tells whether such a run is open. -/
def collapseWs (prevWs : Bool) : Str → Str
  | [] => []
  | c :: line =>
    if isSpaceOrTab c then (if prevWs then collapseWs true line else ' ' :: collapseWs true line)
    else c :: collapseWs false line

def normalizeLine (line : Str) : Str := Text.trimEnd (collapseWs false line)

def normalizeWhitespace (s : Str) : Str :=
  List.intercalate "\n".toList ((Text.lines (Text.replace s "\r\n".toList "\n".toList)).map normalizeLine)

/-! ## The search -/

/-- The search goes on behind each hit. The needle is not empty, so that as many rounds as
the haystack has characters are enough. -/
def findAllFrom (needle : Str) (start : ℕ) : ℕ → Str → List ℕ
  | 0, _ => []
  | rounds + 1, rest =>
    match Text.cutFirst needle rest with
    | none => []
    | some (pre, post) =>
      (start + Text.byteLen pre) :: findAllFrom needle (start + Text.byteLen pre + Text.byteLen needle) rounds post

def findAllOccurrences (haystack needle : Str) : List ℕ :=
  if needle = [] then [] else findAllFrom needle 0 haystack.length haystack

/-! ## Back to the offsets of the file -/

section Nfc

variable (nfc : Str → Str)

/-- The index behind the characters, from the index `first` on, whose normal form is the
character `target`; the file has an end, so that as many rounds as it has characters are
enough. -/
def nfcSpanEnd (original : Str) (first : ℕ) (target : Char) : ℕ → ℕ → ℕ
  | 0, idx => idx + 1
  | rounds + 1, idx =>
    let normalized := nfc ((original.take (idx + 1)).drop first)
    if (Text.byteLen normalized = target.utf8Size ∧ normalized.head? = some target) ∨ original.length ≤ idx + 1 then
      idx + 1
    else nfcSpanEnd original first target rounds (idx + 1)

/-- The byte offset of the character with an index. -/
def charStart (original : Str) (idx : ℕ) : ℕ := Text.byteLen (original.take idx)

/-- For each byte of the normal form, the offsets of the characters of the file it comes from. -/
def nfcTable (original : Str) : ℕ → Str → List (ℕ × ℕ)
  | _, [] => []
  | first, target :: rest =>
    let last := nfcSpanEnd nfc original first target original.length first
    List.replicate target.utf8Size (charStart original first, charStart original last) ++ nfcTable original last rest

def mapNfcRangeToOriginal (original : Str) (nfcStart nfcStop : ℕ) : ℕ × ℕ :=
  let table := nfcTable nfc original 0 (nfc original)
  let start := (table[nfcStart]?.map Prod.fst).getD 0
  let stop := if 0 < nfcStop then (table[nfcStop - 1]?.map Prod.snd).getD (Text.byteLen original) else 0
  (start, stop)

end Nfc

def isBlankByte (b : UInt8) : Bool := b == 32 || b == 9

/-- One round of the walk through the bytes of the file and of its normal form, both not at
their end: what is left of them. -/
def wsStep (orig norm : Bytes) : Bytes × Bytes :=
  match orig, norm with
  | b :: orig, n :: norm =>
    if b = 13 ∧ orig.head? = some 10 ∧ n = 10 then (orig.tail, norm)
    else if isBlankByte b ∧ n = 32 then (orig.dropWhile isBlankByte, norm)
    else if isBlankByte b ∧ n = 10 then (orig, n :: norm)
    else (orig, norm)
  | _, _ => ([], [])

/-- The walk, with the start found so far. A round takes at least one byte of the file, so
that as many rounds as it has bytes are enough. -/
def wsWalk (original normalized : Bytes) (normStart normStop : ℕ) : ℕ → Bytes → Bytes → ℕ → ℕ × ℕ
  | 0, _, _, start => (start, original.length)
  | rounds + 1, orig, norm, start =>
    if norm = [] ∨ orig = [] then (start, original.length)
    else
      let origI := original.length - orig.length
      let normI := normalized.length - norm.length
      let start := if normI = normStart then origI else start
      if normI = normStop then (start, origI)
      else wsWalk original normalized normStart normStop rounds (wsStep orig norm).1 (wsStep orig norm).2 start

def mapWsRangeToOriginal (original normalized : Str) (normStart normStop : ℕ) : ℕ × ℕ :=
  let origBytes := Utf8.encode original
  let normBytes := Utf8.encode normalized
  wsWalk origBytes normBytes normStart normStop origBytes.length origBytes normBytes 0

/-! ## The match -/

section Match

variable (nfc : Str → Str)

def findWhitespace (content oldText : Str) : Except EditMatchError UniqueMatch :=
  let contentWs := normalizeWhitespace content
  let searchWs := normalizeWhitespace oldText
  match findAllOccurrences contentWs searchWs with
  | [] => .error .notFound
  | [p] =>
    let range := mapWsRangeToOriginal content contentWs p (p + Text.byteLen searchWs)
    .ok ⟨range.1, range.2, .whitespaceNormalized⟩
  | positions => .error (.multipleMatches positions.length)

/-- The tier of the Unicode normal form, which is skipped when both texts are in that form. -/
def findNfc (content oldText : Str) : Except EditMatchError UniqueMatch :=
  let contentNfc := nfc content
  let searchNfc := nfc oldText
  if contentNfc ≠ content ∨ searchNfc ≠ oldText then
    match findAllOccurrences contentNfc searchNfc with
    | [] => findWhitespace content oldText
    | [p] =>
      let range := mapNfcRangeToOriginal nfc content p (p + Text.byteLen searchNfc)
      .ok ⟨range.1, range.2, .unicodeNormalized⟩
    | positions => .error (.multipleMatches positions.length)
  else findWhitespace content oldText

def findUniqueMatch (content oldText : Str) : Except EditMatchError UniqueMatch :=
  match findAllOccurrences content oldText with
  | [] => findNfc nfc content oldText
  | [p] => .ok ⟨p, p + Text.byteLen oldText, .exact⟩
  | positions => .error (.multipleMatches positions.length)

end Match

/-! ## The edit -/

inductive EditTextError where
  | emptyOldText
  | notFound
  | multipleMatches (n : ℕ)
  | unexpectedCount (expected found : ℕ)
  deriving DecidableEq, Repr

/-- The text with a range of bytes replaced; a cut inside a character is a panic, `none`. -/
def replaceRange (content newText : Str) (start stop : ℕ) : Option Str :=
  match Text.splitAtByte start content, Text.splitAtByte stop content with
  | some (front, _), some (_, back) => some (front ++ newText ++ back)
  | _, _ => none

/-- The replacement mode of `EditFileTool::execute`, from the content of the file to its new
content; with an expected number of replacements, all the exact matches are replaced. -/
def editText (nfc : Str → Str) (content oldText newText : Str) (expectedReplacements : Option ℕ) :
    Option (Except EditTextError Str) :=
  if oldText = [] then some (.error .emptyOldText)
  else
    match expectedReplacements with
    | some expected =>
      let replacements := (findAllOccurrences content oldText).length
      if replacements = 0 then some (.error .notFound)
      else if replacements ≠ expected then some (.error (.unexpectedCount expected replacements))
      else some (.ok (Text.replace content oldText newText))
    | none =>
      match findUniqueMatch nfc content oldText with
      | .ok m => (replaceRange content newText m.start m.stop).map .ok
      | .error (.multipleMatches n) => some (.error (.multipleMatches n))
      | .error .notFound => some (.error .notFound)

end Zeptoclaw

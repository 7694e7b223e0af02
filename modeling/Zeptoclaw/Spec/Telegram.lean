import Zeptoclaw.Lib.Occurrence
import Zeptoclaw.Lib.Pattern

/-!
# Messages to Telegram

`channels/telegram.rs`: the Markdown of a reply becomes HTML, and a long text goes out in chunks. The Unicode classes
`\w` and `\d` outside ASCII and `str::to_lowercase` are parameters.
-/

namespace Zeptoclaw

open Text

/-- What the channel takes from Unicode. -/
structure UnicodeLib where
  isWord : Char → Bool
  isDigit : Char → Bool
  toLowercase : Str → Str
  word_ascii : ∀ c : Char, c.toNat < 128 → isWord c = (c.isAlphanum || c == '_')
  digit_ascii : ∀ c : Char, c.toNat < 128 → isDigit c = c.isDigit
  word_not_space : ∀ c, isWhitespace c = true → isWord c = false

/-! ## The patterns -/

section Patterns

open Pattern

/-- The dot. -/
def notNewline (c : Char) : Bool := c ≠ '\n'

def textStart : Pattern Char := .look fun before _ => before = none

def textEnd : Pattern Char := .look fun _ after => after = none

/-- `^` with `(?m)`. -/
def lineStart : Pattern Char := .look fun before _ => before = none || before = some '\n'

/-- `$` with `(?m)`. -/
def lineEnd : Pattern Char := .look fun _ after => after = none || after = some '\n'

/-- A group of the class between two marks. -/
def marked (mark : String) (p : Char → Bool) (lazy : Bool) : Pattern Char :=
  cat [lit mark.toList, .group 1 (.rep p 1 none lazy), lit mark.toList]

def reFencedCode : Pattern Char :=
  cat [lit "```".toList, .rep notNewline 0 none false, lit "\n".toList, .group 1 (.rep (fun _ => true) 0 none true),
    lit "```".toList]

def reInlineCode : Pattern Char := marked "`" (fun c => c ≠ '\x60' && c ≠ '\n') false

def reBoldItalic : Pattern Char := marked "***" notNewline true

def reBold : Pattern Char := marked "**" notNewline true

def reItalic : Pattern Char := marked "*" (fun c => c ≠ '*' && c ≠ '\n') true

/-- The groups `pre`, `body` and `suf` are 1, 2 and 3. -/
def reItalicUnderscore : Pattern Char :=
  cat [.alt textStart (.group 1 (.cls isWhitespace)), lit "_".toList,
    .group 2 (.rep (fun c => c ≠ '_' && c ≠ '\n') 1 none true), lit "_".toList,
    .group 3 (.alt (.cls fun c => isWhitespace c || ".,;:!?".toList.contains c) textEnd)]

def reStrikethrough : Pattern Char := marked "~~" notNewline true

def reLink : Pattern Char :=
  cat [lit "[".toList, .group 1 (.rep (fun c => c ≠ ']') 1 none false), lit "](".toList,
    .group 2 (.rep (fun c => c ≠ ')') 1 none false), lit ")".toList]

def reSpoiler : Pattern Char := marked "||" notNewline true

def reHeader : Pattern Char :=
  cat [lineStart, .rep (fun c => c = '#') 1 (some 6) false, .rep isWhitespace 1 none false,
    .group 1 (.rep notNewline 1 none false), lineEnd]

def reBullet : Pattern Char :=
  cat [lineStart, .rep (fun c => c = ' ' || c = '\t') 0 none false, .cls fun c => c = '-' || c = '*',
    .rep isWhitespace 1 none false]

def reNumberedList (u : UnicodeLib) : Pattern Char :=
  cat [lineStart, .rep (fun c => c = ' ' || c = '\t') 0 none false, .rep u.isDigit 1 none false, lit ".".toList,
    .rep isWhitespace 1 none false]

def reBlockquote : Pattern Char :=
  cat [lineStart, lit "&gt;".toList, .rep isWhitespace 0 (some 1) false, .group 1 (.rep notNewline 0 none false), lineEnd]

def reHr : Pattern Char :=
  cat [lineStart, .rep (fun c => c = '-') 3 none false, .rep isWhitespace 0 none false, lineEnd]

def reTag (u : UnicodeLib) : Pattern Char :=
  cat [lit "<".toList, .group 1 (.rep (fun c => c = '/') 0 (some 1) false),
    .group 2 (.seq (.cls u.isWord) (.rep (fun c => u.isWord c || c = '-') 0 none false)),
    .alt (.seq (.cls isWhitespace) (.rep (fun c => c ≠ '>') 0 none false)) .empty, lit ">".toList]

def reStrip : Pattern Char := cat [lit "<".toList, .rep (fun c => c ≠ '>') 1 none false, lit ">".toList]

end Patterns

/-! ## HTML -/

def escapeHtml (s : Str) : Str :=
  replace (replace (replace s "&".toList "&amp;".toList) "<".toList "&lt;".toList) ">".toList "&gt;".toList

/-- The loop of `html_tags_valid` over the tags, with the open elements. -/
def checkTags (u : UnicodeLib) : List Str → List (Way Char) → Bool
  | stack, [] => stack.isEmpty
  | stack, caps :: rest =>
    let closing := caps.get 1 = "/".toList
    let tag := u.toLowercase (caps.get 2)
    if closing then
      if stack.head? ≠ some tag then false else checkTags u stack.tail rest
    else checkTags u (tag :: stack) rest

def htmlTagsValid (u : UnicodeLib) (html : Str) : Bool := checkTags u [] ((reTag u).capturesIter html)

def stripHtmlTags (html : Str) : Str :=
  let text := reStrip.replaceAll (fun _ => []) html
  replace (replace (replace text "&amp;".toList "&".toList) "&lt;".toList "<".toList) "&gt;".toList ">".toList

/-! ## Chunks -/

/-- `TELEGRAM_MAX_MESSAGE_LEN`. -/
def telegramMaxMessageLen : ℕ := 4096

def lenUtf16 (c : Char) : ℕ := if c.toNat < 0x10000 then 1 else 2

/-- `encode_utf16().count()`. -/
def utf16Len (s : Str) : ℕ := (s.map lenUtf16).sum

/-- The characters that fit into `maxLen` units behind `count` others. -/
def windowFrom (maxLen : ℕ) : ℕ → Str → Str
  | _, [] => []
  | count, c :: s => if maxLen < count + lenUtf16 c then [] else c :: windowFrom maxLen (count + lenUtf16 c) s

/-- What is cut off the remaining text: up to a paragraph break, a line break, or all that fits. -/
def cutPiece (maxLen : ℕ) (remaining : Str) : Str :=
  let window := windowFrom maxLen 0 remaining
  match cutLast "\n\n".toList window with
  | some (pre, _) => pre ++ "\n".toList
  | none =>
    match cutLast "\n".toList window with
    | some (pre, _) => pre ++ "\n".toList
    | none => window

/-- What remains after a piece is cut off. -/
def cutRest (maxLen : ℕ) (remaining : Str) : Str :=
  (remaining.drop (cutPiece maxLen remaining).length).dropWhile (· == '\n')

/-- The loop of `chunk_message`. It does not end if nothing is cut off; a round for each character is enough
otherwise. -/
def chunkLoop (maxLen : ℕ) : ℕ → Str → Option (List Str)
  | _, [] => some []
  | 0, _ :: _ => none
  | rounds + 1, c :: s =>
    let remaining := c :: s
    if utf16Len remaining ≤ maxLen then some [remaining]
    else (chunkLoop maxLen rounds (cutRest maxLen remaining)).map (trimEnd (cutPiece maxLen remaining) :: ·)

def chunkMessage (text : Str) (maxLen : ℕ) : Option (List Str) :=
  if utf16Len text ≤ maxLen then some [text] else chunkLoop maxLen text.length text

/-! ## Markdown -/

/-- The place of a region that was taken out. -/
def placeholder (label : String) (idx : ℕ) : Str := "\x00".toList ++ label.toList ++ (toString idx).toList ++ "\x00".toList

/-- The first groups of all matches are taken out, and the text has placeholders for the matches. -/
def extract (re : Pattern Char) (label : String) (s : Str) : Str × List Str :=
  (re.scan s).foldl (fun state piece =>
    match piece with
    | .keep c => (state.1 ++ [c], state.2)
    | .hit caps => (state.1 ++ placeholder label state.2.length, state.2 ++ [caps.get 1])) ([], [])

/-- The regions are put back in the place of their placeholders. -/
def reinsert (label : String) (wrap : Str → Str) (text : Str) (regions : List Str) : Str :=
  regions.zipIdx.foldl (fun text region => replace text (placeholder label region.2) (wrap region.1)) text

/-- The first group of a match in an element. -/
def element (tag : String) (body : Str) : Str :=
  "<".toList ++ tag.toList ++ ">".toList ++ body ++ "</".toList ++ tag.toList ++ ">".toList

/-- Phase 3b. -/
def restoreUnderline (text : Str) : Str :=
  replace (replace (replace (replace text "&lt;u&gt;".toList "<u>".toList) "&lt;/u&gt;".toList "</u>".toList)
    "&lt;ins&gt;".toList "<u>".toList) "&lt;/ins&gt;".toList "</u>".toList

/-- Phase 4. -/
def convertBlocks (u : UnicodeLib) (text : Str) : Str :=
  let text := reHr.replaceAll (fun _ => []) text
  let text := reHeader.replaceAll (fun caps => element "b" (caps.get 1) ++ "\n".toList) text
  let text := reBlockquote.replaceAll (fun caps => element "blockquote" (caps.get 1)) text
  let text := reBullet.replaceAll (fun _ => "• ".toList) text
  (reNumberedList u).replaceAll (fun caps => trimStart caps.text) text

/-- Phase 5, up to the links. -/
def convertInline (text : Str) : Str :=
  let text := reBoldItalic.replaceAll (fun caps => element "b" (element "i" (caps.get 1))) text
  let text := reBold.replaceAll (fun caps => element "b" (caps.get 1)) text
  let text := reItalic.replaceAll (fun caps => element "i" (caps.get 1)) text
  let text := reItalicUnderscore.replaceAll (fun caps => caps.get 1 ++ element "i" (caps.get 2) ++ caps.get 3) text
  reStrikethrough.replaceAll (fun caps => element "s" (caps.get 1)) text

/-- The links of phase 5, and phase 6. -/
def convertLinks (text : Str) : Str :=
  let text := reLink.replaceAll
    (fun caps => "<a href=\"".toList ++ caps.get 2 ++ "\">".toList ++ caps.get 1 ++ "</a>".toList) text
  reSpoiler.replaceAll (fun caps => element "tg-spoiler" (caps.get 1)) text

/-- The phases of `render_telegram_html`, before the check of the tags. -/
def telegramMarkup (u : UnicodeLib) (content : Str) : Str :=
  let (text, codeBlocks) := extract reFencedCode "CODEBLOCK" content
  let (text, inlineCodes) := extract reInlineCode "INLINE" text
  let text := restoreUnderline (escapeHtml text)
  let text := convertLinks (convertInline (convertBlocks u text))
  let text := reinsert "CODEBLOCK" (fun block => element "pre" (escapeHtml (trimEnd block))) text codeBlocks
  reinsert "INLINE" (fun code => element "code" (escapeHtml code)) text inlineCodes

def renderTelegramHtml (u : UnicodeLib) (content : Str) : Str :=
  let text := telegramMarkup u content
  if !htmlTagsValid u text then stripHtmlTags text else text

/-- The texts that `TelegramChannel::send` transmits for a message. -/
def telegramChunks (u : UnicodeLib) (content : Str) : Option (List Str) :=
  chunkMessage (renderTelegramHtml u content) telegramMaxMessageLen

end Zeptoclaw

import Zeptoclaw.Lib.Marking

/-!
# Prompt injection

`safety/sanitizer.rs`: the patterns, the full check and the fast one.
-/

namespace Zeptoclaw

open Regex Text

structure SanitizedOutput where
  content : Str
  warnings : List Str
  wasModified : Bool
  deriving DecidableEq, Repr

/-- A compiled pattern with its source. -/
structure InjectionPattern where
  regex : Regex Char
  label : Str

namespace Sanitizer

/-! ## Patterns -/

/-- The simple case folding of ASCII letters, and of the two letters that fold to one. -/
def foldCase (c : Char) : Char := if c = 'ſ' then 's' else if c = '\u212A' then 'k' else c.toLower

/-- A text under `(?i)`. -/
def caseless : Str → Regex Char
  | [] => .empty
  | c :: t => .seq (.cls fun d => foldCase d = foldCase c) (caseless t)

/-- `\s*`. -/
def spaces : Regex Char := .rep isWhitespace 0 none

/-- `\s+`. -/
def someSpaces : Regex Char := .rep isWhitespace 1 none

/-- `(system|assistant|user)`. -/
def roleName : Regex Char :=
  .alt (caseless "system".toList) (.alt (caseless "assistant".toList) (caseless "user".toList))

/-- A role name in brackets of two kinds. -/
def bracketed (left right : List Char) : Regex Char :=
  .seq (.cls fun c => c ∈ left) (.seq spaces (.seq roleName (.seq spaces (.cls fun c => c ∈ right))))

/-- `begin\s*prompt`. -/
def beginPrompt : Regex Char := .seq (caseless "begin".toList) (.seq spaces (caseless "prompt".toList))

/-- `(you|ignore|disregard|forget)`. -/
def overrideWord : Regex Char :=
  .alt (caseless "you".toList)
    (.alt (caseless "ignore".toList) (.alt (caseless "disregard".toList) (caseless "forget".toList)))

/-- `from\s+now\s+on\s*,?\s*` and a word. -/
def fromNowOn : Regex Char :=
  .seq (caseless "from".toList) (.seq someSpaces (.seq (caseless "now".toList) (.seq someSpaces
    (.seq (caseless "on".toList) (.seq spaces (.seq (.alt (caseless [',']) .empty) (.seq spaces overrideWord)))))))

/-- A phrase that is its own source. -/
def phrase (text : Str) : InjectionPattern := ⟨caseless text, text⟩

def phrasePatterns : List InjectionPattern :=
  [phrase "ignore previous".toList, phrase "ignore all previous".toList, phrase "disregard".toList,
    phrase "forget everything".toList, phrase "new instructions".toList, phrase "updated instructions".toList,
    phrase "you are now".toList, phrase "act as".toList, phrase "pretend to be".toList, phrase "system:".toList,
    phrase "assistant:".toList, phrase "user:".toList, ⟨caseless "<|".toList, "<\\|".toList⟩,
    ⟨caseless "|>".toList, "\\|>".toList⟩, ⟨caseless "[INST]".toList, "\\[INST\\]".toList⟩,
    ⟨caseless "[/INST]".toList, "\\[/INST\\]".toList⟩, phrase "```system".toList]

def structuralPatterns : List InjectionPattern :=
  [⟨bracketed ['['] [']'], "\\[\\s*(system|assistant|user)\\s*\\]".toList⟩,
    ⟨bracketed ['<', '\x7b'] ['\x7d', '>'], "[<\x7b]\\s*(system|assistant|user)\\s*[\x7d>]".toList⟩,
    ⟨beginPrompt, "(?i)begin\\s*prompt".toList⟩,
    ⟨fromNowOn, "(?i)from\\s+now\\s+on\\s*,?\\s*(you|ignore|disregard|forget)".toList⟩]

/-- `COMPILED_PATTERNS`. -/
def compiledPatterns : List InjectionPattern := phrasePatterns ++ structuralPatterns

/-! ## Checks -/

/-- The marks of a match. -/
def detectedMarker : Marker Char := ⟨'[', "DETECTED: ".toList, ']'⟩

def warning (label matchedText : Str) : Str :=
  "Injection pattern '".toList ++ label ++ "' matched: '".toList ++ matchedText ++ "'".toList

/-- One pattern of the check. -/
def checkPattern (out : SanitizedOutput) (pattern : InjectionPattern) : SanitizedOutput :=
  if pattern.regex.isMatch out.content then
    { content := pattern.regex.replaceAll detectedMarker.wrap out.content
      warnings := out.warnings ++ (pattern.regex.findIter out.content).map (warning pattern.label)
      wasModified := true }
  else out

end Sanitizer

open Sanitizer

/-- `check_injection`. -/
def checkInjection (input : Str) : SanitizedOutput := compiledPatterns.foldl checkPattern ⟨input, [], false⟩

/-- `has_injection`. -/
def hasInjection (input : Str) : Bool := compiledPatterns.any fun pattern => pattern.regex.isMatch input

end Zeptoclaw

import Zeptoclaw.Lib.Regex

/-!
# The leak detector

`safety/leak_detector.rs`: the patterns of secrets, and the detector's `scan` and
`redact`.
-/

namespace Zeptoclaw

inductive LeakAction where
  | block
  | redact
  | warn
  deriving DecidableEq, Repr

structure LeakDetection where
  patternName : Str
  matchedText : Str
  action : LeakAction
  deriving DecidableEq, Repr

structure SecretPattern where
  name : Str
  regex : Regex Char
  action : LeakAction

/-! ## Classes of characters -/

def isUpper (c : Char) : Bool := decide ('A' ≤ c ∧ c ≤ 'Z')

def isDigit (c : Char) : Bool := decide ('0' ≤ c ∧ c ≤ '9')

/-- `[a-zA-Z0-9]`. -/
def isAlnum (c : Char) : Bool := decide ('a' ≤ c ∧ c ≤ 'z') || isUpper c || isDigit c

/-- `[a-zA-Z0-9]` and some characters more. -/
def isAlnumOr (extra : List Char) (c : Char) : Bool := isAlnum c || decide (c ∈ extra)

/-- `[0-9a-fA-F]`. -/
def isHex (c : Char) : Bool := isDigit c || decide ('a' ≤ c ∧ c ≤ 'f') || decide ('A' ≤ c ∧ c ≤ 'F')

/-! ## Patterns -/

def redactPatterns : List SecretPattern :=
  [⟨"anthropic_api_key".toList, .prefixed "sk-ant-api".toList (isAlnumOr ['-']) 20 none, .redact⟩,
    ⟨"openai_api_key".toList, .prefixed "sk-".toList isAlnum 20 none, .redact⟩,
    ⟨"aws_access_key".toList, .prefixed "AKIA".toList (fun c => isUpper c || isDigit c) 16 (some 16), .redact⟩,
    ⟨"github_pat".toList, .prefixed "github_pat_".toList (isAlnumOr ['_']) 22 none, .redact⟩,
    ⟨"github_token".toList, .prefixed "ghp_".toList isAlnum 36 (some 36), .redact⟩,
    ⟨"stripe_live_key".toList, .prefixed "sk_live_".toList isAlnum 24 none, .redact⟩,
    ⟨"stripe_test_key".toList, .prefixed "sk_test_".toList isAlnum 24 none, .redact⟩,
    ⟨"google_api_key".toList, .prefixed "AIza".toList (isAlnumOr ['_', '-']) 35 (some 35), .redact⟩,
    ⟨"slack_bot_token".toList, .prefixed "xoxb-".toList (isAlnumOr ['-']) 1 none, .redact⟩,
    ⟨"slack_user_token".toList, .prefixed "xoxp-".toList (isAlnumOr ['-']) 1 none, .redact⟩,
    ⟨"bearer_token".toList, .prefixed "Bearer ".toList (isAlnumOr ['.', '_', '-']) 20 none, .redact⟩]

/-- `(RSA |EC |DSA |OPENSSH )?` and `PRIVATE KEY-----`. -/
def pemKind : Regex Char :=
  .seq (.alt (.alt (.lit "RSA ".toList) (.alt (.lit "EC ".toList) (.alt (.lit "DSA ".toList) (.lit "OPENSSH ".toList))))
    .empty) (.lit "PRIVATE KEY-----".toList)

/-- A segment of a JWT. -/
def jwtSegment : Regex Char := .rep (isAlnumOr ['_', '-']) 10 none

def otherPatterns : List SecretPattern :=
  [⟨"pem_private_key".toList, .seq (.lit "-----BEGIN ".toList) pemKind, .block⟩,
    ⟨"authorization_header".toList,
      .seq (.lit "Authorization:".toList) (.seq (.rep Text.isWhitespace 0 none) (.rep (isAlnumOr ['.', '_', '-']) 20 none)),
      .warn⟩,
    ⟨"high_entropy_hex".toList, .rep isHex 64 none, .warn⟩,
    ⟨"generic_jwt".toList,
      .seq (.lit "eyJ".toList)
        (.seq jwtSegment (.seq (.lit ['.']) (.seq jwtSegment (.seq (.lit ['.']) jwtSegment)))), .warn⟩]

/-- The patterns of `LeakDetector::new`, in their order. -/
def secretPatterns : List SecretPattern := redactPatterns ++ otherPatterns

namespace LeakDetector

def detection (pattern : SecretPattern) (matched : Str) : LeakDetection := ⟨pattern.name, matched, pattern.action⟩

/-- `LeakDetector::scan`. -/
def scan (input : Str) : List LeakDetection :=
  secretPatterns.flatMap fun pattern => (pattern.regex.findIter input).map (detection pattern)

/-- `redact_string`. -/
def redactString (s : Str) : Str :=
  if s.length ≤ 8 then "***".toList else s.take 4 ++ "***".toList ++ (s.reverse.take 4).reverse

/-- One pattern of `redact`: its matches are found, and then replaced from the last to the
first. -/
def redactPattern (state : Str × List LeakDetection) (pattern : SecretPattern) : Str × List LeakDetection :=
  let (result, detections) := state
  (if pattern.action = .redact then pattern.regex.replaceAll redactString result else result,
    detections ++ (pattern.regex.findIter result).reverse.map (detection pattern))

/-- `LeakDetector::redact`. -/
def redact (input : Str) : Str × List LeakDetection := secretPatterns.foldl redactPattern (input, [])

end LeakDetector

end Zeptoclaw

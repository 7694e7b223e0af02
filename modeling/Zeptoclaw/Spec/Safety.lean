import Zeptoclaw.Spec.Edit
import Zeptoclaw.Spec.Kernel
import Zeptoclaw.Spec.Leak
import Zeptoclaw.Spec.Sanitizer

/-!
# The safety pipeline

`SafetyLayer::scan_impl` (`safety/mod.rs`) with the validator (`safety/validator.rs`), the policy engine
(`safety/policy.rs`), the leak detector and the sanitizer. `none` is a panic: a cut inside a character, or an index out of
range.
-/

namespace Zeptoclaw

open Text

/-- The regex engine for the policies, and the formatting of the validator's warnings. -/
structure SafetyLib where
  -- `Regex::new` and `find`
  compile : Str → Option (Str → Option Str)
  -- the warning for this many white space characters of so many, from the ratio as a float
  whitespaceWarning : ℕ → ℕ → Option Str
  -- `{:?}` of a character, and of the set of bytes in its order
  debugChar : Char → Str
  debugBytes : List UInt8 → Str

structure SafetyConfig where
  injectionCheckEnabled : Bool := true
  leakDetectionEnabled : Bool := true
  maxOutputLength : ℕ := 100000
  deriving DecidableEq, Repr

namespace Safety

variable (lib : SafetyLib)

/-! ## Validator -/

structure ValidationResult where
  warnings : List Str
  errors : List Str
  deriving DecidableEq, Repr

def ValidationResult.valid (r : ValidationResult) : Bool := r.errors.isEmpty

def maxInputBytes : ℕ := 102400

def maxConsecutiveRepeats : ℕ := 20

/-- `check_length`. -/
def checkLength (input : Str) : List Str :=
  if maxInputBytes < byteLen input then
    ["Input exceeds maximum length: ".toList ++ (toString (byteLen input)).toList ++ " bytes (limit: ".toList ++
      (toString maxInputBytes).toList ++ " bytes)".toList]
  else []

/-- `check_null_bytes`. -/
def checkNullBytes (input : Str) : List Str :=
  if Char.ofNat 0 ∈ input then ["Input contains null byte(s)".toList] else []

/-- `check_whitespace_ratio`. -/
def checkWhitespaceRatio (input : Str) : List Str :=
  if input = [] then [] else (lib.whitespaceWarning (input.countP isWhitespace) input.length).toList

/-- The first run that is too long, with its length so far. -/
def repetition (prev : Char) (run : ℕ) : Str → Option (Char × ℕ)
  | [] => none
  | ch :: rest =>
    if ch = prev then
      if maxConsecutiveRepeats < run + 1 then some (prev, run + 1) else repetition prev (run + 1) rest
    else repetition ch 1 rest

/-- `check_repetition`. -/
def checkRepetition : Str → List Str
  | [] => []
  | prev :: rest =>
    match repetition prev 1 rest with
    | none => []
    | some (c, run) =>
      ["Character ".toList ++ lib.debugChar c ++ " repeats ".toList ++ (toString run).toList ++
        " consecutive times (threshold: ".toList ++ (toString maxConsecutiveRepeats).toList ++ ")".toList]

/-- `is_unusual_control`. -/
def isUnusualControl (b : UInt8) : Bool := decide (b ≤ 8) || decide (14 ≤ b) && decide (b ≤ 31)

/-- `check_control_characters`. -/
def checkControlCharacters (input : Str) : List Str :=
  let found := ((Utf8.encode input).filter isUnusualControl).dedup
  if found = [] then [] else ["Input contains unusual control character(s): ".toList ++ lib.debugBytes found]

/-- `ContentValidator::validate`. -/
def validate (input : Str) : ValidationResult where
  warnings := checkWhitespaceRatio lib input ++ checkRepetition lib input ++ checkControlCharacters lib input
  errors := checkLength input ++ checkNullBytes input

/-! ## Leak detector -/

/-- The matches of a scan with the bytes at which they begin and end; the scan begins at `n`. -/
def matchSpans : ℕ → List (Regex.Piece Char) → List (ℕ × ℕ × Str)
  | _, [] => []
  | n, .keep c :: pieces => matchSpans (n + c.utf8Size) pieces
  | n, .hit m :: pieces => (n, n + byteLen m, m) :: matchSpans (n + byteLen m) pieces

/-- One match of `redact`. -/
def redactSpan (pattern : SecretPattern) (state : Str × List LeakDetection) (span : ℕ × ℕ × Str) :
    Option (Str × List LeakDetection) :=
  let (start, stop, matched) := span
  let detections := state.2 ++ [LeakDetector.detection pattern matched]
  if pattern.action = .redact then
    (replaceRange state.1 (LeakDetector.redactString matched) start stop).map fun result => (result, detections)
  else some (state.1, detections)

/-- `LeakDetector::redact` with its offsets: the matches of a pattern are replaced from the last to the first. -/
def redactAt (input : Str) : Option (Str × List LeakDetection) :=
  secretPatterns.foldlM
    (fun state pattern => (matchSpans 0 (pattern.regex.scan state.1)).reverse.foldlM (redactSpan pattern) state) (input, [])

/-! ## Policies -/

inductive PolicySeverity where
  | critical
  | high
  | medium
  | low
  deriving DecidableEq, Repr

inductive PolicyAction where
  | block
  | sanitize
  | warn
  deriving DecidableEq, Repr

inductive PolicyScope where
  | inputOnly
  | both
  deriving DecidableEq, Repr

structure PolicyViolation where
  ruleName : Str
  severity : PolicySeverity
  action : PolicyAction
  description : Str
  matchedText : Option Str
  deriving DecidableEq, Repr

structure RuleDef where
  name : Str
  severity : PolicySeverity
  action : PolicyAction
  description : Str
  pattern : Str
  scope : PolicyScope
  deriving DecidableEq, Repr

def ruleDefs : List RuleDef :=
  [⟨"system_file_access".toList, .critical, .block, "Attempt to access sensitive system files".toList,
      "(?i)(/etc/passwd|/etc/shadow|\\.ssh/|\\.aws/credentials|\\.gnupg/|\\.bashrc|\\.profile|\\.zshrc)".toList, .both⟩,
    ⟨"crypto_key_patterns".toList, .high, .block, "Reference to private key material".toList,
      ("(?i)(id_rsa|id_ed25519|id_ecdsa|id_dsa|\\.pem\\b|private[_-]?key|" ++
        "-----BEGIN\\s+(RSA\\s+)?PRIVATE\\s+KEY)").toList, .both⟩,
    ⟨"sql_injection".toList, .high, .sanitize, "Potential SQL injection payload".toList,
      "(?i)(DROP\\s+TABLE|DELETE\\s+FROM|UNION\\s+SELECT|OR\\s+1\\s*=\\s*1|';\\s*--)".toList, .inputOnly⟩,
    ⟨"shell_injection".toList, .critical, .block, "Potential shell injection payload".toList,
      "(?i)(;\\s*rm\\s+-rf|&&\\s*rm\\s|curl\\s+.*\\|\\s*sh|wget\\s+.*\\|\\s*sh|\\$\\(|`[^`]+`)".toList, .inputOnly⟩,
    ⟨"encoded_exploits".toList, .medium, .warn, "Encoded or indirect code execution attempt".toList,
      "(?i)(base64_decode|eval\\s*\\(|exec\\s*\\(|__import__)".toList, .inputOnly⟩,
    ⟨"path_traversal".toList, .high, .sanitize, "Path traversal attempt".toList,
      "(\\.\\./|\\.\\.\\\\|%2[eE]%2[eE])".toList, .both⟩,
    ⟨"sensitive_env".toList, .medium, .warn, "Reference to sensitive environment variable".toList,
      "(?i)(DATABASE_URL|SECRET_KEY|PRIVATE_KEY)".toList, .both⟩]

structure CompiledRule where
  name : Str
  severity : PolicySeverity
  action : PolicyAction
  description : Str
  scope : PolicyScope
  find : Str → Option Str

structure PolicyEngine where
  set : List (Str → Option Str)
  rules : List CompiledRule

/-- `PolicyEngine::new`: the set takes all patterns or panics, and the rules that do not compile are left out. -/
def PolicyEngine.new : Option PolicyEngine :=
  (ruleDefs.mapM fun d => lib.compile d.pattern).map fun set =>
    ⟨set, ruleDefs.filterMap fun d =>
      (lib.compile d.pattern).map fun find => ⟨d.name, d.severity, d.action, d.description, d.scope, find⟩⟩

namespace PolicyEngine

variable (engine : PolicyEngine)

/-- `RegexSet::matches`. -/
def matchIndices (input : Str) : List ℕ :=
  (List.range engine.set.length).filter fun i => engine.set[i]?.any fun find => (find input).isSome

/-- The loop of `check_impl`. -/
def checkIndices (input : Str) (ignoredRules : List Str) (isOutput : Bool) : List ℕ → Option (List PolicyViolation)
  | [] => some []
  | idx :: rest => do
    let rule ← engine.rules[idx]?
    let violations ← checkIndices input ignoredRules isOutput rest
    if rule.name ∈ ignoredRules then some violations
    else if isOutput = true ∧ rule.scope = .inputOnly then some violations
    else some (⟨rule.name, rule.severity, rule.action, rule.description, rule.find input⟩ :: violations)

/-- `check_for_direction`. -/
def checkForDirection (input : Str) (ignoredRules : List Str) (isOutput : Bool) : Option (List PolicyViolation) :=
  engine.checkIndices input ignoredRules isOutput (engine.matchIndices input)

end PolicyEngine

/-! ## The scan -/

/-- `SafetyLayer`. -/
structure Layer where
  config : SafetyConfig
  policyEngine : PolicyEngine

/-- `SafetyLayer::new`. -/
def Layer.new (config : SafetyConfig) : Option Layer := (PolicyEngine.new lib).map fun engine => ⟨config, engine⟩

/-- The content so far, or the result of a step that ends the scan. -/
inductive Progress where
  | done (result : SafetyResult)
  | next (content : Str) (warnings : List Str) (wasModified : Bool)
  deriving DecidableEq, Repr

def joinErrors (errors : List Str) : Str := "; ".toList.intercalate errors

def leakBlocked (d : LeakDetection) : SafetyResult :=
  ⟨[], ["Blocked: ".toList ++ d.patternName ++ " detected (".toList ++ d.matchedText ++ ")".toList], true, true,
    some (d.patternName ++ " detected in output".toList)⟩

def leakWarning (d : LeakDetection) : Option Str :=
  match d.action with
  | .redact => some ("Redacted: ".toList ++ d.patternName)
  | .warn => some ("Warning: ".toList ++ d.patternName ++ " detected".toList)
  | .block => none

def policyBlocked (v : PolicyViolation) : SafetyResult :=
  ⟨[], ["Blocked by policy '".toList ++ v.ruleName ++ "': ".toList ++ v.description], true, true,
    some ("Policy '".toList ++ v.ruleName ++ "': ".toList ++ v.description)⟩

def policyWarning (v : PolicyViolation) : Str :=
  "Policy '".toList ++ v.ruleName ++ (if v.action = .sanitize then "' triggered (sanitize): ".toList
    else "' triggered (warn): ".toList) ++ v.description

def truncationWarning (len max : ℕ) : Str :=
  "Output truncated from ".toList ++ (toString len).toList ++ " to ".toList ++ (toString max).toList ++ " bytes".toList

namespace Layer

variable (layer : Layer)

/-- What is examined of a text: the text, or what stands before the offset `max_output_length`. -/
def truncate (text : Str) : Option Str :=
  if layer.config.maxOutputLength < byteLen text then
    (splitAtByte layer.config.maxOutputLength text).map Prod.fst
  else some text

/-- Step 2. -/
def validateStep (content : Str) (warnings : List Str) (wasModified : Bool) : Progress :=
  let validation := validate lib content
  if validation.valid = false then
    .done ⟨content, validation.errors, wasModified, true, some (joinErrors validation.errors)⟩
  else .next content (warnings ++ validation.warnings) wasModified

/-- Step 3. -/
def leakStep (content : Str) (warnings : List Str) (wasModified : Bool) : Option Progress :=
  if layer.config.leakDetectionEnabled then
    let detections := LeakDetector.scan content
    match detections.find? fun d => d.action = .block with
    | some d => some (.done (leakBlocked d))
    | none =>
      if detections.any fun d => d.action = .redact then
        (redactAt content).map fun (redacted, found) =>
          .next redacted (warnings ++ found.filterMap leakWarning)
            (wasModified || found.any fun d => d.action = .redact)
      else
        some (.next content (warnings ++ (detections.filter fun d => d.action = .warn).filterMap leakWarning) wasModified)
  else some (.next content warnings wasModified)

/-- Step 4. -/
def policyStep (direction : CheckDirection) (ignoredPolicyRules : List Str) (content : Str) (warnings : List Str)
    (wasModified : Bool) : Option Progress :=
  (layer.policyEngine.checkForDirection content ignoredPolicyRules (direction = .output)).map fun violations =>
    match violations.find? fun v => v.action = .block with
    | some v => .done (policyBlocked v)
    | none =>
      .next content (warnings ++ violations.map policyWarning) (wasModified || violations.any fun v => v.action = .sanitize)

/-- Step 5. -/
def injectionStep (content : Str) (warnings : List Str) (wasModified : Bool) : SafetyResult :=
  if layer.config.injectionCheckEnabled then
    let sanitized := checkInjection content
    ⟨sanitized.content, warnings ++ sanitized.warnings, wasModified || sanitized.wasModified, false, none⟩
  else ⟨content, warnings, wasModified, false, none⟩

/-- The steps behind the truncation. -/
def examine (direction : CheckDirection) (ignoredPolicyRules : List Str) (content : Str) (warnings : List Str)
    (wasModified : Bool) : Option SafetyResult :=
  match validateStep lib content warnings wasModified with
  | .done result => some result
  | .next content warnings wasModified => do
    match ← layer.leakStep content warnings wasModified with
    | .done result => some result
    | .next content warnings wasModified =>
      match ← layer.policyStep direction ignoredPolicyRules content warnings wasModified with
      | .done result => some result
      | .next content warnings wasModified => some (layer.injectionStep content warnings wasModified)

/-- `scan_impl`. -/
def scanImpl (text : Str) (direction : CheckDirection) (ignoredPolicyRules : List Str) : Option SafetyResult := do
  let content ← layer.truncate text
  if layer.config.maxOutputLength < byteLen text then
    layer.examine lib direction ignoredPolicyRules content
      [truncationWarning (byteLen text) layer.config.maxOutputLength] true
  else layer.examine lib direction ignoredPolicyRules content [] false

end Layer

end Safety

end Zeptoclaw

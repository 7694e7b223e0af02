import Zeptoclaw.Lib.Offset
import Zeptoclaw.Spec.ShellGuard

/-!
# The validator with its indices

The functions of `Spec/ShellGuard.lean` that index or slice, as the program runs them: loops over an index, and
slices from a computed place. Every access is checked, and `none` is a panic.
-/

namespace Zeptoclaw.ShellGuard

open Text

/-- `&l[start..]`. -/
def sliceFrom {α : Type*} (l : List α) (start : ℕ) : Option (List α) :=
  if start ≤ l.length then some (l.drop start) else none

variable (lib : ShellLib)

/-! ## Git options -/

/-- The loop of `normalize_git_command`: the index behind the global options. -/
def skipOptionsAt (tokens : List Str) (i : ℕ) : Option ℕ :=
  if i < tokens.length then do
    let tok ← tokens[i]?
    let tokLower := lib.toLowercase tok
    if gitGlobalOptsWithValue.any fun o =>
        tokLower = lib.toLowercase o || lib.toLowercase o ++ ['='] <+: tokLower then
      if '=' ∉ tok then skipOptionsAt tokens (i + 2) else skipOptionsAt tokens (i + 1)
    else if gitGlobalFlags.any fun f => tokLower = lib.toLowercase f then skipOptionsAt tokens (i + 1)
    else some i
  else some i
termination_by tokens.length - i

/-- `normalize_git_command`. -/
def normalizeGitCommandAt (command : Str) : Option Str :=
  if !lib.isMatch gitCmdRe command then some command
  else
    let tokens := splitWhitespace command
    if tokens = [] then some command
    else do
      let git ← tokens[0]?
      let i ← skipOptionsAt lib tokens 1
      let rest ← sliceFrom tokens i
      some ([' '].intercalate (git :: rest))

/-! ## The tokenizer -/

/-- `push_segment`. -/
def pushSegmentAt (segments : List CommandSegment) (raw : Str) : Option (List CommandSegment) :=
  let trimmed := trim raw
  if trimmed = [] then some segments
  else
    let tokens := tokenizeSegment trimmed
    if tokens = [] then some segments
    else do
      let binaryFull ← tokens[0]?
      let args ← sliceFrom tokens 1
      some (segments ++ [⟨lib.toLowercase (baseName binaryFull), args, trimmed⟩])

/-- `i + 1 < chars.len() && chars[i + 1] == c`. -/
def nextIs (chars : Str) (i : ℕ) (c : Char) : Option Bool :=
  if i + 1 < chars.length then chars[i + 1]?.map fun d => decide (d = c) else some false

/-- `i > 0 && chars[i - 1] == c`. -/
def prevIs (chars : Str) (i : ℕ) (c : Char) : Option Bool :=
  if 0 < i then chars[i - 1]?.map fun d => decide (d = c) else some false

/-- The loop of `tokenize_command`; `out` has the segments so far, and whether there was a metacharacter. -/
def scanCommandAt (chars : Str) (i : ℕ) (inSingleQuote inDoubleQuote : Bool) (current : Str)
    (out : List CommandSegment × Bool) : Option (List CommandSegment × Bool) :=
  if i < chars.length then do
    let ch ← chars[i]?
    if inSingleQuote then scanCommandAt chars (i + 1) (ch ≠ '\'') inDoubleQuote (current ++ [ch]) out
    else if inDoubleQuote then scanCommandAt chars (i + 1) inSingleQuote (ch ≠ '"') (current ++ [ch]) out
    else if ch = '\\' ∧ i + 1 < chars.length then do
      let escaped ← chars[i + 1]?
      scanCommandAt chars (i + 2) inSingleQuote inDoubleQuote (current ++ [ch, escaped]) out
    else if ch = '\'' then scanCommandAt chars (i + 1) true inDoubleQuote (current ++ [ch]) out
    else if ch = '"' then scanCommandAt chars (i + 1) inSingleQuote true (current ++ [ch]) out
    else if ch = ';' ∨ ch = '\n' then do
      let segments ← pushSegmentAt lib out.1 current
      scanCommandAt chars (i + 1) inSingleQuote inDoubleQuote [] (segments, true)
    else if ch = '|' then do
      let doubled ← nextIs chars i '|'
      let segments ← pushSegmentAt lib out.1 current
      scanCommandAt chars (if doubled then i + 2 else i + 1) inSingleQuote inDoubleQuote [] (segments, true)
    else if ch = '&' then do
      let prevIsRedirect ← prevIs chars i '>'
      let nextIsRedirect ← nextIs chars i '>'
      if prevIsRedirect || nextIsRedirect then
        scanCommandAt chars (i + 1) inSingleQuote inDoubleQuote (current ++ [ch]) out
      else do
        let doubled ← nextIs chars i '&'
        let segments ← pushSegmentAt lib out.1 current
        scanCommandAt chars (if doubled then i + 2 else i + 1) inSingleQuote inDoubleQuote [] (segments, true)
    else if ch = '`' then do
      let segments ← pushSegmentAt lib out.1 current
      scanCommandAt chars (i + 1) inSingleQuote inDoubleQuote [] (segments, true)
    else do
      let opens ← if ch = '$' then nextIs chars i '(' else some false
      if opens then do
        let segments ← pushSegmentAt lib out.1 current
        scanCommandAt chars (i + 2) inSingleQuote inDoubleQuote [] (segments, true)
      else scanCommandAt chars (i + 1) inSingleQuote inDoubleQuote (current ++ [ch]) out
  else do
    let segments ← pushSegmentAt lib out.1 current
    some (segments, out.2)
termination_by chars.length - i
decreasing_by all_goals (try split) <;> omega

/-! ## The structured policy -/

/-- `arg_has_flag`, with the slice `arg[1..]`. -/
def argHasFlagAt (flag : Char) : List Str → Option Bool
  | [] => some false
  | arg :: rest =>
    if !(['-'] <+: arg) || ['-', '-'] <+: arg then argHasFlagAt flag rest
    else do
      let flags ← splitAtByte 1 arg
      if flag ∈ flags.2 then some true else argHasFlagAt flag rest

/-- `cond && arg_has_flag(args, flag)`. -/
def andHasFlagAt (cond : Bool) (flag : Char) (args : List Str) : Option Bool :=
  if cond then argHasFlagAt flag args else some false

/-- `check_structured_policy`. -/
def checkStructuredPolicyAt (seg : CommandSegment) : Option (Except ZeptoError Unit) := do
  let bin := seg.binary
  let isPython := bin = "python".toList || bin = "python2".toList || bin = "python3".toList ||
    "python3.".toList <+: bin
  let pythonFlag ← andHasFlagAt isPython 'c' seg.args
  if pythonFlag then
    some (blocked ("Blocked: ".toList ++ bin ++ " with inline code execution flag (-c)".toList))
  else
    let isScript := bin = "perl".toList || bin = "ruby".toList || bin = "node".toList
    let scriptFlag ← andHasFlagAt isScript 'e' seg.args
    if scriptFlag then
      some (blocked ("Blocked: ".toList ++ bin ++ " with inline code execution flag (-e)".toList))
    else if bin = "rm".toList && rmBlocked seg.args then
      some (blocked "Blocked: rm -rf / (destructive root deletion)".toList)
    else
      match if bin = "git".toList then gitBlocked seg.args else none with
      | some msg => some (blocked msg)
      | none =>
        match argMatchesSensitivePath lib seg.args with
        | some path => some (blocked ("Blocked: argument contains prohibited path '".toList ++ path ++ "'".toList))
        | none => some (.ok ())

/-! ## The validator -/

/-- The checks of the segments, in order. -/
def checkSegmentsAt (cfg : Config) : List CommandSegment → Option (Except ZeptoError Unit)
  | [] => some (.ok ())
  | seg :: rest =>
    match segmentLiteral lib cfg seg with
    | some literal => some (blocked ("Command blocked: contains prohibited path '".toList ++ literal ++ "'".toList))
    | none => do
      match ← checkStructuredPolicyAt lib seg with
      | .error e => some (.error e)
      | .ok () => checkSegmentsAt cfg rest

/-- `validate_command`. -/
def validateCommandAt (cfg : Config) (command : Str) : Option (Except ZeptoError Unit) :=
  if !cfg.enabled then some (.ok ())
  else do
    let (segments, hasMetachar) ← scanCommandAt lib command 0 false false [] ([], false)
    let normalized ← normalizeGitCommandAt lib command
    match cfg.compiledPatterns.find? fun p => lib.isMatch p command || lib.isMatch p normalized with
    | some p => some (blocked ("Command blocked: matches prohibited pattern '".toList ++ p ++ "'".toList))
    | none =>
      match ← checkSegmentsAt lib cfg segments with
      | .error e => some (.error e)
      | .ok () => some (checkAllowlist cfg segments hasMetachar)

end Zeptoclaw.ShellGuard

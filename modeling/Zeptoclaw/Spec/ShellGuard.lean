import Zeptoclaw.Spec.Error

/-!
# The shell command validator

`security/shell.rs`: the tokenizer, the blocklists, the structured policy and the
allowlist. Regular expressions are their pattern texts. A result of `none` is a panic:
a slice that starts behind the end of the tokens.
-/

namespace Zeptoclaw.ShellGuard

open Text

/-- What the validator takes from the `regex` crate and from `str::to_lowercase`. -/
structure ShellLib where
  toLowercase : Str → Str
  compiles : (pattern : Str) → Bool
  isMatch : (pattern : Str) → (text : Str) → Bool

variable (lib : ShellLib)

/-! ## Git options -/

/-- `GIT_GLOBAL_OPTS_WITH_VALUE`. -/
def gitGlobalOptsWithValue : List Str :=
  ["-C".toList,
    "-c".toList,
    "--git-dir".toList,
    "--work-tree".toList,
    "--namespace".toList,
    "--super-prefix".toList,
    "--config-env".toList]

/-- `GIT_GLOBAL_FLAGS`. -/
def gitGlobalFlags : List Str :=
  ["--bare".toList,
    "--no-replace-objects".toList,
    "--literal-pathspecs".toList,
    "--glob-pathspecs".toList,
    "--noglob-pathspecs".toList,
    "--icase-pathspecs".toList,
    "--no-optional-locks".toList,
    "--no-pager".toList,
    "-p".toList,
    "--paginate".toList,
    "--info-path".toList,
    "--html-path".toList,
    "--man-path".toList,
    "--exec-path".toList]

/-- `GIT_CMD_RE`. -/
def gitCmdRe : Str := r"(?i)^\s*git\b".toList

/-- The loop of `normalize_git_command` over the tokens behind `git`: what follows the
global options. An option that lacks its value moves the index behind the end. -/
def skipGlobalOptions : List Str → Option (List Str)
  | [] => some []
  | tok :: rest =>
    let tokLower := lib.toLowercase tok
    if gitGlobalOptsWithValue.any fun o =>
        tokLower = lib.toLowercase o || lib.toLowercase o ++ ['='] <+: tokLower then
      if '=' ∉ tok then
        match rest with
        | [] => none
        | _ :: rest' => skipGlobalOptions rest'
      else skipGlobalOptions rest
    else if gitGlobalFlags.any fun f => tokLower = lib.toLowercase f then skipGlobalOptions rest
    else some (tok :: rest)

/-- `normalize_git_command`. -/
def normalizeGitCommand (command : Str) : Option Str :=
  if !lib.isMatch gitCmdRe command then some command
  else
    match splitWhitespace command with
    | [] => some command
    | git :: tokens => (skipGlobalOptions lib tokens).map fun rest => [' '].intercalate (git :: rest)

/-! ## Blocklists -/

/-- `REGEX_BLOCKED_PATTERNS`. -/
def regexBlockedPatterns : List Str :=
  [r"curl\s+.*\|\s*(sh|bash|zsh)".toList,
    r"wget\s+.*\|\s*(sh|bash|zsh)".toList,
    r"\|\s*(sh|bash|zsh)\s*$".toList,
    r"bash\s+-i\s+>&\s*/dev/tcp".toList,
    r"nc\s+.*-e\s+(sh|bash|/bin)".toList,
    "/dev/tcp/".toList,
    "/dev/udp/".toList,
    "rm\\s+(-[rf]\x7b1,2\x7d\\s+)*(-[rf]\x7b1,2\x7d\\s+)*/\\s*($|;|\\||&)".toList,
    "rm\\s+(-[rf]\x7b1,2\x7d\\s+)*(-[rf]\x7b1,2\x7d\\s+)*/\\*\\s*($|;|\\||&)".toList,
    r"mkfs(\.[a-z0-9]+)?\s".toList,
    r"dd\s+.*if=/dev/(zero|random|urandom).*of=/dev/[sh]d".toList,
    r">\s*/dev/[sh]d[a-z]".toList,
    r"chmod\s+(-R\s+)?777\s+/\s*$".toList,
    r"chmod\s+(-R\s+)?777\s+/[a-z]".toList,
    ":\\(\\)\\s*\\\x7b\\s*:\\|:&\\s*\\\x7d\\s*;:".toList,
    r"fork\s*\(\s*\)".toList,
    r"base64\s+(-d|--decode)".toList,
    r"python[23]?\s+.*-[A-Za-z]*c[\s=]".toList,
    r"perl\s+.*-[A-Za-z]*e[\s=]".toList,
    r"ruby\s+.*-[A-Za-z]*e[\s=]".toList,
    r"node\s+.*-[A-Za-z]*e[\s=]".toList,
    r"\beval\s+".toList,
    r"xargs\s+.*sh\b".toList,
    r"xargs\s+.*bash\b".toList,
    r"\benv\b.*>\s*/".toList,
    r"\bprintenv\b.*>\s*/".toList,
    r"git\s+push\b.*\s--force(?:-with-lease)?(?:\s|$)".toList,
    r"git\s+push\b.*\s-[A-Za-z]*f[A-Za-z]*(?:\s|$)".toList,
    r"git\s+reset\s+--hard".toList,
    r"git\s+clean\s+.*-[a-zA-Z]*f".toList,
    r"git\s+clean\s+.*--force".toList,
    r"git\s+checkout\s+--\s+\.($|[\s;|&/])".toList,
    r"git\s+branch\s+.*-(?-i:D)\b".toList]

/-- `LITERAL_BLOCKED_PATTERNS`. -/
def literalBlockedPatterns : List Str :=
  ["/etc/shadow".toList,
    "/etc/passwd".toList,
    "~/.ssh/".toList,
    ".ssh/id_rsa".toList,
    ".ssh/id_ed25519".toList,
    ".ssh/id_ecdsa".toList,
    ".ssh/id_dsa".toList,
    ".ssh/authorized_keys".toList,
    ".aws/credentials".toList,
    ".kube/config".toList,
    ".zeptoclaw/config.json".toList,
    ".zeptoclaw/config.yaml".toList]

/-- The characters `build_glob_regex` escapes. -/
def regexSpecials : Str := ['.', '+', '^', '$', '{', '}', '(', ')', '|', '\\']

/-- What `build_glob_regex` pushes for a character. -/
def globChar (c : Char) : Str :=
  if c = '?' then ['.']
  else if c = '*' then ['.', '*']
  else if c = '[' ∨ c = ']' then []
  else if c ∈ regexSpecials then ['\\', c]
  else [c]

/-- `build_glob_regex`: none for a text of wildcards only. -/
def buildGlobRegex (command : Str) : Option Str :=
  let pat := command.flatMap globChar
  if (command.any fun c => c ∉ ['?', '*', '[', ']']) && lib.compiles pat then some pat else none

/-- The glob characters removed. -/
def deglob (s : Str) : Str := s.filter fun c => c ∉ ['[', ']', '*', '?']

def hasGlob (s : Str) : Bool := s.any fun c => c ∈ ['?', '*', '[']

/-! ## The tokenizer -/

structure CommandSegment where
  binary : Str
  args : List Str
  raw : Str
  deriving DecidableEq, Repr

inductive Quote where
  | none
  | single
  | double
  deriving DecidableEq, Repr

/-- A metacharacter ends the segment. -/
def cutSegment (current : Str) (rest : List Str × Bool) : List Str × Bool := (current :: rest.1, true)

/-- The loop of `tokenize_command`: the raw segments, and whether there was an unquoted
metacharacter. The first `skip` characters were consumed with the one before them. -/
def scanCommand : ℕ → Option Char → Quote → Str → Str → List Str × Bool
  | _, _, _, current, [] => ([current], false)
  | skip + 1, _, quote, current, c :: rest => scanCommand skip (some c) quote current rest
  | 0, _, .single, current, c :: rest =>
    scanCommand 0 (some c) (if c = '\'' then .none else .single) (current ++ [c]) rest
  | 0, _, .double, current, c :: rest =>
    scanCommand 0 (some c) (if c = '"' then .none else .double) (current ++ [c]) rest
  | 0, prev, .none, current, c :: rest =>
    if c = '\\' then
      scanCommand 1 (some c) .none (current ++ c :: rest.take 1) rest
    else if c = '\'' then scanCommand 0 (some c) .single (current ++ [c]) rest
    else if c = '"' then scanCommand 0 (some c) .double (current ++ [c]) rest
    else if c = ';' ∨ c = '\n' then cutSegment current (scanCommand 0 (some c) .none [] rest)
    else if c = '|' then
      cutSegment current (scanCommand (if rest.head? = some '|' then 1 else 0) (some c) .none [] rest)
    else if c = '&' then
      -- a redirection such as `2>&1` or `&>file` is no chaining
      if prev = some '>' ∨ rest.head? = some '>' then scanCommand 0 (some c) .none (current ++ [c]) rest
      else cutSegment current (scanCommand (if rest.head? = some '&' then 1 else 0) (some c) .none [] rest)
    else if c = '`' then cutSegment current (scanCommand 0 (some c) .none [] rest)
    else if c = '$' ∧ rest.head? = some '(' then cutSegment current (scanCommand 1 (some c) .none [] rest)
    else scanCommand 0 (some c) .none (current ++ [c]) rest

/-- `tokenize_segment`, with the token at hand. -/
def tokenizeFrom : Quote → Str → Str → List Str
  | _, current, [] => if current = [] then [] else [current]
  | .single, current, c :: rest =>
    if c = '\'' then tokenizeFrom .none current rest else tokenizeFrom .single (current ++ [c]) rest
  | .double, current, c :: rest =>
    if c = '"' then tokenizeFrom .none current rest else tokenizeFrom .double (current ++ [c]) rest
  | .none, current, c :: rest =>
    if c = '\'' then tokenizeFrom .single current rest
    else if c = '"' then tokenizeFrom .double current rest
    else if isWhitespace c then
      if current = [] then tokenizeFrom .none [] rest else current :: tokenizeFrom .none [] rest
    else tokenizeFrom .none (current ++ [c]) rest

def tokenizeSegment (segment : Str) : List Str := tokenizeFrom .none [] segment

/-- The part of a path behind the last slash. -/
def baseName (path : Str) : Str := path.rtakeWhile (· ≠ '/')

/-- `push_segment`: nothing for a blank segment. -/
def pushSegment (raw : Str) : Option CommandSegment :=
  match tokenizeSegment (trim raw) with
  | [] => none
  | binaryFull :: args => some ⟨lib.toLowercase (baseName binaryFull), args, trim raw⟩

/-- `tokenize_command`. -/
def tokenizeCommand (command : Str) : List CommandSegment × Bool :=
  let scanned := scanCommand 0 none .none [] command
  (scanned.1.filterMap (pushSegment lib), scanned.2)

/-! ## The structured policy -/

/-- A short option, or several in one argument. -/
def isShortFlags (arg : Str) : Bool := ['-'] <+: arg && !(['-', '-'] <+: arg)

/-- `arg_has_flag`. -/
def argHasFlag (args : List Str) (flag : Char) : Bool := args.any fun arg => isShortFlags arg && flag ∈ arg.tail

/-- `arg_matches_sensitive_path`. -/
def argMatchesSensitivePath (args : List Str) : Option Str :=
  let literals := literalBlockedPatterns.map lib.toLowercase
  args.findSome? fun arg =>
    let argLower := lib.toLowercase arg
    (literals.find? fun lit => contains argLower lit) <|>
      (literals.find? fun lit => contains (deglob argLower) lit) <|>
      if hasGlob argLower then
        (buildGlobRegex lib argLower).bind fun re => literals.find? fun lit => lib.isMatch re lit
      else none

/-- `GIT_OPTS_WITH_VALUE` of the structured check. -/
def gitOptsWithValue : List Str :=
  ["-C".toList, "-c".toList, "--git-dir".toList, "--work-tree".toList, "--namespace".toList]

/-- The loop that looks for the git subcommand. -/
def gitSubcommand : List Str → Str
  | [] => []
  | a :: rest =>
    if ['-'] <+: a then
      if a.takeWhile (· ≠ '=') ∈ gitOptsWithValue && '=' ∉ a then
        match rest with
        | [] => []
        | _ :: rest' => gitSubcommand rest'
      else gitSubcommand rest
    else a

def blocked (msg : Str) : Except ZeptoError Unit := .error (.securityViolation msg)

/-- The destructive forms of `rm`. -/
def rmBlocked (args : List Str) : Bool :=
  (args.any fun a => isShortFlags a && ('r' ∈ a || 'R' ∈ a)) && (args.any fun a => isShortFlags a && 'f' ∈ a) &&
    args.any fun a => !(['-'] <+: a) &&
      (trimEndMatches '*' a = ['/'] || (trimEndMatches '*' a = [] && ['*'] <+: a))

/-- The destructive git subcommands. -/
def gitBlocked (args : List Str) : Option Str :=
  let sub := gitSubcommand args
  if sub = "push".toList then
    if args.any fun a => a = "--force".toList || a = "--force-with-lease".toList || (isShortFlags a && 'f' ∈ a) then
      some "Blocked: git push --force (destructive push)".toList
    else none
  else if sub = "reset".toList then
    if "--hard".toList ∈ args then some "Blocked: git reset --hard (destructive reset)".toList else none
  else if sub = "clean".toList then
    if args.any fun a => a = "--force".toList || (isShortFlags a && 'f' ∈ a) then
      some "Blocked: git clean -f (destructive clean)".toList
    else none
  else if sub = "branch".toList then
    if args.any fun a => isShortFlags a && 'D' ∈ a then some "Blocked: git branch -D (force delete)".toList else none
  else none

/-- `check_structured_policy`. -/
def checkStructuredPolicy (seg : CommandSegment) : Except ZeptoError Unit :=
  let bin := seg.binary
  let isPython := bin = "python".toList || bin = "python2".toList || bin = "python3".toList ||
    "python3.".toList <+: bin
  if isPython && argHasFlag seg.args 'c' then
    blocked ("Blocked: ".toList ++ bin ++ " with inline code execution flag (-c)".toList)
  else if (bin = "perl".toList || bin = "ruby".toList || bin = "node".toList) && argHasFlag seg.args 'e' then
    blocked ("Blocked: ".toList ++ bin ++ " with inline code execution flag (-e)".toList)
  else if bin = "rm".toList && rmBlocked seg.args then
    blocked "Blocked: rm -rf / (destructive root deletion)".toList
  else
    match if bin = "git".toList then gitBlocked seg.args else none with
    | some msg => blocked msg
    | none =>
      match argMatchesSensitivePath lib seg.args with
      | some path => blocked ("Blocked: argument contains prohibited path '".toList ++ path ++ "'".toList)
      | none => .ok ()

/-! ## The validator -/

inductive AllowlistMode where
  | off
  | warn
  | strict
  deriving DecidableEq, Repr

structure Config where
  compiledPatterns : List Str
  literalPatterns : List Str
  enabled : Bool
  allowlist : List Str
  allowlistMode : AllowlistMode

/-- `ShellSecurityConfig::new`. -/
def Config.new : Config where
  compiledPatterns := (regexBlockedPatterns.map fun p => "(?i)".toList ++ p).filter lib.compiles
  literalPatterns := literalBlockedPatterns.map lib.toLowercase
  enabled := true
  allowlist := []
  allowlistMode := .off

/-- `with_allowlist`. -/
def Config.withAllowlist (cfg : Config) (allowlist : List Str) (mode : AllowlistMode) : Config :=
  { cfg with allowlist := allowlist.map lib.toLowercase, allowlistMode := mode }

/-- The first literal of the configuration that a segment holds, as it is or as a glob. -/
def segmentLiteral (cfg : Config) (seg : CommandSegment) : Option Str :=
  let segLower := lib.toLowercase seg.raw
  let globRegexes := ((splitWhitespace segLower).filter hasGlob).filterMap (buildGlobRegex lib)
  cfg.literalPatterns.find? fun literal =>
    contains segLower literal || contains (deglob segLower) literal || globRegexes.any fun re => lib.isMatch re literal

/-- The checks of one segment. -/
def checkSegment (cfg : Config) (seg : CommandSegment) : Except ZeptoError Unit :=
  match segmentLiteral lib cfg seg with
  | some literal => blocked ("Command blocked: contains prohibited path '".toList ++ literal ++ "'".toList)
  | none => checkStructuredPolicy lib seg

/-- The checks of the segments, in order. -/
def checkSegments (cfg : Config) : List CommandSegment → Except ZeptoError Unit
  | [] => .ok ()
  | seg :: rest =>
    match checkSegment lib cfg seg with
    | .error e => .error e
    | .ok () => checkSegments cfg rest

/-- The allowlist; outside strict mode it only logs. -/
def checkAllowlist (cfg : Config) (segments : List CommandSegment) (hasMetachar : Bool) : Except ZeptoError Unit :=
  if cfg.allowlistMode = .strict then
    if hasMetachar then blocked "Command blocked: contains shell metacharacters that bypass allowlist".toList
    else
      match segments.find? fun seg => seg.binary ∉ cfg.allowlist with
      | some seg => blocked ("Command '".toList ++ seg.binary ++ "' not in allowlist".toList)
      | none => .ok ()
  else .ok ()

/-- `validate_command`. -/
def validateCommand (cfg : Config) (command : Str) : Option (Except ZeptoError Unit) :=
  if !cfg.enabled then some (.ok ())
  else
    let (segments, hasMetachar) := tokenizeCommand lib command
    (normalizeGitCommand lib command).map fun normalized =>
      match cfg.compiledPatterns.find? fun p => lib.isMatch p command || lib.isMatch p normalized with
      | some p => blocked ("Command blocked: matches prohibited pattern '".toList ++ p ++ "'".toList)
      | none =>
        match checkSegments lib cfg segments with
        | .error e => .error e
        | .ok () => checkAllowlist cfg segments hasMetachar

end Zeptoclaw.ShellGuard

import Zeptoclaw.Lib.Tally
import Zeptoclaw.Spec.Cache
import Zeptoclaw.Spec.Serde
import Zeptoclaw.Spec.Taint
import Zeptoclaw.Spec.Transcript

/-!
# The loop guard

`agent/loop_guard.rs`: the guard counts the hashes of tool calls and of their outcomes in a
window. SHA-256, the parsing of JSON and the lower case of a text are parameters; counters of
32 and 64 bits wrap.
-/

namespace Zeptoclaw

open Text Utf8

structure LoopGuardConfig where
  enabled : Bool := true
  warnThreshold : ℕ := 3
  blockThreshold : ℕ := 5
  globalCircuitBreaker : ℕ := 30
  pingPongMinRepeats : ℕ := 3
  pollMultiplier : ℕ := 3
  outcomeWarnThreshold : ℕ := 2
  outcomeBlockThreshold : ℕ := 3
  windowSize : ℕ := 200
  deriving DecidableEq, Repr

structure LoopGuardStats where
  totalChecks : ℕ := 0
  warnings : ℕ := 0
  blocks : ℕ := 0
  circuitBreaks : ℕ := 0
  pingPongDetections : ℕ := 0
  outcomeBlocks : ℕ := 0
  deriving DecidableEq, Repr

structure ToolCallSig where
  name : Str
  arguments : Str
  deriving DecidableEq, Repr

/-- What the guard takes from other crates and from `str::to_lowercase`. -/
structure LoopGuardLib where
  sha256 : Bytes → Bytes
  fromStr : Str → Option Json
  toLowercase : Str → Str

/-! ## Hashes -/

section Hashes

variable (lib : LoopGuardLib)

def normalizeArgs (raw : Str) : Str :=
  match lib.fromStr raw with
  | some v => v.toStr
  | none => trim raw

def hashCallBatch (batch : List ToolCallSig) : Str :=
  hexEncode (lib.sha256 (batch.flatMap fun call =>
    encode (call.name ++ "\n".toList ++ normalizeArgs lib call.arguments ++ "\n--\n".toList)))

def hashOutcome (name params resultPrefix : Str) : Str :=
  let paramsTruncated := truncateUtf8 params 2048
  hexEncode (lib.sha256 (encode (name ++ "\n".toList ++ normalizeArgs lib paramsTruncated ++ "\n--\n".toList ++
    truncateUtf8 resultPrefix 1000)))

/-- `POLL_PATTERNS`. -/
def pollPatterns : List Str :=
  ["status".toList, "poll".toList, "wait".toList, "docker ps".toList, "kubectl get".toList, "git status".toList]

def isPollCommand (calls : List ToolCallSig) : Bool :=
  calls.any fun call => pollPatterns.any fun pattern =>
    contains (lib.toLowercase call.name) pattern || contains (lib.toLowercase call.arguments) pattern

end Hashes

/-- Milliseconds. -/
def backoffDelay (count warnAt : ℕ) : ℕ := min (2 ^ ((count - warnAt) % 64)) 30 * 1000

/-- The tail of the sequence repeats a pattern of at least two different hashes. -/
def hasPeriodicPattern (seq : List Str) (period minRepeats : ℕ) : Bool :=
  let needed := period * minRepeats
  let tail := seq.drop (seq.length - needed)
  let pattern := tail.take period
  if period = 0 || minRepeats = 0 then false
  else if seq.length < needed then false
  else if pattern.all fun h => some h = pattern.head? then false
  else (List.range' 1 (minRepeats - 1)).all fun cycle =>
    (List.range period).all fun i => tail[cycle * period + i]? = pattern[i]?

/-! ## A window of hashes -/

/-- A sequence of hashes with a counter for each: `call_sequence` and `call_counts`, or
`outcome_sequence` and `outcome_counts`. -/
structure HashWindow where
  sequence : List Str := []
  counts : Assoc Str ℕ := ∅

namespace HashWindow

/-- `prune_call_window` and `prune_outcome_window`: the last half of the window stays, and is
counted anew. -/
def prune (keep : ℕ) (w : HashWindow) : HashWindow :=
  let kept := w.sequence.drop (w.sequence.length - keep / 2)
  ⟨kept, tally (2 ^ 32) kept⟩

/-- The hash is pushed, the window is pruned if it is too long, and the counter of the hash
goes up. -/
def record (window : ℕ) (hash : Str) (w : HashWindow) : HashWindow :=
  let pushed : HashWindow := { w with sequence := w.sequence ++ [hash] }
  let pruned := if 0 < window && window < pushed.sequence.length then pushed.prune window else pushed
  { pruned with counts := bump (2 ^ 32) pruned.counts hash }

end HashWindow

/-! ## The guard -/

structure LoopGuard where
  config : LoopGuardConfig
  calls : HashWindow := {}
  outcomes : HashWindow := {}
  totalRepetitions : ℕ := 0
  stats : LoopGuardStats := {}

namespace LoopGuard

def new (config : LoopGuardConfig) : LoopGuard := { config }

/-- The next value of a counter of 32 bits. -/
def next32 (n : ℕ) : ℕ := (n + 1) % 2 ^ 32

/-- The next value of a counter of 64 bits. -/
def next64 (n : ℕ) : ℕ := (n + 1) % 2 ^ 64

def repetitionsText (what : String) (count : ℕ) (threshold : String) (limit : ℕ) : Str :=
  what.toList ++ " repeated ".toList ++ (toString count).toList ++ " times (".toList ++ threshold.toList ++
    (toString limit).toList ++ ")".toList

/-- One more repetition, and whether the global circuit breaker trips. -/
def repeated (g : LoopGuard) : LoopGuard × Option LoopGuardAction :=
  let g := { g with totalRepetitions := next32 g.totalRepetitions }
  if g.config.globalCircuitBreaker ≤ g.totalRepetitions then
    ({ g with stats.circuitBreaks := next64 g.stats.circuitBreaks }, some (.circuitBreak g.totalRepetitions))
  else (g, none)

/-- A ping-pong of the given period was found. -/
def pingPong (period : ℕ) (g : LoopGuard) : LoopGuard × LoopGuardAction :=
  let g := { g with
    stats.pingPongDetections := next64 g.stats.pingPongDetections
    stats.warnings := next64 g.stats.warnings }
  match g.repeated with
  | (g, some action) => (g, action)
  | (g, none) =>
    (g, .warn ("ping-pong pattern (period ".toList ++ (toString period).toList ++ ") detected over ".toList ++
      (toString g.config.pingPongMinRepeats).toList ++ " cycles".toList) none)

def checkPingPong (g : LoopGuard) : Option (LoopGuard × LoopGuardAction) :=
  let minRepeats := g.config.pingPongMinRepeats
  let seq := g.calls.sequence
  if minRepeats = 0 then none
  else if 2 * minRepeats ≤ seq.length && hasPeriodicPattern seq 2 minRepeats then some (g.pingPong 2)
  else if 3 * minRepeats ≤ seq.length && hasPeriodicPattern seq 3 minRepeats then some (g.pingPong 3)
  else none

/-- The graduated response to a call that was counted. -/
def graduated (count warnAt blockAt : ℕ) (isPoll : Bool) (g : LoopGuard) : LoopGuard × LoopGuardAction :=
  if warnAt ≤ count then
    match g.repeated with
    | (g, some action) => (g, action)
    | (g, none) =>
      if blockAt ≤ count then
        ({ g with stats.blocks := next64 g.stats.blocks }, .block (repetitionsText "tool call" count "threshold " blockAt))
      else
        let suggestedDelayMs := if isPoll then some (backoffDelay count warnAt) else none
        ({ g with stats.warnings := next64 g.stats.warnings },
          .warn (repetitionsText "tool call" count "warn threshold " warnAt) suggestedDelayMs)
  else (g, .allow)

variable (lib : LoopGuardLib)

def check (g : LoopGuard) (calls : List ToolCallSig) : LoopGuard × LoopGuardAction :=
  if !g.config.enabled || calls.isEmpty then (g, .allow)
  else
    let callHash := hashCallBatch lib calls
    let isPoll := isPollCommand lib calls
    let g := { g with
      stats.totalChecks := next64 g.stats.totalChecks
      calls := g.calls.record g.config.windowSize callHash }
    let count := countOf g.calls.counts callHash
    let multiplier := if isPoll then g.config.pollMultiplier else 1
    let warnAt := g.config.warnThreshold * multiplier % 2 ^ 32
    let blockAt := g.config.blockThreshold * multiplier % 2 ^ 32
    g.checkPingPong.getD (g.graduated count warnAt blockAt isPoll)

def recordOutcome (g : LoopGuard) (name params resultPrefix : Str) : LoopGuard × Option LoopGuardAction :=
  if !g.config.enabled then (g, none)
  else
    let outcomeHash := hashOutcome lib name params resultPrefix
    let g := { g with outcomes := g.outcomes.record g.config.windowSize outcomeHash }
    let count := countOf g.outcomes.counts outcomeHash
    if g.config.outcomeBlockThreshold ≤ count then
      let g := { g with stats.outcomeBlocks := next64 g.stats.outcomeBlocks }
      match g.repeated with
      | (g, some action) => (g, some action)
      | (g, none) =>
        (g, some (.block (repetitionsText "identical outcome" count "threshold " g.config.outcomeBlockThreshold)))
    else if g.config.outcomeWarnThreshold ≤ count then
      ({ g with stats.warnings := next64 g.stats.warnings },
        some (.warn (repetitionsText "identical outcome" count "warn threshold " g.config.outcomeWarnThreshold) none))
    else (g, none)

end LoopGuard

/-- A call of the guard. -/
inductive GuardCall where
  | check (calls : List ToolCallSig)
  | recordOutcome (name params resultPrefix : Str)
  deriving DecidableEq, Repr

/-- The guard after a call. -/
def LoopGuard.step (lib : LoopGuardLib) (g : LoopGuard) : GuardCall → LoopGuard
  | .check calls => (g.check lib calls).1
  | .recordOutcome name params resultPrefix => (g.recordOutcome lib name params resultPrefix).1

end Zeptoclaw

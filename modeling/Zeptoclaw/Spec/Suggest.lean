import Zeptoclaw.Spec.Skills

/-!
# Suggested field names

`levenshtein`, `suggest_field` and the check of the field names in `validate_config` (`config/validate.rs`), which tell
the author of a configuration what an unknown field may have been meant to be. The matrix has a row for each byte of the
first name and a column for each byte of the second one, and is filled character by character.
-/

namespace Zeptoclaw

/-- The rows of `matrix`. -/
abbrev EditMatrix : Type := List (List ℕ)

namespace EditMatrix

/-- `matrix[i][j]`. -/
def cell (m : EditMatrix) (i j : ℕ) : ℕ := (m.getD i []).getD j 0

/-- `matrix[i][j] = v`. -/
def setCell (m : EditMatrix) (i j v : ℕ) : EditMatrix := m.modify i fun row => row.set j v

/-- The matrix before it is filled: the first column and the first row count up. -/
def init (aLen bLen : ℕ) : EditMatrix :=
  let zeros := List.replicate (aLen + 1) (List.replicate (bLen + 1) 0)
  (zeros.mapIdx fun i row => row.set 0 i).modify 0 fun row => row.mapIdx fun j _ => j

/-- The inner loop, over `b`, for the character `ca` of `a` at `i`. -/
def fillRow (b : Str) (m : EditMatrix) (ca : Char × ℕ) : EditMatrix :=
  b.zipIdx.foldl
    (fun m cb =>
      let cost := if ca.1 = cb.1 then 0 else 1
      m.setCell (ca.2 + 1) (cb.2 + 1)
        (min (min (m.cell ca.2 (cb.2 + 1) + 1) (m.cell (ca.2 + 1) cb.2 + 1)) (m.cell ca.2 cb.2 + cost)))
    m

end EditMatrix

def levenshtein (a b : Str) : ℕ :=
  (a.zipIdx.foldl (EditMatrix.fillRow b) (EditMatrix.init (Text.byteLen a) (Text.byteLen b))).cell (Text.byteLen a) (Text.byteLen b)

/-- `min_by_key` on the second component: the first of the least. -/
def minByKey : List (Str × ℕ) → Option (Str × ℕ)
  | [] => none
  | first :: rest => some (rest.foldl (fun best k => if k.2 < best.2 then k else best) first)

def didYouMean (k : Str) : Str := "did you mean '".toList ++ k ++ "'?".toList

def suggestField (unknown : Str) (known : List Str) : Option Str :=
  (minByKey ((known.map fun k => (k, levenshtein unknown k)).filter fun k => k.2 ≤ 3)).map fun k => didYouMean k.1

/-- `KNOWN_TOP_LEVEL`. -/
def knownTopLevel : List Str :=
  ["agents", "channels", "providers", "gateway", "tools", "memory", "heartbeat", "skills", "runtime", "container_agent",
    "swarm", "approval", "plugins", "telemetry", "cost", "batch", "hooks", "safety", "compaction", "mcp", "routines",
    "tunnel", "stripe", "custom_tools", "transcription", "tool_profiles", "project", "cache", "agent_mode", "pairing",
    "session", "panel", "health", "devices", "logging", "r8r_bridge"].map String.toList

/-- `KNOWN_AGENTS_DEFAULTS`. -/
def knownAgentsDefaults : List Str :=
  ["workspace", "model", "max_tokens", "temperature", "max_tool_iterations", "agent_timeout_secs", "tool_timeout_secs",
    "message_queue_mode", "streaming", "token_budget", "compact_tools", "tool_profile", "active_hand", "timezone",
    "loop_guard", "max_tool_result_bytes", "max_tool_calls", "system_prompt"].map String.toList

/-- `KNOWN_LOOP_GUARD`. -/
def knownLoopGuard : List Str :=
  ["enabled", "warn_threshold", "block_threshold", "global_circuit_breaker", "ping_pong_min_repeats", "poll_multiplier",
    "outcome_warn_threshold", "outcome_block_threshold", "window_size"].map String.toList

inductive DiagnosticLevel where
  | ok
  | warn
  | error
  deriving DecidableEq, Repr

structure Diagnostic where
  level : DiagnosticLevel
  path : Str
  message : Str
  deriving DecidableEq, Repr

def unknownMessage (key : Str) (known : List Str) : Str :=
  let suggestion := (suggestField key known).getD []
  if suggestion = [] then "Unknown field '".toList ++ key ++ "'".toList
  else "Unknown field '".toList ++ key ++ "' — ".toList ++ suggestion

/-- The loop over the keys of one object. -/
def unknownFields (level : DiagnosticLevel) (path : Str) (known keys : List Str) : List Diagnostic :=
  (keys.filter fun key => key ∉ known).map fun key => ⟨level, path ++ key, unknownMessage key known⟩

/-- `as_object().keys()`. -/
def Json.keys : Json → Option (List Str)
  | .object fields => some (fields.map Prod.fst)
  | _ => none

/-- The diagnostics of unknown fields in `validate_config`. -/
def unknownDiagnostics (raw : Json) (keys : List Str) : List Diagnostic :=
  let defaults := (raw.get "agents".toList).bind fun agents => agents.get "defaults".toList
  let loopGuard := defaults.bind fun defaults => defaults.get "loop_guard".toList
  unknownFields .error [] knownTopLevel keys ++
    unknownFields .error "agents.defaults.".toList knownAgentsDefaults ((defaults.bind Json.keys).getD []) ++
    unknownFields .warn "agents.defaults.loop_guard.".toList knownLoopGuard ((loopGuard.bind Json.keys).getD [])

/-- `validate_config`, up to the end of the check of the field names. -/
def validateFields (raw : Json) : List Diagnostic :=
  match raw.keys with
  | none => [⟨.error, [], "Config must be a JSON object".toList⟩]
  | some keys =>
    let unknown := unknownDiagnostics raw keys
    ⟨.ok, [], "Valid JSON".toList⟩ :: unknown ++
      if unknown = [] then [⟨.ok, [], "All fields recognized".toList⟩] else []

end Zeptoclaw

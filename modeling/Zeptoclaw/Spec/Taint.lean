import Zeptoclaw.Spec.Serde

/-!
# Taint tracking

The taint engine (`safety/taint.rs`): the labels and snippets that it keeps of tool
outputs, and the check of the input of a sink against them. A set of labels is a list, in
the order in which they were given.
-/

namespace Zeptoclaw

structure TaintConfig where
  enabled : Bool
  blockOnViolation : Bool
  trustedTools : List Str
  deriving DecidableEq, Repr

inductive TaintLabel where
  | externalNetwork
  | userInput
  | pii
  | secret
  | untrustedAgent
  deriving DecidableEq, Repr

def TaintLabel.display : TaintLabel → Str
  | .externalNetwork => "ExternalNetwork".toList
  | .userInput => "UserInput".toList
  | .pii => "Pii".toList
  | .secret => "Secret".toList
  | .untrustedAgent => "UntrustedAgent".toList

structure TaintViolation where
  sink : Str
  label : TaintLabel
  sourceTool : Option Str
  message : Str
  deriving DecidableEq, Repr

def TaintViolation.display (v : TaintViolation) : Str :=
  "Taint violation at sink '".toList ++ v.sink ++ "': ".toList ++ v.message

structure TaintSink where
  name : Str
  blockedLabels : List TaintLabel
  deriving DecidableEq, Repr

/-- `SINKS`. -/
def sinks : List TaintSink :=
  [⟨"shell_execute".toList, [.externalNetwork, .secret]⟩,
    ⟨"web_fetch".toList, [.secret]⟩,
    ⟨"http_request".toList, [.secret]⟩,
    ⟨"message".toList, [.secret]⟩]

/-- `NETWORK_SOURCE_TOOLS`. -/
def networkSourceTools : List Str := ["web_fetch".toList, "http_request".toList, "web_search".toList]

/-- `SECRET_PREFIXES`. -/
def secretPrefixes : List Str :=
  ["sk-".toList, "AKIA".toList, "github_pat_".toList, "ghp_".toList, "gho_".toList, "glpat-".toList,
    "xoxb-".toList, "xoxp-".toList, "Bearer ".toList]

def snippetMaxLen : ℕ := 200

/-- `truncate_utf8`: the characters that fit into the bytes. -/
def truncateUtf8 : Str → ℕ → Str
  | [], _ => []
  | c :: s, maxBytes => if c.utf8Size ≤ maxBytes then c :: truncateUtf8 s (maxBytes - c.utf8Size) else []

/-- The markers of one pattern; the first `skip` characters belong to the occurrence before. -/
def markersFrom (pat : Str) : ℕ → Str → List Str
  | _, [] => []
  | skip + 1, _ :: s => markersFrom pat skip s
  | 0, c :: s =>
    if pat <+: c :: s then
      truncateUtf8 (c :: s) (min (Text.byteLen (c :: s)) (Text.byteLen pat + 20)) ::
        markersFrom pat (pat.length - 1) s
    else markersFrom pat 0 s

/-- `collect_secret_markers`. -/
def collectSecretMarkers (content : Str) : List Str := secretPrefixes.flatMap fun pat => markersFrom pat 0 content

structure TaintedSnippet where
  snippet : Str
  labels : List TaintLabel
  sourceTool : Str
  secretMarkers : List Str
  deriving DecidableEq, Repr

structure TaintEngine where
  config : TaintConfig
  taintedSnippets : List TaintedSnippet
  externalToolNames : List Str
  deriving DecidableEq, Repr

namespace TaintEngine

def new (config : TaintConfig) : TaintEngine := ⟨config, [], []⟩

def registerExternalTools (e : TaintEngine) (names : List Str) : TaintEngine := { e with externalToolNames := names }

/-- The labels of an output. -/
def labelsOf (e : TaintEngine) (toolName output : Str) : List TaintLabel :=
  let labels := if toolName ∈ networkSourceTools then [TaintLabel.externalNetwork] else []
  let labels :=
    if .externalNetwork ∉ labels ∧ toolName ∈ e.externalToolNames ∧ toolName ∉ e.config.trustedTools then
      labels ++ [.externalNetwork]
    else labels
  if collectSecretMarkers output ≠ [] then labels ++ [.secret] else labels

/-- `TaintEngine::label_output`. -/
def labelOutput (e : TaintEngine) (toolName output : Str) : TaintEngine × List TaintLabel :=
  if !e.config.enabled then (e, [])
  else
    let labels := e.labelsOf toolName output
    if labels ≠ [] ∧ output ≠ [] then
      ({ e with
          taintedSnippets := e.taintedSnippets ++
            [⟨truncateUtf8 output snippetMaxLen, labels, toolName, collectSecretMarkers output⟩] }, labels)
    else (e, labels)

/-- The body of the two loops of `contains_tainted_content`. -/
def labelFound (content : Str) (sink : TaintSink) (snippet : TaintedSnippet) (label : TaintLabel) : Bool :=
  if label ∉ sink.blockedLabels then false
  else if label = .secret then snippet.secretMarkers.any fun marker => Text.contains content marker
  else Text.contains content snippet.snippet

/-- `TaintEngine::contains_tainted_content`. -/
def containsTaintedContent (e : TaintEngine) (content : Str) (sink : TaintSink) : Option (Str × TaintLabel) :=
  e.taintedSnippets.findSome? fun snippet =>
    (snippet.labels.find? (labelFound content sink snippet)).map fun label => (snippet.sourceTool, label)

/-- `TaintEngine::check_sink`. -/
def checkSink (e : TaintEngine) (sinkTool : Str) (input : Json) : Except TaintViolation Unit :=
  if !e.config.enabled then .ok ()
  else
    match sinks.find? fun s => s.name = sinkTool with
    | none => .ok ()
    | some sink =>
      match e.containsTaintedContent input.toStr sink with
      | none => .ok ()
      | some (sourceTool, label) =>
        if e.config.blockOnViolation then
          .error ⟨sinkTool, label, some sourceTool,
            label.display ++ " content from '".toList ++ sourceTool ++ "' detected in '".toList ++ sinkTool ++
              "' input -- data flow blocked".toList⟩
        else .ok ()

end TaintEngine

end Zeptoclaw

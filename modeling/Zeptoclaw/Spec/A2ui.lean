import Zeptoclaw.Lib.Occurrence
import Zeptoclaw.Lib.TextLines
import Zeptoclaw.Spec.Gate

/-!
# User interface messages in a response

`agent/loop.rs`: code blocks of a response hold messages for a user interface. They are taken out of the text; where there is
none, a chart in the text is made into messages.
-/

namespace Zeptoclaw

namespace A2ui

/-! ## The messages of a block -/

def isObject : Json → Bool
  | .object _ => true
  | _ => false

/-- `Map::get`. -/
def getField (obj : List (Str × Json)) (key : Str) : Option Json := (obj.find? fun f => f.1 = key).map Prod.snd

def containsKey (obj : List (Str × Json)) (key : Str) : Bool := (getField obj key).isSome

/-- `is_a2ui_message_object`. -/
def isA2uiMessageObject (obj : List (Str × Json)) : Bool :=
  containsKey obj "createSurface".toList || containsKey obj "updateComponents".toList ||
    containsKey obj "updateDataModel".toList || containsKey obj "deleteSurface".toList ||
    containsKey obj "beginRendering".toList || containsKey obj "surfaceUpdate".toList ||
    containsKey obj "dataModelUpdate".toList

/-- The objects of an array, if there are any. -/
def objectsOf (items : List Json) : Option (List Json) :=
  let messages := items.filter isObject
  if messages.isEmpty then none else some messages

/-- `normalize_a2ui_payload`. -/
def normalizeA2uiPayload : Json → Option (List Json)
  | .array items => objectsOf items
  | .object obj =>
    match getField obj "messages".toList, getField obj "message".toList with
    | some (.array items), _ => objectsOf items
    | _, some (.object msg) => some [.object msg]
    | _, _ => if isA2uiMessageObject obj then some [.object obj] else none
  | _ => none

/-- `parse_a2ui_messages_block`; `fromStr` is the JSON parser. -/
def parseA2uiMessagesBlock (fromStr : Str → Option Json) (rawBlock : Str) : Option (List Json) :=
  let trimmed := Text.trim rawBlock
  if trimmed = [] then none else (fromStr trimmed).bind normalizeA2uiPayload

/-! ## Charts -/

structure MermaidXyChartSpec where
  title : Option Str
  labels : List Str
  values : List ℕ
  yMax : ℕ

def parseU64 (s : Str) : Option ℕ := Text.parseUnsigned (2 ^ 64) s

def trimMatches (c : Char) (s : Str) : Str := (s.dropWhile (· == c)).rdropWhile (· == c)

/-- What stands before the next such character, if there is one. -/
def upTo (c : Char) (s : Str) : Option Str := if c ∈ s then some (s.takeWhile (· != c)) else none

/-- What stands behind the first such character, if there is one. -/
def behind (c : Char) (s : Str) : Option Str := if c ∈ s then some ((s.dropWhile (· != c)).drop 1) else none

def parseMermaidArrayStr (raw : Str) : List Str :=
  match (behind '[' raw).bind (upTo ']') with
  | none => []
  | some inner =>
    (((inner.splitOn ',').map Text.trim).filter fun part => part ≠ []).map fun part => trimMatches '\'' (trimMatches '"' part)

def parseMermaidArrayU64 (raw : Str) : List ℕ := (parseMermaidArrayStr raw).filterMap parseU64

def parseMermaidQuotedValue (raw : Str) : Option Str := (behind '"' raw).bind (upTo '"')

/-- What the lines of a chart have said so far. -/
structure ChartLines where
  title : Option Str := none
  labels : List Str := []
  values : List ℕ := []
  yMax : Option ℕ := none

def ChartLines.line (chart : ChartLines) (line : Str) : ChartLines :=
  let trimmed := Text.trim line
  if "title ".toList.isPrefixOf trimmed then { chart with title := parseMermaidQuotedValue trimmed }
  else if "x-axis ".toList.isPrefixOf trimmed then { chart with labels := parseMermaidArrayStr trimmed }
  else if "bar ".toList.isPrefixOf trimmed then { chart with values := parseMermaidArrayU64 trimmed }
  else if "y-axis ".toList.isPrefixOf trimmed then
    match Text.cutFirst "-->".toList trimmed with
    | some (_, upper) => { chart with yMax := parseU64 (Text.trim upper) }
    | none => chart
  else chart

/-- `parse_mermaid_xychart_spec`. -/
def parseMermaidXychartSpec (content : Str) : Option MermaidXyChartSpec :=
  if Text.contains content "xychart-beta".toList then
    let chart := (Text.lines content).foldl ChartLines.line {}
    if chart.values.isEmpty then none
    else
      let labels :=
        if chart.labels.length ≠ chart.values.length then
          (List.range' 1 chart.values.length).map fun idx => "Item ".toList ++ (toString idx).toList
        else chart.labels
      let computedMax := max (chart.values.foldl max 0) 1
      some ⟨chart.title, labels, chart.values, max (chart.yMax.getD computedMax) computedMax⟩
  else none

def chartMarks : List Str :=
  ["title ".toList, "x-axis ".toList, "y-axis ".toList, "bar ".toList, "line ".toList, "scatter ".toList]

/-- The lines behind the first line of a chart without those that belong to it. -/
def dropChart : List Str → List Str
  | [] => []
  | raw :: rest =>
    let trimmed := Text.trim raw
    if trimmed = [] then rest
    else if [' '].isPrefixOf raw || ['\t'].isPrefixOf raw || chartMarks.any fun mark => mark.isPrefixOf trimmed then
      dropChart rest
    else raw :: rest

/-- `strip_mermaid_xychart_block`. -/
def stripMermaidXychartBlock (content : Str) : Str :=
  let lines := Text.lines content
  let isStart := fun line : Str => "xychart-beta".toList.isPrefixOf (Text.trimStart line)
  match lines.dropWhile fun line => !isStart line with
  | [] => content
  | _ :: rest => Text.trim (['\n'].intercalate ((lines.takeWhile fun line => !isStart line) ++ dropChart rest))

def jsonStr (s : String) : Json := .string s.toList

def jsonNat (n : ℕ) : Json := .number (toString n).toList

/-- The components of one row of a chart. -/
def chartRow (yMax idx : ℕ) (label : Str) (value : ℕ) : List Json :=
  let n := (toString (idx + 1)).toList
  [.object [("id".toList, .string ("row_".toList ++ n)), ("component".toList, jsonStr "Row"),
      ("children".toList, .array [.string ("bar_".toList ++ n), .string ("value_".toList ++ n)]),
      ("align".toList, jsonStr "center"), ("justify".toList, jsonStr "spaceBetween")],
    .object [("id".toList, .string ("bar_".toList ++ n)), ("component".toList, jsonStr "Slider"),
      ("label".toList, .string label), ("min".toList, jsonNat 0), ("max".toList, jsonNat yMax),
      ("value".toList, jsonNat (min value yMax))],
    .object [("id".toList, .string ("value_".toList ++ n)), ("component".toList, jsonStr "Text"),
      ("variant".toList, jsonStr "caption"), ("text".toList, .string (toString value).toList)]]

/-- `build_a2ui_messages_from_mermaid_xychart`; `surfaceSeq` is the counter of the surfaces. -/
def buildA2uiMessagesFromMermaidXychart (surfaceSeq : ℕ) (spec : MermaidXyChartSpec) : List Json :=
  let surfaceId := Json.string ("chart_".toList ++ (toString surfaceSeq).toList)
  let bars := spec.labels.zip spec.values
  let rowIds := (List.range bars.length).map fun idx => Json.string ("row_".toList ++ (toString (idx + 1)).toList)
  let components :=
    [Json.object [("id".toList, jsonStr "root"), ("component".toList, jsonStr "Column"),
        ("children".toList, .array [jsonStr "title", jsonStr "bars"]), ("align".toList, jsonStr "stretch")],
      Json.object [("id".toList, jsonStr "title"), ("component".toList, jsonStr "Text"), ("variant".toList, jsonStr "h3"),
        ("text".toList, .string (spec.title.getD "Chart".toList))]] ++
      (bars.zipIdx.flatMap fun bar => chartRow spec.yMax bar.2 bar.1.1 bar.1.2) ++
      [Json.object [("id".toList, jsonStr "bars"), ("component".toList, jsonStr "Column"),
        ("children".toList, .array rowIds), ("align".toList, jsonStr "stretch")]]
  [.object [("version".toList, jsonStr "v0.9"), ("createSurface".toList, .object [("surfaceId".toList, surfaceId),
      ("catalogId".toList, jsonStr "https://a2ui.org/specification/v0_9/basic_catalog.json")])],
    .object [("version".toList, jsonStr "v0.9"), ("updateComponents".toList, .object [("surfaceId".toList, surfaceId),
      ("components".toList, .array components)])]]

/-! ## The blocks of a response -/

def openFence : Str := "```a2ui".toList

def closeFence : Str := "```".toList

/-- `str::find`. -/
def find (s pat : Str) : Option ℕ := (Text.cutFirst pat s).map fun cut => Text.byteLen cut.1

/-- `&content[from..]`. -/
def sliceFrom (content : Str) (start : ℕ) : Option Str := (Text.splitAtByte start content).map Prod.snd

/-- The loop over the blocks from a cursor on; `none` is a panic, or too little fuel. -/
def scanBlocks (fromStr : Str → Option Json) (content : Str) : ℕ → ℕ → Str → List Json → Option (Str × List Json)
  | 0, _, _, _ => none
  | fuel + 1, cursor, cleaned, messages => do
    let rest ← sliceFrom content cursor
    match find rest openFence with
    | none => some (if cursor < Text.byteLen content then cleaned ++ rest else cleaned, messages)
    | some startRel =>
      let start := cursor + startRel
      let prose ← Text.slice content cursor start
      let cleaned := cleaned ++ prose
      let fromFence ← sliceFrom content start
      match find fromFence ['\n'] with
      -- the cursor is at the end then
      | none => some (cleaned ++ fromFence, messages)
      | some offset =>
        let headerEnd := start + offset + 1
        let fromBody ← sliceFrom content headerEnd
        match find fromBody closeFence with
        | none => some (cleaned ++ fromFence, messages)
        | some offset =>
          let bodyEnd := headerEnd + offset
          let block ← Text.slice content headerEnd bodyEnd
          match parseA2uiMessagesBlock fromStr block with
          | some parsed => scanBlocks fromStr content fuel (bodyEnd + 3) cleaned (messages ++ parsed)
          | none =>
            let whole ← Text.slice content start (bodyEnd + 3)
            scanBlocks fromStr content fuel (bodyEnd + 3) (cleaned ++ whole) messages

/-- `extract_a2ui_messages_from_response`. -/
def extractA2uiMessagesFromResponse (fromStr : Str → Option Json) (surfaceSeq : ℕ) (content : Str) :
    Option (Str × List Json) := do
  let (cleaned, messages) ← scanBlocks fromStr content (Text.byteLen content + 1) 0 [] []
  let cleaned := Text.trim cleaned
  if messages.isEmpty then
    match parseMermaidXychartSpec cleaned with
    | some spec => some (stripMermaidXychartBlock cleaned, buildA2uiMessagesFromMermaidXychart surfaceSeq spec)
    | none => some (cleaned, messages)
  else some (cleaned, messages)

end A2ui

end Zeptoclaw

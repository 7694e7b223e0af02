import Zeptoclaw.Lib.TextLines
import Zeptoclaw.Lib.Windows
import Zeptoclaw.Spec.Error
import Mathlib.Data.List.Sort

/-!
# Search in the memory files of a workspace

`memory/mod.rs`: each file is searched in chunks of lines that overlap; the chunks that are similar enough to the query are
the results. Scores are floating-point numbers of a searcher, and a parameter, as are the files that were collected.
-/

namespace Zeptoclaw

/-- `CHUNK_LINES`. -/
def chunkLines : ℕ := 18

/-- `CHUNK_OVERLAP`. -/
def chunkOverlap : ℕ := 4

structure MemorySearchResult (S : Type) where
  path : Str
  startLine : ℕ
  endLine : ℕ
  score : S
  snippet : Str
  citation : Option Str

/-- A searcher, and the comparisons and the bounds of its scores. -/
structure MemorySearcher (S : Type) where
  score : Str → Str → S
  -- `<` and `total_cmp`
  lt : S → S → Bool
  totalLe : S → S → Bool
  -- `clamp(0.0, 1.0)`
  clamp : S → S

structure MemoryConfig (S : Type) where
  maxResults : ℕ
  minScore : S
  maxSnippetChars : ℕ

/-- A file with its path in the workspace; the content is missing if it cannot be read. -/
structure MemoryFile where
  relative : Str
  content : Option Str

def truncateChars (input : Str) (maxChars : ℕ) : Str := input.take maxChars

def formatCitation (path : Str) (startLine endLine : ℕ) : Str :=
  if startLine = endLine then path ++ "#L".toList ++ (toString startLine).toList
  else path ++ "#L".toList ++ (toString startLine).toList ++ "-L".toList ++ (toString endLine).toList

/-- A chunk that the loop has come to, and the result that it gave. -/
structure ChunkVisit (S : Type) where
  start : ℕ
  stop : ℕ
  result : Option (MemorySearchResult S)

section Search

variable {S : Type} (searcher : MemorySearcher S)

/-- What the search is for. -/
structure MemoryQuery (S : Type) where
  query : Str
  minScore : S
  snippetChars : ℕ
  includeCitations : Bool

/-- The result for a chunk that is similar enough. -/
def chunkResult (q : MemoryQuery S) (relative chunk : Str) (start stop : ℕ) (score : S) : MemorySearchResult S :=
  let trimmed := Text.trim chunk
  let snippet := if q.snippetChars < trimmed.length then truncateChars trimmed q.snippetChars else trimmed
  let citation := if q.includeCitations then some (formatCitation relative (start + 1) stop) else none
  let snippet := match citation with
    | some c => snippet ++ "\n\nSource: ".toList ++ c
    | none => snippet
  ⟨relative, start + 1, stop, score, snippet, citation⟩

/-- The loop over the beginnings of the chunks of a file. -/
def searchChunks (q : MemoryQuery S) (relative : Str) (lines : List Str) : List ℕ → List (ChunkVisit S)
  | [] => []
  | start :: starts =>
    let stop := min (start + chunkLines) lines.length
    -- `lines[start..end].join("\n")`
    let chunk := ['\n'].intercalate ((lines.take stop).drop start)
    if Text.trim chunk = [] then
      ⟨start, stop, none⟩ :: if stop = lines.length then [] else searchChunks q relative lines starts
    else
      let score := searcher.score chunk q.query
      if searcher.lt score q.minScore then
        ⟨start, stop, none⟩ :: if stop = lines.length then [] else searchChunks q relative lines starts
      else
        ⟨start, stop, some (chunkResult q relative chunk start stop score)⟩ ::
          if stop = lines.length then [] else searchChunks q relative lines starts

/-- The chunks of a file with these lines. -/
def visitLines (q : MemoryQuery S) (relative : Str) (lines : List Str) : List (ChunkVisit S) :=
  searchChunks searcher q relative lines (stepBy (max (chunkLines - chunkOverlap) 1) lines.length)

/-- The results of a file. -/
def searchFile (q : MemoryQuery S) (file : MemoryFile) : List (MemorySearchResult S) :=
  match file.content with
  | none => []
  | some content =>
    let lines := Text.lines content
    if lines.isEmpty then [] else (visitLines searcher q file.relative lines).filterMap ChunkVisit.result

/-- `search_workspace_memory_sync`; `files` is what `collect_memory_files` gives. -/
def searchWorkspaceMemorySync (files : Except ZeptoError (List MemoryFile)) (query : Str) (config : MemoryConfig S)
    (maxResults : Option ℕ) (minScore : Option S) (includeCitations : Bool) :
    Except ZeptoError (List (MemorySearchResult S)) :=
  let query := Text.trim query
  if query = [] then .error (.tool "Memory query cannot be empty".toList)
  else do
    let files ← files
    if files.isEmpty then .ok []
    else
      let maxResults := max 1 (min (maxResults.getD config.maxResults) 50)
      let minScore := searcher.clamp (minScore.getD config.minScore)
      let snippetChars := max config.maxSnippetChars 64
      let results := files.flatMap (searchFile searcher ⟨query, minScore, snippetChars, includeCitations⟩)
      .ok ((results.mergeSort fun a b => searcher.totalLe b.score a.score).take maxResults)

end Search

end Zeptoclaw

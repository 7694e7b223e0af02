import Zeptoclaw.Lib.TextLines

/-!
# Unified diffs

`tools/diff.rs`: a diff is parsed into hunks, which are applied to the lines of a text from
the first to the last, with a position in these lines that only goes forward.
-/

namespace Zeptoclaw

structure DiffSummary where
  linesAdded : ℕ
  linesRemoved : ℕ
  hunksApplied : ℕ
  deriving DecidableEq, Repr

inductive HunkLineKind where
  | context
  | remove
  | add
  deriving DecidableEq, Repr

structure HunkLine where
  kind : HunkLineKind
  content : Str
  deriving DecidableEq, Repr

structure Hunk where
  oldStart : ℕ
  oldCount : ℕ
  lines : List HunkLine
  deriving DecidableEq, Repr

/-- The errors, with the values that their texts name. -/
inductive DiffError where
  | malformedHeader (line : Str)
  | wrongOldCount (oldStart oldCount actualOld : ℕ)
  | noHunks
  | pastEndOfFile (oldStart line total : ℕ)
  | reachedEndOfFile (kind : HunkLineKind) (expected : Str)
  | mismatch (kind : HunkLineKind) (line : ℕ) (expected got : Str)
  deriving DecidableEq, Repr

def HunkLineKind.word : HunkLineKind → Str
  | .context => "context".toList
  | .remove => "remove".toList
  | .add => "add".toList

/-- The text of a number. -/
def showNat (n : ℕ) : Str := (toString n).toList

/-- The text of an error; `debug` is the `Debug` form of a string. -/
def DiffError.message (debug : Str → Str) : DiffError → Str
  | .malformedHeader line => "malformed hunk header: ".toList ++ debug line
  | .wrongOldCount oldStart oldCount actualOld =>
    "hunk at old line ".toList ++ showNat oldStart ++ " declares old_count=".toList ++ showNat oldCount ++
      " but has ".toList ++ showNat actualOld ++ " context/remove lines".toList
  | .noHunks => "diff contains no hunks".toList
  | .pastEndOfFile oldStart line total =>
    "hunk at old line ".toList ++ showNat oldStart ++ " references line ".toList ++ showNat line ++
      " which is past end of file (".toList ++ showNat total ++ " lines)".toList
  | .reachedEndOfFile kind expected =>
    kind.word ++ " mismatch: expected ".toList ++ debug expected ++ " but reached end of file".toList
  | .mismatch kind line expected got =>
    kind.word ++ " mismatch at original line ".toList ++ showNat line ++ ": expected ".toList ++ debug expected ++
      ", got ".toList ++ debug got

/-! ## Parsing -/

/-- `split_lines_keep_terminator`. -/
def splitLinesKeepTerminator (text : Str) : List Str := Text.splitInclusive text

def stripTerminator (line : Str) : Str := Text.trimEndMatches '\r' (Text.trimEndMatches '\n' line)

/-- `str::parse::<usize>`. -/
def parseUsize (s : Str) : Option ℕ := Text.parseUnsigned (2 ^ 64) s

/-- `parse_hunk_header`: the old start and the old count. -/
def parseHunkHeader (line : Str) : Except DiffError (ℕ × ℕ) :=
  let inner := (line.dropWhile (· == '@')).dropWhile (· == ' ')
  match (Text.splitWhitespace inner).find? fun s => ['-'].isPrefixOf s with
  | none => .error (.malformedHeader line)
  | some oldPart =>
    let oldStr := oldPart.dropWhile (· == '-')
    if ',' ∈ oldStr then
      -- `splitn(2, ',')`
      match parseUsize (oldStr.takeWhile (· != ',')), parseUsize ((oldStr.dropWhile (· != ',')).drop 1) with
      | some start, some count => .ok (start, count)
      | _, _ => .error (.malformedHeader line)
    else
      match parseUsize oldStr with
      | some start => .ok (start, 1)
      | none => .error (.malformedHeader line)

/-- A context line or a removed one. -/
def HunkLine.isOld (line : HunkLine) : Bool := line.kind == .context || line.kind == .remove

def validateHunk (hunk : Hunk) : Except DiffError Unit :=
  let actualOld := hunk.lines.countP HunkLine.isOld
  if 0 < hunk.oldCount ∧ actualOld ≠ hunk.oldCount then
    .error (.wrongOldCount hunk.oldStart hunk.oldCount actualOld)
  else .ok ()

/-- A line of a hunk, with its mark; other lines are skipped. -/
def parseHunkLine : Str → Option HunkLine
  | '+' :: content => some ⟨.add, content⟩
  | '-' :: content => some ⟨.remove, content⟩
  | ' ' :: content => some ⟨.context, content⟩
  | _ => none

/-- The hunks so far and the hunk at hand. -/
structure HunkParser where
  hunks : List Hunk
  current : Option Hunk

/-- The hunk at hand is checked and put to the others. -/
def HunkParser.flush (p : HunkParser) : Except DiffError (List Hunk) :=
  match p.current with
  | some h => (validateHunk h).map fun _ => p.hunks ++ [h]
  | none => .ok p.hunks

def HunkParser.line (p : HunkParser) (raw : Str) : Except DiffError HunkParser :=
  if "@@".toList.isPrefixOf raw then do
    let hunks ← p.flush
    let (oldStart, oldCount) ← parseHunkHeader raw
    .ok ⟨hunks, some ⟨oldStart, oldCount, []⟩⟩
  else
    match p.current, parseHunkLine raw with
    | some hunk, some line => .ok { p with current := some { hunk with lines := hunk.lines ++ [line] } }
    | _, _ => .ok p

/-- `parse_hunks`. -/
def parseHunks (diff : Str) : Except DiffError (List Hunk) := do
  let p ← (Text.lines diff).foldlM HunkParser.line ⟨[], none⟩
  p.flush

/-! ## Application -/

/-- The state of the loop: `rest` is what the text has from `orig_pos` on. -/
structure DiffApplier where
  out : List Str
  origPos : ℕ
  rest : List Str
  summary : DiffSummary

namespace DiffApplier

/-- The loop that copies lines up to a hunk: so many are left to copy. -/
def copyLines (oldStart total : ℕ) : ℕ → DiffApplier → Except DiffError DiffApplier
  | 0, a => .ok a
  | n + 1, a =>
    match a.rest with
    | [] => .error (.pastEndOfFile oldStart (a.origPos + 1) total)
    | line :: rest => copyLines oldStart total n { a with out := a.out ++ [line], origPos := a.origPos + 1, rest }

/-- An added line gets a newline, unless it has an end. -/
def terminate (content : Str) : Str :=
  if content.getLast? ≠ some '\n' ∧ content.getLast? ≠ some '\r' then content ++ ['\n'] else content

/-- One line of a hunk. -/
def applyLine (a : DiffApplier) (line : HunkLine) : Except DiffError DiffApplier :=
  match line.kind with
  | .add =>
    .ok { a with
      out := a.out ++ [terminate line.content]
      summary := { a.summary with linesAdded := a.summary.linesAdded + 1 } }
  | .context =>
    match a.rest with
    | [] => .error (.reachedEndOfFile .context line.content)
    | orig :: rest =>
      if stripTerminator orig ≠ line.content then
        .error (.mismatch .context (a.origPos + 1) line.content (stripTerminator orig))
      else .ok { a with out := a.out ++ [orig], origPos := a.origPos + 1, rest }
  | .remove =>
    match a.rest with
    | [] => .error (.reachedEndOfFile .remove line.content)
    | orig :: rest =>
      if stripTerminator orig ≠ line.content then
        .error (.mismatch .remove (a.origPos + 1) line.content (stripTerminator orig))
      else
        .ok { a with
          origPos := a.origPos + 1
          rest
          summary := { a.summary with linesRemoved := a.summary.linesRemoved + 1 } }

/-- One hunk: the lines before it are copied, then its own are gone through. -/
def applyHunk (total : ℕ) (a : DiffApplier) (hunk : Hunk) : Except DiffError DiffApplier := do
  let copyUntil := hunk.oldStart - 1
  let a ← copyLines hunk.oldStart total (copyUntil - a.origPos) a
  let a ← hunk.lines.foldlM applyLine a
  .ok { a with summary := { a.summary with hunksApplied := a.summary.hunksApplied + 1 } }

end DiffApplier

/-- The loop over the hunks, and the rest of the text. -/
def applyHunks (origLines : List Str) (hunks : List Hunk) : Except DiffError (Str × DiffSummary) := do
  let a ← hunks.foldlM (DiffApplier.applyHunk origLines.length) ⟨[], 0, origLines, ⟨0, 0, 0⟩⟩
  .ok ((a.out ++ a.rest).flatten, a.summary)

/-- `apply_unified_diff`. -/
def applyUnifiedDiff (original diff : Str) : Except DiffError (Str × DiffSummary) := do
  let hunks ← parseHunks diff
  if hunks.isEmpty then .error .noHunks else applyHunks (splitLinesKeepTerminator original) hunks

end Zeptoclaw

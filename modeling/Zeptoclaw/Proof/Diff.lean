import Zeptoclaw.Spec.Diff
import Mathlib.Data.List.Nodup

/-!
# Where a diff is applied

A hunk takes the lines of the text from the position that the hunks before it have reached,
or from its declared start, whichever is later (`applyHunk_ok`). So it is applied where it
says if the hunks are in order, and only then on a text in which no line is repeated
(`diff_applied_where_declared`).
-/

namespace Zeptoclaw

theorem except_bind_ok {ε α β : Type} {x : Except ε α} {f : α → Except ε β} {b : β} :
    (x >>= f) = .ok b ↔ ∃ a, x = .ok a ∧ f a = .ok b := by
  cases x with
  | error e =>
    constructor
    · intro h
      cases h
    · rintro ⟨a, h, -⟩
      cases h
  | ok a =>
    constructor
    · intro h
      exact ⟨a, rfl, h⟩
    · rintro ⟨a', h, h'⟩
      cases h
      exact h'

/-! ## One hunk -/

/-- The context and removed lines. -/
def oldContents (lines : List HunkLine) : List Str := (lines.filter HunkLine.isOld).map HunkLine.content

/-- What the lines of a hunk put out, for the lines of the text they take. -/
def hunkOut : List HunkLine → List Str → List Str
  | [], _ => []
  | ⟨.add, content⟩ :: lines, taken => DiffApplier.terminate content :: hunkOut lines taken
  | ⟨.context, _⟩ :: lines, orig :: taken => orig :: hunkOut lines taken
  | ⟨.remove, _⟩ :: lines, _ :: taken => hunkOut lines taken
  | ⟨.context, _⟩ :: _, [] => []
  | ⟨.remove, _⟩ :: _, [] => []

def countKind (kind : HunkLineKind) (lines : List HunkLine) : ℕ := lines.countP fun l => l.kind == kind

namespace DiffApplier

/-- The state once lines were taken and put out. -/
def advance (a : DiffApplier) (out rest : List Str) (taken : ℕ) (added removed hunks : ℕ) : DiffApplier :=
  ⟨a.out ++ out, a.origPos + taken, rest,
    ⟨a.summary.linesAdded + added, a.summary.linesRemoved + removed, a.summary.hunksApplied + hunks⟩⟩

theorem copyLines_ok {oldStart total : ℕ} : ∀ {n : ℕ} {a a' : DiffApplier},
    copyLines oldStart total n a = .ok a' ↔
      ∃ gap rest, gap.length = n ∧ a.rest = gap ++ rest ∧ a' = a.advance gap rest n 0 0 0 := by
  intro n
  induction n with
  | zero =>
    intro a a'
    constructor
    · intro h
      obtain rfl := Except.ok.inj h
      exact ⟨[], a.rest, rfl, rfl, by simp [advance]⟩
    · rintro ⟨gap, rest, hgap, hrest, rfl⟩
      obtain rfl := List.length_eq_zero_iff.mp hgap
      rw [copyLines, ← List.nil_append rest, ← hrest]
      simp [advance]
  | succ n ih =>
    intro a a'
    rw [copyLines]
    constructor
    · intro h
      cases hrest : a.rest with
      | nil =>
        rw [hrest] at h
        cases h
      | cons line rest =>
        rw [hrest] at h
        obtain ⟨gap, rest', hlen, hcut, rfl⟩ := ih.mp h
        have hcut' : rest = gap ++ rest' := hcut
        refine ⟨line :: gap, rest', by rw [List.length_cons, hlen], by rw [hcut']; rfl, ?_⟩
        simp [advance, Nat.add_comm, Nat.add_left_comm]
    · rintro ⟨gap, rest', hlen, hcut, rfl⟩
      obtain ⟨line, gap, rfl⟩ := List.exists_cons_of_length_eq_add_one hlen
      rw [hcut]
      refine ih.mpr ⟨gap, rest', by simpa using hlen, rfl, ?_⟩
      simp [advance, Nat.add_comm, Nat.add_left_comm]

/-- An added line takes none of the text. -/
theorem applyLine_add (a : DiffApplier) (content : Str) :
    applyLine a ⟨.add, content⟩ = .ok (a.advance [terminate content] a.rest 0 1 0 0) := rfl

/-- A context line or a removed one takes one line of the text, which has its content. -/
theorem applyLine_old {a a' : DiffApplier} {line : HunkLine} (h : line.isOld = true) :
    applyLine a line = .ok a' ↔
      ∃ orig rest, a.rest = orig :: rest ∧ stripTerminator orig = line.content ∧
        a' = a.advance (hunkOut [line] [orig]) rest 1 0 (countKind .remove [line]) 0 := by
  have htake : ∀ orig rest, a.rest = orig :: rest → stripTerminator orig = line.content →
      applyLine a line = .ok (a.advance (hunkOut [line] [orig]) rest 1 0 (countKind .remove [line]) 0) := by
    intro orig rest hrest heq
    obtain ⟨kind, content⟩ := line
    unfold applyLine
    rw [hrest]
    cases kind with
    | add => cases h
    | context => simp [show stripTerminator orig = content from heq, advance, hunkOut, countKind]
    | remove => simp [show stripTerminator orig = content from heq, advance, hunkOut, countKind]
  constructor
  · intro hok
    cases hrest : a.rest with
    | nil =>
      obtain ⟨kind, content⟩ := line
      unfold applyLine at hok
      rw [hrest] at hok
      cases kind with
      | add => cases h
      | context => cases hok
      | remove => cases hok
    | cons orig rest =>
      have heq : stripTerminator orig = line.content := by
        by_contra hne
        obtain ⟨kind, content⟩ := line
        unfold applyLine at hok
        rw [hrest] at hok
        cases kind with
        | add => cases h
        | context => simp [show stripTerminator orig ≠ content from hne] at hok
        | remove => simp [show stripTerminator orig ≠ content from hne] at hok
      refine ⟨orig, rest, rfl, heq, ?_⟩
      rw [htake orig rest hrest heq] at hok
      exact (Except.ok.inj hok).symm
  · rintro ⟨orig, rest, hrest, heq, rfl⟩
    exact htake orig rest hrest heq

theorem advance_advance (a : DiffApplier) (out out' rest rest' : List Str) (taken taken' added added' removed removed'
    hunks hunks' : ℕ) :
    (a.advance out rest taken added removed hunks).advance out' rest' taken' added' removed' hunks' =
      a.advance (out ++ out') rest' (taken + taken') (added + added') (removed + removed') (hunks + hunks') := by
  simp [advance, Nat.add_assoc]

theorem countKind_cons (kind : HunkLineKind) (line : HunkLine) (lines : List HunkLine) :
    countKind kind (line :: lines) = countKind kind [line] + countKind kind lines := by
  unfold countKind
  rw [← List.singleton_append, List.countP_append]

theorem kind_of_not_old {line : HunkLine} (h : line.isOld = false) : line = ⟨.add, line.content⟩ := by
  obtain ⟨kind, content⟩ := line
  cases kind with
  | add => rfl
  | context => cases h
  | remove => cases h

theorem countKind_add_old {line : HunkLine} (h : line.isOld = true) (lines : List HunkLine) :
    countKind .add (line :: lines) = countKind .add lines := by
  obtain ⟨kind, content⟩ := line
  cases kind with
  | add => cases h
  | context => simp [countKind]
  | remove => simp [countKind]

theorem oldContents_old {line : HunkLine} (h : line.isOld = true) (lines : List HunkLine) :
    oldContents (line :: lines) = line.content :: oldContents lines := by
  unfold oldContents
  rw [List.filter_cons_of_pos h, List.map_cons]

theorem hunkOut_old {line : HunkLine} (h : line.isOld = true) (lines : List HunkLine) (orig : Str) (taken : List Str) :
    hunkOut (line :: lines) (orig :: taken) = hunkOut [line] [orig] ++ hunkOut lines taken := by
  obtain ⟨kind, content⟩ := line
  cases kind with
  | add => cases h
  | context => rfl
  | remove => rfl

/-- **The lines of a hunk**: each context line and each removed one takes the next line of
the text, which has its content. -/
theorem foldlM_applyLine_ok : ∀ {lines : List HunkLine} {a a' : DiffApplier}, lines.foldlM applyLine a = .ok a' ↔
    ∃ taken rest, a.rest = taken ++ rest ∧ taken.map stripTerminator = oldContents lines ∧
      a' = a.advance (hunkOut lines taken) rest taken.length (countKind .add lines) (countKind .remove lines) 0 := by
  intro lines
  induction lines with
  | nil =>
    intro a a'
    constructor
    · intro h
      obtain rfl := Except.ok.inj h
      exact ⟨[], a.rest, rfl, rfl, by simp [advance, hunkOut, countKind]⟩
    · rintro ⟨taken, rest, hrest, hmap, rfl⟩
      obtain rfl : taken = [] := List.map_eq_nil_iff.mp hmap
      show Except.ok a = _
      rw [← List.nil_append rest, ← hrest]
      simp [advance, hunkOut, countKind]
  | cons line lines ih =>
    intro a a'
    rw [List.foldlM_cons, except_bind_ok]
    cases hkind : line.isOld with
    | false =>
      rw [kind_of_not_old hkind]
      generalize line.content = content
      have hold : oldContents (⟨.add, content⟩ :: lines) = oldContents lines := rfl
      have hcount : countKind .add (⟨.add, content⟩ :: lines) = 1 + countKind .add lines := countKind_cons .add _ lines
      have hcount' : countKind .remove (⟨.add, content⟩ :: lines) = countKind .remove lines := by simp [countKind]
      constructor
      · rintro ⟨a₁, h₁, h₂⟩
        rw [applyLine_add] at h₁
        obtain rfl := Except.ok.inj h₁
        obtain ⟨taken, rest, hrest, hmap, rfl⟩ := ih.mp h₂
        refine ⟨taken, rest, hrest, hmap.trans hold.symm, ?_⟩
        rw [advance_advance, hcount, hcount']
        simp [hunkOut]
      · rintro ⟨taken, rest, hrest, hmap, rfl⟩
        refine ⟨_, applyLine_add a content, ih.mpr ⟨taken, rest, hrest, hmap.trans hold, ?_⟩⟩
        rw [advance_advance, hcount, hcount']
        simp [hunkOut]
    | true =>
      have hcount := countKind_add_old hkind lines
      have hcount' := countKind_cons .remove line lines
      constructor
      · rintro ⟨a₁, h₁, h₂⟩
        obtain ⟨orig, rest₁, hrest₁, heq, rfl⟩ := (applyLine_old hkind).mp h₁
        obtain ⟨taken, rest, hrest, hmap, rfl⟩ := ih.mp h₂
        have hrest' : rest₁ = taken ++ rest := hrest
        refine ⟨orig :: taken, rest, by rw [hrest₁, hrest']; rfl, by rw [List.map_cons, heq, hmap, oldContents_old hkind], ?_⟩
        rw [advance_advance, hunkOut_old hkind lines, hcount, hcount', List.length_cons]
        simp [Nat.add_comm]
      · rintro ⟨taken, rest, hrest, hmap, rfl⟩
        rw [oldContents_old hkind] at hmap
        obtain ⟨orig, taken, rfl, heq, hmap⟩ := List.map_eq_cons_iff.mp hmap
        refine ⟨_, (applyLine_old hkind).mpr ⟨orig, taken ++ rest, hrest, heq, rfl⟩, ih.mpr ⟨taken, rest, rfl, hmap, ?_⟩⟩
        rw [advance_advance, hunkOut_old hkind lines, hcount, hcount', List.length_cons]
        simp [Nat.add_comm]

/-- **One hunk**: the lines up to its start are copied, its own are taken from there. -/
theorem applyHunk_ok {total : ℕ} {a a' : DiffApplier} {hunk : Hunk} : applyHunk total a hunk = .ok a' ↔
    ∃ gap taken rest, gap.length = hunk.oldStart - 1 - a.origPos ∧ a.rest = gap ++ taken ++ rest ∧
      taken.map stripTerminator = oldContents hunk.lines ∧
      a' = a.advance (gap ++ hunkOut hunk.lines taken) rest (gap.length + taken.length) (countKind .add hunk.lines)
        (countKind .remove hunk.lines) 1 := by
  unfold applyHunk
  rw [except_bind_ok]
  constructor
  · rintro ⟨a₁, h₁, h₂⟩
    obtain ⟨gap, rest₁, hgap, hrest₁, rfl⟩ := copyLines_ok.mp h₁
    obtain ⟨a₂, h₃, h₄⟩ := except_bind_ok.mp h₂
    obtain ⟨taken, rest, hrest, hmap, rfl⟩ := foldlM_applyLine_ok.mp h₃
    obtain rfl := Except.ok.inj h₄
    have hrest' : rest₁ = taken ++ rest := hrest
    refine ⟨gap, taken, rest, hgap, by rw [hrest₁, hrest', List.append_assoc], hmap, ?_⟩
    rw [advance_advance, ← hgap]
    simp [advance]
  · rintro ⟨gap, taken, rest, hgap, hrest, hmap, rfl⟩
    rw [List.append_assoc] at hrest
    refine ⟨_, copyLines_ok.mpr ⟨gap, taken ++ rest, hgap, hrest, rfl⟩, ?_⟩
    refine except_bind_ok.mpr ⟨_, foldlM_applyLine_ok.mpr ⟨taken, rest, rfl, hmap, rfl⟩, ?_⟩
    rw [advance_advance, ← hgap]
    simp [advance]

/-- Where a hunk is applied: at the position reached, or at its start, if that is later. -/
theorem applyHunk_at {total : ℕ} {a a' : DiffApplier} {hunk : Hunk} {orig : List Str} (hrest : a.rest = orig.drop a.origPos)
    (h : applyHunk total a hunk = .ok a') :
    (∀ i content, (oldContents hunk.lines)[i]? = some content →
      (orig[max a.origPos (hunk.oldStart - 1) + i]?).map stripTerminator = some content) ∧
    a'.origPos = max a.origPos (hunk.oldStart - 1) + (oldContents hunk.lines).length ∧
    a'.rest = orig.drop a'.origPos := by
  obtain ⟨gap, taken, rest, hgap, hcut, hmap, rfl⟩ := applyHunk_ok.mp h
  have hstart : a.origPos + gap.length = max a.origPos (hunk.oldStart - 1) := by omega
  have hdrop : orig.drop (max a.origPos (hunk.oldStart - 1)) = taken ++ rest := by
    rw [← hstart, ← List.drop_drop, ← hrest, hcut, List.append_assoc, List.drop_left]
  have hlen : taken.length = (oldContents hunk.lines).length := by rw [← hmap, List.length_map]
  refine ⟨?_, ?_, ?_⟩
  · intro i content hi
    rw [← hmap, List.getElem?_map] at hi
    rw [← List.getElem?_drop, hdrop]
    obtain ⟨orig', horig, hcontent⟩ := Option.map_eq_some_iff.mp hi
    have hlt : i < taken.length := by
      by_contra hge
      rw [List.getElem?_eq_none (by omega)] at horig
      cases horig
    rw [List.getElem?_append_left hlt, horig]
    exact congrArg some hcontent
  · show a.origPos + (gap.length + taken.length) = _
    omega
  · show rest = orig.drop (a.origPos + (gap.length + taken.length))
    rw [← Nat.add_assoc, ← List.drop_drop, hstart, hdrop, List.drop_left]

end DiffApplier

/-! ## All hunks -/

/-- Each context line and each removed one is the line of the text that the hunk says. -/
def AppliedAsDeclared (orig : List Str) (hunk : Hunk) : Prop :=
  ∀ i content, (oldContents hunk.lines)[i]? = some content →
    1 ≤ hunk.oldStart ∧ (orig[hunk.oldStart - 1 + i]?).map stripTerminator = some content

/-- A hunk with context or removed lines starts behind the lines of those before it. -/
def HunksInOrder : ℕ → List Hunk → Prop
  | _, [] => True
  | covered, hunk :: hunks =>
    (oldContents hunk.lines ≠ [] → covered < hunk.oldStart) ∧
      HunksInOrder (max covered (hunk.oldStart - 1) + (oldContents hunk.lines).length) hunks

open DiffApplier in
theorem hunksInOrder_declared {total : ℕ} {orig : List Str} : ∀ {hunks : List Hunk} {a a' : DiffApplier},
    a.rest = orig.drop a.origPos → hunks.foldlM (applyHunk total) a = .ok a' →
    (HunksInOrder a.origPos hunks → ∀ hunk ∈ hunks, AppliedAsDeclared orig hunk) ∧
      ((orig.map stripTerminator).Nodup → (∀ hunk ∈ hunks, AppliedAsDeclared orig hunk) →
        HunksInOrder a.origPos hunks) := by
  intro hunks
  induction hunks with
  | nil => exact fun _ _ => ⟨fun _ _ h => (nomatch h), fun _ _ => trivial⟩
  | cons hunk hunks ih =>
    intro a a' hrest hok
    rw [List.foldlM_cons, except_bind_ok] at hok
    obtain ⟨a₁, h₁, h₂⟩ := hok
    obtain ⟨htaken, hpos, hrest₁⟩ := applyHunk_at hrest h₁
    have hlater := ih hrest₁ h₂
    rw [hpos] at hlater
    constructor
    · rintro ⟨hstart, hrestOrder⟩ h hmem
      rcases List.mem_cons.mp hmem with rfl | hmem
      · intro i content hi
        have hne : oldContents h.lines ≠ [] := fun hnil => by rw [hnil] at hi; cases hi
        have hlt := hstart hne
        have hplace : max a.origPos (h.oldStart - 1) = h.oldStart - 1 := by omega
        have := htaken i content hi
        rw [hplace] at this
        exact ⟨by omega, this⟩
      · exact hlater.1 hrestOrder h hmem
    · intro hnodup hdeclared
      refine ⟨?_, hlater.2 hnodup fun h hmem => hdeclared h (List.mem_cons_of_mem _ hmem)⟩
      intro hne
      obtain ⟨content, contents, hcons⟩ := List.exists_cons_of_ne_nil hne
      have hfirst : (oldContents hunk.lines)[0]? = some content := by rw [hcons]; rfl
      obtain ⟨hstart, hat⟩ := hdeclared hunk List.mem_cons_self 0 content hfirst
      have hat' := htaken 0 content hfirst
      -- the same line stands at both places
      rw [← List.getElem?_map] at hat hat'
      obtain ⟨hlt, hget⟩ := List.getElem?_eq_some_iff.mp hat
      obtain ⟨hlt', hget'⟩ := List.getElem?_eq_some_iff.mp hat'
      have hsame := (List.Nodup.getElem_inj_iff hnodup).mp (hget.trans hget'.symm)
      omega

/-- **A diff is applied where it says if its hunks are in order**; and only then, on a text
in which no line is repeated. -/
theorem diff_applied_where_declared {original diff : Str} {result : Str × DiffSummary}
    (h : applyUnifiedDiff original diff = .ok result) :
    ∃ hunks, parseHunks diff = .ok hunks ∧
      (HunksInOrder 0 hunks → ∀ hunk ∈ hunks, AppliedAsDeclared (splitLinesKeepTerminator original) hunk) ∧
      (((splitLinesKeepTerminator original).map stripTerminator).Nodup →
        (∀ hunk ∈ hunks, AppliedAsDeclared (splitLinesKeepTerminator original) hunk) → HunksInOrder 0 hunks) := by
  obtain ⟨hunks, hparse, h⟩ := except_bind_ok.mp h
  refine ⟨hunks, hparse, ?_⟩
  cases hempty : hunks.isEmpty with
  | true =>
    rw [hempty] at h
    cases h
  | false =>
    rw [hempty] at h
    obtain ⟨a, hfold, -⟩ := except_bind_ok.mp h
    exact hunksInOrder_declared rfl hfold

/-- A text of three lines. -/
def threeLines : Str := "a\nb\nc\n".toList

theorem diff_applied_where_declared_second :
    ∃ hunks, parseHunks "@@ -2,1 +2,1 @@\n-b\n+B\n".toList = .ok hunks ∧
      (HunksInOrder 0 hunks → ∀ hunk ∈ hunks, AppliedAsDeclared (splitLinesKeepTerminator threeLines) hunk) ∧
      (((splitLinesKeepTerminator threeLines).map stripTerminator).Nodup →
        (∀ hunk ∈ hunks, AppliedAsDeclared (splitLinesKeepTerminator threeLines) hunk) → HunksInOrder 0 hunks) := by
  have hok : applyUnifiedDiff threeLines "@@ -2,1 +2,1 @@\n-b\n+B\n".toList = .ok ("a\nB\nc\n".toList, ⟨1, 1, 1⟩) := by
    decide +kernel
  exact diff_applied_where_declared hok

/-- A second hunk that says line 1 is applied to line 3. -/
theorem diff_misapplied : ¬ ∀ original diff result, applyUnifiedDiff original diff = .ok result →
    ∃ hunks, parseHunks diff = .ok hunks ∧
      ∀ hunk ∈ hunks, AppliedAsDeclared (splitLinesKeepTerminator original) hunk := by
  intro hall
  have hok : applyUnifiedDiff threeLines "@@ -2,1 +2,1 @@\n-b\n+B\n@@ -1,1 +1,2 @@\n c\n+d\n".toList =
      .ok ("a\nB\nc\nd\n".toList, ⟨2, 1, 2⟩) := by decide +kernel
  obtain ⟨hunks, hparse, hdeclared⟩ := hall _ _ _ hok
  have hhunks : parseHunks "@@ -2,1 +2,1 @@\n-b\n+B\n@@ -1,1 +1,2 @@\n c\n+d\n".toList =
      .ok [⟨2, 1, [⟨.remove, ['b']⟩, ⟨.add, ['B']⟩]⟩, ⟨1, 1, [⟨.context, ['c']⟩, ⟨.add, ['d']⟩]⟩] := by decide +kernel
  rw [hhunks] at hparse
  obtain rfl := Except.ok.inj hparse
  have h := (hdeclared _ (List.mem_cons_of_mem _ List.mem_cons_self) 0 ['c'] rfl).2
  exact absurd h (by decide +kernel)

end Zeptoclaw

import Zeptoclaw.Lib.TextLines
import Zeptoclaw.Proof.DiffRender

/-!
# The lines of a patched text

A diff that applies says which lines the text has afterwards (`newLines`): lines of the text that it keeps, and lines it
adds. They are put together with the ends they have, so two of them become one where the first has none
(`patched_lines_iff`). A hunk without old lines is applied before the line that it names, not behind it
(`inserted_after_iff`).
-/

namespace Zeptoclaw

open Text

/-- A line of the patched text. -/
inductive NewLine where
  -- a line of the text, with its end
  | kept (segment : Str)
  | added (content : Str)

namespace NewLine

/-- What the line should say. -/
def text : NewLine → Str
  | kept segment => body segment
  | added content => content

/-- The line has an end of its own: no newline is put to an added one that ends with a carriage return. -/
def Ended : NewLine → Prop
  | kept segment => EndsLine segment
  | added content => content.getLast? ≠ some '\r'

/-- The line as it is put out. -/
def out : NewLine → Str
  | kept segment => segment
  | added content => DiffApplier.terminate content

/-- A line of a text, or one of a diff. -/
def Valid : NewLine → Prop
  | kept segment => IsPiece segment
  | added content => '\n' ∉ content

end NewLine

/-- What a hunk makes of the lines it takes. -/
def hunkNew : List HunkLine → List Str → List NewLine
  | [], _ => []
  | ⟨.add, content⟩ :: lines, taken => .added content :: hunkNew lines taken
  | ⟨.context, _⟩ :: lines, segment :: taken => .kept segment :: hunkNew lines taken
  | ⟨.remove, _⟩ :: lines, _ :: taken => hunkNew lines taken
  | ⟨.context, _⟩ :: _, [] => []
  | ⟨.remove, _⟩ :: _, [] => []

/-- The lines of the text from a position on, with each hunk's removed lines dropped and its added ones put in: at its
start, or behind the hunk before, if that is later. -/
def newLines : ℕ → List Str → List Hunk → List NewLine
  | _, rest, [] => rest.map .kept
  | pos, rest, hunk :: hunks =>
    let gap := hunk.oldStart - 1 - pos
    let count := (oldContents hunk.lines).length
    (rest.take gap).map .kept ++ hunkNew hunk.lines ((rest.drop gap).take count) ++
      newLines (pos + (gap + count)) (rest.drop (gap + count)) hunks

/-! ## What is put out -/

section Applied

theorem hunkOut_eq (lines : List HunkLine) (taken : List Str) : hunkOut lines taken = (hunkNew lines taken).map NewLine.out := by
  fun_induction hunkNew lines taken with
  | case1 => rfl
  | case2 taken content lines ih => exact congrArg _ ih
  | case3 content lines segment taken ih => exact congrArg _ ih
  | case4 content lines segment taken ih => exact ih
  | case5 => rfl
  | case6 => rfl

theorem foldlM_newLines {total : ℕ} {hunks : List Hunk} {a a' : DiffApplier}
    (h : hunks.foldlM (DiffApplier.applyHunk total) a = .ok a') :
    a'.out ++ a'.rest = a.out ++ (newLines a.origPos a.rest hunks).map NewLine.out := by
  induction hunks generalizing a with
  | nil =>
    obtain rfl := Except.ok.inj h
    rw [newLines, List.map_map]
    exact congrArg _ (List.map_id _).symm
  | cons hunk hunks ih =>
    rw [List.foldlM_cons] at h
    obtain ⟨a₁, h₁, h₂⟩ := except_bind_ok.mp h
    obtain ⟨gap, taken, rest, hgap, hrest, hmap, rfl⟩ := DiffApplier.applyHunk_ok.mp h₁
    have hcount : (oldContents hunk.lines).length = taken.length := by rw [← hmap, List.length_map]
    have htake : a.rest.take gap.length = gap := by rw [hrest, List.append_assoc, List.take_left]
    have hdrop : a.rest.drop gap.length = taken ++ rest := by rw [hrest, List.append_assoc, List.drop_left]
    rw [ih h₂, newLines, ← hgap, hcount]
    dsimp only [DiffApplier.advance]
    rw [htake, ← List.drop_drop, hdrop, List.take_left, List.drop_left, hunkOut_eq]
    simp only [List.map_append, List.map_map, List.append_assoc]
    congr 2
    exact (List.map_id _).symm

/-- The text that a diff gives. -/
theorem applyUnifiedDiff_newLines {original diff : Str} {result : Str × DiffSummary}
    (h : applyUnifiedDiff original diff = .ok result) : ∃ hunks, parseHunks diff = .ok hunks ∧
      result.1 = ((newLines 0 (splitInclusive original) hunks).map NewLine.out).flatten := by
  unfold applyUnifiedDiff at h
  obtain ⟨hunks, hparse, h⟩ := except_bind_ok.mp h
  split at h
  · cases h
  unfold applyHunks at h
  obtain ⟨a, hfold, h⟩ := except_bind_ok.mp h
  obtain rfl := Except.ok.inj h
  exact ⟨hunks, hparse, congrArg List.flatten (foldlM_newLines hfold)⟩

end Applied

/-! ## Lines of a text and of a diff -/

section Valid

theorem mem_hunkNew {lines : List HunkLine} {taken : List Str} : ∀ {l : NewLine}, l ∈ hunkNew lines taken →
    (∃ segment ∈ taken, l = .kept segment) ∨ ∃ line ∈ lines, l = .added line.content := by
  fun_induction hunkNew lines taken with
  | case1 => exact fun hl => nomatch hl
  | case2 taken content lines ih =>
    intro l hl
    rcases List.mem_cons.mp hl with rfl | hl
    · exact .inr ⟨_, List.mem_cons_self, rfl⟩
    · exact (ih hl).imp id fun ⟨line, hline, heq⟩ => ⟨line, List.mem_cons_of_mem _ hline, heq⟩
  | case3 content lines segment taken ih =>
    intro l hl
    rcases List.mem_cons.mp hl with rfl | hl
    · exact .inl ⟨_, List.mem_cons_self, rfl⟩
    · exact (ih hl).imp (fun ⟨s, hs, heq⟩ => ⟨s, List.mem_cons_of_mem _ hs, heq⟩)
        fun ⟨line, hline, heq⟩ => ⟨line, List.mem_cons_of_mem _ hline, heq⟩
  | case4 content lines segment taken ih =>
    intro l hl
    exact (ih hl).imp (fun ⟨s, hs, heq⟩ => ⟨s, List.mem_cons_of_mem _ hs, heq⟩)
      fun ⟨line, hline, heq⟩ => ⟨line, List.mem_cons_of_mem _ hline, heq⟩
  | case5 => exact fun hl => nomatch hl
  | case6 => exact fun hl => nomatch hl

theorem mem_newLines {hunks : List Hunk} : ∀ {pos : ℕ} {rest : List Str} {l : NewLine}, l ∈ newLines pos rest hunks →
    (∃ segment ∈ rest, l = .kept segment) ∨ ∃ hunk ∈ hunks, ∃ line ∈ hunk.lines, l = .added line.content := by
  induction hunks with
  | nil =>
    intro pos rest l hl
    obtain ⟨segment, hmem, rfl⟩ := List.mem_map.mp hl
    exact .inl ⟨segment, hmem, rfl⟩
  | cons hunk hunks ih =>
    intro pos rest l hl
    rw [newLines, List.mem_append, List.mem_append] at hl
    obtain (hl | hl) | hl := hl
    · obtain ⟨segment, hmem, rfl⟩ := List.mem_map.mp hl
      exact .inl ⟨segment, List.mem_of_mem_take hmem, rfl⟩
    · obtain ⟨segment, hmem, rfl⟩ | ⟨line, hline, rfl⟩ := mem_hunkNew hl
      · exact .inl ⟨segment, List.mem_of_mem_drop (List.mem_of_mem_take hmem), rfl⟩
      · exact .inr ⟨hunk, List.mem_cons_self, line, hline, rfl⟩
    · obtain ⟨segment, hmem, rfl⟩ | ⟨h, hh, line, hline, rfl⟩ := ih hl
      · exact .inl ⟨segment, List.mem_of_mem_drop hmem, rfl⟩
      · exact .inr ⟨h, List.mem_cons_of_mem _ hh, line, hline, rfl⟩

/-- The hunks that are read have lines. -/
def HunkParser.OneLine (p : HunkParser) : Prop :=
  ∀ h ∈ p.hunks ++ p.current.toList, ∀ l ∈ h.lines, '\n' ∉ l.content

theorem parseHunkLine_content {raw : Str} {line : HunkLine} (h : parseHunkLine raw = some line) : ∃ c, raw = c :: line.content := by
  unfold parseHunkLine at h
  split at h
  · obtain rfl := Option.some.inj h; exact ⟨_, rfl⟩
  · obtain rfl := Option.some.inj h; exact ⟨_, rfl⟩
  · obtain rfl := Option.some.inj h; exact ⟨_, rfl⟩
  · cases h

theorem HunkParser.flush_eq {p : HunkParser} {hunks : List Hunk} (h : p.flush = .ok hunks) :
    hunks = p.hunks ++ p.current.toList := by
  unfold HunkParser.flush at h
  cases hcurrent : p.current with
  | none =>
    rw [hcurrent] at h
    rw [← Except.ok.inj h]
    exact (List.append_nil _).symm
  | some hunk =>
    rw [hcurrent] at h
    dsimp only at h
    cases hvalid : validateHunk hunk with
    | error e =>
      rw [hvalid] at h
      cases h
    | ok u =>
      rw [hvalid] at h
      exact (Except.ok.inj h).symm

theorem HunkParser.line_oneLine {p p' : HunkParser} {raw : Str} (hraw : '\n' ∉ raw) (hp : p.OneLine)
    (h : p.line raw = .ok p') : p'.OneLine := by
  unfold HunkParser.line at h
  split at h
  · -- a header begins a hunk without lines
    obtain ⟨hunks, hflush, h⟩ := except_bind_ok.mp h
    obtain ⟨range, -, h⟩ := except_bind_ok.mp h
    obtain rfl := Except.ok.inj h
    rw [HunkParser.flush_eq hflush]
    intro hunk hmem
    rcases List.mem_append.mp hmem with hmem | hmem
    · exact hp hunk hmem
    · rw [List.mem_singleton.mp hmem]
      exact fun l hl => nomatch hl
  · split at h
    · next hunk line hcurrent hparse =>
      obtain rfl := Except.ok.inj h
      intro hunk' hmem
      rcases List.mem_append.mp hmem with hmem | hmem
      · exact hp hunk' (List.mem_append_left _ hmem)
      · rw [List.mem_singleton.mp hmem]
        intro l hl
        rcases List.mem_append.mp hl with hl | hl
        · exact hp hunk (List.mem_append_right _ (by rw [hcurrent]; exact List.mem_singleton_self _)) l hl
        · obtain ⟨c, rfl⟩ := parseHunkLine_content hparse
          rw [List.mem_singleton.mp hl]
          exact fun hmem => hraw (List.mem_cons_of_mem _ hmem)
    · obtain rfl := Except.ok.inj h
      exact hp

theorem parseHunks_oneLine {diff : Str} {hunks : List Hunk} (h : parseHunks diff = .ok hunks) :
    ∀ hunk ∈ hunks, ∀ l ∈ hunk.lines, '\n' ∉ l.content := by
  have hfold : ∀ (ls : List Str) (p p' : HunkParser), (∀ l ∈ ls, '\n' ∉ l) → p.OneLine →
      ls.foldlM HunkParser.line p = .ok p' → p'.OneLine := by
    intro ls
    induction ls with
    | nil =>
      intro p p' _ hp h
      obtain rfl := Except.ok.inj h
      exact hp
    | cons l ls ih =>
      intro p p' hls hp h
      rw [List.foldlM_cons] at h
      obtain ⟨p₁, h₁, h₂⟩ := except_bind_ok.mp h
      exact ih p₁ p' (fun l' hl' => hls l' (List.mem_cons_of_mem _ hl'))
        (HunkParser.line_oneLine (hls l List.mem_cons_self) hp h₁) h₂
  unfold parseHunks at h
  obtain ⟨p, hp, hflush⟩ := except_bind_ok.mp h
  have hone := hfold _ _ p (fun l hl => newline_notMem_lines hl) (by intro hunk hmem; cases hmem) hp
  rw [HunkParser.flush_eq hflush]
  exact hone

theorem newLines_valid (original : Str) {diff : Str} {hunks : List Hunk} (hparse : parseHunks diff = .ok hunks) :
    ∀ l ∈ newLines 0 (splitInclusive original) hunks, l.Valid := by
  intro l hl
  obtain ⟨segment, hmem, rfl⟩ | ⟨hunk, hmem, line, hline, rfl⟩ := mem_newLines hl
  · exact isPiece_of_mem hmem
  · exact parseHunks_oneLine hparse hunk hmem line hline

end Valid

/-! ## Lines put together -/

namespace NewLine

variable {l : NewLine}

theorem out_piece (h : l.Valid) : IsPiece l.out ∧ body l.out = l.text ∧ (EndsLine l.out ↔ l.Ended) := by
  cases l with
  | kept segment => exact ⟨h, rfl, Iff.rfl⟩
  | added content =>
    have hline : '\n' ∉ content := h
    have hlast : content.getLast? ≠ some '\n' := fun heq => hline (List.mem_of_getLast? heq)
    show IsPiece (DiffApplier.terminate content) ∧ body (DiffApplier.terminate content) = content ∧
      (EndsLine (DiffApplier.terminate content) ↔ content.getLast? ≠ some '\r')
    unfold DiffApplier.terminate
    by_cases hcr : content.getLast? = some '\r'
    · have hne : content ≠ [] := by
        rintro rfl
        cases hcr
      rw [if_neg fun hc => hc.2 hcr]
      exact ⟨isPiece_last hline hne, if_neg hlast, iff_of_false hlast fun hc => hc hcr⟩
    · rw [if_pos ⟨hlast, hcr⟩]
      refine ⟨isPiece_line hline, ?_, iff_of_true (endsLine_concat content) hcr⟩
      unfold body
      rw [if_pos (endsLine_concat content), List.dropLast_concat]

end NewLine

section Together

variable {ls : List NewLine}

theorem isPiece_out (hls : ∀ l ∈ ls, l.Valid) : ∀ p ∈ ls.map NewLine.out, IsPiece p := by
  intro p hp
  obtain ⟨l, hl, rfl⟩ := List.mem_map.mp hp
  exact (NewLine.out_piece (hls l hl)).1

theorem bodies_newLines_iff (hls : ∀ l ∈ ls, l.Valid) :
    bodies (ls.map NewLine.out).flatten = ls.map NewLine.text ↔ ∀ l ∈ ls.dropLast, l.Ended := by
  have htexts : (ls.map NewLine.out).map body = ls.map NewLine.text := by
    rw [List.map_map]
    exact List.map_congr_left fun l hl => (NewLine.out_piece (hls l hl)).2.1
  have hends : ∀ l ∈ ls.dropLast, (EndsLine l.out ↔ l.Ended) := fun l hl =>
    (NewLine.out_piece (hls l (List.dropLast_subset _ hl))).2.2
  rw [← htexts, bodies_flatten_iff (isPiece_out hls), ← List.map_dropLast]
  constructor
  · intro h l hl
    exact (hends l hl).mp (h _ (List.mem_map_of_mem hl))
  · intro h p hp
    obtain ⟨l, hl, rfl⟩ := List.mem_map.mp hp
    exact (hends l hl).mpr (h l hl)

/-- If there are as many lines as there should be, they are the right ones. -/
theorem bodies_newLines_of_length (hls : ∀ l ∈ ls, l.Valid)
    (hlen : (bodies (ls.map NewLine.out).flatten).length = ls.length) :
    bodies (ls.map NewLine.out).flatten = ls.map NewLine.text := by
  have hpieces := isPiece_out hls
  rw [(bodies_flatten_iff hpieces).mpr (endsLine_of_length hpieces (by rw [hlen, List.length_map])), List.map_map]
  exact List.map_congr_left fun l hl => (NewLine.out_piece (hls l hl)).2.1

end Together

/-- **Lines are fused exactly where one without an end is followed by another**: the last line of a text without a final
newline, or an added line that ends with a carriage return. -/
theorem patched_lines_iff {original diff : Str} {result : Str × DiffSummary}
    (h : applyUnifiedDiff original diff = .ok result) : ∃ hunks, parseHunks diff = .ok hunks ∧
      (bodies result.1 = (newLines 0 (splitInclusive original) hunks).map NewLine.text ↔
        ∀ l ∈ (newLines 0 (splitInclusive original) hunks).dropLast, l.Ended) := by
  obtain ⟨hunks, hparse, hout⟩ := applyUnifiedDiff_newLines h
  refine ⟨hunks, hparse, ?_⟩
  rw [hout]
  exact bodies_newLines_iff (newLines_valid original hparse)

theorem patched_lines_iff_replaced : ∃ hunks, parseHunks "@@ -2,1 +2,1 @@\n-b\n+c\n".toList = .ok hunks ∧
    (bodies "a\nc\n".toList = (newLines 0 (splitInclusive "a\nb".toList) hunks).map NewLine.text ↔
      ∀ l ∈ (newLines 0 (splitInclusive "a\nb".toList) hunks).dropLast, l.Ended) := by
  have happly : applyUnifiedDiff "a\nb".toList "@@ -2,1 +2,1 @@\n-b\n+c\n".toList =
      .ok ("a\nc\n".toList, ⟨1, 1, 1⟩) := by decide +kernel
  exact patched_lines_iff happly

/-- A line is added behind the last one, which has no newline. -/
theorem patched_lines_fused : ¬ ∀ (original diff : Str) (result : Str × DiffSummary) (hunks : List Hunk),
    applyUnifiedDiff original diff = .ok result → parseHunks diff = .ok hunks →
      bodies result.1 = (newLines 0 (splitInclusive original) hunks).map NewLine.text := by
  intro hall
  have hlines := hall "b".toList "@@ -1,1 +1,2 @@\n b\n+x\n".toList ("bx\n".toList, ⟨1, 0, 1⟩)
    [⟨1, 1, [⟨.context, "b".toList⟩, ⟨.add, "x".toList⟩]⟩] (by decide +kernel) (by decide +kernel)
  exact absurd hlines (by decide +kernel)

/-! ## Hunks without old lines -/

/-- The header of a hunk that takes no line. -/
def insertionHeader (start newStart count : ℕ) (heading : Str) : Str :=
  "@@ -".toList ++ (showNat start ++ ',' :: showNat 0) ++ ' ' ::
    ('+' :: showNat newStart ++ ',' :: showNat count ++ " @@".toList ++ heading)

theorem prefix_insertionHeader {start newStart count : ℕ} {heading : Str} :
    "@@".toList <+: insertionHeader start newStart count heading := by
  have hmark : "@@".toList <+: "@@ -".toList := by decide
  exact hmark.trans ((List.prefix_append _ _).trans (List.prefix_append _ _))

/-- The diff has one hunk, `@@ -start,0 +newStart,k @@`, with `k` added lines. -/
def IsInsertion (diff : Str) (start : ℕ) (added : List Str) : Prop :=
  ∃ preamble newStart heading, (∀ l ∈ preamble, ¬ "@@".toList <+: l) ∧
    lines diff = preamble ++ insertionHeader start newStart added.length heading :: added.map ('+' :: ·)

/-- The lines are put in behind the line of that number, and nothing else is changed. -/
structure InsertedAfter (text : Str) (n : ℕ) (added : List Str) (out : Str) : Prop where
  line_exists : n ≤ (bodies text).length
  lines_eq : bodies out = (bodies text).take n ++ added ++ (bodies text).drop n

section Insertion

variable {diff text : Str} {start : ℕ} {added : List Str}

/-- The hunk as it is parsed. -/
def insertionHunk (start : ℕ) (added : List Str) : Hunk := ⟨start, 0, added.map (⟨.add, ·⟩)⟩

theorem oldContents_added (added : List Str) : oldContents (added.map (⟨.add, ·⟩)) = [] := by
  unfold oldContents
  rw [List.filter_map, List.map_map]
  have hnone : added.filter (HunkLine.isOld ∘ fun c => ⟨.add, c⟩) = [] := List.filter_eq_nil_iff.mpr fun c _ => by simp [HunkLine.isOld]
  rw [hnone]
  rfl

theorem parseHunks_insertion (h : IsInsertion diff start added) (hfits : start < 2 ^ 64) :
    parseHunks diff = .ok [insertionHunk start added] := by
  obtain ⟨preamble, newStart, heading, hpre, hlines⟩ := h
  have hheader : parseHunkHeader (insertionHeader start newStart added.length heading) = .ok (start, 0) :=
    parseHunkHeader_range (show ∃ c s, UnifiedHunk.showRange false start 0 = c :: s ∧ c.isDigit = true from showRange_head)
      (fun c hc => mem_showRange hc)
      (parseRange_showRange false hfits (by decide)) _
  have hmark : HunkParser.line ⟨[], none⟩ (insertionHeader start newStart added.length heading) =
      .ok ⟨[], some ⟨start, 0, []⟩⟩ := by
    unfold HunkParser.line
    rw [if_pos (List.isPrefixOf_iff_prefix.mpr prefix_insertionHeader), hheader]
    rfl
  have hadded : added.map ('+' :: ·) = (added.map (⟨.add, ·⟩)).map fun l : HunkLine => UnifiedHunk.mark l.kind :: l.content := by
    rw [List.map_map]
    rfl
  unfold parseHunks
  rw [hlines, List.foldlM_append, foldlM_preamble hpre]
  -- the header is an opaque line from here on
  generalize insertionHeader start newStart added.length heading = header at hmark
  show (List.foldlM HunkParser.line ⟨[], none⟩ (header :: _) >>= HunkParser.flush) = _
  rw [List.foldlM_cons, hmark, hadded]
  show (List.foldlM HunkParser.line ⟨[], some ⟨start, 0, []⟩⟩ _ >>= HunkParser.flush) = _
  rw [UnifiedHunk.foldlM_lines]
  rfl

/-- Added lines between lines of a text. -/
def addedBetween (front added back : List Str) : List NewLine := front.map .kept ++ added.map .added ++ back.map .kept

theorem newLines_insertion (segments : List Str) : newLines 0 segments [insertionHunk start added] =
    addedBetween (segments.take (start - 1)) added (segments.drop (start - 1)) := by
  have hnew : ∀ added : List Str, hunkNew (added.map (⟨.add, ·⟩)) [] = added.map .added := by
    intro added
    induction added with
    | nil => rfl
    | cons c added ih => exact congrArg _ ih
  unfold insertionHunk addedBetween
  simp only [newLines, oldContents_added, List.length_nil, List.take_zero, hnew, Nat.sub_zero, Nat.add_zero]

theorem addedBetween_text (front added back : List Str) :
    (addedBetween front added back).map NewLine.text = front.map body ++ (added ++ back.map body) := by
  simp [addedBetween, Function.comp_def, NewLine.text]

section Between

variable {front back : List Str} {segment : Str}

/-- What the application of the hunk gives: its lines come before the line that it names. -/
theorem apply_insertion (h : IsInsertion diff start added) (hfits : start < 2 ^ 64)
    (hsplit : splitInclusive text = front ++ segment :: back) (hfront : front.length = start - 1) :
    ∃ result, applyUnifiedDiff text diff = .ok result ∧
      result.1 = ((addedBetween front added (segment :: back)).map NewLine.out).flatten := by
  have hparse := parseHunks_insertion h hfits
  obtain ⟨a, ha⟩ : ∃ a, DiffApplier.applyHunk (splitInclusive text).length ⟨[], 0, splitInclusive text, ⟨0, 0, 0⟩⟩
      (insertionHunk start added) = .ok a := by
    refine ⟨_, DiffApplier.applyHunk_ok.mpr ⟨front, [], segment :: back, hfront, ?_, (oldContents_added added).symm, rfl⟩⟩
    rw [List.append_nil]
    exact hsplit
  have happly : applyUnifiedDiff text diff = .ok ((a.out ++ a.rest).flatten, a.summary) := by
    unfold applyUnifiedDiff
    rw [hparse]
    show applyHunks (splitInclusive text) [insertionHunk start added] = _
    unfold applyHunks
    rw [List.foldlM_cons]
    exact except_bind_ok.mpr ⟨a, except_bind_ok.mpr ⟨a, ha, rfl⟩, rfl⟩
  obtain ⟨hunks, hparse', hout⟩ := applyUnifiedDiff_newLines happly
  obtain rfl := Except.ok.inj (hparse.symm.trans hparse')
  refine ⟨_, happly, ?_⟩
  rw [hout, newLines_insertion, hsplit, ← hfront, List.take_left, List.drop_left]

/-- The lines of the text are ended before its last one. -/
theorem ended_of_mem_dropLast (hsplit : splitInclusive text = front ++ segment :: back) {l : NewLine}
    (hadded : ∀ c ∈ added, c.getLast? ≠ some '\r') (hl : l ∈ (addedBetween front added (segment :: back)).dropLast) :
    l.Ended := by
  have hends : ∀ p ∈ front ++ (segment :: back).dropLast, EndsLine p := by
    intro p hp
    refine endsLine_of_mem_dropLast (s := text) ?_
    rwa [hsplit, List.dropLast_append_of_ne_nil (List.cons_ne_nil _ _)]
  unfold addedBetween at hl
  rw [List.dropLast_append_of_ne_nil (by simp), ← List.map_dropLast, List.mem_append, List.mem_append] at hl
  obtain (hl | hl) | hl := hl
  · obtain ⟨p, hp, rfl⟩ := List.mem_map.mp hl
    exact hends p (List.mem_append_left _ hp)
  · obtain ⟨c, hc, rfl⟩ := List.mem_map.mp hl
    exact hadded c hc
  · obtain ⟨p, hp, rfl⟩ := List.mem_map.mp hl
    exact hends p (List.mem_append_right _ hp)

theorem bodies_around (hsplit : splitInclusive text = front ++ segment :: back) :
    bodies text = front.map body ++ body segment :: back.map body := by
  unfold bodies
  rw [hsplit, List.map_append, List.map_cons]

theorem bodies_at (hsplit : splitInclusive text = front ++ segment :: back) (hfront : front.length = start - 1) :
    (bodies text)[start - 1]? = some (body segment) := by
  rw [bodies_around hsplit, List.getElem?_append_right (by rw [List.length_map]; omega), List.length_map, hfront,
    Nat.sub_self]
  rfl

/-- The lines of the text with the added ones behind the named one. -/
theorem bodies_insert (hsplit : splitInclusive text = front ++ segment :: back) (hfront : front.length = start - 1)
    (hstart : 1 ≤ start) (added : List Str) : (bodies text).take start ++ added ++ (bodies text).drop start =
      front.map body ++ (body segment :: added ++ back.map body) := by
  have hlen : start = (front.map body ++ [body segment]).length := by
    rw [List.length_append, List.length_map, hfront, List.length_singleton]
    omega
  rw [bodies_around hsplit, List.append_cons, hlen, List.take_left, List.drop_left]
  simp only [List.append_assoc, List.cons_append, List.nil_append]

end Between

/-- The text before a line that it has, the line, and the text behind it. -/
theorem exists_line_cut (hle : start ≤ (bodies text).length) (hstart : 1 ≤ start) :
    ∃ front segment back, splitInclusive text = front ++ segment :: back ∧ front.length = start - 1 := by
  unfold bodies at hle
  rw [List.length_map] at hle
  have hlt : start - 1 < (splitInclusive text).length := by omega
  have hcut := List.take_append_drop (start - 1) (splitInclusive text)
  rw [List.drop_eq_getElem_cons hlt] at hcut
  exact ⟨_, _, _, hcut.symm, by rw [List.length_take]; omega⟩

/-- Equal lines can be put in on either side of a line. -/
theorem append_singleton_eq_cons {α : Type*} {l : List α} {b : α} : l ++ [b] = b :: l ↔ ∀ x ∈ l, x = b := by
  induction l with
  | nil => simp
  | cons x l ih =>
    rw [List.forall_mem_cons, ← ih, List.cons_append, List.cons.injEq]
    constructor
    · rintro ⟨rfl, h⟩
      exact ⟨rfl, h⟩
    · rintro ⟨rfl, h⟩
      exact ⟨rfl, h⟩

/-- **A hunk without old lines is applied before the line that it names**: what it adds stands behind this line only if it
is the same as the line. -/
theorem inserted_after_iff (h : IsInsertion diff start added) (hstart : 1 ≤ start) (hsize : (bodies text).length < 2 ^ 64) :
    (∃ result, applyUnifiedDiff text diff = .ok result ∧ InsertedAfter text start added result.1) ↔
      start ≤ (bodies text).length ∧ ∀ c ∈ added, (bodies text)[start - 1]? = some c ∧ c.getLast? ≠ some '\r' := by
  by_cases hle : start ≤ (bodies text).length
  swap
  · exact iff_of_false (fun ⟨_, _, hafter⟩ => hle hafter.line_exists) fun hc => hle hc.1
  obtain ⟨front, segment, back, hsplit, hfront⟩ := exists_line_cut hle hstart
  obtain ⟨result, hok, hout⟩ := apply_insertion h (by omega) hsplit hfront
  have hline := bodies_at hsplit hfront
  have hexpected := bodies_insert hsplit hfront hstart added
  have htexts : (addedBetween front added (segment :: back)).map NewLine.text =
      front.map body ++ (added ++ [body segment] ++ back.map body) := by
    rw [addedBetween_text]
    simp
  have hvalid : ∀ l ∈ addedBetween front added (segment :: back), l.Valid := by
    have hall := newLines_valid text (parseHunks_insertion h (by omega))
    rwa [newLines_insertion, hsplit, ← hfront, List.take_left, List.drop_left] at hall
  have hiff := bodies_newLines_iff hvalid
  have hcount := bodies_newLines_of_length hvalid
  rw [← hout, htexts] at hiff hcount
  constructor
  · rintro ⟨result', hok', hafter⟩
    obtain rfl := Except.ok.inj (hok.symm.trans hok')
    have hlines := hafter.lines_eq
    rw [hexpected] at hlines
    have hsame := hcount (by rw [hlines]; simp [addedBetween]; omega)
    have hended := hiff.mp hsame
    rw [hsame] at hlines
    have hrotate := List.append_cancel_right (List.append_cancel_left hlines)
    refine ⟨hle, fun c hc => ⟨?_, hended (.added c) ?_⟩⟩
    · rw [hline, append_singleton_eq_cons.mp hrotate c hc]
    · unfold addedBetween
      rw [List.dropLast_append_of_ne_nil (by simp)]
      exact List.mem_append_left _ (List.mem_append_right _ (List.mem_map_of_mem hc))
  · rintro ⟨-, hc⟩
    refine ⟨result, hok, hle, ?_⟩
    have hrotate : added ++ [body segment] = body segment :: added :=
      append_singleton_eq_cons.mpr fun c hmem => Option.some.inj ((hc c hmem).1.symm.trans hline)
    rw [hexpected, ← hrotate]
    exact hiff.mpr fun l hl => ended_of_mem_dropLast hsplit (fun c hmem => (hc c hmem).2) hl

end Insertion

/-- The diff that puts a line behind the first one. -/
def insertSecond : Str := "@@ -1,0 +2,1 @@\n+x\n".toList

theorem insertSecond_isInsertion : IsInsertion insertSecond 1 ["x".toList] :=
  ⟨[], 2, [], fun _ hl => (nomatch hl), by decide +kernel⟩

theorem inserted_after_iff_second :
    (∃ result, applyUnifiedDiff "a\nb\n".toList insertSecond = .ok result ∧
        InsertedAfter "a\nb\n".toList 1 ["x".toList] result.1) ↔
      1 ≤ (bodies "a\nb\n".toList).length ∧
        ∀ c ∈ ["x".toList], (bodies "a\nb\n".toList)[1 - 1]? = some c ∧ c.getLast? ≠ some '\r' :=
  inserted_after_iff insertSecond_isInsertion le_rfl (by decide +kernel)

/-- The line is put before the first one. -/
theorem inserted_before : ¬ ∀ (text diff : Str) (start : ℕ) (added : List Str), IsInsertion diff start added → 1 ≤ start →
    start ≤ (bodies text).length → ∃ result, applyUnifiedDiff text diff = .ok result ∧
      InsertedAfter text start added result.1 := by
  intro hall
  obtain ⟨result, hok, hafter⟩ := hall "a\nb\n".toList insertSecond 1 ["x".toList] insertSecond_isInsertion le_rfl
    (by decide +kernel)
  have hcode : applyUnifiedDiff "a\nb\n".toList insertSecond = .ok ("x\na\nb\n".toList, ⟨1, 0, 1⟩) := by decide +kernel
  obtain rfl := Except.ok.inj (hcode.symm.trans hok)
  exact absurd hafter.lines_eq (by decide +kernel)

end Zeptoclaw

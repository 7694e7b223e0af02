import Zeptoclaw.Proof.Diff

/-!
# Rendered diffs

A unified diff as a tool writes it (`renderDiff`), and what it is for: every hunk's old lines
are replaced by its new ones (`patched`, from the last hunk to the first, so that no
position moves). `diff_reference_iff`: the code does that exactly if no added line ends with
a carriage return, and no old one with two.
-/

namespace Zeptoclaw

/-- A hunk before it is rendered. -/
structure UnifiedHunk where
  oldStart : ℕ
  newStart : ℕ
  -- a count of one may be left out
  brief : Bool
  heading : Str
  lines : List HunkLine
  oneLine : '\n' ∉ heading ∧ ∀ l ∈ lines, '\n' ∉ l.content

namespace UnifiedHunk

variable (h : UnifiedHunk)

/-- What the hunk takes away, and what it puts there. -/
def oldLines : List Str := oldContents h.lines

def newLines : List Str := (h.lines.filter fun l => l.kind != .remove).map HunkLine.content

def showRange (brief : Bool) (start count : ℕ) : Str :=
  if brief ∧ count = 1 then showNat start else showNat start ++ ',' :: showNat count

def header : Str :=
  "@@ -".toList ++ showRange h.brief h.oldStart h.oldLines.length ++ " +".toList ++
    showRange h.brief h.newStart h.newLines.length ++ " @@".toList ++ h.heading

def mark : HunkLineKind → Char
  | .context => ' '
  | .remove => '-'
  | .add => '+'

def render : List Str := h.header :: h.lines.map fun l => mark l.kind :: l.content

/-- The hunk as it is parsed: one carriage return is lost from each line. -/
def parsed : Hunk := ⟨h.oldStart, h.oldLines.length, h.lines.map fun l => ⟨l.kind, Text.stripCr l.content⟩⟩

/-- The old lines of the hunk replaced by its new ones. -/
def splice (lines : List Str) : List Str :=
  lines.take (h.oldStart - 1) ++ h.newLines ++ lines.drop (h.oldStart - 1 + h.oldLines.length)

end UnifiedHunk

/-- The lines before the first hunk, and the hunks. -/
def renderDiff (preamble : List Str) (hunks : List UnifiedHunk) : Str :=
  Text.unlines (preamble ++ hunks.flatMap UnifiedHunk.render)

/-- The lines with every hunk spliced in. -/
def patched (lines : List Str) (hunks : List UnifiedHunk) : List Str := hunks.foldr UnifiedHunk.splice lines

/-- The hunks are a diff of the text: each has old lines, which stand where it says, and
they follow each other without overlap. -/
structure DiffOf (lines : List Str) (hunks : List UnifiedHunk) : Prop where
  nonempty : hunks ≠ []
  ordered : hunks.Pairwise fun h h' => h.oldStart + h.oldLines.length ≤ h'.oldStart
  placed : ∀ h ∈ hunks, h.oldLines ≠ [] ∧ 1 ≤ h.oldStart ∧
    (lines.drop (h.oldStart - 1)).take h.oldLines.length = h.oldLines

/-! ## Parsing what is rendered -/

theorem isWhitespace_of_isDigit {c : Char} (h : c.isDigit = true) : Text.isWhitespace c = false := by
  have hlo : 48 ≤ c.toNat := by
    simp [Char.isDigit] at h
    exact h.1
  have hhi : c.toNat ≤ 57 := by
    simp [Char.isDigit] at h
    exact h.2
  unfold Text.isWhitespace
  simp
  omega

theorem splitWhitespaceFrom_word : ∀ {word : Str}, (∀ c ∈ word, Text.isWhitespace c = false) → ∀ current s : Str,
    Text.splitWhitespaceFrom current (word ++ s) = Text.splitWhitespaceFrom (current ++ word) s := by
  intro word
  induction word with
  | nil => intro _ current s; rw [List.append_nil]; rfl
  | cons c word ih =>
    intro h current s
    have hc := h c List.mem_cons_self
    rw [List.cons_append, Text.splitWhitespaceFrom, if_neg (by rw [hc]; exact Bool.false_ne_true),
      ih fun d hd => h d (List.mem_cons_of_mem _ hd), List.append_assoc]
    rfl

/-- The first word of a text. -/
theorem splitWhitespace_word {word : Str} (hne : word ≠ []) (h : ∀ c ∈ word, Text.isWhitespace c = false) (s : Str) :
    Text.splitWhitespace (word ++ ' ' :: s) = word :: Text.splitWhitespace s := by
  unfold Text.splitWhitespace
  rw [splitWhitespaceFrom_word h, List.nil_append, Text.splitWhitespaceFrom, if_pos (by decide), if_neg hne]

theorem mem_showRange {brief : Bool} {start count : ℕ} {c : Char}
    (h : c ∈ UnifiedHunk.showRange brief start count) : c.isDigit = true ∨ c = ',' := by
  unfold UnifiedHunk.showRange at h
  split at h
  · exact .inl (Text.isDigit_of_mem_toString h)
  · rcases List.mem_append.mp h with h | h
    · exact .inl (Text.isDigit_of_mem_toString h)
    · rcases List.mem_cons.mp h with rfl | h
      · exact .inr rfl
      · exact .inl (Text.isDigit_of_mem_toString h)

theorem showRange_head {brief : Bool} {start count : ℕ} :
    ∃ c s, UnifiedHunk.showRange brief start count = c :: s ∧ c.isDigit = true := by
  obtain ⟨c, s, hcons⟩ := List.exists_cons_of_ne_nil (Text.toString_ne_nil start)
  have hc : c.isDigit = true := Text.isDigit_of_mem_toString (by rw [hcons]; exact List.mem_cons_self)
  unfold UnifiedHunk.showRange showNat
  rw [hcons]
  split
  · exact ⟨c, s, rfl, hc⟩
  · exact ⟨c, _, rfl, hc⟩

/-- The parsing of a range. -/
def parseRange (oldStr : Str) : Option (ℕ × ℕ) :=
  if ',' ∈ oldStr then
    match parseUsize (oldStr.takeWhile (· != ',')), parseUsize ((oldStr.dropWhile (· != ',')).drop 1) with
    | some start, some count => some (start, count)
    | _, _ => none
  else
    match parseUsize oldStr with
    | some start => some (start, 1)
    | none => none

theorem parseRange_showRange (brief : Bool) {start count : ℕ} (hstart : start < 2 ^ 64) (hcount : count < 2 ^ 64) :
    parseRange (UnifiedHunk.showRange brief start count) = some (start, count) := by
  have hcomma : ∀ n : ℕ, ',' ∉ showNat n := fun n hmem => absurd (Text.isDigit_of_mem_toString hmem) (by decide)
  unfold UnifiedHunk.showRange parseRange
  split
  · rename_i hbrief
    rw [if_neg (hcomma start), hbrief.2]
    show (match Text.parseUnsigned (2 ^ 64) (toString start).toList with | some start => _ | none => _) = _
    rw [Text.parseUnsigned_toString hstart]
  · have hdigits : ∀ c ∈ showNat start, (c != ',') = true := by
      intro c hc
      have : c ≠ ',' := fun heq => hcomma start (heq ▸ hc)
      simpa using this
    have htake : (showNat start ++ ',' :: showNat count).takeWhile (· != ',') = showNat start := by
      rw [List.takeWhile_append_of_pos hdigits]
      simp
    have hdrop : (showNat start ++ ',' :: showNat count).dropWhile (· != ',') = ',' :: showNat count := by
      rw [List.dropWhile_append_of_pos hdigits]
      simp
    rw [if_pos (by simp), htake, hdrop]
    show (match Text.parseUnsigned (2 ^ 64) (toString start).toList, Text.parseUnsigned (2 ^ 64) (toString count).toList with
      | some start, some count => some (start, count) | _, _ => none) = _
    rw [Text.parseUnsigned_toString hstart, Text.parseUnsigned_toString hcount]

/-- A header is read by its first range. -/
theorem parseHunkHeader_range {range : Str} (hhead : ∃ c s, range = c :: s ∧ c.isDigit = true)
    (hmem : ∀ c ∈ range, c.isDigit = true ∨ c = ',') {start count : ℕ} (hrange : parseRange range = some (start, count))
    (back : Str) : parseHunkHeader ("@@ -".toList ++ range ++ ' ' :: back) = .ok (start, count) := by
  have hword : ∀ c ∈ '-' :: range, Text.isWhitespace c = false := by
    intro c hc
    rcases List.mem_cons.mp hc with rfl | hc
    · decide
    · rcases hmem c hc with hdigit | rfl
      · exact isWhitespace_of_isDigit hdigit
      · decide
  obtain ⟨c, s, hcons, hc⟩ := hhead
  have hminus : (c == '-') = false := by
    by_contra hne
    rw [Bool.not_eq_false, beq_iff_eq] at hne
    rw [hne] at hc
    exact absurd hc (by decide)
  have hdrop : ('-' :: range).dropWhile (· == '-') = range := by
    rw [hcons]
    simp [hminus]
  have hinner : (("@@ -".toList ++ range ++ ' ' :: back).dropWhile (· == '@')).dropWhile (· == ' ') =
      ('-' :: range) ++ ' ' :: back := by
    simp
  unfold parseHunkHeader
  dsimp only
  rw [hinner, splitWhitespace_word (List.cons_ne_nil _ _) hword, List.find?_cons_of_pos (by simp)]
  dsimp only
  rw [hdrop]
  unfold parseRange at hrange
  split at hrange
  · rename_i hcomma
    rw [if_pos hcomma]
    cases hs : parseUsize (range.takeWhile (· != ',')) with
    | none =>
      rw [hs] at hrange
      cases hrange
    | some start' =>
      cases hcnt : parseUsize ((range.dropWhile (· != ',')).drop 1) with
      | none =>
        rw [hs, hcnt] at hrange
        cases hrange
      | some count' =>
        rw [hs, hcnt] at hrange
        exact congrArg Except.ok (Option.some.inj hrange)
  · rename_i hcomma
    rw [if_neg hcomma]
    cases hs : parseUsize range with
    | none =>
      rw [hs] at hrange
      cases hrange
    | some start' =>
      rw [hs] at hrange
      exact congrArg Except.ok (Option.some.inj hrange)

namespace UnifiedHunk

variable {h : UnifiedHunk}

/-- What stands behind the first range of the header. -/
def headerBack (h : UnifiedHunk) (heading : Str) : Str :=
  '+' :: (showRange h.brief h.newStart h.newLines.length ++ " @@".toList ++ heading)

theorem stripCr_header : Text.stripCr h.header =
    "@@ -".toList ++ showRange h.brief h.oldStart h.oldLines.length ++ ' ' :: h.headerBack (Text.stripCr h.heading) := by
  have hlast : ("@@ -".toList ++ showRange h.brief h.oldStart h.oldLines.length ++ " +".toList ++
      showRange h.brief h.newStart h.newLines.length ++ " @@".toList).getLast? ≠ some '\r' := by
    have hat : " @@".toList.getLast? = some '@' := rfl
    rw [List.getLast?_append, hat]
    simp
  unfold header
  rw [Text.stripCr_append hlast]
  simp [headerBack]

theorem parseHunkHeader_header (hstart : h.oldStart < 2 ^ 64) (hcount : h.oldLines.length < 2 ^ 64) :
    parseHunkHeader (Text.stripCr h.header) = .ok (h.oldStart, h.oldLines.length) := by
  rw [stripCr_header]
  exact parseHunkHeader_range showRange_head (fun c hc => mem_showRange hc)
    (parseRange_showRange h.brief hstart hcount) _

theorem header_isHeader : "@@".toList.isPrefixOf (Text.stripCr h.header) = true := by
  rw [stripCr_header]
  simp [List.isPrefixOf]

theorem stripCr_mark (kind : HunkLineKind) (content : Str) :
    Text.stripCr (mark kind :: content) = mark kind :: Text.stripCr content :=
  Text.stripCr_cons (by cases kind <;> decide) content

theorem newline_notMem_header : '\n' ∉ h.header := by
  have hrange : ∀ brief start count, '\n' ∉ showRange brief start count := by
    intro brief start count hmem
    rcases mem_showRange hmem with hdigit | hcomma
    · exact absurd hdigit (by decide)
    · exact absurd hcomma (by decide)
  unfold header
  simp [hrange, h.oneLine.1]

theorem newline_notMem_render : ∀ l ∈ h.render, '\n' ∉ l := by
  intro l hl
  rcases List.mem_cons.mp hl with rfl | hl
  · exact newline_notMem_header
  · obtain ⟨line, hline, rfl⟩ := List.mem_map.mp hl
    have hmark : mark line.kind ≠ '\n' := by cases line.kind <;> decide
    rw [List.mem_cons, not_or]
    exact ⟨hmark.symm, h.oneLine.2 line hline⟩

/-- The lines of a hunk are put to the hunk at hand. -/
theorem foldlM_lines : ∀ (lines : List HunkLine) (hunks : List Hunk) (current : Hunk),
    (lines.map fun l => mark l.kind :: l.content).foldlM HunkParser.line ⟨hunks, some current⟩ =
      .ok ⟨hunks, some { current with lines := current.lines ++ lines }⟩ := by
  intro lines
  induction lines with
  | nil =>
    intro hunks current
    rw [List.map_nil, List.append_nil]
    rfl
  | cons l lines ih =>
    intro hunks current
    have hline : HunkParser.line ⟨hunks, some current⟩ (mark l.kind :: l.content) =
        .ok ⟨hunks, some { current with lines := current.lines ++ [l] }⟩ := by
      obtain ⟨kind, content⟩ := l
      cases kind <;> rfl
    rw [List.map_cons, List.foldlM_cons, hline]
    show ((lines.map fun l => mark l.kind :: l.content).foldlM HunkParser.line _ : Except DiffError _) = _
    rw [ih]
    simp [List.append_assoc]

theorem oldContents_parsed : oldContents h.parsed.lines = h.oldLines.map Text.stripCr := by
  unfold parsed oldLines oldContents
  rw [List.filter_map, List.map_map, List.map_map]
  rfl

theorem validateHunk_parsed : validateHunk h.parsed = .ok () := by
  have hcount : h.parsed.lines.countP HunkLine.isOld = h.parsed.oldCount := by
    have hlen := congrArg List.length (oldContents_parsed (h := h))
    unfold oldContents at hlen
    rw [List.length_map, List.length_map, ← List.countP_eq_length_filter] at hlen
    exact hlen
  unfold validateHunk
  exact if_neg fun hc => hc.2 hcount

/-- A rendered hunk is parsed, and the one before it put to the others. -/
theorem foldlM_render (hstart : h.oldStart < 2 ^ 64) (hcount : h.oldLines.length < 2 ^ 64) {p : HunkParser}
    {hunks : List Hunk} (hflush : p.flush = .ok hunks) :
    (h.render.map Text.stripCr).foldlM HunkParser.line p = .ok ⟨hunks, some h.parsed⟩ := by
  have hheader : p.line (Text.stripCr h.header) = .ok ⟨hunks, some ⟨h.oldStart, h.oldLines.length, []⟩⟩ := by
    unfold HunkParser.line
    rw [if_pos header_isHeader, hflush, parseHunkHeader_header hstart hcount]
    rfl
  have hlines : (h.lines.map fun l => mark l.kind :: l.content).map Text.stripCr =
      h.parsed.lines.map fun l => mark l.kind :: l.content := by
    unfold parsed
    rw [List.map_map, List.map_map]
    exact List.map_congr_left fun l _ => stripCr_mark l.kind l.content
  unfold render
  rw [List.map_cons, hlines, List.foldlM_cons, hheader]
  exact foldlM_lines h.parsed.lines hunks _

end UnifiedHunk

theorem flush_parsed (hunks : List Hunk) (h : UnifiedHunk) :
    HunkParser.flush ⟨hunks, some h.parsed⟩ = .ok (hunks ++ [h.parsed]) := by
  unfold HunkParser.flush
  dsimp only
  rw [UnifiedHunk.validateHunk_parsed]
  rfl

theorem parse_hunks : ∀ {hunks : List UnifiedHunk},
    (∀ h ∈ hunks, h.oldStart < 2 ^ 64 ∧ h.oldLines.length < 2 ^ 64) → ∀ {p : HunkParser} {front : List Hunk},
    p.flush = .ok front →
    (((hunks.flatMap UnifiedHunk.render).map Text.stripCr).foldlM HunkParser.line p >>= HunkParser.flush) =
      .ok (front ++ hunks.map UnifiedHunk.parsed) := by
  intro hunks
  induction hunks with
  | nil =>
    intro _ p front hflush
    rw [List.map_nil, List.append_nil]
    exact hflush
  | cons h hunks ih =>
    intro hsize p front hflush
    obtain ⟨hstart, hcount⟩ := hsize h List.mem_cons_self
    rw [List.flatMap_cons, List.map_append, List.foldlM_append, UnifiedHunk.foldlM_render hstart hcount hflush]
    refine (ih (fun h' hh' => hsize h' (List.mem_cons_of_mem _ hh')) (flush_parsed front h)).trans ?_
    rw [List.map_cons, List.append_assoc]
    rfl

/-- The lines before the first hunk are skipped. -/
theorem foldlM_preamble : ∀ {preamble : List Str}, (∀ l ∈ preamble, ¬ "@@".toList <+: l) →
    preamble.foldlM HunkParser.line ⟨[], none⟩ = .ok ⟨[], none⟩ := by
  intro preamble
  induction preamble with
  | nil => intro _; rfl
  | cons l preamble ih =>
    intro h
    have hline : HunkParser.line ⟨[], none⟩ l = .ok ⟨[], none⟩ := by
      unfold HunkParser.line
      rw [if_neg fun hc => h l List.mem_cons_self (List.isPrefixOf_iff_prefix.mp hc)]
    rw [List.foldlM_cons, hline]
    exact ih fun l' hl' => h l' (List.mem_cons_of_mem _ hl')

/-- **A rendered diff is parsed into its hunks**, with one carriage return lost from each line. -/
theorem parseHunks_renderDiff {preamble : List Str} (hpre : ∀ l ∈ preamble, '\n' ∉ l ∧ ¬ "@@".toList <+: l)
    {hunks : List UnifiedHunk} (hsize : ∀ h ∈ hunks, h.oldStart < 2 ^ 64 ∧ h.oldLines.length < 2 ^ 64) :
    parseHunks (renderDiff preamble hunks) = .ok (hunks.map UnifiedHunk.parsed) := by
  have hlines : ∀ l ∈ preamble ++ hunks.flatMap UnifiedHunk.render, '\n' ∉ l := by
    intro l hl
    rcases List.mem_append.mp hl with hl | hl
    · exact (hpre l hl).1
    · obtain ⟨h, -, hl⟩ := List.mem_flatMap.mp hl
      exact UnifiedHunk.newline_notMem_render l hl
  have hskip : ∀ l ∈ preamble.map Text.stripCr, ¬ "@@".toList <+: l := by
    intro l hl hhead
    obtain ⟨l, hmem, rfl⟩ := List.mem_map.mp hl
    exact (hpre l hmem).2 (hhead.trans (Text.prefix_stripCr l))
  unfold parseHunks renderDiff
  rw [Text.lines_unlines hlines, List.map_append, List.foldlM_append, foldlM_preamble hskip]
  have hflush : HunkParser.flush ⟨[], none⟩ = .ok [] := rfl
  exact parse_hunks hsize hflush

/-! ## Line ends -/

/-- A line with its newline. -/
def terminated (line : Str) : Str := line ++ ['\n']

theorem stripTerminator_terminated {line : Str} (h : '\n' ∉ line) :
    stripTerminator (terminated line) = Text.trimEndMatches '\r' line := by
  have hkeep : Text.trimEndMatches '\n' (terminated line) = line := by
    unfold Text.trimEndMatches terminated
    rw [List.rdropWhile_concat_pos _ _ _ (by simp)]
    rcases List.eq_nil_or_concat line with rfl | ⟨front, c, rfl⟩
    · rfl
    · rw [List.concat_eq_append] at h ⊢
      have hc : c ≠ '\n' := fun heq => h (by simp [heq])
      rw [List.rdropWhile_concat_neg _ _ _ (by simpa using hc)]
  unfold stripTerminator
  rw [hkeep]

/-- All carriage returns are one, unless the line ends with two. -/
theorem trim_eq_stripCr_iff (line : Str) :
    Text.trimEndMatches '\r' line = Text.stripCr line ↔ ¬ ['\r', '\r'] <:+ line := by
  unfold Text.trimEndMatches Text.stripCr
  rcases List.eq_nil_or_concat line with rfl | ⟨front, c, rfl⟩
  · simp
  rw [List.concat_eq_append, List.getLast?_concat, List.dropLast_concat]
  by_cases hc : c = '\r'
  · subst hc
    rw [if_pos rfl, List.rdropWhile_concat_pos _ _ _ (by simp)]
    have hsuffix : ['\r'] ++ ['\r'] <:+ front ++ ['\r'] ↔ ['\r'] <:+ front := List.suffix_append_self_iff
    rw [← List.singleton_append, hsuffix]
    rcases List.eq_nil_or_concat front with rfl | ⟨front, d, rfl⟩
    · simp
    · rw [List.concat_eq_append]
      by_cases hd : d = '\r'
      · subst hd
        rw [List.rdropWhile_concat_pos _ _ _ (by simp)]
        refine iff_of_false ?_ (by simp)
        intro heq
        have hlen := congrArg List.length heq
        have hle := (List.rdropWhile_prefix (· == '\r') (l := front)).length_le
        rw [List.length_append, List.length_singleton] at hlen
        omega
      · rw [List.rdropWhile_concat_neg _ _ _ (by simpa using hd)]
        exact iff_of_true rfl fun h => hd (List.singleton_suffix_append_singleton_iff.mp h).symm
  · rw [if_neg (by simpa using hc), List.rdropWhile_concat_neg _ _ _ (by simpa using hc)]
    refine iff_of_true rfl ?_
    rintro ⟨l, hl⟩
    have hlast := congrArg List.getLast? hl
    rw [List.getLast?_concat, List.getLast?_append] at hlast
    exact hc (Option.some.inj hlast).symm

/-- How an added line is put out. -/
def addedOut (content : Str) : Str := DiffApplier.terminate (Text.stripCr content)

/-- An added line keeps its text, unless it ends with a carriage return: then it gets shorter. -/
theorem addedOut_cases {content : Str} (h : '\n' ∉ content) :
    (¬ ['\r'] <:+ content ∧ addedOut content = terminated content) ∨
      (['\r'] <:+ content ∧ (addedOut content).length < (terminated content).length) := by
  rcases List.eq_nil_or_concat content with rfl | ⟨front, c, rfl⟩
  · exact .inl ⟨by simp, rfl⟩
  rw [List.concat_eq_append] at h ⊢
  unfold addedOut Text.stripCr
  rw [List.getLast?_concat]
  by_cases hc : c = '\r'
  · subst hc
    refine .inr ⟨List.suffix_append _ _, ?_⟩
    rw [if_pos rfl, List.dropLast_concat]
    have hle : (DiffApplier.terminate front).length ≤ front.length + 1 := by
      unfold DiffApplier.terminate
      split
      · rw [List.length_append, List.length_singleton]
      · omega
    unfold terminated
    rw [List.length_append, List.length_append, List.length_singleton, List.length_singleton]
    omega
  · have hn : c ≠ '\n' := fun heq => h (by simp [heq])
    refine .inl ⟨?_, ?_⟩
    · exact fun hr => hc (List.singleton_suffix_append_singleton_iff.mp hr).symm
    · rw [if_neg (by simpa using hc)]
      unfold DiffApplier.terminate
      rw [List.getLast?_concat, if_pos ⟨by simpa using hn, by simpa using hc⟩]
      rfl

/-! ## The hunks, one behind the other -/

namespace UnifiedHunk

/-- The new lines, with an added line ended by `term`. -/
def newWith (term : Str → Str) (h : UnifiedHunk) : List Str :=
  (h.lines.filter fun l => l.kind != .remove).map fun l => if l.kind = .add then term l.content else terminated l.content

/-- No old line ends with two carriage returns. -/
def OldClean (h : UnifiedHunk) : Prop := ∀ l ∈ h.lines, l.isOld = true → ¬ ['\r', '\r'] <:+ l.content

/-- No added line ends with a carriage return. -/
def AddClean (h : UnifiedHunk) : Prop := ∀ l ∈ h.lines, l.kind = .add → ¬ ['\r'] <:+ l.content

variable {h : UnifiedHunk}

theorem newWith_terminated : h.newWith terminated = h.newLines.map terminated := by
  unfold newWith newLines
  rw [List.map_map]
  refine List.map_congr_left fun l _ => ?_
  split <;> rfl

theorem hunkOut_parsed : ∀ lines : List HunkLine,
    hunkOut (lines.map fun l => ⟨l.kind, Text.stripCr l.content⟩) ((oldContents lines).map terminated) =
      (lines.filter fun l => l.kind != .remove).map fun l =>
        if l.kind = .add then addedOut l.content else terminated l.content := by
  intro lines
  induction lines with
  | nil => rfl
  | cons l lines ih =>
    obtain ⟨kind, content⟩ := l
    cases kind with
    | add => exact congrArg (addedOut content :: ·) ih
    | context => exact congrArg (terminated content :: ·) ih
    | remove => exact ih

/-- The old lines match exactly if they are clean. -/
theorem oldLines_match_iff :
    (h.oldLines.map terminated).map stripTerminator = oldContents h.parsed.lines ↔ h.OldClean := by
  rw [oldContents_parsed, List.map_map, List.map_inj_left]
  unfold OldClean oldLines oldContents
  constructor
  · intro heq l hl hold
    have := heq l.content (List.mem_map.mpr ⟨l, List.mem_filter.mpr ⟨hl, hold⟩, rfl⟩)
    rw [Function.comp_apply, stripTerminator_terminated (h.oneLine.2 l hl)] at this
    exact (trim_eq_stripCr_iff _).mp this
  · intro hclean content hcontent
    obtain ⟨l, hl, rfl⟩ := List.mem_map.mp hcontent
    obtain ⟨hl, hold⟩ := List.mem_filter.mp hl
    rw [Function.comp_apply, stripTerminator_terminated (h.oneLine.2 l hl)]
    exact (trim_eq_stripCr_iff _).mpr (hclean l hl hold)

theorem countKind_parsed (kind : HunkLineKind) : countKind kind h.parsed.lines = countKind kind h.lines := by
  unfold countKind parsed
  rw [List.countP_map]
  rfl

/-- **A hunk that stands where it says** is applied there exactly if its old lines are clean. -/
theorem applyHunk_parsed {total : ℕ} {a a' : DiffApplier} {rest : List Str} (hrest : a.rest = rest.map terminated)
    (hne : h.oldLines ≠ [])
    (hold : (rest.drop (h.oldStart - 1 - a.origPos)).take h.oldLines.length = h.oldLines) :
    a.applyHunk total h.parsed = .ok a' ↔ h.OldClean ∧
      a' = a.advance ((rest.take (h.oldStart - 1 - a.origPos)).map terminated ++ h.newWith addedOut)
        ((rest.drop (h.oldStart - 1 - a.origPos + h.oldLines.length)).map terminated)
        (h.oldStart - 1 - a.origPos + h.oldLines.length) (countKind .add h.lines) (countKind .remove h.lines) 1 := by
  generalize hn : h.oldStart - 1 - a.origPos = n at hold ⊢
  have hpos : 0 < h.oldLines.length := List.length_pos_iff.mpr hne
  have hlen : n + h.oldLines.length ≤ rest.length := by
    have := congrArg List.length hold
    rw [List.length_take, List.length_drop] at this
    omega
  have hcut : a.rest = (rest.take n).map terminated ++ h.oldLines.map terminated ++
      (rest.drop (n + h.oldLines.length)).map terminated := by
    have hback : rest.drop n = h.oldLines ++ rest.drop (n + h.oldLines.length) := by
      rw [← List.drop_drop, ← hold, List.length_take, List.length_drop, Nat.min_eq_left (by omega), hold]
      exact (List.take_append_drop _ _).symm.trans (by rw [hold])
    rw [hrest, ← List.map_append, ← List.map_append, List.append_assoc, ← hback, List.take_append_drop]
  have hgap : ((rest.take n).map terminated).length = n := by
    rw [List.length_map, List.length_take]
    omega
  have hout : hunkOut h.parsed.lines (h.oldLines.map terminated) = h.newWith addedOut := hunkOut_parsed h.lines
  rw [DiffApplier.applyHunk_ok, countKind_parsed, countKind_parsed, ← oldLines_match_iff]
  constructor
  · rintro ⟨gap, taken, rest', hgap', hcut', hmap, rfl⟩
    have hgaplen : gap.length = n := hgap'.trans hn
    have htaken : taken.length = h.oldLines.length := by
      have := congrArg List.length hmap
      rw [List.length_map, oldContents_parsed, List.length_map] at this
      exact this
    rw [hcut] at hcut'
    obtain ⟨hfront, rfl⟩ := List.append_inj hcut' (by
      rw [List.length_append, List.length_append, hgap, List.length_map, hgaplen, htaken])
    obtain ⟨rfl, rfl⟩ := List.append_inj hfront (by rw [hgap, hgaplen])
    exact ⟨hmap, by rw [hout, hgap, List.length_map]⟩
  · rintro ⟨hmap, rfl⟩
    exact ⟨_, _, _, hgap.trans hn.symm, hcut, hmap, by rw [hout, hgap, List.length_map]⟩

end UnifiedHunk

/-- The output for the hunks, from a position of the text on. -/
def patchFrom (term : Str → Str) : ℕ → List Str → List UnifiedHunk → List Str
  | _, rest, [] => rest.map terminated
  | pos, rest, h :: hunks =>
    (rest.take (h.oldStart - 1 - pos)).map terminated ++ h.newWith term ++
      patchFrom term (pos + (h.oldStart - 1 - pos + h.oldLines.length))
        (rest.drop (h.oldStart - 1 - pos + h.oldLines.length)) hunks

/-- The hunks stand in the rest of the text where they say. -/
def Placed : ℕ → List Str → List UnifiedHunk → Prop
  | _, _, [] => True
  | pos, rest, h :: hunks =>
    pos < h.oldStart ∧ h.oldLines ≠ [] ∧ (rest.drop (h.oldStart - 1 - pos)).take h.oldLines.length = h.oldLines ∧
      Placed (pos + (h.oldStart - 1 - pos + h.oldLines.length)) (rest.drop (h.oldStart - 1 - pos + h.oldLines.length)) hunks

theorem placed_of_ordered {lines : List Str} : ∀ {hunks : List UnifiedHunk} {pos : ℕ},
    hunks.Pairwise (fun h h' => h.oldStart + h.oldLines.length ≤ h'.oldStart) →
    (∀ h ∈ hunks, pos < h.oldStart ∧ h.oldLines ≠ [] ∧
      (lines.drop (h.oldStart - 1)).take h.oldLines.length = h.oldLines) →
    Placed pos (lines.drop pos) hunks := by
  intro hunks
  induction hunks with
  | nil => intro pos _ _; trivial
  | cons h hunks ih =>
    intro pos hord hplaced
    obtain ⟨hpos, hne, hold⟩ := hplaced h List.mem_cons_self
    obtain ⟨hafter, hord⟩ := List.pairwise_cons.mp hord
    refine ⟨hpos, hne, ?_, ?_⟩
    · rw [List.drop_drop, show pos + (h.oldStart - 1 - pos) = h.oldStart - 1 by omega]
      exact hold
    · rw [List.drop_drop]
      refine ih hord fun h' hh' => ?_
      obtain ⟨hpos', hne', hold'⟩ := hplaced h' (List.mem_cons_of_mem _ hh')
      have := hafter h' hh'
      exact ⟨by omega, hne', hold'⟩

/-- What a fold over the hunks comes to. -/
theorem foldlM_parsed (total : ℕ) : ∀ {hunks : List UnifiedHunk} {a : DiffApplier} {rest : List Str},
    a.rest = rest.map terminated → Placed a.origPos rest hunks →
    ((∀ h ∈ hunks, h.OldClean) → ∃ a', (hunks.map UnifiedHunk.parsed).foldlM (DiffApplier.applyHunk total) a = .ok a') ∧
      ∀ a', (hunks.map UnifiedHunk.parsed).foldlM (DiffApplier.applyHunk total) a = .ok a' →
        (∀ h ∈ hunks, h.OldClean) ∧ a'.out ++ a'.rest = a.out ++ patchFrom addedOut a.origPos rest hunks ∧
          a'.summary = ⟨a.summary.linesAdded + (hunks.map fun h => countKind .add h.lines).sum,
            a.summary.linesRemoved + (hunks.map fun h => countKind .remove h.lines).sum,
            a.summary.hunksApplied + hunks.length⟩ := by
  intro hunks
  induction hunks with
  | nil =>
    intro a rest hrest _
    refine ⟨fun _ => ⟨a, rfl⟩, ?_⟩
    intro a' h
    obtain rfl := Except.ok.inj h
    exact ⟨fun _ hmem => (nomatch hmem), by rw [hrest]; rfl, rfl⟩
  | cons h hunks ih =>
    intro a rest hrest hplaced
    obtain ⟨-, hne, hold, hplaced⟩ := hplaced
    have hstep : ∀ a', a.applyHunk total h.parsed = .ok a' ↔ _ := fun _ => UnifiedHunk.applyHunk_parsed hrest hne hold
    rw [List.map_cons, List.foldlM_cons]
    constructor
    · intro hclean
      have hfirst := (hstep _).mpr ⟨hclean h List.mem_cons_self, rfl⟩
      obtain ⟨a', ha'⟩ := (ih (a := a.advance _ _ _ _ _ _) rfl hplaced).1 fun h' hh' =>
        hclean h' (List.mem_cons_of_mem _ hh')
      exact ⟨a', except_bind_ok.mpr ⟨_, hfirst, ha'⟩⟩
    · intro a' hok
      obtain ⟨a₁, h₁, h₂⟩ := except_bind_ok.mp hok
      obtain ⟨hclean, rfl⟩ := (hstep a₁).mp h₁
      obtain ⟨hrestclean, hout, hsum⟩ := (ih rfl hplaced).2 a' h₂
      refine ⟨?_, ?_, ?_⟩
      · intro h' hh'
        rcases List.mem_cons.mp hh' with rfl | hh'
        · exact hclean
        · exact hrestclean h' hh'
      · rw [hout]
        simp [DiffApplier.advance, patchFrom, List.append_assoc]
      · rw [hsum]
        simp only [DiffApplier.advance, List.map_cons, List.sum_cons, List.length_cons, Nat.add_assoc]
        rw [Nat.add_comm 1]

theorem patchFrom_patched {lines : List Str} : ∀ {hunks : List UnifiedHunk} (pos : ℕ),
    hunks.Pairwise (fun h h' => h.oldStart + h.oldLines.length ≤ h'.oldStart) →
    (∀ h ∈ hunks, pos < h.oldStart ∧ h.oldLines ≠ [] ∧
      (lines.drop (h.oldStart - 1)).take h.oldLines.length = h.oldLines) →
    (patched lines hunks).map terminated =
      (lines.take pos).map terminated ++ patchFrom terminated pos (lines.drop pos) hunks := by
  intro hunks
  induction hunks with
  | nil =>
    intro pos _ _
    rw [patchFrom, ← List.map_append, List.take_append_drop]
    rfl
  | cons h hunks ih =>
    intro pos hord hplaced
    obtain ⟨hpos, hne, hold⟩ := hplaced h List.mem_cons_self
    obtain ⟨hafter, hord⟩ := List.pairwise_cons.mp hord
    have hlen : h.oldStart - 1 + h.oldLines.length ≤ lines.length := by
      have h1 := congrArg List.length hold
      have h2 := List.length_pos_iff.mpr hne
      rw [List.length_take, List.length_drop] at h1
      omega
    have hrest := ih (h.oldStart - 1 + h.oldLines.length) hord fun h' hh' => by
      obtain ⟨hpos', hne', hold'⟩ := hplaced h' (List.mem_cons_of_mem _ hh')
      have := hafter h' hh'
      exact ⟨by omega, hne', hold'⟩
    have hfront : ((lines.take (h.oldStart - 1 + h.oldLines.length)).map terminated).length =
        h.oldStart - 1 + h.oldLines.length := by
      rw [List.length_map, List.length_take]
      omega
    show (h.splice (patched lines hunks)).map terminated = _
    unfold UnifiedHunk.splice
    rw [List.map_append, List.map_append, List.map_take, List.map_drop, hrest, List.take_append_of_le_length (by omega),
      List.drop_left' hfront, ← List.map_take, List.take_take, patchFrom, List.drop_drop,
      UnifiedHunk.newWith_terminated, Nat.min_eq_left (by omega),
      show pos + (h.oldStart - 1 - pos + h.oldLines.length) = h.oldStart - 1 + h.oldLines.length by omega]
    have hgap : lines.take (h.oldStart - 1) = lines.take pos ++ (lines.drop pos).take (h.oldStart - 1 - pos) := by
      rw [← List.take_add]
      congr 1
      omega
    rw [hgap, List.map_append]
    simp [List.append_assoc]

/-! ## The reference -/

/-- The added lines of a hunk. -/
def UnifiedHunk.added (h : UnifiedHunk) : List Str := (h.lines.filter fun l => l.kind == .add).map HunkLine.content

/-- The output does not get longer, and keeps its length only if every added line does. -/
theorem newWith_length (h : UnifiedHunk) (hle : ∀ c ∈ h.added, (addedOut c).length ≤ (terminated c).length) :
    (h.newWith addedOut).flatten.length ≤ (h.newWith terminated).flatten.length ∧
      ((h.newWith addedOut).flatten.length = (h.newWith terminated).flatten.length →
        ∀ c ∈ h.added, (addedOut c).length = (terminated c).length) := by
  obtain ⟨_, _, _, _, lines, _⟩ := h
  unfold UnifiedHunk.newWith UnifiedHunk.added at *
  dsimp only at *
  clear * - hle
  induction lines with
  | nil => exact ⟨le_refl _, fun _ _ hc => (nomatch hc)⟩
  | cons l lines ih =>
    obtain ⟨kind, content⟩ := l
    cases kind with
    | remove => exact ih hle
    | context =>
      obtain ⟨ihle, iheq⟩ := ih hle
      simp only [List.filter_cons_of_pos, List.map_cons, List.flatten_cons, List.length_append, reduceCtorEq, if_false,
        bne_iff_ne, ne_eq, not_false_eq_true]
      refine ⟨by omega, fun heq => ?_⟩
      exact iheq (by omega)
    | add =>
      have hfirst := hle content (by simp)
      obtain ⟨ihle, iheq⟩ := ih fun c hc => hle c (by
        simp only [List.filter_cons_of_pos, beq_self_eq_true, List.map_cons]
        exact List.mem_cons_of_mem _ hc)
      simp only [List.filter_cons_of_pos, List.map_cons, List.flatten_cons, List.length_append, if_true,
        bne_iff_ne, ne_eq, reduceCtorEq, not_false_eq_true, beq_self_eq_true]
      refine ⟨by omega, fun heq c hc => ?_⟩
      rcases List.mem_cons.mp hc with rfl | hc
      · omega
      · exact iheq (by omega) c hc

theorem addedOut_length_le {h : UnifiedHunk} : ∀ c ∈ h.added, (addedOut c).length ≤ (terminated c).length := by
  intro c hc
  obtain ⟨l, hl, rfl⟩ := List.mem_map.mp hc
  rcases addedOut_cases (h.oneLine.2 l (List.mem_of_mem_filter hl)) with ⟨-, heq⟩ | ⟨-, hlt⟩
  · rw [heq]
  · omega

theorem patchFrom_length : ∀ (hunks : List UnifiedHunk) (pos : ℕ) (rest : List Str),
    (patchFrom addedOut pos rest hunks).flatten.length ≤ (patchFrom terminated pos rest hunks).flatten.length ∧
      ((patchFrom addedOut pos rest hunks).flatten.length = (patchFrom terminated pos rest hunks).flatten.length →
        ∀ h ∈ hunks, h.AddClean) := by
  intro hunks
  induction hunks with
  | nil => exact fun _ _ => ⟨le_refl _, fun _ _ hh => (nomatch hh)⟩
  | cons h hunks ih =>
    intro pos rest
    obtain ⟨ihle, iheq⟩ := ih (pos + (h.oldStart - 1 - pos + h.oldLines.length))
      (rest.drop (h.oldStart - 1 - pos + h.oldLines.length))
    obtain ⟨hle, heq⟩ := newWith_length h addedOut_length_le
    simp only [patchFrom, List.flatten_append, List.length_append]
    refine ⟨by omega, fun hlen h' hh' => ?_⟩
    rcases List.mem_cons.mp hh' with rfl | hh'
    · intro l hl hkind hsuffix
      have hmem : l.content ∈ h'.added := List.mem_map.mpr ⟨l, List.mem_filter.mpr ⟨hl, by simp [hkind]⟩, rfl⟩
      have hsame := heq (by omega) l.content hmem
      rcases addedOut_cases (h'.oneLine.2 l hl) with ⟨hno, -⟩ | ⟨-, hlt⟩
      · exact hno hsuffix
      · omega
    · exact iheq (by omega) h' hh'

theorem patchFrom_of_clean : ∀ {hunks : List UnifiedHunk}, (∀ h ∈ hunks, h.AddClean) → ∀ (pos : ℕ) (rest : List Str),
    patchFrom addedOut pos rest hunks = patchFrom terminated pos rest hunks := by
  intro hunks
  induction hunks with
  | nil => intro _ pos rest; rfl
  | cons h hunks ih =>
    intro hclean pos rest
    have hnew : h.newWith addedOut = h.newWith terminated := by
      unfold UnifiedHunk.newWith
      refine List.map_congr_left fun l hl => ?_
      split
      · rename_i hkind
        have hmem := List.mem_of_mem_filter hl
        rcases addedOut_cases (h.oneLine.2 l hmem) with ⟨-, heq⟩ | ⟨hsuffix, -⟩
        · exact heq
        · exact absurd hsuffix (hclean h List.mem_cons_self l hmem hkind)
      · rfl
    rw [patchFrom, patchFrom, hnew, ih fun h' hh' => hclean h' (List.mem_cons_of_mem _ hh')]

/-- The numbers that are reported for the hunks. -/
def summaryOf (hunks : List UnifiedHunk) : DiffSummary :=
  ⟨(hunks.map fun h => countKind .add h.lines).sum, (hunks.map fun h => countKind .remove h.lines).sum, hunks.length⟩

theorem unlines_eq_flatten (lines : List Str) : Text.unlines lines = (lines.map terminated).flatten :=
  List.flatMap_def

section Reference

variable {lines : List Str} {hunks : List UnifiedHunk}

theorem DiffOf.fits (h : DiffOf lines hunks) (hsize : lines.length < 2 ^ 64) :
    ∀ hunk ∈ hunks, hunk.oldStart < 2 ^ 64 ∧ hunk.oldLines.length < 2 ^ 64 := by
  intro hunk hmem
  obtain ⟨hne, hstart, hold⟩ := h.placed hunk hmem
  have h1 := congrArg List.length hold
  have h2 := List.length_pos_iff.mpr hne
  rw [List.length_take, List.length_drop] at h1
  omega

theorem DiffOf.placed_from_start (h : DiffOf lines hunks) : ∀ hunk ∈ hunks, 0 < hunk.oldStart ∧ hunk.oldLines ≠ [] ∧
    (lines.drop (hunk.oldStart - 1)).take hunk.oldLines.length = hunk.oldLines := by
  intro hunk hmem
  obtain ⟨hne, hstart, hold⟩ := h.placed hunk hmem
  exact ⟨hstart, hne, hold⟩

/-- What the application of the parsed hunks gives. -/
theorem DiffOf.applyHunks_iff (h : DiffOf lines hunks) (text : Str) (summary : DiffSummary) :
    applyHunks (lines.map terminated) (hunks.map UnifiedHunk.parsed) = .ok (text, summary) ↔
      (∀ hunk ∈ hunks, hunk.OldClean) ∧ text = (patchFrom addedOut 0 lines hunks).flatten ∧
        summary = summaryOf hunks := by
  have hplaced : Placed 0 lines hunks := placed_of_ordered h.ordered h.placed_from_start
  unfold applyHunks
  obtain ⟨hsome, hall⟩ := foldlM_parsed (lines.map terminated).length
    (a := ⟨[], 0, lines.map terminated, ⟨0, 0, 0⟩⟩) rfl hplaced
  rw [except_bind_ok]
  constructor
  · rintro ⟨a, hfold, hok⟩
    obtain ⟨hclean, hout, hsum⟩ := hall a hfold
    obtain ⟨rfl, rfl⟩ := Prod.mk.inj (Except.ok.inj hok)
    refine ⟨hclean, by rw [hout]; rfl, ?_⟩
    rw [hsum]
    simp [summaryOf]
  · rintro ⟨hclean, rfl, rfl⟩
    obtain ⟨a, hfold⟩ := hsome hclean
    obtain ⟨-, hout, hsum⟩ := hall a hfold
    refine ⟨a, hfold, ?_⟩
    rw [hout, hsum]
    simp [summaryOf]

/-- **A rendered diff is applied as it should be exactly if its lines are clean**: no added
line ends with a carriage return, and no old one with two. -/
theorem diff_reference_iff (hlines : ∀ l ∈ lines, '\n' ∉ l) (hsize : lines.length < 2 ^ 64) {preamble : List Str}
    (hpre : ∀ l ∈ preamble, '\n' ∉ l ∧ ¬ "@@".toList <+: l) (h : DiffOf lines hunks) :
    applyUnifiedDiff (Text.unlines lines) (renderDiff preamble hunks) =
        .ok (Text.unlines (patched lines hunks), summaryOf hunks) ↔
      ∀ hunk ∈ hunks, hunk.OldClean ∧ hunk.AddClean := by
  have hsplit : splitLinesKeepTerminator (Text.unlines lines) = lines.map terminated := Text.splitInclusive_unlines hlines
  have happly : applyUnifiedDiff (Text.unlines lines) (renderDiff preamble hunks) =
      applyHunks (lines.map terminated) (hunks.map UnifiedHunk.parsed) := by
    unfold applyUnifiedDiff
    rw [parseHunks_renderDiff hpre (h.fits hsize), hsplit]
    show (if (hunks.map UnifiedHunk.parsed).isEmpty then _ else _) = _
    rw [if_neg (by simpa using h.nonempty)]
  have href : Text.unlines (patched lines hunks) = (patchFrom terminated 0 lines hunks).flatten := by
    rw [unlines_eq_flatten, patchFrom_patched 0 h.ordered h.placed_from_start]
    rfl
  rw [happly, h.applyHunks_iff, href]
  constructor
  · rintro ⟨hold, htext, -⟩ hunk hmem
    refine ⟨hold hunk hmem, ?_⟩
    exact (patchFrom_length hunks 0 lines).2 (congrArg List.length htext.symm) hunk hmem
  · intro hclean
    refine ⟨fun hunk hmem => (hclean hunk hmem).1, ?_, rfl⟩
    rw [patchFrom_of_clean fun hunk hmem => (hclean hunk hmem).2]

end Reference

/-- The second line of a text replaced. -/
def replaceSecond (line line' : Str) (h : '\n' ∉ line) (h' : '\n' ∉ line') : UnifiedHunk :=
  ⟨2, 2, true, " fn main()".toList, [⟨.remove, line⟩, ⟨.add, line'⟩], by decide, by simp [h, h']⟩

/-- The names of the files. -/
def filePreamble : List Str := ["--- a/file".toList, "+++ b/file".toList]

theorem filePreamble_ok : ∀ l ∈ filePreamble, '\n' ∉ l ∧ ¬ "@@".toList <+: l := by decide

def plainHunk : UnifiedHunk := replaceSecond "two".toList "TWO".toList (by decide) (by decide)

theorem diff_reference_iff_plain :
    applyUnifiedDiff "one\ntwo\n".toList (renderDiff filePreamble [plainHunk]) =
        .ok (Text.unlines (patched ["one".toList, "two".toList] [plainHunk]), ⟨1, 1, 1⟩) ↔
      ∀ hunk ∈ [plainHunk], hunk.OldClean ∧ hunk.AddClean := by
  have h : DiffOf ["one".toList, "two".toList] [plainHunk] := ⟨by simp, by simp, by decide +kernel⟩
  have htext : "one\ntwo\n".toList = Text.unlines ["one".toList, "two".toList] := by decide +kernel
  have hsummary : (⟨1, 1, 1⟩ : DiffSummary) = summaryOf [plainHunk] := by decide +kernel
  rw [htext, hsummary]
  exact diff_reference_iff (by decide) (by decide) filePreamble_ok h

/-- The same in a text with carriage returns. -/
def crlfHunk : UnifiedHunk := replaceSecond "two\r".toList "TWO\r".toList (by decide) (by decide)

/-- The carriage return of an added line is lost. -/
theorem diff_loses_cr : ¬ ∀ (lines preamble : List Str) (hunks : List UnifiedHunk), (∀ l ∈ lines, '\n' ∉ l) →
    lines.length < 2 ^ 64 → (∀ l ∈ preamble, '\n' ∉ l ∧ ¬ "@@".toList <+: l) → DiffOf lines hunks →
    applyUnifiedDiff (Text.unlines lines) (renderDiff preamble hunks) =
      .ok (Text.unlines (patched lines hunks), summaryOf hunks) := by
  intro hall
  have h : DiffOf ["one\r".toList, "two\r".toList] [crlfHunk] := ⟨by simp, by simp, by decide +kernel⟩
  have hok := hall _ filePreamble _ (by decide) (by decide) filePreamble_ok h
  have hcode : applyUnifiedDiff (Text.unlines ["one\r".toList, "two\r".toList]) (renderDiff filePreamble [crlfHunk]) =
      .ok ("one\r\nTWO\n".toList, ⟨1, 1, 1⟩) := by decide +kernel
  rw [hcode] at hok
  have htext := congrArg Prod.fst (Except.ok.inj hok)
  exact absurd htext (by decide +kernel)

end Zeptoclaw

import Zeptoclaw.Proof.Telegram
import Mathlib.Logic.Relation

/-!
# The chunks are the text

Where a text that is too long has to be cut is said without the code (`SplitsAt`), and the code cuts
there (`splitsAt_iff`). `chunk_message` always ends, its chunks fit, and nothing but white space is
lost between them (`chunkLoop_spec`). `chunkMessage_nonempty_iff`: a chunk is empty exactly if some
remaining text has only white space in front of its cut.
-/

namespace Zeptoclaw

open Text Relation

/-- The text is the chunks, with white space behind each of them. -/
def Rejoins : List Str → Str → Prop
  | [], text => text = []
  | chunk :: chunks, text => ∃ gap rest, text = chunk ++ (gap ++ rest) ∧ isBlank gap = true ∧ Rejoins chunks rest

/-! ## Where a text is cut -/

/-- The longest beginning of a text that fits. -/
structure IsWindow (maxLen : ℕ) (s w : Str) : Prop where
  isPrefix : w <+: s
  fits : utf16Len w ≤ maxLen
  longest : ∀ t, t <+: s → utf16Len t ≤ maxLen → t <+: w

/-- What a text that does not fit begins with, up to its cut: the window up to the middle of its last paragraph
break; without one, up to its last line break; without one, all of it. -/
inductive SplitsAt (maxLen : ℕ) (s : Str) : Str → Prop where
  | paragraph {pre post : Str} (window : IsWindow maxLen s (pre ++ "\n\n".toList ++ post))
      (last : ¬ "\n\n".toList <:+: "\n".toList ++ post) : SplitsAt maxLen s (pre ++ "\n".toList)
  | line {pre post : Str} (window : IsWindow maxLen s (pre ++ "\n".toList ++ post))
      (noParagraph : ¬ "\n\n".toList <:+: pre ++ "\n".toList ++ post) (last : '\n' ∉ post) :
      SplitsAt maxLen s (pre ++ "\n".toList)
  | hard {w : Str} (window : IsWindow maxLen s w) (noLine : '\n' ∉ w) : SplitsAt maxLen s w

/-- What remains of a text that does not fit: what is behind its cut, without the newlines there. -/
def Round (maxLen : ℕ) (s s' : Str) : Prop :=
  maxLen < utf16Len s ∧ ∃ piece gap, SplitsAt maxLen s piece ∧ s = piece ++ (gap ++ s') ∧ (∀ c ∈ gap, c = '\n') ∧
    s'.head? ≠ some '\n'

/-- No text that remains and does not fit has only white space in front of its cut. -/
def NoBlankCut (maxLen : ℕ) (text : Str) : Prop :=
  ∀ r piece, ReflTransGen (Round maxLen) text r → maxLen < utf16Len r → SplitsAt maxLen r piece → isBlank piece = false

/-! ## Lengths -/

theorem utf16Len_cons (c : Char) (s : Str) : utf16Len (c :: s) = lenUtf16 c + utf16Len s := by
  simp [utf16Len]

theorem utf16Len_append (s t : Str) : utf16Len (s ++ t) = utf16Len s + utf16Len t := by
  simp [utf16Len]

theorem utf16Len_windowFrom (maxLen : ℕ) : ∀ (s : Str) (count : ℕ), count ≤ maxLen →
    count + utf16Len (windowFrom maxLen count s) ≤ maxLen := by
  intro s
  induction s with
  | nil => exact fun _ hle => hle
  | cons c s ih =>
    intro count hle
    rw [windowFrom]
    split
    · exact hle
    · have hrest := ih (count + lenUtf16 c) (by omega)
      rw [utf16Len_cons]
      omega

theorem isWindow_windowFrom (maxLen : ℕ) (s : Str) : IsWindow maxLen s (windowFrom maxLen 0 s) := by
  have hlongest : ∀ (s : Str) (count : ℕ) (t : Str), t <+: s → count + utf16Len t ≤ maxLen → t <+: windowFrom maxLen count s := by
    intro s
    induction s with
    | nil => exact fun _ _ hpre _ => hpre
    | cons c s ih =>
      intro count t hpre hle
      cases t with
      | nil => exact List.nil_prefix
      | cons d t =>
        obtain ⟨rfl, hrest⟩ := List.cons_prefix_cons.mp hpre
        rw [utf16Len_cons] at hle
        rw [windowFrom, if_neg (by omega)]
        exact List.cons_prefix_cons.mpr ⟨rfl, ih _ t hrest (by omega)⟩
  have hfits := utf16Len_windowFrom maxLen s 0 (Nat.zero_le _)
  refine ⟨windowFrom_isPrefix maxLen s 0, by omega, fun t hpre hle => hlongest s 0 t hpre (by omega)⟩

theorem IsWindow.eq {maxLen : ℕ} {s w : Str} (h : IsWindow maxLen s w) : w = windowFrom maxLen 0 s := by
  have hwindow := isWindow_windowFrom maxLen s
  have hle := (h.longest _ hwindow.isPrefix hwindow.fits).length_le
  exact (hwindow.longest w h.isPrefix h.fits).eq_of_length_le hle

/-- A beginning of the window fits. -/
theorem utf16Len_piece_le {maxLen : ℕ} {remaining piece : Str} (h : piece <+: cutPiece maxLen remaining) :
    utf16Len piece ≤ maxLen := by
  obtain ⟨rest, hrest⟩ := h.trans (cutPiece_isPrefix_window maxLen remaining)
  have hwindow := utf16Len_windowFrom maxLen remaining 0 (Nat.zero_le _)
  rw [← hrest, utf16Len_append] at hwindow
  omega

/-! ## The cut of the code -/

section Loop

variable {maxLen : ℕ} {remaining piece : Str}

/-- A single newline occurs as a text exactly if it occurs as a character. -/
theorem newline_infix_iff {s : Str} : "\n".toList <:+: s ↔ '\n' ∈ s := List.singleton_infix_iff '\n' s

theorem SplitsAt.eq_cutPiece (h : SplitsAt maxLen remaining piece) : piece = cutPiece maxLen remaining := by
  unfold cutPiece
  cases h with
  | @paragraph pre post window last =>
    dsimp only
    have hcut : cutLast "\n\n".toList (pre ++ "\n\n".toList ++ post) = some (pre, post) := cutLast_eq last
    rw [← window.eq, hcut]
  | @line pre post window noParagraph last =>
    dsimp only
    have hnone : cutLast "\n\n".toList (pre ++ "\n".toList ++ post) = none := cutLast_eq_none noParagraph
    have hcut : cutLast "\n".toList (pre ++ "\n".toList ++ post) = some (pre, post) :=
      cutLast_eq fun hin => last (newline_infix_iff.mp hin)
    rw [← window.eq, hnone, hcut]
  | hard window noLine =>
    dsimp only
    have hnone : cutLast "\n\n".toList piece = none := cutLast_eq_none fun hin => noLine (hin.mem List.mem_cons_self)
    have hnone' : cutLast "\n".toList piece = none := cutLast_eq_none fun hin => noLine (newline_infix_iff.mp hin)
    rw [← window.eq, hnone, hnone']

/-- Every text has a place for the cut. -/
theorem splitsAt_exists (maxLen : ℕ) (remaining : Str) : ∃ piece, SplitsAt maxLen remaining piece := by
  have hwindow := isWindow_windowFrom maxLen remaining
  generalize windowFrom maxLen 0 remaining = w at hwindow
  by_cases hparagraph : "\n\n".toList <:+: w
  · obtain ⟨pre, post, rfl, hlast⟩ := cutLast_exists hparagraph
    exact ⟨_, .paragraph hwindow hlast⟩
  by_cases hline : "\n".toList <:+: w
  · obtain ⟨pre, post, rfl, hlast⟩ := cutLast_exists hline
    exact ⟨_, .line hwindow hparagraph fun hmem => hlast (newline_infix_iff.mpr hmem)⟩
  · exact ⟨w, .hard hwindow fun hmem => hline (newline_infix_iff.mpr hmem)⟩

/-- **The code cuts where the text splits.** -/
theorem splitsAt_iff : SplitsAt maxLen remaining piece ↔ piece = cutPiece maxLen remaining := by
  refine ⟨SplitsAt.eq_cutPiece, ?_⟩
  rintro rfl
  obtain ⟨piece, hsplit⟩ := splitsAt_exists maxLen remaining
  rwa [hsplit.eq_cutPiece] at hsplit

theorem dropWhile_newlines {gap s : Str} (hgap : ∀ c ∈ gap, c = '\n') (hs : s.head? ≠ some '\n') :
    (gap ++ s).dropWhile (· == '\n') = s := by
  rw [List.dropWhile_append_of_pos fun c hc => beq_iff_eq.mpr (hgap c hc)]
  cases s with
  | nil => rfl
  | cons c s =>
    have hc : ¬ (c == '\n') = true := fun heq => hs (congrArg some (beq_iff_eq.mp heq))
    exact List.dropWhile_cons_of_neg hc

/-- What remains is what the loop goes on with. -/
theorem round_iff {s : Str} : Round maxLen remaining s ↔ maxLen < utf16Len remaining ∧ s = cutRest maxLen remaining := by
  refine and_congr_right fun _ => ⟨?_, ?_⟩
  · rintro ⟨piece, gap, hsplit, htext, hgap, hs⟩
    have hpiece := splitsAt_iff.mp hsplit
    unfold cutRest
    rw [← hpiece, htext, List.drop_left, dropWhile_newlines hgap hs]
  · rintro rfl
    refine ⟨_, _, splitsAt_iff.mpr rfl, cut_split maxLen remaining, fun c hc => ?_, fun hhead => ?_⟩
    · exact beq_iff_eq.mp (List.mem_takeWhile_imp (p := fun d => d == '\n') hc)
    · have hfirst := List.head?_dropWhile_not (· == '\n') (remaining.drop (cutPiece maxLen remaining).length)
      unfold cutRest at hhead
      rw [hhead] at hfirst
      exact Bool.noConfusion hfirst

/-! ## The loop -/

theorem trimEnd_isPrefix (s : Str) : trimEnd s <+: s := List.rdropWhile_prefix isWhitespace s

/-- What is dropped behind a chunk is white space. -/
theorem cut_gap (maxLen : ℕ) (remaining : Str) : ∃ gap, isBlank gap = true ∧
    remaining = trimEnd (cutPiece maxLen remaining) ++ (gap ++ cutRest maxLen remaining) := by
  refine ⟨(cutPiece maxLen remaining).rtakeWhile isWhitespace ++
    (remaining.drop (cutPiece maxLen remaining).length).takeWhile (· == '\n'), ?_, ?_⟩
  · rw [isBlank, List.all_append, Bool.and_eq_true, List.all_eq_true, List.all_eq_true]
    refine ⟨fun c hc => List.mem_rtakeWhile_imp hc, fun c hc => ?_⟩
    have hnewline : (c == '\n') = true := List.mem_takeWhile_imp (p := fun d => d == '\n') hc
    rw [beq_iff_eq.mp hnewline]
    decide
  · have hpiece : trimEnd (cutPiece maxLen remaining) ++ (cutPiece maxLen remaining).rtakeWhile isWhitespace =
        cutPiece maxLen remaining := List.rdropWhile_append_rtakeWhile
    rw [List.append_assoc, ← List.append_assoc, hpiece]
    exact cut_split maxLen remaining

/-- A text that fits is not cut. -/
theorem noBlankCut_of_fits (h : utf16Len remaining ≤ maxLen) : NoBlankCut maxLen remaining := by
  intro r piece hr hlong
  rcases hr.cases_head with rfl | ⟨s, hround, -⟩
  · omega
  · have := hround.1
    omega

/-- One round, and the others. -/
theorem noBlankCut_iff (h : maxLen < utf16Len remaining) : NoBlankCut maxLen remaining ↔
    isBlank (cutPiece maxLen remaining) = false ∧ NoBlankCut maxLen (cutRest maxLen remaining) := by
  have hround : Round maxLen remaining (cutRest maxLen remaining) := round_iff.mpr ⟨h, rfl⟩
  constructor
  · exact fun hno => ⟨hno remaining _ .refl h (splitsAt_iff.mpr rfl), fun r piece hr => hno r piece (.head hround hr)⟩
  · rintro ⟨hpiece, hrest⟩ r piece hr hlong hsplit
    rcases hr.cases_head with rfl | ⟨s, hs, hr⟩
    · rw [splitsAt_iff.mp hsplit]
      exact hpiece
    · obtain ⟨-, rfl⟩ := round_iff.mp hs
      exact hrest r piece hr hlong hsplit

/-- The loop ends, its chunks fit and are the text, and they are not empty if no cut is behind white
space only. -/
theorem chunkLoop_spec (hmax : 2 ≤ maxLen) : ∀ (rounds : ℕ) (remaining : Str), remaining.length ≤ rounds →
    ∃ chunks, chunkLoop maxLen rounds remaining = some chunks ∧ (∀ chunk ∈ chunks, utf16Len chunk ≤ maxLen) ∧
      Rejoins chunks remaining ∧ ((∀ chunk ∈ chunks, chunk ≠ []) ↔ NoBlankCut maxLen remaining) := by
  intro rounds
  induction rounds with
  | zero =>
    intro remaining hlen
    obtain rfl := List.length_eq_zero_iff.mp (Nat.le_zero.mp hlen)
    exact ⟨[], rfl, by simp, rfl, fun _ => noBlankCut_of_fits (Nat.zero_le _), by simp⟩
  | succ rounds ih =>
    intro remaining hlen
    cases remaining with
    | nil => exact ⟨[], rfl, by simp, rfl, fun _ => noBlankCut_of_fits (Nat.zero_le _), by simp⟩
    | cons c s =>
      rw [chunkLoop]
      have hne : c :: s ≠ [] := List.cons_ne_nil c s
      generalize c :: s = remaining at hlen hne
      by_cases hfits : utf16Len remaining ≤ maxLen
      · rw [if_pos hfits]
        refine ⟨[remaining], rfl, by simpa using hfits, ⟨[], [], by simp, rfl, rfl⟩, ?_⟩
        exact ⟨fun _ => noBlankCut_of_fits hfits, fun _ => by simpa using hne⟩
      · rw [if_neg hfits]
        have hshort := length_cutRest hmax hne
        obtain ⟨chunks, hloop, hbound, hjoin, hempty⟩ := ih (cutRest maxLen remaining) (by omega)
        obtain ⟨gap, hgap, hsplit⟩ := cut_gap maxLen remaining
        refine ⟨trimEnd (cutPiece maxLen remaining) :: chunks, by rw [hloop]; rfl, ?_, ⟨gap, _, hsplit, hgap, hjoin⟩, ?_⟩
        · exact List.forall_mem_cons.mpr ⟨utf16Len_piece_le (trimEnd_isPrefix _), hbound⟩
        · have hiff := noBlankCut_iff (Nat.lt_of_not_le hfits)
          rw [hiff, List.forall_mem_cons, hempty, ne_eq, trimEnd_eq_nil_iff, Bool.not_eq_true]

end Loop

/-- Any text is cut into chunks that fit and that are the text. -/
theorem chunkMessage_spec {maxLen : ℕ} (hmax : 2 ≤ maxLen) {text : Str} (htext : text ≠ []) :
    ∃ chunks, chunkMessage text maxLen = some chunks ∧ (∀ chunk ∈ chunks, utf16Len chunk ≤ maxLen) ∧
      Rejoins chunks text ∧ ((∀ chunk ∈ chunks, chunk ≠ []) ↔ NoBlankCut maxLen text) := by
  unfold chunkMessage
  split
  · rename_i hfits
    refine ⟨[text], rfl, by simpa using hfits, ⟨[], [], by simp, rfl, rfl⟩, ?_⟩
    exact ⟨fun _ => noBlankCut_of_fits hfits, fun _ => by simpa using htext⟩
  · exact chunkLoop_spec hmax text.length text le_rfl

/-- **Splitting.** A text that is not blank is split into chunks that are not empty, fit, and are the text again with the
white space at the cuts, exactly if no cut leaves a blank chunk. -/
theorem chunkMessage_nonempty_iff {maxLen : ℕ} (hmax : 2 ≤ maxLen) {text : Str} (htext : isBlank text = false) :
    (∃ chunks, chunkMessage text maxLen = some chunks ∧ (∀ chunk ∈ chunks, chunk ≠ [] ∧ utf16Len chunk ≤ maxLen) ∧
        Rejoins chunks text) ↔
      NoBlankCut maxLen text := by
  have hne : text ≠ [] := by
    rintro rfl
    exact absurd htext (by decide)
  obtain ⟨chunks, hchunks, hbound, hjoin, hempty⟩ := chunkMessage_spec hmax hne
  constructor
  · rintro ⟨chunks', hchunks', hall, -⟩
    obtain rfl := Option.some.inj (hchunks.symm.trans hchunks')
    exact hempty.mp fun chunk hmem => (hall chunk hmem).1
  · intro hno
    exact ⟨chunks, hchunks, fun chunk hmem => ⟨hempty.mpr hno chunk hmem, hbound chunk hmem⟩, hjoin⟩

theorem chunkMessage_nonempty_iff_lines : NoBlankCut 2 "ab\n\nc".toList :=
  (chunkMessage_nonempty_iff (by decide) (by decide)).mp
    ⟨["ab".toList, "c".toList], by decide, by decide, "\n\n".toList, "c".toList, rfl, by decide, [], [], rfl, rfl, rfl⟩

/-- A line break in front of a long line. -/
theorem chunkMessage_empty : isBlank "\nabc".toList = false ∧
    chunkMessage "\nabc".toList 2 = some [[], "ab".toList, "c".toList] := by
  decide

end Zeptoclaw

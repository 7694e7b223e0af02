import Zeptoclaw.Proof.TelegramMarkup

/-!
# The chunks of a message

`chunk_message` cuts the rendered text without regard to its tags. The chunks are acceptable exactly if the text is,
and the text before each cut is (`chunkMessage_acceptable_iff`). The rendered text is acceptable if the tags of the
markup are nested; otherwise the plain text that is sent instead has to be (`telegramChunks_acceptable_iff`).
-/

namespace Zeptoclaw

open Text

/-! ## Cuts -/

section Cuts

variable {maxLen : ℕ} {remaining : Str}

/-- The texts before the cuts of a remaining text, behind what was cut off already. -/
def cutsFrom (maxLen : ℕ) : ℕ → Str → Str → List Str
  | 0, _, _ => []
  | rounds + 1, sent, remaining =>
    if utf16Len remaining ≤ maxLen then []
    else
      let piece := cutPiece maxLen remaining
      (sent ++ piece) ::
        cutsFrom maxLen rounds (sent ++ (piece ++ (remaining.drop piece.length).takeWhile (· == '\n'))) (cutRest maxLen remaining)

/-- The texts before the places at which `chunk_message` cuts a text. -/
def cuts (maxLen : ℕ) (text : Str) : List Str := cutsFrom maxLen text.length [] text

theorem windowFrom_isPrefix (maxLen : ℕ) : ∀ (s : Str) (count : ℕ), windowFrom maxLen count s <+: s := by
  intro s
  induction s with
  | nil => exact fun _ => List.prefix_rfl
  | cons c s ih =>
    intro count
    rw [windowFrom]
    split
    · exact List.nil_prefix
    · exact List.cons_prefix_cons.mpr ⟨rfl, ih _⟩

theorem cutPiece_isPrefix_window (maxLen : ℕ) (remaining : Str) : cutPiece maxLen remaining <+: windowFrom maxLen 0 remaining := by
  simp only [cutPiece]
  split
  · rename_i pre post hcut
    have hsplit := cutLast_split hcut
    refine ⟨"\n".toList ++ post, ?_⟩
    rw [hsplit, List.append_assoc]
    rfl
  · split
    · rename_i pre post hcut
      have hsplit := cutLast_split hcut
      refine ⟨post, ?_⟩
      rw [hsplit, List.append_assoc]
    · exact List.prefix_rfl

theorem cutPiece_isPrefix (maxLen : ℕ) (remaining : Str) : cutPiece maxLen remaining <+: remaining :=
  (cutPiece_isPrefix_window maxLen remaining).trans (windowFrom_isPrefix maxLen remaining 0)

/-- A limit of two units has room for a character. -/
theorem cutPiece_ne_nil (hmax : 2 ≤ maxLen) (hne : remaining ≠ []) : cutPiece maxLen remaining ≠ [] := by
  simp only [cutPiece]
  split
  · exact List.append_ne_nil_of_right_ne_nil _ (by decide)
  · split
    · exact List.append_ne_nil_of_right_ne_nil _ (by decide)
    · obtain ⟨c, s, rfl⟩ := List.exists_cons_of_ne_nil hne
      have hfits : ¬ maxLen < 0 + lenUtf16 c := by
        have hle : lenUtf16 c ≤ 2 := by
          unfold lenUtf16
          split
          · decide
          · decide
        omega
      rw [windowFrom, if_neg hfits]
      exact List.cons_ne_nil _ _

/-- The piece, the newlines that are dropped, and the rest. -/
theorem cut_split (maxLen : ℕ) (remaining : Str) :
    remaining = cutPiece maxLen remaining ++
      ((remaining.drop (cutPiece maxLen remaining).length).takeWhile (· == '\n') ++ cutRest maxLen remaining) := by
  have hpiece := List.prefix_iff_eq_append.mp (cutPiece_isPrefix maxLen remaining)
  rw [cutRest, List.takeWhile_append_dropWhile, hpiece]

theorem length_cutRest (hmax : 2 ≤ maxLen) (hne : remaining ≠ []) : (cutRest maxLen remaining).length < remaining.length := by
  have hlen := congrArg List.length (cut_split maxLen remaining)
  have hpos := List.length_pos_iff.mpr (cutPiece_ne_nil hmax hne)
  rw [List.length_append, List.length_append] at hlen
  omega

end Cuts

/-! ## Acceptable chunks -/

section Chunks

variable {u : UnicodeLib} {maxLen : ℕ}

/-- White space at the end of a piece does not matter. -/
theorem acceptable_trimEnd (piece : Str) : Acceptable u (trimEnd piece) ↔ Acceptable u piece := by
  have hwhite : ∀ d, isWhitespace d = false → d ∉ piece.rtakeWhile isWhitespace := by
    intro d hd hmem
    rw [List.mem_rtakeWhile_imp hmem] at hd
    cases hd
  have hsplit : trimEnd piece ++ piece.rtakeWhile isWhitespace = piece := List.rdropWhile_append_rtakeWhile
  conv_rhs => rw [← hsplit]
  exact (acceptable_append_plain (hwhite '<' (by decide)) (hwhite '>' (by decide))).symm

/-- What the chunks of a message have to be. -/
def AllAcceptable (u : UnicodeLib) (chunks : Option (List Str)) : Prop :=
  ∃ list, chunks = some list ∧ ∀ chunk ∈ list, Acceptable u chunk

theorem allAcceptable_single (text : Str) : AllAcceptable u (some [text]) ↔ Acceptable u text := by
  simp [AllAcceptable]

theorem allAcceptable_cons (chunk : Str) (rest : Option (List Str)) :
    AllAcceptable u (rest.map (chunk :: ·)) ↔ Acceptable u chunk ∧ AllAcceptable u rest := by
  cases rest with
  | none => simp [AllAcceptable]
  | some list => simp [AllAcceptable]

/-- **The loop makes acceptable chunks exactly if the text, and the text before each cut, is acceptable.** -/
theorem chunkLoop_acceptable_iff (hmax : 2 ≤ maxLen) : ∀ (rounds : ℕ) (sent remaining : Str), remaining.length ≤ rounds →
    Acceptable u sent → (AllAcceptable u (chunkLoop maxLen rounds remaining) ↔
      Acceptable u (sent ++ remaining) ∧ ∀ front ∈ cutsFrom maxLen rounds sent remaining, Acceptable u front) := by
  intro rounds
  induction rounds with
  | zero =>
    intro sent remaining hlen hsent
    obtain rfl := List.length_eq_zero_iff.mp (Nat.le_zero.mp hlen)
    simp [chunkLoop, cutsFrom, AllAcceptable, hsent]
  | succ rounds ih =>
    intro sent remaining hlen hsent
    by_cases hne : remaining = []
    · subst hne
      simp [chunkLoop, cutsFrom, AllAcceptable, hsent, utf16Len]
    have hloop : chunkLoop maxLen (rounds + 1) remaining = if utf16Len remaining ≤ maxLen then some [remaining]
        else (chunkLoop maxLen rounds (cutRest maxLen remaining)).map (trimEnd (cutPiece maxLen remaining) :: ·) := by
      obtain ⟨c, s, rfl⟩ := List.exists_cons_of_ne_nil hne
      rfl
    rw [hloop, cutsFrom]
    by_cases hfits : utf16Len remaining ≤ maxLen
    · rw [if_pos hfits, if_pos hfits, allAcceptable_single, acceptable_append_iff hsent]
      simp
    · rw [if_neg hfits, if_neg hfits, allAcceptable_cons, acceptable_trimEnd]
      dsimp only
      rw [List.forall_mem_cons, acceptable_append_iff (b := cutPiece maxLen remaining) hsent]
      obtain ⟨piece, hpiece⟩ : ∃ piece, piece = cutPiece maxLen remaining := ⟨_, rfl⟩
      obtain ⟨gap, hgap⟩ : ∃ gap, gap = (remaining.drop piece.length).takeWhile (· == '\n') := ⟨_, rfl⟩
      have hsplit := cut_split maxLen remaining
      rw [← hpiece, ← hgap] at hsplit
      rw [← hpiece, ← hgap]
      by_cases hok : Acceptable u piece
      · have hplain : '<' ∉ gap := by
          rw [hgap]
          intro hmem
          exact absurd (List.mem_takeWhile_imp hmem) (by decide)
        have hsent' : Acceptable u (sent ++ (piece ++ gap)) :=
          (acceptable_append_iff hsent).mpr ((acceptable_append_iff hok).mpr (acceptable_of_plain hplain))
        have hrest := length_cutRest hmax hne
        have hwhole : sent ++ remaining = sent ++ (piece ++ gap) ++ cutRest maxLen remaining := by
          conv_lhs => rw [hsplit]
          simp only [List.append_assoc]
        rw [ih _ _ (by omega) hsent', hwhole]
        simp [hok]
      · simp [hok]

theorem acceptable_nil : Acceptable u [] := acceptable_of_plain List.not_mem_nil

/-- **The chunks of a text are acceptable exactly if it is, and the text before each cut is.** -/
theorem chunkMessage_acceptable_iff (hmax : 2 ≤ maxLen) (text : Str) : AllAcceptable u (chunkMessage text maxLen) ↔
    Acceptable u text ∧ ∀ front ∈ cuts maxLen text, Acceptable u front := by
  rw [chunkMessage]
  split
  · rename_i hfits
    have hcuts : cuts maxLen text = [] := by
      rw [cuts]
      cases text.length with
      | zero => rfl
      | succ n => rw [cutsFrom, if_pos hfits]
    rw [allAcceptable_single, hcuts]
    simp
  · exact chunkLoop_acceptable_iff hmax text.length [] text le_rfl acceptable_nil

end Chunks

/-! ## Messages -/

/-- **The chunks of a message are acceptable exactly if the tags of its markup are nested, or the plain text that is
sent in its place is acceptable, and no cut is within a tag or an element.** -/
theorem telegramChunks_acceptable_iff (u : UnicodeLib) (content : Str) : AllAcceptable u (telegramChunks u content) ↔
    (htmlTagsValid u (telegramMarkup u content) = true ∨ Acceptable u (stripHtmlTags (telegramMarkup u content))) ∧
      ∀ front ∈ cuts telegramMaxMessageLen (renderTelegramHtml u content), Acceptable u front := by
  rw [telegramChunks, chunkMessage_acceptable_iff (by decide)]
  refine and_congr_left fun _ => ?_
  have hraw := noRawAngle_telegramMarkup u content
  by_cases hvalid : htmlTagsValid u (telegramMarkup u content) = true
  · have hrender : renderTelegramHtml u content = telegramMarkup u content := by simp [renderTelegramHtml, hvalid]
    rw [hrender]
    exact ⟨fun _ => .inl hvalid, fun _ => ⟨hvalid, hraw⟩⟩
  · have hrender : renderTelegramHtml u content = stripHtmlTags (telegramMarkup u content) := by
      simp [renderTelegramHtml, hvalid]
    rw [hrender]
    exact ⟨.inr, fun h => h.resolve_left hvalid⟩

theorem not_word_of_isWhitespace {c : Char} (h : isWhitespace c = true) : (c.isAlphanum || c == '_') = false := by
  rw [Bool.eq_false_iff]
  intro hword
  have hrange : c = '_' ∨ (48 ≤ c.toNat ∧ c.toNat ≤ 57) ∨ (65 ≤ c.toNat ∧ c.toNat ≤ 90) ∨ (97 ≤ c.toNat ∧ c.toNat ≤ 122) := by
    delta Char.isAlphanum Char.isAlpha Char.isUpper Char.isLower Char.isDigit at hword
    simp only [Bool.or_eq_true, Bool.and_eq_true, decide_eq_true_eq, beq_iff_eq, ge_iff_le, UInt32.le_iff_toNat_le] at hword
    change (((65 ≤ c.toNat ∧ c.toNat ≤ 90) ∨ (97 ≤ c.toNat ∧ c.toNat ≤ 122)) ∨ (48 ≤ c.toNat ∧ c.toNat ≤ 57)) ∨ c = '_'
      at hword
    tauto
  rcases hrange with rfl | hrange
  · exact absurd h (by decide)
  · simp only [isWhitespace, Bool.or_eq_true, Bool.and_eq_true, decide_eq_true_eq, beq_iff_eq] at h
    omega

/-- Unicode without letters and digits outside ASCII. -/
def asciiUnicode : UnicodeLib where
  isWord c := c.isAlphanum || c == '_'
  isDigit c := c.isDigit
  toLowercase s := s.map Char.toLower
  word_ascii _ _ := rfl
  digit_ascii _ _ := rfl
  word_not_space _ h := not_word_of_isWhitespace h

end Zeptoclaw

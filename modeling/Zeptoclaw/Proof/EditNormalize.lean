import Zeptoclaw.Spec.Edit

/-!
# White space, character by character

The normal form of white space is made line by line. The same text comes out of one walk
over the characters: each of them is shown or left out, which its line and the character
before it decide.
-/

namespace Zeptoclaw

open Text

/-! ## The walk -/

/-- What is left of the line is white space. -/
def lineBlank (s : Str) : Bool := (s.takeWhile (· ≠ '\n')).all isWhitespace

/-- Whether a character is shown: `prev` tells of a space or tab before it, `rest` is the
text behind it. -/
def shown (prev : Bool) (c : Char) (rest : Str) : Bool :=
  c = '\n' || (!(isWhitespace c && lineBlank rest) && !(isSpaceOrTab c && prev))

/-- A tab is shown as a space. -/
def showChar (c : Char) : Char := if isSpaceOrTab c then ' ' else c

/-- What a part of a text shows, with the text behind it. -/
def showPart (prev : Bool) (rest : Str) : Str → Str
  | [] => []
  | c :: s => (if shown prev c (s ++ rest) then [showChar c] else []) ++ showPart (isSpaceOrTab c) rest s

def showText (prev : Bool) (s : Str) : Str := showPart prev [] s

/-- Whether a space or tab stands at the end of a text. -/
def endsBlank (prev : Bool) (s : Str) : Bool := (s.getLast?.map isSpaceOrTab).getD prev

theorem endsBlank_cons (prev : Bool) (c : Char) (s : Str) : endsBlank prev (c :: s) = endsBlank (isSpaceOrTab c) s := by
  unfold endsBlank
  rw [List.getLast?_cons]
  cases s.getLast? <;> rfl

theorem showPart_append (prev : Bool) (rest a b : Str) :
    showPart prev rest (a ++ b) = showPart prev (b ++ rest) a ++ showPart (endsBlank prev a) rest b := by
  induction a generalizing prev with
  | nil => rfl
  | cons c a ih =>
    rw [List.cons_append, showPart, showPart, ih, endsBlank_cons, List.append_assoc, List.append_assoc]

theorem showText_append (prev : Bool) (a b : Str) :
    showText prev (a ++ b) = showPart prev b a ++ showText (endsBlank prev a) b := by
  unfold showText
  rw [showPart_append, List.append_nil]

/-! ## The lines -/

theorem isWhitespace_of_isSpaceOrTab {c : Char} (h : isSpaceOrTab c = true) : isWhitespace c = true := by
  unfold isSpaceOrTab at h
  rw [Bool.or_eq_true, beq_iff_eq, beq_iff_eq] at h
  rcases h with rfl | rfl <;> decide

theorem ne_newline_of_isSpaceOrTab {c : Char} (h : isSpaceOrTab c = true) : c ≠ '\n' := by
  rintro rfl
  cases h

theorem isWhitespace_showChar (c : Char) : isWhitespace (showChar c) = isWhitespace c := by
  unfold showChar
  split
  · rename_i h
    rw [isWhitespace_of_isSpaceOrTab h]
    decide
  · rfl

theorem collapseWs_cons (prev : Bool) (c : Char) (line : Str) : collapseWs prev (c :: line) =
    (if isSpaceOrTab c && prev then [] else [showChar c]) ++ collapseWs (isSpaceOrTab c) line := by
  rw [collapseWs]
  unfold showChar
  cases isSpaceOrTab c <;> cases prev <;> rfl

theorem all_collapseWs (prev : Bool) (line : Str) : (collapseWs prev line).all isWhitespace = line.all isWhitespace := by
  induction line generalizing prev with
  | nil => rfl
  | cons c line ih =>
    rw [collapseWs_cons, List.all_append, ih, List.all_cons]
    by_cases h : (isSpaceOrTab c && prev) = true
    · have hwhite := isWhitespace_of_isSpaceOrTab (Bool.and_eq_true_iff.mp h).1
      rw [if_pos h, hwhite]
      rfl
    · rw [if_neg h, List.all_cons, isWhitespace_showChar, List.all_nil, Bool.and_true]

theorem trimEnd_append {t : Str} (h : t.all isWhitespace = false) (s : Str) : trimEnd (s ++ t) = s ++ trimEnd t := by
  unfold trimEnd
  induction t using List.reverseRecOn with
  | nil => exact absurd h (by decide)
  | append_singleton t c ih =>
    rw [← List.append_assoc, List.rdropWhile_concat, List.rdropWhile_concat]
    split
    · rename_i hc
      apply ih
      simpa [hc] using h
    · exact List.append_assoc s t [c]

theorem trimEnd_append_white {t : Str} (h : t.all isWhitespace = true) (s : Str) : trimEnd (s ++ t) = trimEnd s := by
  unfold trimEnd
  induction t using List.reverseRecOn with
  | nil => rw [List.append_nil]
  | append_singleton t c ih =>
    rw [List.all_append, Bool.and_eq_true, List.all_cons, Bool.and_eq_true] at h
    rw [← List.append_assoc, List.rdropWhile_concat_pos _ _ _ h.2.1]
    exact ih h.1

theorem lineBlank_append {line rest : Str} (hline : '\n' ∉ line) (hrest : rest.head?.getD '\n' = '\n') :
    lineBlank (line ++ rest) = line.all isWhitespace := by
  unfold lineBlank
  have hall : ∀ c ∈ line, decide (c ≠ '\n') = true := by
    intro c hc
    exact decide_eq_true fun heq : c = '\n' => hline (heq ▸ hc)
  rw [List.takeWhile_append_of_pos hall]
  have hnil : rest.takeWhile (· ≠ '\n') = [] := by
    cases rest with
    | nil => rfl
    | cons c rest =>
      have hc : c = '\n' := hrest
      simp [hc]
  rw [hnil, List.append_nil]

/-- A line shows its collapsed form without the white space at its end. -/
theorem showPart_line {line rest : Str} (hline : '\n' ∉ line) (hrest : rest.head?.getD '\n' = '\n') (prev : Bool) :
    showPart prev rest line = trimEnd (collapseWs prev line) := by
  induction line generalizing prev with
  | nil => rfl
  | cons c line ih =>
    have hc : c ≠ '\n' := fun heq => hline (heq ▸ List.mem_cons_self)
    have htail : '\n' ∉ line := fun hmem => hline (List.mem_cons_of_mem _ hmem)
    rw [showPart, ih htail, collapseWs_cons, shown, lineBlank_append htail hrest]
    cases hblank : line.all isWhitespace with
    | false =>
      have hback : (collapseWs (isSpaceOrTab c) line).all isWhitespace = false := by rw [all_collapseWs, hblank]
      rw [trimEnd_append hback]
      congr 1
      cases hskip : (isSpaceOrTab c && prev) <;> simp [hc]
    | true =>
      -- behind this character the line shows nothing
      have hback : (collapseWs (isSpaceOrTab c) line).all isWhitespace = true := by rw [all_collapseWs, hblank]
      rw [trimEnd_append_white hback, (trimEnd_eq_nil_iff _).mpr hback, List.append_nil]
      cases hwhite : isWhitespace c with
      | false =>
        have htab : isSpaceOrTab c = false := by
          by_contra hne
          rw [isWhitespace_of_isSpaceOrTab (by simpa using hne)] at hwhite
          cases hwhite
        simp [htab, showChar, trimEnd, List.rdropWhile_singleton, hwhite]
      | true =>
        have hshow : isWhitespace (showChar c) = true := by rw [isWhitespace_showChar, hwhite]
        split <;> split <;> simp_all [trimEnd, List.rdropWhile_singleton]

/-! ## The normal form -/

/-- The newline at the end of a text. -/
def newlineEnd (s : Str) : Str := if s.getLast? = some '\n' then ['\n'] else []

theorem stripCr_or (line : Str) : stripCr line = line ∨ line = stripCr line ++ ['\r'] := by
  unfold stripCr
  split
  · rename_i h
    exact .inr (List.dropLast_append_getLast? _ h).symm
  · exact .inl rfl

theorem normalizeLine_stripCr (line : Str) : normalizeLine (stripCr line) = normalizeLine line := by
  rcases stripCr_or line with h | h
  · rw [h]
  · have hcollapse : ∀ prev (s : Str), collapseWs prev (s ++ ['\r']) = collapseWs prev s ++ ['\r'] := by
      intro prev s
      induction s generalizing prev with
      | nil => cases prev <;> rfl
      | cons c s ih => rw [List.cons_append, collapseWs_cons, collapseWs_cons, ih, List.append_assoc]
    have hwhite : ['\r'].all isWhitespace = true := by decide
    conv_rhs => rw [h, normalizeLine, hcollapse, trimEnd_append_white hwhite]
    rfl

theorem stripCr_cons_of_ne_nil {line : Str} (hline : line ≠ []) (c : Char) :
    stripCr (c :: line) = c :: stripCr line := by
  unfold stripCr
  rw [List.getLast?_cons_of_ne_nil hline, List.dropLast_cons_of_ne_nil hline]
  split <;> rfl

/-- The replacement takes the carriage return at the end of a line away. -/
theorem replace_crlf_line {line : Str} (hline : '\n' ∉ line) (s : Str) :
    replace (line ++ '\n' :: s) "\r\n".toList "\n".toList =
      stripCr line ++ '\n' :: replace s "\r\n".toList "\n".toList := by
  unfold replace
  induction line with
  | nil =>
    have hne : ¬ "\r\n".toList <+: '\n' :: s := fun h => absurd (List.cons_prefix_cons.mp h).1 (by decide)
    rw [List.nil_append, replaceFrom_cons, if_neg hne]
    rfl
  | cons c line ih =>
    have htail : '\n' ∉ line := fun hmem => hline (List.mem_cons_of_mem _ hmem)
    cases line with
    | nil =>
      by_cases hc : c = '\r'
      · subst hc
        have hpat : "\r\n".toList ≠ [] := by decide
        exact replaceFrom_pat hpat _ s
      · have hne : ¬ "\r\n".toList <+: c :: '\n' :: s := fun h => hc (List.cons_prefix_cons.mp h).1.symm
        rw [List.singleton_append, replaceFrom_cons, if_neg hne, stripCr_cons hc]
        exact congrArg (c :: ·) (ih htail)
    | cons d line =>
      have hd : '\n' ≠ d := fun heq => htail (heq ▸ List.mem_cons_self)
      have hne : ¬ "\r\n".toList <+: c :: (d :: line ++ '\n' :: s) := fun h =>
        hd (List.cons_prefix_cons.mp (List.cons_prefix_cons.mp h).2).1
      rw [List.cons_append, replaceFrom_cons, if_neg hne, ih htail, stripCr_cons_of_ne_nil (List.cons_ne_nil d line)]
      rfl

theorem replace_crlf_last {line : Str} (hline : '\n' ∉ line) :
    replace line "\r\n".toList "\n".toList = line := by
  unfold replace
  have hkeep := replaceFrom_keep "\r\n".toList "\n".toList line [] ?_
  · rw [List.append_nil] at hkeep
    rw [hkeep]
    exact List.append_nil line
  · intro u hu _ hpre
    rw [List.append_nil] at hpre
    exact hline (hu.subset (hpre.subset (by decide)))

theorem normalizeWhitespace_last {line : Str} (hline : '\n' ∉ line) :
    normalizeWhitespace line = normalizeLine line := by
  unfold normalizeWhitespace
  rw [replace_crlf_last hline, lines_last hline]
  split
  · rename_i h
    subst h
    rfl
  · exact List.intercalate_singleton

theorem newline_not_mem_stripCr {line : Str} (hline : '\n' ∉ line) : '\n' ∉ stripCr line := by
  rcases stripCr_or line with h | h
  · rwa [h]
  · intro hmem
    exact hline (h ▸ List.mem_append_left _ hmem)

theorem lines_replace_crlf_ne_nil {s : Str} (hs : s ≠ []) :
    lines (replace s "\r\n".toList "\n".toList) ≠ [] := by
  induction s using line_induction with
  | last line hline =>
    rw [replace_crlf_last hline, lines_last hline, if_neg hs]
    exact List.cons_ne_nil _ _
  | line line s hline _ =>
    rw [replace_crlf_line hline, lines_line (newline_not_mem_stripCr hline)]
    exact List.cons_ne_nil _ _

/-- The first line, and the lines behind it if there are any. -/
theorem normalizeWhitespace_line {line : Str} (hline : '\n' ∉ line) (s : Str) : normalizeWhitespace (line ++ '\n' :: s) =
    normalizeLine line ++ (if s = [] then [] else '\n' :: normalizeWhitespace s) := by
  unfold normalizeWhitespace
  rw [replace_crlf_line hline, lines_line (newline_not_mem_stripCr hline), List.map_cons, normalizeLine_stripCr,
    normalizeLine_stripCr]
  split
  · rename_i hs
    subst hs
    rw [List.append_nil]
    exact List.intercalate_singleton
  · rename_i hs
    rw [List.intercalate_cons_of_ne_nil fun h => lines_replace_crlf_ne_nil hs (List.map_eq_nil_iff.mp h)]
    exact List.append_assoc _ _ _

/-- **The normal form is what the text shows**, up to the newline at its end. -/
theorem showText_eq (s : Str) : showText false s = normalizeWhitespace s ++ newlineEnd s := by
  induction s using line_induction with
  | last line hline =>
    have hend : newlineEnd line = [] := if_neg fun h => hline (List.mem_of_getLast? h)
    rw [normalizeWhitespace_last hline, hend, List.append_nil]
    exact showPart_line hline rfl false
  | line line s hline ih =>
    have hnewline : showText (endsBlank false line) ('\n' :: s) = '\n' :: showText false s := rfl
    rw [showText_append, showPart_line hline rfl, hnewline, ih, normalizeWhitespace_line hline]
    by_cases hs : s = []
    · subst hs
      have hend : newlineEnd (line ++ ['\n']) = ['\n'] := if_pos List.getLast?_concat
      rw [hend, if_pos rfl, List.append_nil]
      rfl
    · have hend : newlineEnd (line ++ '\n' :: s) = newlineEnd s := by
        unfold newlineEnd
        rw [List.append_cons, List.getLast?_append_of_ne_nil _ hs]
      rw [hend, if_neg hs, List.append_assoc]
      rfl

/-! ## Parts of a text -/

theorem showChar_eq_newline_iff (c : Char) : showChar c = '\n' ↔ c = '\n' := by
  unfold showChar
  split
  · rename_i h
    constructor
    · intro heq
      exact absurd heq (by decide)
    · rintro rfl
      exact absurd h (by decide)
  · rfl

/-- Newlines are shown, and nothing else is shown as one. -/
theorem count_newline_showPart (prev : Bool) (rest s : Str) : (showPart prev rest s).count '\n' = s.count '\n' := by
  induction s generalizing prev with
  | nil => rfl
  | cons c s ih =>
    rw [showPart, List.count_append, ih, List.count_cons, Nat.add_comm]
    congr 1
    by_cases hc : c = '\n'
    · subst hc
      rfl
    · have hshow : showChar c ≠ '\n' := fun heq => hc ((showChar_eq_newline_iff c).mp heq)
      have hbeq : (c == '\n') = false := beq_eq_false_iff_ne.mpr hc
      rw [hbeq]
      split
      · exact List.count_eq_zero.mpr fun hmem => hshow (List.mem_singleton.mp hmem).symm
      · rfl

theorem lineBlank_cons (c : Char) (s : Str) : lineBlank (c :: s) = (c = '\n' || (isWhitespace c && lineBlank s)) := by
  unfold lineBlank
  by_cases hc : c = '\n' <;> simp [hc]

/-- What stands behind a text matters for its last line only if that is white space. -/
theorem lineBlank_append_or (s rest : Str) :
    (s.all isWhitespace = true ∧ '\n' ∉ s) ∨ lineBlank (s ++ rest) = lineBlank s := by
  induction s with
  | nil => exact .inl ⟨rfl, List.not_mem_nil⟩
  | cons c s ih =>
    rw [List.cons_append, lineBlank_cons, lineBlank_cons]
    by_cases hc : c = '\n'
    · simp [hc]
    · rcases ih with ⟨hall, hmem⟩ | heq
      · cases hwhite : isWhitespace c with
        | false => exact .inr rfl
        | true => exact .inl ⟨by rw [List.all_cons, hwhite, hall]; rfl, by simp [Ne.symm hc, hmem]⟩
      · rw [heq]
        exact .inr rfl

theorem lineBlank_append_false {s : Str} (hs : lineBlank s = false) (rest : Str) : lineBlank (s ++ rest) = false := by
  rcases lineBlank_append_or s rest with ⟨hall, hmem⟩ | heq
  · have hblank : lineBlank (s ++ []) = s.all isWhitespace := lineBlank_append hmem rfl
    rw [List.append_nil, hs, hall] at hblank
    cases hblank
  · rw [heq, hs]

theorem lineBlank_line_append {line rest : Str} (hline : '\n' ∉ line) (hrest : lineBlank rest = false) :
    lineBlank (line ++ rest) = false := by
  induction line with
  | nil => exact hrest
  | cons c line ih =>
    have hc : c ≠ '\n' := fun heq => hline (heq ▸ List.mem_cons_self)
    rw [List.cons_append, lineBlank_cons, ih fun hmem => hline (List.mem_cons_of_mem _ hmem)]
    simp [hc]

theorem showText_white {s : Str} (hall : s.all isWhitespace = true) (hmem : '\n' ∉ s) (prev : Bool) :
    showText prev s = [] := by
  unfold showText
  rw [showPart_line hmem rfl, trimEnd_eq_nil_iff, isBlank, all_collapseWs]
  exact hall

theorem showText_cons (prev : Bool) (c : Char) (s : Str) :
    showText prev (c :: s) = (if shown prev c s then [showChar c] else []) ++ showText (isSpaceOrTab c) s := by
  unfold showText
  rw [showPart, List.append_nil]

/-- A part of a text shows what it shows alone, and maybe white space at its end. -/
theorem showPart_eq_append (rest s : Str) : ∀ prev, ∃ z, showPart prev rest s = showText prev s ++ z := by
  induction s with
  | nil => exact fun _ => ⟨[], rfl⟩
  | cons c s ih =>
    intro prev
    rw [showText_cons, showPart]
    rcases lineBlank_append_or s rest with ⟨hall, hmem⟩ | heq
    · rw [showText_white hall hmem, List.append_nil]
      cases hc : shown prev c s with
      | false => exact ⟨_, rfl⟩
      | true =>
        have hblank : lineBlank s = true := by
          have hline : lineBlank (s ++ []) = s.all isWhitespace := lineBlank_append hmem rfl
          rwa [List.append_nil, hall] at hline
        have hcontext : shown prev c (s ++ rest) = true := by
          unfold shown at hc ⊢
          rw [hblank] at hc
          cases hw : isWhitespace c <;> simp_all
        rw [hcontext]
        exact ⟨_, rfl⟩
    · have hcontext : shown prev c (s ++ rest) = shown prev c s := by
        unfold shown
        rw [heq]
      obtain ⟨z, hz⟩ := ih (isSpaceOrTab c)
      rw [hcontext, hz, ← List.append_assoc]
      exact ⟨z, rfl⟩

/-- A part that ends with a character other than white space shows what it shows alone. -/
theorem showPart_concat {d : Char} (hd : isWhitespace d = false) (rest s : Str) :
    ∀ prev, showPart prev rest (s ++ [d]) = showText prev (s ++ [d]) := by
  induction s with
  | nil =>
    intro prev
    rw [List.nil_append, showText_cons, showPart]
    unfold shown
    rw [hd]
    rfl
  | cons c s ih =>
    intro prev
    rw [List.cons_append, showText_cons, showPart, ih]
    have hblank : lineBlank (s ++ [d] ++ rest) = lineBlank (s ++ [d]) := by
      rcases lineBlank_append_or (s ++ [d]) rest with ⟨hall, -⟩ | heq
      · simp [hd] at hall
      · exact heq
    unfold shown
    rw [hblank]

/-- A space or tab before a text hides the one it begins with, if its line goes on. -/
theorem showText_prev (s : Str) : showText false s = showText true s ∨ (showText false s = ' ' :: showText true s ∧
    ∃ c t, s = c :: t ∧ isSpaceOrTab c = true ∧ c ≠ '\n' ∧ lineBlank t = false) := by
  cases s with
  | nil => exact .inl rfl
  | cons c s =>
    rw [showText_cons, showText_cons]
    unfold shown
    by_cases hc : c = '\n'
    · simp [hc]
    · cases htab : isSpaceOrTab c with
      | false => simp
      | true =>
        have hwhite := isWhitespace_of_isSpaceOrTab htab
        cases hblank : lineBlank s <;> simp [hc, hwhite, showChar, htab, hblank]

/-- Where a text ends with a space or tab and its line goes on, a space was shown last. -/
theorem showPart_endsBlank {rest : Str} (hrest : lineBlank rest = false) : ∀ (a : Str) (prev : Bool),
    endsBlank prev a = true → (prev = true ∧ showPart prev rest a = []) ∨ ∃ x, showPart prev rest a = x ++ [' '] := by
  intro a
  induction a with
  | nil => exact fun prev h => .inl ⟨h, rfl⟩
  | cons c a ih =>
    intro prev h
    rw [endsBlank_cons] at h
    rw [showPart]
    rcases ih _ h with ⟨htab, hnil⟩ | ⟨x, hx⟩
    · have hmem : '\n' ∉ a := by
        rw [← List.count_eq_zero, ← count_newline_showPart (isSpaceOrTab c) rest a, hnil]
        rfl
      have hc := ne_newline_of_isSpaceOrTab htab
      have hshown : shown prev c (a ++ rest) = !prev := by
        unfold shown
        rw [lineBlank_line_append hmem hrest, htab]
        simp [hc]
      rw [hshown, hnil, showChar, if_pos htab]
      cases prev with
      | false => exact .inr ⟨[], rfl⟩
      | true => exact .inl ⟨rfl, rfl⟩
    · rw [hx, ← List.append_assoc]
      exact .inr ⟨_, rfl⟩

/-- **A part of a text in its place.** What it shows alone stands in what the text shows,
before what the text behind it shows. -/
theorem showText_part (a m b : Str) : ∃ x z,
    showText false (a ++ m ++ b) = x ++ showText false m ++ z ++ showText (endsBlank false (a ++ m)) b := by
  obtain ⟨z, hz⟩ := showPart_eq_append b m (endsBlank false a)
  rw [showText_append, showPart_append, hz]
  cases hblank : endsBlank false a with
  | false => exact ⟨showPart false (m ++ b) a, z, by simp⟩
  | true =>
    rcases showText_prev m with heq | ⟨heq, c, t, hm, -, hc, ht⟩
    · exact ⟨showPart false (m ++ b) a, z, by rw [heq]; simp⟩
    · have hline : lineBlank m = false := by
        rw [hm, lineBlank_cons, ht]
        simp [hc]
      obtain ⟨hfalse, -⟩ | ⟨x, hx⟩ := showPart_endsBlank (lineBlank_append_false hline b) a false hblank
      · cases hfalse
      · exact ⟨x, z, by rw [heq, hx]; simp⟩

end Zeptoclaw

import Zeptoclaw.Proof.EditRange

/-!
# What a white-space match selects

A white-space match is to select a text of the file whose normal form is that of the text
looked for, with as many newlines. It does if the walk meets no stray white space on the way
to the end of the match, and the match does not end where a newline was dropped.
-/

namespace Zeptoclaw

open Text Utf8

variable {nfc : Str → Str} {content oldText : Str} {m : UniqueMatch}

/-- The range lies between characters, and selects a text with the normal form of the text looked
for and as many newlines. -/
def SelectsMatch (content oldText : Str) (m : UniqueMatch) : Prop :=
  ∃ text, slice content m.start m.stop = some text ∧ normalizeWhitespace text = normalizeWhitespace oldText ∧
    text.count '\n' = (normalizeWhitespace oldText).count '\n'

/-- The walk knows the white space at the end of all lines up to the end of the match; for a match
at the end of the normal form, up to its start. -/
def WalkKnows (content oldText : Str) : Prop :=
  ∀ pre post, FirstCut (normalizeWhitespace oldText) (normalizeWhitespace content) pre post →
    if post = [] then ¬ StrayWhite (pre.count '\n') content ∧ content.getLast? ≠ some '\n'
    else ¬ StrayWhite ((pre ++ normalizeWhitespace oldText).count '\n') content ∧
      (normalizeWhitespace oldText).getLast? ≠ some '\n'

/-! ## The range -/

theorem mapWs_found {search pre post : Str} (hnorm : normalizeWhitespace content = pre ++ (search ++ post))
    (hsearch : search ≠ []) : Found (encode (newlineEnd content)) (byteMarks false content) (encode pre) (encode search)
      (encode post) (mapWsRangeToOriginal content (normalizeWhitespace content) (byteLen pre) (byteLen pre + byteLen search)) := by
  have hpos := List.length_pos_iff.mpr (encode_ne_nil hsearch)
  have hreached := reached_start (emitted_content hnorm)
  unfold mapWsRangeToOriginal
  dsimp only
  rw [hnorm, encode_append, encode_append, ← byteMarks_fst false content, ← length_encode pre, ← length_encode search,
    List.length_map]
  rw [encode_append] at hreached
  apply wsWalk_found (marksOk_byteMarks content false) (encode_ne_nil hsearch) _ _ _ _ hreached (Nat.le_refl _)
  · simp only [List.length_append]
    omega
  · intro hlen
    simp only [List.length_append] at hlen
    omega
  · intro hlt
    simp only [List.length_append] at hlt
    omega

theorem normalizeLine_last_char {line : Str} {c : Char} (h : (normalizeLine line).getLast? = some c) :
    isWhitespace c = false := by
  have hne : normalizeLine line ≠ [] := by
    intro hnil
    rw [hnil] at h
    cases h
  have hlast := List.rdropWhile_last_not isWhitespace (collapseWs false line) hne
  have hc : (normalizeLine line).getLast hne = c := by
    rw [List.getLast?_eq_some_getLast hne] at h
    exact Option.some.inj h
  have hwhite : ¬ isWhitespace c = true := by rw [← hc]; exact hlast
  simpa using hwhite

/-- The normal form of a text ends with a newline or a character other than white space. -/
theorem normalizeWhitespace_last_char (s : Str) {c : Char} (h : (normalizeWhitespace s).getLast? = some c) :
    isWhitespace c = false ∨ c = '\n' := by
  induction s using line_induction with
  | last line hline =>
    rw [normalizeWhitespace_last hline] at h
    exact .inl (normalizeLine_last_char h)
  | line line s hline ih =>
    rw [normalizeWhitespace_line hline] at h
    split at h
    · rw [List.append_nil] at h
      exact .inl (normalizeLine_last_char h)
    · rw [List.getLast?_append_of_ne_nil _ (List.cons_ne_nil _ _), List.getLast?_cons] at h
      cases hlast : (normalizeWhitespace s).getLast? with
      | none =>
        rw [hlast] at h
        exact .inr (Option.some.inj h).symm
      | some d =>
        rw [hlast] at h
        exact ih (hlast.trans h)

/-! ## A match at the end -/

theorem newlineEnd_append {b : Str} (hb : b ≠ []) (a : Str) : newlineEnd (a ++ b) = newlineEnd b := by
  unfold newlineEnd
  rw [List.getLast?_append_of_ne_nil _ hb]

theorem byteLen_showText_le (prev : Bool) (s : Str) : byteLen (showText prev s) ≤ byteLen (showText false s) := by
  cases prev with
  | false => exact Nat.le_refl _
  | true =>
    rcases showText_prev s with heq | ⟨heq, -⟩
    · rw [heq]
    · rw [heq, byteLen_cons]
      omega

section AtEnd

variable {search pre : Str}

/-- In step, a match at the end of the normal form selects all of the file from there on. -/
theorem selects_atEnd_iff {a b : Str} (h : Between content pre search a b) (hsearch : search ≠ []) :
    (normalizeWhitespace b = search ∧ b.count '\n' = search.count '\n') ↔ content.getLast? ≠ some '\n' := by
  have hb : b ≠ [] := by
    rintro rfl
    have := congrArg List.length h.behind
    have hpos := List.length_pos_iff.mpr hsearch
    rw [List.length_append] at this
    have hnil : (showText false []).length = 0 := rfl
    omega
  have hend : newlineEnd b = newlineEnd content := by rw [h.text, newlineEnd_append hb]
  have hshow := h.behind
  rw [showText_eq, hend] at hshow
  have hcount : b.count '\n' = search.count '\n' + (newlineEnd content).count '\n' := by
    rw [← count_newline_showText false b, h.behind, List.count_append]
  unfold newlineEnd at hcount
  constructor
  · rintro ⟨-, heq⟩ hlast
    rw [if_pos hlast] at hcount
    have : ['\n'].count '\n' = 1 := rfl
    omega
  · intro hlast
    rw [if_neg hlast] at hcount
    exact ⟨List.append_cancel_right hshow, hcount⟩

/-- Ahead, it selects a text that shows more. -/
theorem not_selects_atEnd {a b : Str} {d : Bytes} (htext : content = a ++ b) (hd : d ≠ [])
    (hb : b ≠ []) (hlag : encode (showText (endsBlank false a) b) = d ++ encode search ++ encode (newlineEnd content)) :
    normalizeWhitespace b ≠ search := by
  intro hnorm
  have hle := byteLen_showText_le (endsBlank false a) b
  rw [showText_eq b, hnorm, ← newlineEnd_append hb a, ← htext] at hle
  have hlen := congrArg List.length hlag
  rw [length_encode, List.length_append, List.length_append, length_encode, length_encode] at hlen
  have hpos := List.length_pos_iff.mpr hd
  rw [byteLen_append] at hle
  omega

end AtEnd

/-! ## A match with text behind it -/

theorem endsBlank_append {b : Str} (hb : b ≠ []) (prev prev' : Bool) (a : Str) :
    endsBlank prev (a ++ b) = endsBlank prev' b := by
  obtain ⟨c, hc⟩ : ∃ c, b.getLast? = some c := ⟨b.getLast hb, List.getLast?_eq_some_getLast hb⟩
  unfold endsBlank
  rw [List.getLast?_append_of_ne_nil _ hb, hc]
  rfl

section Inside

variable {search pre post : Str}

/-- Two places in step, and the text between them. -/
theorem Between.text_between {a₁ b₁ a₂ b₂ : Str} (h₁ : Between content pre (search ++ post) a₁ b₁)
    (h₂ : Between content (pre ++ search) post a₂ b₂) (hsearch : search ≠ []) :
    ∃ text, text ≠ [] ∧ a₂ = a₁ ++ text ∧ b₁ = text ++ b₂ ∧ showPart false b₂ text = search := by
  have hpos := List.length_pos_iff.mpr hsearch
  have hcut : a₁ ++ b₁ = a₂ ++ b₂ := by rw [← h₁.text, ← h₂.text]
  -- behind the end less is shown than behind the start
  have hshorter : ∀ z, b₂ ≠ z ++ b₁ := by
    rintro z rfl
    have hbehind := h₂.behind'
    rw [showText_append] at hbehind
    have hlen := congrArg List.length hbehind
    have hle : (showText false b₁).length ≤ (showText (endsBlank (endsBlank false a₂) z) b₁).length := by
      have hend : endsBlank false a₁ = endsBlank (endsBlank false a₂) z := by
        have hz : a₁ = a₂ ++ z := by
          rw [← List.append_assoc] at hcut
          exact List.append_cancel_right hcut
        rcases eq_or_ne z [] with rfl | hz'
        · rw [hz, List.append_nil]
          rfl
        · rw [hz, endsBlank_append hz']
      rw [← hend, h₁.behind', h₁.behind]
    rw [h₁.behind] at hle
    simp only [List.length_append] at hlen hle
    omega
  rcases List.append_eq_append_iff.mp hcut with ⟨text, ha, hb⟩ | ⟨z, -, hb⟩
  · have hne : text ≠ [] := by
      rintro rfl
      exact hshorter [] hb.symm
    refine ⟨text, hne, ha, hb, ?_⟩
    have hbehind := h₁.behind
    have hend : endsBlank false text = endsBlank false a₂ := by rw [ha, endsBlank_append hne]
    rw [hb, showText_append, hend, h₂.behind', List.append_assoc] at hbehind
    exact List.append_cancel_right hbehind
  · exact absurd hb (hshorter z)

/-- In step at both ends, the match selects its text, unless that ends with a newline. -/
theorem selects_inside_iff {rest text : Str} {c : Char} (hshow : showPart false rest text = search)
    (hlast : text.getLast? = some c) (hc : isWhitespace c = false ∨ c = '\n') :
    (normalizeWhitespace text = search ∧ text.count '\n' = search.count '\n') ↔ c ≠ '\n' := by
  constructor
  · rintro ⟨hnorm, -⟩ rfl
    -- the newline at its end is dropped from its normal form
    obtain ⟨z, hz⟩ := showPart_eq_append rest text false
    have hend : newlineEnd text = ['\n'] := if_pos hlast
    rw [hshow, showText_eq, hend, hnorm] at hz
    have hlen := congrArg List.length hz
    simp only [List.length_append, List.length_cons, List.length_nil] at hlen
    omega
  · intro hne
    have hwhite : isWhitespace c = false := hc.resolve_right hne
    obtain ⟨w, rfl⟩ := List.getLast?_eq_some_iff.mp hlast
    have hend : newlineEnd (w ++ [c]) = [] := if_neg (by rw [hlast]; simpa using hne)
    have hcount := count_newline_showPart false rest (w ++ [c])
    rw [hshow] at hcount
    rw [showPart_concat hwhite, showText_eq, hend, List.append_nil] at hshow
    exact ⟨hshow, hcount.symm⟩

/-- Ahead at the end, the text that is selected would occur before the first occurrence. -/
theorem not_selects_inside {a text b : Str} {d : Bytes} (hfirst : FirstCut search (normalizeWhitespace content) pre post)
    (htext : content = a ++ text ++ b) (hd : d ≠ [])
    (hlag : encode (showText (endsBlank false (a ++ text)) b) = d ++ encode post ++ encode (newlineEnd content)) :
    normalizeWhitespace text ≠ search := by
  intro hnorm
  obtain ⟨x, z, hshow⟩ := showText_part a text b
  have hpos := List.length_pos_iff.mpr hd
  have hlen := congrArg List.length hlag
  rw [length_encode, List.length_append, List.length_append, length_encode, length_encode] at hlen
  have hall := showText_eq content
  rw [htext, hshow, showText_eq text, hnorm, ← htext] at hall
  have hsizes := congrArg byteLen hall
  rw [hfirst.text] at hsizes
  simp only [byteLen_append] at hsizes
  -- the occurrence lies in the normal form, before the newline that was dropped
  have hle : byteLen (x ++ search) ≤ byteLen (normalizeWhitespace content) := by
    rw [hfirst.text]
    simp only [byteLen_append]
    omega
  have hfront : x ++ search <+: normalizeWhitespace content := by
    have hcut : (x ++ search) ++ (newlineEnd text ++ z ++ showText (endsBlank false (a ++ text)) b) =
        normalizeWhitespace content ++ newlineEnd content := by
      rw [← hall]
      simp
    rcases List.append_eq_append_iff.mp hcut with ⟨w, hw, -⟩ | ⟨w, hw, -⟩
    · exact ⟨w, hw.symm⟩
    · have hw0 : w = [] := by
        by_contra hne
        have := byteLen_pos hne
        rw [hw, byteLen_append] at hle
        omega
      rw [hw, hw0, List.append_nil]
  obtain ⟨w, hw⟩ := hfront
  have := hfirst.first x w hw.symm
  omega

end Inside

/-! ## The match -/

theorem selectsMatch_iff {text : Str} (h : slice content m.start m.stop = some text) : SelectsMatch content oldText m ↔
    normalizeWhitespace text = normalizeWhitespace oldText ∧ text.count '\n' = (normalizeWhitespace oldText).count '\n' := by
  constructor
  · rintro ⟨text', htext', hsel⟩
    rw [h] at htext'
    cases htext'
    exact hsel
  · exact fun hsel => ⟨text, h, hsel⟩

/-- The offset of a place is the length of what was passed. -/
theorem offset_eq {a b : Str} {back : List Mark} (htext : content = a ++ b) (hlen : back.length = byteLen b) :
    (byteMarks false content).length - back.length = byteLen a := by
  rw [length_byteMarks, hlen, htext, byteLen_append]
  omega

/-- What is shown behind the place of an offset between two characters. -/
theorem Reached.emitted_eq {tail norm0 norm : Bytes} {back : List Mark} {a b : Str}
    (h : Reached tail (byteMarks false content) norm0 back norm) (htext : content = a ++ b)
    (ha : byteLen a = (byteMarks false content).length - back.length) :
    back.length = byteLen b ∧ emitted back = encode (showText (endsBlank false a) b) := by
  obtain ⟨front, done, hmarks, -, -⟩ := h
  have hlen : back.length = byteLen b := by
    have htotal := congrArg List.length hmarks
    rw [List.length_append] at htotal
    rw [length_byteMarks] at htotal ha
    rw [htext, byteLen_append] at htotal ha
    omega
  rw [htext] at hmarks
  obtain ⟨hback, -, -⟩ := byteMarks_split hmarks hlen
  exact ⟨hlen, by rw [hback, emitted_byteMarks]⟩

theorem StrayWhite.mono {k k' : ℕ} {s : Str} (h : StrayWhite k s) (hle : k ≤ k') : StrayWhite k' s := by
  obtain ⟨a, c, b, hs, hlt, hrest⟩ := h
  exact ⟨a, c, b, hs, by omega, hrest⟩

section Range

variable {search pre post : Str}

theorem range_atEnd (hold : normalizeWhitespace oldText = search) (hsearch : search ≠ [])
    (hnorm : normalizeWhitespace content = pre ++ search)
    (hfound : Found (encode (newlineEnd content)) (byteMarks false content) (encode pre) (encode search) []
      (m.start, m.stop)) :
    SelectsMatch content oldText m ↔ ¬ StrayWhite (pre.count '\n') content ∧ content.getLast? ≠ some '\n' := by
  have hstop : m.stop = byteLen content := by rw [← length_byteMarks false]; exact hfound.stopEnd rfl
  obtain ⟨back, hreached, hstart⟩ := hfound.start
  have hstart : m.start = (byteMarks false content).length - back.length := hstart
  rw [List.append_nil] at hreached
  rcases hreached.place hnorm hsearch with ⟨hclean, a, b, hbetween, hlen⟩ | ⟨hstray, d, hd, hlag⟩
  · rw [offset_eq hbetween.text hlen] at hstart
    have hslice : slice content m.start m.stop = some b := by
      apply slice_eq_some.mpr
      refine ⟨a, [], by rw [List.append_nil]; exact hbetween.text, hstart.symm, ?_⟩
      rw [hstop, hbetween.text]
    rw [selectsMatch_iff hslice, hold, selects_atEnd_iff hbetween hsearch]
    exact ⟨fun h => ⟨hclean, h⟩, fun h => h.2⟩
  · refine ⟨?_, fun h => absurd hstray h.1⟩
    rintro ⟨text, hslice, hsel, -⟩
    exfalso
    obtain ⟨a, rest, htext, ha, hend⟩ := slice_eq_some.mp hslice
    have hrest : rest = [] := by
      by_contra hne
      have hpos := byteLen_pos hne
      have htotal := congrArg byteLen htext
      rw [byteLen_append, hend, hstop] at htotal
      omega
    rw [hrest, List.append_nil] at htext
    obtain ⟨hlen, hshow⟩ := hreached.emitted_eq htext (ha.trans hstart)
    rw [hshow] at hlag
    have hne : text ≠ [] := by
      rintro rfl
      have hnil := congrArg List.length hlag
      have hpos := List.length_pos_iff.mpr hd
      rw [List.length_append, List.length_append] at hnil
      have : (encode (showText (endsBlank false a) [])).length = 0 := rfl
      omega
    exact not_selects_atEnd htext hd hne hlag (hsel.trans hold)

theorem range_inside (hold : normalizeWhitespace oldText = search) (hsearch : search ≠ []) (hpost : post ≠ [])
    (hfirst : FirstCut search (normalizeWhitespace content) pre post)
    (hfound : Found (encode (newlineEnd content)) (byteMarks false content) (encode pre) (encode search) (encode post)
      (m.start, m.stop)) :
    SelectsMatch content oldText m ↔
      ¬ StrayWhite ((pre ++ search).count '\n') content ∧ search.getLast? ≠ some '\n' := by
  obtain ⟨back₁, hreached₁, hstart⟩ := hfound.start
  obtain ⟨back₂, harrived, hstop⟩ := hfound.stop (encode_ne_nil hpost)
  have hstart : m.start = (byteMarks false content).length - back₁.length := hstart
  have hstop : m.stop = (byteMarks false content).length - back₂.length := hstop
  have hnorm₁ : normalizeWhitespace content = pre ++ (search ++ post) := by rw [hfirst.text, List.append_assoc]
  rw [← encode_append search post] at hreached₁
  rw [← encode_append] at harrived
  obtain ⟨c, hc⟩ : ∃ c, search.getLast? = some c := ⟨search.getLast hsearch, List.getLast?_eq_some_getLast hsearch⟩
  have hkind : isWhitespace c = false ∨ c = '\n' := normalizeWhitespace_last_char oldText (by rw [hold, hc])
  have hspace : c ≠ ' ' := by
    rintro rfl
    rcases hkind with h | h <;> exact absurd h (by decide)
  have hlast : (pre ++ search).getLast? = some c := by rw [List.getLast?_append_of_ne_nil _ hsearch, hc]
  have hc' : search.getLast? ≠ some '\n' ↔ c ≠ '\n' := by rw [hc]; simp
  rcases harrived.place hfirst.text hpost hlast hspace with ⟨hclean, a₂, b₂, hend, hlen₂, ha₂⟩ | ⟨hstray, d, hd, hlag⟩
  · -- in step at the end, so at the start
    have hclean₁ : ¬ StrayWhite (pre.count '\n') content := by
      intro hstray
      apply hclean
      apply hstray.mono
      rw [List.count_append]
      omega
    have hboth : search ++ post ≠ [] := by simp [hsearch]
    rcases hreached₁.place hnorm₁ hboth with ⟨-, a₁, b₁, hbegin, hlen₁⟩ | ⟨hstray, -⟩
    · obtain ⟨text, hne, ha, hb, hshow⟩ := hbegin.text_between hend hsearch
      rw [offset_eq hbegin.text hlen₁] at hstart
      rw [offset_eq hend.text hlen₂] at hstop
      have hslice : slice content m.start m.stop = some text := by
        apply slice_eq_some.mpr
        refine ⟨a₁, b₂, ?_, hstart.symm, by rw [hstop, ha]⟩
        rw [hend.text, ha]
      have htextLast : text.getLast? = some c := by
        rw [ha, List.getLast?_append_of_ne_nil _ hne] at ha₂
        exact ha₂
      rw [selectsMatch_iff hslice, hold, selects_inside_iff hshow htextLast hkind, hc']
      exact ⟨fun h => ⟨hclean, h⟩, fun h => h.2⟩
    · exact absurd hstray hclean₁
  · refine ⟨?_, fun h => absurd hstray h.1⟩
    rintro ⟨text, hslice, hsel, -⟩
    exfalso
    obtain ⟨a, rest, htext, -, hend⟩ := slice_eq_some.mp hslice
    obtain ⟨-, hshow⟩ := harrived.reached.emitted_eq htext (hend.trans hstop)
    rw [hshow] at hlag
    exact not_selects_inside hfirst htext hd hlag (hsel.trans hold)

end Range

/-- An edit through a match that selects its text replaces that text and nothing else. -/
theorem editText_of_selects (hold : oldText ≠ []) (h : findUniqueMatch nfc content oldText = .ok m)
    (hsel : SelectsMatch content oldText m) (newText : Str) :
    ∃ front text back, content = front ++ text ++ back ∧ normalizeWhitespace text = normalizeWhitespace oldText ∧
      editText nfc content oldText newText none = some (.ok (front ++ newText ++ back)) := by
  obtain ⟨text, hslice, hnorm, -⟩ := hsel
  obtain ⟨front, back, htext, hstart, hstop⟩ := slice_eq_some.mp hslice
  refine ⟨front, text, back, htext, hnorm, ?_⟩
  have hfront : splitAtByte m.start content = some (front, text ++ back) := by
    rw [← hstart, htext, List.append_assoc]
    exact splitAtByte_byteLen front (text ++ back)
  have hback : splitAtByte m.stop content = some (front ++ text, back) := by
    rw [← hstop, htext]
    exact splitAtByte_byteLen (front ++ text) back
  unfold editText
  rw [if_neg hold, h]
  dsimp only
  unfold replaceRange
  rw [hfront, hback]
  rfl

/-- The match selects its text if and only if the walk gets through. -/
theorem selectsMatch_iff_walkKnows (h : findUniqueMatch nfc content oldText = .ok m) (htier : m.tier = .whitespaceNormalized) :
    SelectsMatch content oldText m ↔ WalkKnows content oldText := by
  obtain ⟨hsearch, pre, post, hfirst, hrange⟩ := findUniqueMatch_whitespace h htier
  have hnorm : normalizeWhitespace content = pre ++ (normalizeWhitespace oldText ++ post) := by
    rw [hfirst.text, List.append_assoc]
  have hfound := mapWs_found hnorm hsearch
  rw [← hrange] at hfound
  have hknows : WalkKnows content oldText ↔
      if post = [] then ¬ StrayWhite (pre.count '\n') content ∧ content.getLast? ≠ some '\n'
      else ¬ StrayWhite ((pre ++ normalizeWhitespace oldText).count '\n') content ∧
        (normalizeWhitespace oldText).getLast? ≠ some '\n' := by
    constructor
    · exact fun hall => hall pre post hfirst
    · intro hcond pre' post' hfirst'
      obtain ⟨rfl, rfl⟩ := hfirst.unique hfirst'
      exact hcond
  rw [hknows]
  split
  · rename_i hpost
    subst hpost
    rw [List.append_nil] at hnorm
    exact range_atEnd rfl hsearch hnorm hfound
  · rename_i hpost
    exact range_inside rfl hsearch hpost hfirst hfound

/-- **When a white-space match selects its text.** Between characters, with the normal form of
the text looked for and no newline of its own: if and only if the walk knows the white
space on its way, and no newline was dropped at its end. The edit then replaces that text and
nothing else. -/
theorem whitespace_match_selects_iff (nfc : Str → Str) {content oldText : Str} {m : UniqueMatch}
    (h : findUniqueMatch nfc content oldText = .ok m) (htier : m.tier = .whitespaceNormalized) :
    (SelectsMatch content oldText m ↔ WalkKnows content oldText) ∧
      (WalkKnows content oldText → oldText ≠ [] → ∀ newText, ∃ front text back, content = front ++ text ++ back ∧
        normalizeWhitespace text = normalizeWhitespace oldText ∧
        editText nfc content oldText newText none = some (.ok (front ++ newText ++ back))) := by
  have hselects := selectsMatch_iff_walkKnows h htier
  exact ⟨hselects, fun hwalk hold newText => editText_of_selects hold h (hselects.mpr hwalk) newText⟩

/-- A match in the middle of a text with trailing blanks. -/
theorem whitespace_match_selects_iff_middle :
    WalkKnows "x \r\na  b\ty\n".toList "a b".toList ∧ ∃ front text back, "x \r\na  b\ty\n".toList = front ++ text ++ back ∧
      normalizeWhitespace text = normalizeWhitespace "a b".toList ∧
      editText id "x \r\na  b\ty\n".toList "a b".toList "c".toList none = some (.ok (front ++ "c".toList ++ back)) := by
  have hfind : findUniqueMatch id "x \r\na  b\ty\n".toList "a b".toList = .ok ⟨4, 8, .whitespaceNormalized⟩ := by decide +kernel
  obtain ⟨hselects, hedit⟩ := whitespace_match_selects_iff id hfind rfl
  have hwalk := hselects.mp ⟨"a  b".toList, by decide +kernel, by decide +kernel, by decide +kernel⟩
  exact ⟨hwalk, hedit hwalk (List.cons_ne_nil _ _) "c".toList⟩

/-- At the end of a file the newline behind the match is taken with it. -/
theorem whitespace_match_takes_newline :
    findUniqueMatch id "a  b\n".toList "a b".toList = .ok ⟨0, 5, .whitespaceNormalized⟩ ∧
      ¬ SelectsMatch "a  b\n".toList "a b".toList ⟨0, 5, .whitespaceNormalized⟩ := by
  refine ⟨by decide +kernel, ?_⟩
  have hslice : slice "a  b\n".toList 0 5 = some "a  b\n".toList := by decide +kernel
  rw [selectsMatch_iff hslice]
  rintro ⟨-, hcount⟩
  exact absurd hcount (by decide +kernel)

end Zeptoclaw

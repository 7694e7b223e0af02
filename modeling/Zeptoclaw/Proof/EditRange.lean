import Zeptoclaw.Proof.Edit
import Zeptoclaw.Proof.EditWalk

/-!
# The range of a white-space match

The places of the walk as texts: where it is in step it stands between two characters, and
what it has passed shows what it has done. So it is known when the range of a match selects the
text that was matched.
-/

namespace Zeptoclaw

open Text Utf8

/-! ## Stray white space -/

/-- In the first `k` lines, white space at the end of a line that is not a space, a tab or
the carriage return of the line end. -/
def StrayWhite (k : ℕ) (s : Str) : Prop :=
  ∃ a c b, s = a ++ c :: b ∧ a.count '\n' < k ∧ isWhitespace c = true ∧ isSpaceOrTab c = false ∧ c ≠ '\n' ∧
    lineBlank b = true ∧ ¬ (c = '\r' ∧ b.head? = some '\n')

theorem count_newline_encode (s : Str) : (encode s).count 10 = s.count '\n' := by
  induction s with
  | nil => rfl
  | cons c s ih =>
    rw [encode_cons, List.count_append, ih, List.count_cons, Nat.add_comm]
    congr 1
    by_cases hc : c = '\n'
    · subst hc
      rfl
    · have hmem : (10 : UInt8) ∉ String.utf8EncodeChar c := fun h => hc (newline_of_mem h)
      have hbeq : (c == '\n') = false := beq_eq_false_iff_ne.mpr hc
      rw [List.count_eq_zero.mpr hmem, hbeq]
      rfl

theorem encode_ne_nil {s : Str} (h : s ≠ []) : encode s ≠ [] := by
  rw [← List.length_pos_iff, length_encode]
  exact byteLen_pos h

/-- A mark of a text is that of a byte of one of its characters. -/
theorem byteMarks_cut (s : Str) : ∀ {prev : Bool} {x y : List Mark} {t : Mark}, byteMarks prev s = x ++ t :: y →
    ∃ (a : Str) (c : Char) (b : Str) (before behind : Bytes), s = a ++ c :: b ∧
      String.utf8EncodeChar c = before ++ t.1 :: behind ∧ t.2 = shown (endsBlank prev a) c b ∧
      y = behind.map (·, t.2) ++ byteMarks (isSpaceOrTab c) b ∧
      emitted x = encode (showPart prev (c :: b) a) ++ emitted (before.map (·, t.2)) := by
  induction s with
  | nil =>
    intro prev x y t h
    simp [byteMarks] at h
  | cons c s ih =>
    intro prev x y t h
    rw [byteMarks] at h
    -- a mark behind those of the first character
    have hlater : ∀ z, byteMarks (isSpaceOrTab c) s = z ++ t :: y →
        x = (String.utf8EncodeChar c).map (·, shown prev c s) ++ z →
        ∃ (a : Str) (c' : Char) (b : Str) (before behind : Bytes), c :: s = a ++ c' :: b ∧
          String.utf8EncodeChar c' = before ++ t.1 :: behind ∧ t.2 = shown (endsBlank prev a) c' b ∧
          y = behind.map (·, t.2) ++ byteMarks (isSpaceOrTab c') b ∧
          emitted x = encode (showPart prev (c' :: b) a) ++ emitted (before.map (·, t.2)) := by
      rintro z hz rfl
      obtain ⟨a, c', b, before, behind, rfl, hcode, hshown, hy, hx⟩ := ih hz
      refine ⟨c :: a, c', b, before, behind, rfl, hcode, by rw [endsBlank_cons]; exact hshown, hy, ?_⟩
      rw [emitted_append, emitted_char, hx, showPart, encode_append, List.append_assoc]
    rcases List.append_eq_append_iff.mp h with ⟨z, hx, hz⟩ | ⟨z, hz, hrest⟩
    · exact hlater z hz hx
    · rcases z with _ | ⟨t', z⟩
      · exact hlater [] hrest.symm (by rw [hz, List.append_nil, List.append_nil])
      · obtain ⟨rfl, rfl⟩ := List.cons.inj hrest
        obtain ⟨before, more, hcode, rfl, hmore⟩ := List.map_eq_append_iff.mp hz
        obtain ⟨b, behind, rfl, rfl, rfl⟩ := List.map_eq_cons_iff.mp hmore
        exact ⟨[], c, s, before, behind, rfl, hcode, rfl, rfl, rfl⟩

theorem single_byte {x b : UInt8} {before behind : Bytes} (h : [x] = before ++ b :: behind) :
    x = b ∧ before = [] ∧ behind = [] := by
  cases before with
  | nil =>
    obtain ⟨rfl, hnil⟩ := List.cons.inj h
    exact ⟨rfl, rfl, hnil.symm⟩
  | cons b' before =>
    obtain ⟨-, hnil⟩ := List.cons.inj h
    simp at hnil

theorem isWhitespace_of_hidden {prev : Bool} {c : Char} {s : Str} (htab : isSpaceOrTab c = false)
    (h : shown prev c s = false) : isWhitespace c = true := by
  unfold shown at h
  cases hwhite : isWhitespace c with
  | true => rfl
  | false =>
    rw [htab, hwhite] at h
    simp at h

/-- White space at the end of a line is not shown. -/
theorem hidden_of_isWhitespace {c : Char} {s : Str} (hwhite : isWhitespace c = true) (hline : lineBlank s = true)
    (hc : c ≠ '\n') (prev : Bool) : shown prev c s = false := by
  unfold shown
  rw [hwhite, hline]
  simp [hc]

/-- A stray byte is one of a stray white space. -/
theorem HasStray.strayWhite {k : ℕ} {s : Str} {prev : Bool} (h : HasStray k (byteMarks prev s)) : StrayWhite k s := by
  obtain ⟨x, t, y, hmarks, hstray, hlt⟩ := h
  obtain ⟨a, c, b, before, behind, rfl, hcode, hshown, hy, hx⟩ := byteMarks_cut s hmarks
  have hmem : t.1 ∈ String.utf8EncodeChar c := by rw [hcode]; simp
  have htab : isSpaceOrTab c = false := by rw [← isBlankByte_of_mem hmem]; exact hstray.notBlank
  have hhidden := hstray.hidden
  rw [hshown] at hhidden
  have hc : c ≠ '\n' := by
    rintro rfl
    cases hhidden
  have hwhite := isWhitespace_of_hidden htab hhidden
  refine ⟨a, c, b, rfl, ?_, hwhite, htab, hc, hidden_cases (by rw [htab]; rfl) hhidden, ?_⟩
  · rw [hx, hstray.hidden, emitted_map_false, List.append_nil, count_newline_encode, count_newline_showPart] at hlt
    exact hlt
  · rintro ⟨rfl, hb⟩
    have hcode : [13] = before ++ t.1 :: behind := hcode
    obtain ⟨h13, -, hbehind⟩ := single_byte hcode
    rcases b with _ | ⟨d, b⟩
    · cases hb
    cases hb
    apply hstray.notReturn
    rw [hy, hbehind]
    exact ⟨h13.symm, rfl⟩

/-- The first byte of a stray white space is stray. -/
theorem StrayWhite.hasStray {k : ℕ} {s : Str} (h : StrayWhite k s) (hk : k ≤ s.count '\n') (prev : Bool) :
    HasStray k (byteMarks prev s) := by
  obtain ⟨a, c, b, rfl, hlt, hwhite, htab, hc, hline, hreturn⟩ := h
  obtain ⟨front, hmarks, -, hfront⟩ := byteMarks_append prev a (c :: b)
  obtain ⟨lead, more, hcode, -, -⟩ := utf8EncodeChar_cases c
  have hmem : lead ∈ String.utf8EncodeChar c := by rw [hcode]; exact List.mem_cons_self
  rw [byteMarks, hcode, hidden_of_isWhitespace hwhite hline hc] at hmarks
  refine ⟨front, (lead, false), more.map (·, false) ++ byteMarks (isSpaceOrTab c) b, hmarks, ?_, ?_⟩
  · constructor
    case hidden => rfl
    case notBlank => rw [← htab]; exact isBlankByte_of_mem hmem
    case notReturn =>
      rintro ⟨h13, h10⟩
      have h13 : lead = 13 := h13
      rw [h13] at hmem
      have hcr := return_of_mem hmem
      subst hcr
      have hmore : more = [] := (List.cons.inj hcode).2.symm
      subst hmore
      rw [List.map_nil, List.nil_append, byteMarks_fst] at h10
      obtain ⟨l, hl⟩ := List.head?_eq_some_iff.mp h10
      obtain ⟨b', rfl⟩ := encode_newline_iff.mp ⟨l, hl⟩
      exact hreturn ⟨rfl, rfl⟩
    case ends =>
      -- the line of the character is one of the first `k`, so that it has an end
      intro hnil
      rw [emitted_append, emitted_map_false, List.nil_append, emitted_byteMarks] at hnil
      have hcount := count_newline_encode (showText (isSpaceOrTab c) b)
      have htext : (showText (isSpaceOrTab c) b).count '\n' = b.count '\n' := count_newline_showPart _ [] b
      rw [hnil, htext] at hcount
      have hbeq : (c == '\n') = false := beq_eq_false_iff_ne.mpr hc
      rw [List.count_append, List.count_cons, hbeq, ← hcount] at hk
      simp at hk
      omega
  · rw [hfront, count_newline_encode, count_newline_showPart]
    exact hlt

/-- The stray bytes of a text are those of its stray white space. -/
theorem hasStray_iff {k : ℕ} {s : Str} (hk : k ≤ s.count '\n') (prev : Bool) :
    HasStray k (byteMarks prev s) ↔ StrayWhite k s :=
  ⟨HasStray.strayWhite, fun h => h.hasStray hk prev⟩

/-! ## Places in the text -/

theorem length_byteMarks (prev : Bool) (s : Str) : (byteMarks prev s).length = byteLen s := by
  rw [← length_encode, ← byteMarks_fst prev s, List.length_map]

/-- Marks that are cut between two characters. -/
theorem byteMarks_split {a b : Str} {front back : List Mark} (h : byteMarks false (a ++ b) = front ++ back)
    (hlen : back.length = byteLen b) : back = byteMarks (endsBlank false a) b ∧ front.map Prod.fst = encode a ∧
      emitted front = encode (showPart false b a) := by
  obtain ⟨front', hmarks, hbytes, hshow⟩ := byteMarks_append false a b
  rw [hmarks] at h
  obtain ⟨rfl, rfl⟩ := List.append_inj' h (by rw [length_byteMarks, hlen])
  exact ⟨rfl, hbytes, hshow⟩

/-- In step, the walk stands between two characters. -/
theorem InStep.boundary {content v : Str} {tail done : Bytes} {front back : List Mark}
    (h : InStep tail front back done (encode v)) (hmarks : byteMarks false content = front ++ back) (hv : v ≠ []) :
    ∃ a b, content = a ++ b ∧ back.length = byteLen b := by
  have hbytes : encode content = front.map Prod.fst ++ back.map Prod.fst := by
    rw [← byteMarks_fst false content, hmarks, List.map_append]
  rcases encode_cut content hbytes with ⟨⟨a, ha⟩, ⟨b, hb⟩⟩ | ⟨t, rest, hback, hcont⟩
  · refine ⟨a, b, ?_, ?_⟩
    · apply encode_injective
      rw [hbytes, ha, hb, encode_append]
    · rw [← length_encode, ← hb, List.length_map]
  · -- the byte before continues the same character, so that it is shown too
    obtain ⟨u, l, rfl, rfl, -⟩ := List.map_eq_cons_iff.mp hback
    have hshown : u.2 = true := by
      rcases List.eq_nil_or_concat front with rfl | ⟨front, w, rfl⟩
      · obtain ⟨-, -, -, -, -, -, hlead, -⟩ := byteMarks_head hmarks
        exact absurd hcont hlead
      · rw [List.concat_eq_append] at hmarks h
        have hok := marksOk_byteMarks content false
        rw [hmarks, List.append_assoc] at hok
        obtain ⟨hblank, hsame⟩ := hok.behind.1.continued u l rfl hcont
        rcases h.endOk w List.getLast?_concat with hw | hw
        · rw [hsame, hw]
        · rw [hblank] at hw
          cases hw
    -- but what is shown next begins a character
    obtain ⟨c, v, rfl⟩ := List.exists_cons_of_ne_nil hv
    obtain ⟨lead, more, hc, hlead, -⟩ := utf8EncodeChar_cases c
    have hbehind := h.behind
    obtain ⟨b, e⟩ := u
    cases hshown
    rw [emitted_cons_true, encode_cons, hc] at hbehind
    have hb : showByte b = lead := (List.cons.inj hbehind).1
    have hplain : showByte b = b := by
      unfold showByte
      rw [if_neg]
      intro hblank
      rcases (isBlankByte_iff b).mp hblank with rfl | rfl <;> exact absurd hcont (by decide)
    rw [← hb, hplain] at hlead
    exact absurd hcont hlead

/-- What is shown behind a place does not depend on the blank before it. -/
theorem HeadOk.showText_eq {s : Str} {prev : Bool} (h : HeadOk (byteMarks prev s)) :
    showText prev s = showText false s := by
  cases prev with
  | false => rfl
  | true =>
    rcases showText_prev s with heq | ⟨-, d, s, rfl, htab, hd, hline⟩
    · exact heq.symm
    · exfalso
      -- the space is hidden by the one before it, but its line goes on
      have hhidden : shown true d s = false := by
        unfold shown
        rw [htab]
        simp [hd]
      obtain ⟨lead, more, hcode, -, -⟩ := utf8EncodeChar_cases d
      have hquiet := h (lead, false) (more.map (·, false) ++ byteMarks (isSpaceOrTab d) s)
        (by rw [byteMarks, hcode, hhidden]; rfl) rfl
      obtain ⟨x, l, hx, hne⟩ := showText_of_not_lineBlank s (isSpaceOrTab d) hline
      have hshow : emitted (more.map (·, false) ++ byteMarks (isSpaceOrTab d) s) = encode (x :: l) := by
        rw [emitted_append, emitted_map_false, List.nil_append, emitted_byteMarks, hx]
      obtain ⟨b, bytes, hx', -, -⟩ := utf8EncodeChar_cases x
      rw [encode_cons, hx'] at hshow
      have hb := hquiet b _ hshow
      apply hne
      apply newline_of_mem
      rw [hx', hb]
      exact List.mem_cons_self

theorem count_newline_showText (prev : Bool) (s : Str) : (showText prev s).count '\n' = s.count '\n' :=
  count_newline_showPart prev [] s

section Place

variable {content u v : Str} {back : List Mark}

/-- A place in step, as texts. -/
structure Between (content u v a b : Str) : Prop where
  text : content = a ++ b
  before : showPart false b a = u
  behind : showText false b = v ++ newlineEnd content
  behind' : showText (endsBlank false a) b = v ++ newlineEnd content

theorem emitted_content (hnorm : normalizeWhitespace content = u ++ v) :
    emitted (byteMarks false content) = encode u ++ encode v ++ encode (newlineEnd content) := by
  rw [emitted_byteMarks, showText_eq, hnorm, encode_append, encode_append]

theorem count_le_content (hnorm : normalizeWhitespace content = u ++ v) : u.count '\n' ≤ content.count '\n' := by
  rw [← count_newline_showText false content, showText_eq, hnorm, List.count_append, List.count_append]
  omega

theorem InStep.between {front : List Mark}
    (h : InStep (encode (newlineEnd content)) front back (encode u) (encode v))
    (hmarks : byteMarks false content = front ++ back) (hv : v ≠ []) :
    ∃ a b, Between content u v a b ∧ back.length = byteLen b := by
  obtain ⟨a, b, rfl, hlen⟩ := h.boundary hmarks hv
  obtain ⟨hback, -, hfront⟩ := byteMarks_split hmarks hlen
  have hbehind : showText (endsBlank false a) b = v ++ newlineEnd (a ++ b) := by
    apply encode_injective
    rw [← emitted_byteMarks, ← hback, h.behind, encode_append]
  have hhead := h.headOk
  rw [hback] at hhead
  refine ⟨a, b, ⟨rfl, ?_, ?_, hbehind⟩, hlen⟩
  · apply encode_injective
    rw [← hfront, h.before]
  · rw [← hhead.showText_eq, hbehind]

/-- A place of the walk as texts: in step if no stray white space came before it, else ahead. -/
theorem Reached.place (hnorm : normalizeWhitespace content = u ++ v) (hv : v ≠ [])
    (h : Reached (encode (newlineEnd content)) (byteMarks false content) (encode u ++ encode v) back (encode v)) :
    (¬ StrayWhite (u.count '\n') content ∧ ∃ a b, Between content u v a b ∧ back.length = byteLen b) ∨
      (StrayWhite (u.count '\n') content ∧ ∃ d, d ≠ [] ∧ emitted back = d ++ encode v ++ encode (newlineEnd content)) := by
  obtain ⟨front, done, hmarks, hdone, hplace⟩ := h
  have hdone : done = encode u := (List.append_cancel_right hdone).symm
  subst hdone
  have hstray := hasStray_iff (count_le_content hnorm) false
  rw [← count_newline_encode] at hstray ⊢
  rw [hmarks] at hstray
  rcases hplace with hstep | hahead
  · exact .inl ⟨fun h => hstep.not_hasStray (hstray.mpr h), hstep.between hmarks hv⟩
  · exact .inr ⟨hstray.mp hahead.stray, hahead.lag⟩

/-- The last character that was passed, where it is shown. -/
theorem EndShown.last {a b : Str} {front : List Mark} (h : EndShown front)
    (hmarks : byteMarks false (a ++ b) = front ++ byteMarks (endsBlank false a) b)
    (hfront : emitted front = encode (showPart false b a)) {c : Char}
    (hc : (showPart false b a).getLast? = some c) (hspace : c ≠ ' ') : a.getLast? = some c := by
  rcases h with ⟨t, ht, hshown⟩ | h32
  · rcases List.eq_nil_or_concat a with rfl | ⟨a, d, rfl⟩
    · cases hc
    rw [List.concat_eq_append] at hmarks hc ⊢
    obtain ⟨front', hmarks', -, -⟩ := byteMarks_append false a ([d] ++ b)
    have hblank : endsBlank false (a ++ [d]) = isSpaceOrTab d := by
      unfold endsBlank
      rw [List.getLast?_concat]
      rfl
    have hd : byteMarks (endsBlank false a) ([d] ++ b) =
        (String.utf8EncodeChar d).map (·, shown (endsBlank false a) d b) ++ byteMarks (isSpaceOrTab d) b := rfl
    rw [List.append_assoc, hmarks', hd, hblank, ← List.append_assoc] at hmarks
    have hfront := List.append_cancel_right hmarks
    have hne : (String.utf8EncodeChar d).map (·, shown (endsBlank false a) d b) ≠ [] :=
      mt List.map_eq_nil_iff.mp String.utf8EncodeChar_ne_nil
    rw [← hfront, List.getLast?_append_of_ne_nil _ hne] at ht
    obtain ⟨byte, -, rfl⟩ := List.mem_map.mp (List.mem_of_getLast? ht)
    have hshown : shown (endsBlank false a) d b = true := hshown
    have hlast : showPart (endsBlank false a) b [d] = [showChar d] := by
      rw [showPart, List.nil_append, hshown]
      rfl
    rw [showPart_append, hlast, List.getLast?_concat] at hc
    rw [List.getLast?_concat]
    unfold showChar at hc
    split at hc
    · exact absurd (Option.some.inj hc).symm hspace
    · exact hc
  · obtain ⟨w, hw⟩ := List.getLast?_eq_some_iff.mp hc
    have hne : encode [c] ≠ [] := encode_ne_nil (List.cons_ne_nil _ _)
    rw [hfront, hw, encode_append, List.getLast?_append_of_ne_nil _ hne] at h32
    have hmem := List.mem_of_getLast? h32
    rw [encode_cons] at hmem
    have hmem : (32 : UInt8) ∈ String.utf8EncodeChar c := by simpa [encode] using hmem
    exact absurd (eq_of_mem_utf8EncodeChar (d := ' ') (by decide) hmem) hspace

/-- A place that was reached by going forward ends with the last character that is shown. -/
theorem Arrived.place (hnorm : normalizeWhitespace content = u ++ v) (hv : v ≠ []) {c : Char}
    (hc : u.getLast? = some c) (hspace : c ≠ ' ')
    (h : Arrived (encode (newlineEnd content)) (byteMarks false content) (encode u ++ encode v) back (encode v)) :
    (¬ StrayWhite (u.count '\n') content ∧
      ∃ a b, Between content u v a b ∧ back.length = byteLen b ∧ a.getLast? = some c) ∨
      (StrayWhite (u.count '\n') content ∧ ∃ d, d ≠ [] ∧ emitted back = d ++ encode v ++ encode (newlineEnd content)) := by
  rcases h.reached.place hnorm hv with ⟨hstray, -⟩ | hahead
  · obtain ⟨front, done, hmarks, hdone, ⟨hstep, hshown⟩ | hahead⟩ := h
    · have hdone : done = encode u := (List.append_cancel_right hdone).symm
      subst hdone
      obtain ⟨a, b, hbetween, hlen⟩ := hstep.between hmarks hv
      refine .inl ⟨hstray, a, b, hbetween, hlen, ?_⟩
      rw [hbetween.text] at hmarks
      obtain ⟨hback, -, hfront⟩ := byteMarks_split hmarks hlen
      rw [hback] at hmarks
      exact hshown.last hmarks hfront (by rw [hbetween.before, hc]) hspace
    · have hdone : done = encode u := (List.append_cancel_right hdone).symm
      subst hdone
      exfalso
      apply hstray
      rw [← hasStray_iff (count_le_content hnorm) false, ← count_newline_encode, hmarks]
      exact hahead.stray
  · exact .inr hahead

end Place

end Zeptoclaw

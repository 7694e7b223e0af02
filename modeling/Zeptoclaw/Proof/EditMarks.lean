import Zeptoclaw.Proof.EditNormalize

/-!
# The bytes of a file, each shown or left out

The walk that maps offsets back goes over bytes. Here each byte of the file has a mark: whether
the character it belongs to is shown. What the marked bytes show is the encoding of what
the text shows, and the marks follow the few rules the walk depends on.
-/

namespace Zeptoclaw

open Text Utf8

/-- A byte, and whether its character is shown. -/
abbrev Mark := UInt8 × Bool

/-- A tab is shown as a space. -/
def showByte (b : UInt8) : UInt8 := if isBlankByte b then 32 else b

/-- The bytes that are shown. -/
def emitted (marks : List Mark) : Bytes := (marks.filter Prod.snd).map fun t => showByte t.1

def byteMarks (prev : Bool) : Str → List Mark
  | [] => []
  | c :: s => (String.utf8EncodeChar c).map (·, shown prev c s) ++ byteMarks (isSpaceOrTab c) s

@[simp] theorem emitted_nil : emitted [] = [] := rfl

@[simp] theorem emitted_append (a b : List Mark) : emitted (a ++ b) = emitted a ++ emitted b := by
  simp [emitted]

@[simp] theorem emitted_cons_true (b : UInt8) (l : List Mark) : emitted ((b, true) :: l) = showByte b :: emitted l := rfl

@[simp] theorem emitted_cons_false (b : UInt8) (l : List Mark) : emitted ((b, false) :: l) = emitted l := rfl

theorem emitted_map_true (bytes : Bytes) : emitted (bytes.map (·, true)) = bytes.map showByte := by
  induction bytes with
  | nil => rfl
  | cons b bytes ih => rw [List.map_cons, emitted_cons_true, ih, List.map_cons]

theorem emitted_map_false (bytes : Bytes) : emitted (bytes.map (·, false)) = [] := by
  induction bytes with
  | nil => rfl
  | cons b bytes ih => rw [List.map_cons, emitted_cons_false, ih]

/-! ## Bytes and characters -/

theorem isSpaceOrTab_iff (c : Char) : isSpaceOrTab c = true ↔ c = ' ' ∨ c = '\t' := by
  unfold isSpaceOrTab
  rw [Bool.or_eq_true, beq_iff_eq, beq_iff_eq]

theorem isBlankByte_iff (b : UInt8) : isBlankByte b = true ↔ b = 32 ∨ b = 9 := by
  unfold isBlankByte
  rw [Bool.or_eq_true, beq_iff_eq, beq_iff_eq]

/-- The bytes of a character are blank if it is a space or tab. -/
theorem isBlankByte_of_mem {c : Char} {b : UInt8} (h : b ∈ String.utf8EncodeChar c) : isBlankByte b = isSpaceOrTab c := by
  rw [Bool.eq_iff_iff, isBlankByte_iff, isSpaceOrTab_iff]
  constructor
  · rintro (rfl | rfl)
    · exact .inl (eq_of_mem_utf8EncodeChar (d := ' ') (by decide) h)
    · exact .inr (eq_of_mem_utf8EncodeChar (d := '\t') (by decide) h)
  · rintro (rfl | rfl)
    · exact .inl (List.mem_singleton.mp h)
    · exact .inr (List.mem_singleton.mp h)

theorem newline_of_mem {c : Char} (h : (10 : UInt8) ∈ String.utf8EncodeChar c) : c = '\n' :=
  eq_of_mem_utf8EncodeChar (d := '\n') (by decide) h

theorem return_of_mem {c : Char} (h : (13 : UInt8) ∈ String.utf8EncodeChar c) : c = '\r' :=
  eq_of_mem_utf8EncodeChar (d := '\r') (by decide) h

theorem map_showByte_utf8EncodeChar (c : Char) :
    (String.utf8EncodeChar c).map showByte = String.utf8EncodeChar (showChar c) := by
  unfold showChar
  cases htab : isSpaceOrTab c with
  | true =>
    rcases (isSpaceOrTab_iff c).mp htab with rfl | rfl <;> decide
  | false =>
    have hsame : ∀ b ∈ String.utf8EncodeChar c, showByte b = b := by
      intro b hb
      unfold showByte
      rw [isBlankByte_of_mem hb, htab]
      rfl
    exact (List.map_congr_left hsame).trans (List.map_id _)

/-- The bytes of a character show what it is shown as, if it is. -/
theorem emitted_char (c : Char) (e : Bool) :
    emitted ((String.utf8EncodeChar c).map (·, e)) = encode (if e then [showChar c] else []) := by
  cases e with
  | false => exact emitted_map_false _
  | true =>
    rw [emitted_map_true, map_showByte_utf8EncodeChar]
    simp [encode]

theorem map_fst_marks (bytes : Bytes) (e : Bool) : (bytes.map (·, e)).map Prod.fst = bytes := by
  rw [List.map_map]
  exact List.map_id bytes

theorem byteMarks_fst (prev : Bool) (s : Str) : (byteMarks prev s).map Prod.fst = encode s := by
  induction s generalizing prev with
  | nil => rfl
  | cons c s ih =>
    rw [byteMarks, List.map_append, ih, map_fst_marks]
    rfl

/-- The marked bytes show what the text shows. -/
theorem emitted_byteMarks (prev : Bool) (s : Str) : emitted (byteMarks prev s) = encode (showText prev s) := by
  induction s generalizing prev with
  | nil => rfl
  | cons c s ih =>
    rw [byteMarks, emitted_append, emitted_char, ih, showText_cons, encode_append]

/-- The marks of a text that goes on behind a part of it. -/
theorem byteMarks_append (prev : Bool) (a b : Str) : ∃ front, byteMarks prev (a ++ b) =
    front ++ byteMarks (endsBlank prev a) b ∧ front.map Prod.fst = encode a ∧ emitted front = encode (showPart prev b a) := by
  induction a generalizing prev with
  | nil => exact ⟨[], rfl, rfl, rfl⟩
  | cons c a ih =>
    obtain ⟨front, hmarks, hbytes, hshow⟩ := ih (isSpaceOrTab c)
    refine ⟨(String.utf8EncodeChar c).map (·, shown prev c (a ++ b)) ++ front, ?_, ?_, ?_⟩
    · rw [List.cons_append, byteMarks, hmarks, endsBlank_cons, List.append_assoc]
    · rw [List.map_append, hbytes, map_fst_marks]
      rfl
    · rw [emitted_append, emitted_char, hshow, showPart, encode_append]

/-! ## The rules -/

/-- What is shown next, if anything, is a newline. -/
def Quiet (marks : List Mark) : Prop := ∀ x l, emitted marks = x :: l → x = 10

/-- What holds of a mark and the marks behind it. -/
structure MarkOk (t : Mark) (rest : List Mark) : Prop where
  newline : t.1 = 10 → t.2 = true
  blankNext : isBlankByte t.1 = true → t.2 = true → ∀ l, emitted rest ≠ 10 :: l
  blankRun : isBlankByte t.1 = true → ∀ u l, rest = u :: l → isBlankByte u.1 = true → u.2 = false
  returnNewline : t.1 = 13 → ∀ u l, rest = u :: l → u.1 = 10 → t.2 = false
  hidden : t.2 = false → isBlankByte t.1 = false → Quiet rest
  quietAfter : isBlankByte t.1 = false → ∀ u l, rest = u :: l → u.2 = false → Quiet l
  continued : ∀ u l, rest = u :: l → IsContinuation u.1 → isBlankByte t.1 = false ∧ u.2 = t.2

def MarksOk : List Mark → Prop
  | [] => True
  | t :: rest => MarkOk t rest ∧ MarksOk rest

theorem MarksOk.behind : ∀ {a b : List Mark}, MarksOk (a ++ b) → MarksOk b := by
  intro a
  induction a with
  | nil => exact fun h => h
  | cons t a ih => exact fun h => ih h.2

/-- Where the rest of a line is white space, nothing is shown before its newline. -/
theorem showText_of_lineBlank (s : Str) : ∀ prev, lineBlank s = true → ∀ x l, showText prev s = x :: l → x = '\n' := by
  induction s with
  | nil =>
    intro prev _ x l h
    cases h
  | cons c s ih =>
    intro prev hblank x l h
    rw [showText_cons] at h
    by_cases hc : c = '\n'
    · subst hc
      exact (List.cons.inj h).1.symm
    · rw [lineBlank_cons] at hblank
      have hrest : isWhitespace c = true ∧ lineBlank s = true := by simpa [hc] using hblank
      have hshown : shown prev c s = false := by
        unfold shown
        rw [hrest.1, hrest.2]
        simp [hc]
      rw [hshown] at h
      exact ih _ hrest.2 x l h

/-- Where a line goes on, something else is shown before its newline. -/
theorem showText_of_not_lineBlank (s : Str) : ∀ prev, lineBlank s = false → ∃ x l, showText prev s = x :: l ∧ x ≠ '\n' := by
  induction s with
  | nil =>
    intro prev h
    cases h
  | cons c s ih =>
    intro prev hblank
    rw [lineBlank_cons, Bool.or_eq_false_iff] at hblank
    have hc : c ≠ '\n' := by simpa using hblank.1
    rw [showText_cons]
    cases hshown : shown prev c s with
    | true => exact ⟨showChar c, _, rfl, fun heq => hc ((showChar_eq_newline_iff c).mp heq)⟩
    | false =>
      have hrest : lineBlank s = false := by
        cases hline : lineBlank s with
        | false => rfl
        | true =>
          rw [hline, Bool.and_true] at hblank
          have htab : isSpaceOrTab c = false := by
            by_contra hne
            rw [isWhitespace_of_isSpaceOrTab (by simpa using hne)] at hblank
            exact absurd hblank.2 (by decide)
          unfold shown at hshown
          rw [hblank.2, htab] at hshown
          simp at hshown
      exact ih _ hrest

theorem encode_cons (c : Char) (s : Str) : encode (c :: s) = String.utf8EncodeChar c ++ encode s := rfl

theorem encode_newline_iff {s : Str} : (∃ l, encode s = 10 :: l) ↔ ∃ l, s = '\n' :: l := by
  constructor
  · rintro ⟨l, h⟩
    cases s with
    | nil => cases h
    | cons c s =>
      obtain ⟨b, tail, hc, -, -⟩ := utf8EncodeChar_cases c
      rw [encode_cons, hc] at h
      have hb : b = 10 := (List.cons.inj h).1
      have hmem : (10 : UInt8) ∈ String.utf8EncodeChar c := by rw [hc, hb]; exact List.mem_cons_self
      exact ⟨s, by rw [newline_of_mem hmem]⟩
  · rintro ⟨l, rfl⟩
    exact ⟨_, rfl⟩

theorem quiet_byteMarks {s : Str} (h : lineBlank s = true) (prev : Bool) : Quiet (byteMarks prev s) := by
  intro x l hshow
  rw [emitted_byteMarks] at hshow
  cases htext : showText prev s with
  | nil =>
    rw [htext] at hshow
    cases hshow
  | cons y t =>
    have hy := showText_of_lineBlank s prev h y t htext
    rw [htext, hy] at hshow
    exact (List.cons.inj hshow).1.symm

theorem quiet_hidden {marks : List Mark} (h : Quiet marks) (bytes : Bytes) : Quiet (bytes.map (·, false) ++ marks) := by
  intro x l hshow
  rw [emitted_append, emitted_map_false] at hshow
  exact h x l hshow

theorem hidden_cases {prev : Bool} {c : Char} {s : Str} (htab : (isSpaceOrTab c && prev) = false)
    (h : shown prev c s = false) : lineBlank s = true := by
  unfold shown at h
  rw [htab] at h
  cases hline : lineBlank s with
  | true => rfl
  | false =>
    rw [hline] at h
    simp at h

/-- The first mark of a text is that of its first character. -/
theorem byteMarks_head {prev : Bool} {s : Str} {u : Mark} {l : List Mark} (h : byteMarks prev s = u :: l) :
    ∃ (d : Char) (s' : Str) (bytes : Bytes), s = d :: s' ∧ u.1 ∈ String.utf8EncodeChar d ∧ u.2 = shown prev d s' ∧ ¬ IsContinuation u.1 ∧
      l = bytes.map (·, u.2) ++ byteMarks (isSpaceOrTab d) s' := by
  cases s with
  | nil => cases h
  | cons d s' =>
    obtain ⟨b, tail, hd, hb, -⟩ := utf8EncodeChar_cases d
    rw [byteMarks, hd] at h
    obtain ⟨rfl, rfl⟩ := List.cons.inj h
    exact ⟨d, s', tail, rfl, by rw [hd]; exact List.mem_cons_self, rfl, hb, rfl⟩

/-- A character of one byte has none behind it. -/
theorem behind_low {c : Char} {b : UInt8} {front bytes : Bytes} (hcode : String.utf8EncodeChar c = front ++ b :: bytes)
    (hlow : b.toNat < 0x80) : bytes = [] := by
  rcases utf8EncodeChar_ascii_or c with ⟨-, hascii⟩ | hhigh
  · rw [hcode] at hascii
    have hlen := congrArg List.length hascii
    simp only [List.length_append, List.length_cons, List.length_nil] at hlen
    exact List.eq_nil_of_length_eq_zero (by omega)
  · have := hhigh b (by rw [hcode]; simp)
    omega

theorem isBlankByte_low {b : UInt8} (h : isBlankByte b = true) : b.toNat < 0x80 := by
  rcases (isBlankByte_iff b).mp h with rfl | rfl <;> decide

/-- A blank that is shown is not at the end of its line. -/
theorem not_lineBlank_of_shown {prev : Bool} {c : Char} {s : Str} (htab : isSpaceOrTab c = true) (h : shown prev c s = true) :
    lineBlank s = false := by
  have hc := ne_newline_of_isSpaceOrTab htab
  unfold shown at h
  rw [isWhitespace_of_isSpaceOrTab htab] at h
  cases hline : lineBlank s with
  | false => rfl
  | true =>
    rw [hline] at h
    simp [hc] at h

/-- Of a run of blanks only the first one is shown. -/
theorem shown_behind_blank {c : Char} {s : Str} (htab : isSpaceOrTab c = true) : shown true c s = false := by
  unfold shown
  rw [htab]
  simp [ne_newline_of_isSpaceOrTab htab]

/-- A byte of a character, the bytes of the character behind it, and the marks of the text. -/
theorem markOk_byte {prev : Bool} {c : Char} {s : Str} {b : UInt8} {front bytes : Bytes}
    (hcode : String.utf8EncodeChar c = front ++ b :: bytes) :
    MarkOk (b, shown prev c s) (bytes.map (·, shown prev c s) ++ byteMarks (isSpaceOrTab c) s) := by
  have hb : b ∈ String.utf8EncodeChar c := by rw [hcode]; simp
  have hone : b.toNat < 0x80 → bytes = [] := behind_low hcode
  have htabByte := isBlankByte_of_mem hb
  constructor
  case newline =>
    rintro rfl
    rw [newline_of_mem hb]
    rfl
  case blankNext =>
    intro hblank hshown l
    rw [hone (isBlankByte_low hblank), List.map_nil, List.nil_append, emitted_byteMarks]
    intro heq
    obtain ⟨t, ht⟩ := encode_newline_iff.mp ⟨l, heq⟩
    have htab : isSpaceOrTab c = true := by rw [← htabByte]; exact hblank
    have hline : lineBlank s = false := not_lineBlank_of_shown htab hshown
    obtain ⟨x, l', hx, hne⟩ := showText_of_not_lineBlank s (isSpaceOrTab c) hline
    rw [hx] at ht
    exact hne (List.cons.inj ht).1
  case blankRun =>
    intro hblank u l hrest hu
    rw [hone (isBlankByte_low hblank), List.map_nil, List.nil_append] at hrest
    obtain ⟨d, s', -, -, hd, hshown, -, -⟩ := byteMarks_head hrest
    have htab : isSpaceOrTab c = true := by rw [← htabByte]; exact hblank
    have hdtab : isSpaceOrTab d = true := by rw [← isBlankByte_of_mem hd]; exact hu
    rw [hshown, htab, shown_behind_blank hdtab]
  case returnNewline =>
    rintro rfl u l hrest hu
    rw [hone (by decide), List.map_nil, List.nil_append] at hrest
    obtain ⟨d, s', -, rfl, hd, -, -, -⟩ := byteMarks_head hrest
    rw [hu] at hd
    rw [newline_of_mem hd, return_of_mem hb]
    rfl
  case hidden =>
    intro hshown hblank
    have hshown : shown prev c s = false := hshown
    have htab : isSpaceOrTab c = false := by rw [← htabByte]; exact hblank
    have hline := hidden_cases (by rw [htab]; rfl) hshown
    rw [hshown]
    exact quiet_hidden (quiet_byteMarks hline _) bytes
  case quietAfter =>
    intro hblank u l hrest hu
    have htab : isSpaceOrTab c = false := by rw [← htabByte]; exact hblank
    cases bytes with
    | nil =>
      obtain ⟨d, s', more, -, -, hshown, -, rfl⟩ := byteMarks_head hrest
      rw [hshown, htab] at hu
      have hline := hidden_cases (Bool.and_false _) hu
      rw [hshown, htab, hu]
      exact quiet_hidden (quiet_byteMarks hline _) more
    | cons b' bytes =>
      obtain ⟨rfl, rfl⟩ := List.cons.inj hrest
      have hu : shown prev c s = false := hu
      have hline := hidden_cases (by rw [htab]; rfl) hu
      rw [hu]
      exact quiet_hidden (quiet_byteMarks hline _) bytes
  case continued =>
    intro u l hrest hu
    cases bytes with
    | nil =>
      obtain ⟨d, s', -, -, -, -, hlead, -⟩ := byteMarks_head hrest
      exact absurd hu hlead
    | cons b' bytes =>
      obtain ⟨rfl, -⟩ := List.cons.inj hrest
      refine ⟨?_, rfl⟩
      by_contra hblank
      exact absurd (hone (isBlankByte_low (by simpa using hblank))) (List.cons_ne_nil _ _)

/-- **The marks of a text follow the rules.** -/
theorem marksOk_byteMarks (s : Str) : ∀ prev, MarksOk (byteMarks prev s) := by
  induction s with
  | nil => exact fun _ => trivial
  | cons c s ih =>
    intro prev
    -- byte by byte through the character, from its last byte on
    have hbytes : ∀ bytes front : Bytes, String.utf8EncodeChar c = front ++ bytes →
        MarksOk (bytes.map (·, shown prev c s) ++ byteMarks (isSpaceOrTab c) s) := by
      intro bytes
      induction bytes with
      | nil => exact fun _ _ => ih _
      | cons b bytes ihb =>
        intro front hcode
        exact ⟨markOk_byte hcode, ihb (front ++ [b]) (by rw [hcode, List.append_assoc]; rfl)⟩
    exact hbytes _ [] rfl

/-- What is shown behind the beginning of a text, if hidden, is hidden with the rest of its line. -/
theorem byteMarks_quietHead {s : Str} {u : Mark} {l : List Mark} (h : byteMarks false s = u :: l) (hu : u.2 = false) :
    Quiet l := by
  obtain ⟨d, s', bytes, -, -, hshown, -, rfl⟩ := byteMarks_head h
  rw [hu] at hshown ⊢
  exact quiet_hidden (quiet_byteMarks (hidden_cases (Bool.and_false _) hshown.symm) _) bytes

end Zeptoclaw

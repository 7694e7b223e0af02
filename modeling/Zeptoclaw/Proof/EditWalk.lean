import Zeptoclaw.Proof.EditMarks

/-!
# The walk back to the file

The walk over the bytes of the file and of its normal form stays in step as long as it meets no
white space that it does not know at the end of a line. From then on it is ahead in the
normal form, by the bytes that it took for that white space, to its end.
-/

namespace Zeptoclaw

open Text Utf8

/-! ## Where the walk stands -/

/-- A byte that is left out with the end of its line, and that the walk takes for a newline. -/
structure Stray (t : Mark) (rest : List Mark) : Prop where
  hidden : t.2 = false
  notBlank : isBlankByte t.1 = false
  notReturn : ¬ (t.1 = 13 ∧ (rest.map Prod.fst).head? = some 10)
  ends : emitted rest ≠ []

/-- A stray byte in the first `k` lines. -/
def HasStray (k : ℕ) (marks : List Mark) : Prop :=
  ∃ x t y, marks = x ++ t :: y ∧ Stray t y ∧ (emitted x).count 10 < k

/-- What is hidden first is hidden with the rest of its line. -/
def HeadOk (marks : List Mark) : Prop := ∀ u l, marks = u :: l → u.2 = false → Quiet l

/-- The marks end with a byte that is shown or a blank. -/
def EndOk (marks : List Mark) : Prop := ∀ t, marks.getLast? = some t → t.2 = true ∨ isBlankByte t.1 = true

/-- The marks end with a byte that is shown, or with the blanks of a space that is. -/
def EndShown (marks : List Mark) : Prop :=
  (∃ t, marks.getLast? = some t ∧ t.2 = true) ∨ (emitted marks).getLast? = some 32

variable {tail norm norm0 done : Bytes} {marks front back : List Mark}

/-- The walk is in step: what was passed shows what was done of the normal form. -/
structure InStep (tail : Bytes) (front back : List Mark) (done norm : Bytes) : Prop where
  before : emitted front = done
  behind : emitted back = norm ++ tail
  headOk : HeadOk back
  endOk : EndOk front
  noStray : ∀ x t y, front = x ++ t :: y → ¬ Stray t (y ++ back)

/-- The walk is ahead in the normal form, because of a stray byte it has passed. -/
structure Ahead (tail : Bytes) (front back : List Mark) (done norm : Bytes) : Prop where
  lag : ∃ d, d ≠ [] ∧ emitted back = d ++ norm ++ tail
  stray : HasStray (done.count 10) (front ++ back)

def Reached (tail : Bytes) (marks : List Mark) (norm0 : Bytes) (back : List Mark) (norm : Bytes) : Prop :=
  ∃ front done, marks = front ++ back ∧ norm0 = done ++ norm ∧
    (InStep tail front back done norm ∨ Ahead tail front back done norm)

/-- A place that was reached by a round that went forward in the normal form. -/
def Arrived (tail : Bytes) (marks : List Mark) (norm0 : Bytes) (back : List Mark) (norm : Bytes) : Prop :=
  ∃ front done, marks = front ++ back ∧ norm0 = done ++ norm ∧
    ((InStep tail front back done norm ∧ EndShown front) ∨ Ahead tail front back done norm)

theorem Arrived.reached (h : Arrived tail marks norm0 back norm) : Reached tail marks norm0 back norm := by
  obtain ⟨front, done, hmarks, hnorm, ⟨hstep, -⟩ | hahead⟩ := h
  · exact ⟨front, done, hmarks, hnorm, .inl hstep⟩
  · exact ⟨front, done, hmarks, hnorm, .inr hahead⟩

/-! ## Rounds -/

theorem wsStep_fst_cons (t : Mark) (l : List Mark) (n : UInt8) (norm : Bytes) :
    wsStep ((t :: l).map Prod.fst) (n :: norm) =
      if t.1 = 13 ∧ (l.map Prod.fst).head? = some 10 ∧ n = 10 then ((l.map Prod.fst).tail, norm)
      else if isBlankByte t.1 ∧ n = 32 then ((l.map Prod.fst).dropWhile isBlankByte, norm)
      else if isBlankByte t.1 ∧ n = 10 then (l.map Prod.fst, n :: norm)
      else (l.map Prod.fst, norm) :=
  rfl

/-- The blanks behind a blank show nothing. -/
theorem blank_run (t : Mark) : ∀ l : List Mark, MarksOk (t :: l) → isBlankByte t.1 = true →
    ∃ run rest, l = run ++ rest ∧ (l.map Prod.fst).dropWhile isBlankByte = rest.map Prod.fst ∧ emitted run = [] ∧
      (∀ u ∈ run, u.2 = false ∧ isBlankByte u.1 = true) ∧ ∀ u r, rest = u :: r → isBlankByte u.1 = false := by
  intro l
  induction l generalizing t with
  | nil => exact fun _ _ => ⟨[], [], rfl, rfl, rfl, by simp, by simp⟩
  | cons u l ih =>
    intro hok ht
    cases hu : isBlankByte u.1 with
    | false =>
      refine ⟨[], u :: l, rfl, ?_, rfl, by simp, ?_⟩
      · rw [List.map_cons, List.dropWhile_cons, hu]
        rfl
      · intro u' r heq
        obtain ⟨rfl, -⟩ := List.cons.inj heq
        exact hu
    | true =>
      have hhidden := hok.1.blankRun ht u l rfl hu
      obtain ⟨run, rest, hl, hdrop, hshow, hrun, hrest⟩ := ih u hok.2 hu
      refine ⟨u :: run, rest, by rw [hl]; rfl, ?_, ?_, ?_, hrest⟩
      · rw [List.map_cons, List.dropWhile_cons, hu]
        exact hdrop
      · obtain ⟨b, e⟩ := u
        cases hhidden
        exact hshow
      · exact List.forall_mem_cons.mpr ⟨⟨hhidden, hu⟩, hrun⟩

/-- A round passes the marks `taken`. -/
structure Passed (taken back back' : List Mark) (norm norm' : Bytes) : Prop where
  cut : back = taken ++ back'
  taken_ne : taken ≠ []
  step : wsStep (back.map Prod.fst) norm = (back'.map Prod.fst, norm')

/-- A round that stays in step. -/
structure KeepsStep (taken back back' : List Mark) (norm norm' : Bytes) : Prop extends
    Passed taken back back' norm norm' where
  shows : norm = emitted taken ++ norm'
  one : (emitted taken).length ≤ 1
  headOk : HeadOk back'
  endOk : EndOk taken
  endShown : emitted taken = [] ∨ EndShown taken
  noStray : ∀ x t y, taken = x ++ t :: y → ¬ Stray t (y ++ back')

theorem endOk_of_forall (h : ∀ t ∈ marks, t.2 = true ∨ isBlankByte t.1 = true) : EndOk marks :=
  fun t ht => h t (List.mem_of_getLast? ht)

theorem noStray_of_forall (h : ∀ t ∈ front, t.2 = true ∨ isBlankByte t.1 = true) :
    ∀ x t y, front = x ++ t :: y → ¬ Stray t (y ++ back) := by
  rintro x t y rfl hstray
  rcases h t (by simp) with hshown | hblank
  · rw [hstray.hidden] at hshown
    cases hshown
  · rw [hstray.notBlank] at hblank
    cases hblank

/-- A blank that is shown: the blanks behind it are passed with it. -/
theorem wsStep_shownBlank {b : UInt8} {l : List Mark} (hok : MarksOk ((b, true) :: l)) (hb : isBlankByte b = true)
    (norm : Bytes) : ∃ taken back', KeepsStep taken ((b, true) :: l) back' (32 :: norm) norm := by
  obtain ⟨run, rest, hl, hdrop, hshow, hrun, hrest⟩ := blank_run (b, true) l hok hb
  have hemitted : emitted ((b, true) :: run) = [32] := by rw [emitted_cons_true, hshow, showByte, if_pos hb]
  have hmarks : ∀ t ∈ (b, true) :: run, t.2 = true ∨ isBlankByte t.1 = true :=
    List.forall_mem_cons.mpr ⟨.inl rfl, fun u hu => .inr (hrun u hu).2⟩
  refine ⟨(b, true) :: run, rest, ?_⟩
  constructor
  case toPassed =>
    refine ⟨by rw [hl]; rfl, List.cons_ne_nil _ _, ?_⟩
    have hne : ¬ ((b, true).1 = 13 ∧ (l.map Prod.fst).head? = some 10 ∧ (32 : UInt8) = 10) := by
      rintro ⟨-, -, h⟩
      exact absurd h (by decide)
    rw [wsStep_fst_cons, if_neg hne, if_pos ⟨hb, rfl⟩, hdrop]
  case shows => rw [hemitted]; rfl
  case one => rw [hemitted]; exact Nat.le_refl 1
  case headOk =>
    rintro u r rfl hu
    rw [hl] at hok
    have hrestOk : MarksOk (u :: r) := MarksOk.behind (a := (b, true) :: run) hok
    exact hrestOk.1.hidden hu (hrest u r rfl)
  case endOk => exact endOk_of_forall hmarks
  case endShown => exact .inr (.inr (by rw [hemitted]; rfl))
  case noStray => exact noStray_of_forall hmarks

/-- A byte that is shown as it is. -/
theorem wsStep_shownByte {b : UInt8} {l : List Mark} (hok : MarksOk ((b, true) :: l)) (hb : isBlankByte b = false)
    (norm : Bytes) : KeepsStep [(b, true)] ((b, true) :: l) l (b :: norm) norm := by
  have hemitted : emitted [(b, true)] = [b] := by rw [emitted_cons_true, showByte, hb]; rfl
  have hmarks : ∀ t ∈ [(b, true)], t.2 = true ∨ isBlankByte t.1 = true := List.forall_mem_singleton.mpr (.inl rfl)
  constructor
  case toPassed =>
    refine ⟨rfl, List.cons_ne_nil _ _, ?_⟩
    have hreturn : ¬ ((b, true).1 = 13 ∧ (l.map Prod.fst).head? = some 10 ∧ b = 10) := by
      rintro ⟨h13, -, h10⟩
      have h13 : b = 13 := h13
      rw [h13] at h10
      exact absurd h10 (by decide)
    have hblank : ∀ n : UInt8, ¬ (isBlankByte (b, true).1 = true ∧ b = n) := by
      rintro n ⟨h, -⟩
      rw [hb] at h
      cases h
    rw [wsStep_fst_cons, if_neg hreturn, if_neg (hblank 32), if_neg (hblank 10)]
  case shows => rw [hemitted]; rfl
  case one => rw [hemitted]; exact Nat.le_refl 1
  case headOk => exact hok.1.quietAfter hb
  case endOk => exact endOk_of_forall hmarks
  case endShown => exact .inr (.inl ⟨_, rfl, rfl⟩)
  case noStray => exact noStray_of_forall hmarks

/-- The two bytes of a line end. -/
theorem wsStep_crlf {l : List Mark} (hok : MarksOk ((13, false) :: (10, true) :: l)) (norm : Bytes) :
    KeepsStep [(13, false), (10, true)] ((13, false) :: (10, true) :: l) l (10 :: norm) norm := by
  constructor
  case toPassed =>
    refine ⟨rfl, List.cons_ne_nil _ _, ?_⟩
    rw [wsStep_fst_cons, if_pos ⟨rfl, rfl, rfl⟩]; rfl
  case shows => rfl
  case one => exact Nat.le_refl 1
  case headOk => exact hok.2.1.quietAfter rfl
  case endOk =>
    intro t ht
    cases ht
    exact .inl rfl
  case endShown => exact .inr (.inl ⟨_, rfl, rfl⟩)
  case noStray =>
    intro x t y heq hstray
    cases x with
    | nil =>
      obtain ⟨rfl, rfl⟩ := List.cons.inj heq
      exact hstray.notReturn ⟨rfl, rfl⟩
    | cons t' x =>
      obtain ⟨-, heq⟩ := List.cons.inj heq
      have hmarks : ∀ t ∈ [((10, true) : Mark)], t.2 = true ∨ isBlankByte t.1 = true :=
        List.forall_mem_singleton.mpr (.inl rfl)
      exact noStray_of_forall hmarks x t y heq hstray

/-- A blank at the end of a line is passed before the newline. -/
theorem wsStep_hiddenBlank {b : UInt8} {l : List Mark} (hb : isBlankByte b = true) {norm : Bytes}
    (hl : emitted l = 10 :: norm ++ tail) : KeepsStep [(b, false)] ((b, false) :: l) l (10 :: norm) (10 :: norm) := by
  have hmarks : ∀ t ∈ [(b, false)], t.2 = true ∨ isBlankByte t.1 = true := List.forall_mem_singleton.mpr (.inr hb)
  constructor
  case toPassed =>
    refine ⟨rfl, List.cons_ne_nil _ _, ?_⟩
    have hreturn : ¬ ((b, false).1 = 13 ∧ (l.map Prod.fst).head? = some 10 ∧ (10 : UInt8) = 10) := by
      rintro ⟨h13, -, -⟩
      have h13 : b = 13 := h13
      rw [h13] at hb
      cases hb
    have hspace : ¬ (isBlankByte (b, false).1 = true ∧ (10 : UInt8) = 32) := fun h => absurd h.2 (by decide)
    rw [wsStep_fst_cons, if_neg hreturn, if_neg hspace, if_pos ⟨hb, rfl⟩]
  case shows => rfl
  case one => exact Nat.zero_le 1
  case headOk =>
    rintro ⟨u, e⟩ r rfl he x t hshow
    cases he
    rw [emitted_cons_false, hshow] at hl
    exact (List.cons.inj hl).1
  case endOk => exact endOk_of_forall hmarks
  case endShown => exact .inl rfl
  case noStray => exact noStray_of_forall hmarks

/-- A stray byte is passed together with the newline of the normal form. -/
theorem wsStep_stray {b : UInt8} {l : List Mark} (hstray : Stray (b, false) l) (norm : Bytes) :
    Passed [(b, false)] ((b, false) :: l) l (10 :: norm) norm := by
  refine ⟨rfl, List.cons_ne_nil _ _, ?_⟩
  have hreturn : ¬ ((b, false).1 = 13 ∧ (l.map Prod.fst).head? = some 10 ∧ (10 : UInt8) = 10) := by
    rintro ⟨h13, h10, -⟩
    exact hstray.notReturn ⟨h13, h10⟩
  have hblank : ∀ n : UInt8, ¬ (isBlankByte (b, false).1 = true ∧ (10 : UInt8) = n) := by
    rintro n ⟨h, -⟩
    rw [hstray.notBlank] at h
    cases h
  rw [wsStep_fst_cons, if_neg hreturn, if_neg (hblank 32), if_neg (hblank 10)]

/-- A round in step stays in step, or passes a stray byte. -/
theorem wsStep_inStep (hok : MarksOk back) (hhead : HeadOk back) (hback : emitted back = norm ++ tail)
    (hnorm : norm ≠ []) : (∃ taken back' norm', KeepsStep taken back back' norm norm') ∨
      ∃ t l norm', Passed [t] back l norm norm' ∧ Stray t l ∧ norm = 10 :: norm' ∧ emitted l = norm ++ tail := by
  obtain ⟨n, norm', rfl⟩ := List.exists_cons_of_ne_nil hnorm
  rcases back with _ | ⟨⟨b, e⟩, l⟩
  · cases hback
  cases e with
  | true =>
    rw [emitted_cons_true] at hback
    obtain ⟨rfl, -⟩ := List.cons.inj hback
    left
    cases hb : isBlankByte b with
    | true =>
      obtain ⟨taken, back', hkeeps⟩ := wsStep_shownBlank hok hb norm'
      have hshow : showByte b = 32 := if_pos hb
      rw [hshow]
      exact ⟨taken, back', norm', hkeeps⟩
    | false =>
      have hshow : showByte b = b := by rw [showByte, hb]; rfl
      rw [hshow]
      exact ⟨_, l, norm', wsStep_shownByte hok hb norm'⟩
  | false =>
    rw [emitted_cons_false] at hback
    -- the rest of the line is hidden too, so that a newline comes next
    have hn : n = 10 := hhead (b, false) l rfl rfl n _ hback
    subst hn
    cases hb : isBlankByte b with
    | true => exact .inl ⟨_, l, _, wsStep_hiddenBlank hb hback⟩
    | false =>
      by_cases hcr : b = 13 ∧ (l.map Prod.fst).head? = some 10
      · obtain ⟨rfl, h10⟩ := hcr
        rcases l with _ | ⟨⟨b', e'⟩, l⟩
        · cases h10
        have hb' : b' = 10 := by simpa using h10
        subst hb'
        have he' := hok.2.1.newline rfl
        cases he'
        exact .inl ⟨_, l, norm', wsStep_crlf hok norm'⟩
      · have hstray : Stray (b, false) l := ⟨rfl, hb, hcr, by rw [hback]; exact List.cons_ne_nil _ _⟩
        exact .inr ⟨_, l, norm', wsStep_stray hstray norm', hstray, rfl, hback⟩

/-- What is shown late stays late when one byte of the normal form is taken for at most one shown. -/
theorem lag_taken {y r d : Bytes} {n : UInt8} {norm : Bytes} (hd : d ≠ []) (hy : y.length ≤ 1)
    (h : y ++ r = d ++ n :: norm) : ∃ d', d' ≠ [] ∧ r = d' ++ norm := by
  rcases y with _ | ⟨a, _ | ⟨b, y⟩⟩
  · exact ⟨d ++ [n], by simp, by rw [List.append_assoc]; exact h⟩
  · obtain ⟨a', d, rfl⟩ := List.exists_cons_of_ne_nil hd
    obtain ⟨-, hrest⟩ := List.cons.inj h
    exact ⟨d ++ [n], by simp, by rw [List.append_assoc]; exact hrest⟩
  · simp at hy

/-- A round that is ahead stays ahead. -/
theorem wsStep_ahead (hok : MarksOk back) {d : Bytes} (hd : d ≠ []) (hback : emitted back = d ++ norm ++ tail)
    (hnorm : norm ≠ []) : ∃ taken back' norm' d', Passed taken back back' norm norm' ∧
      (norm' = norm ∨ ∃ n, norm = n :: norm') ∧ d' ≠ [] ∧ emitted back' = d' ++ norm' ++ tail := by
  obtain ⟨n, norm', rfl⟩ := List.exists_cons_of_ne_nil hnorm
  rcases back with _ | ⟨⟨b, e⟩, l⟩
  · have := List.append_eq_nil_iff.mp (List.append_eq_nil_iff.mp hback.symm).1
    exact absurd this.1 hd
  have hsame : d ++ n :: norm' ++ tail = d ++ n :: (norm' ++ tail) := by rw [List.append_assoc]; rfl
  rw [hsame] at hback
  -- the marks taken show at most one byte, for one byte of the normal form
  have hone : ∀ taken back', Passed taken ((b, e) :: l) back' (n :: norm') norm' → (emitted taken).length ≤ 1 →
      ∃ taken back' norm'' d', Passed taken ((b, e) :: l) back' (n :: norm') norm'' ∧
        (norm'' = n :: norm' ∨ ∃ m, n :: norm' = m :: norm'') ∧ d' ≠ [] ∧ emitted back' = d' ++ norm'' ++ tail := by
    intro taken back' hpassed hlen
    rw [hpassed.cut, emitted_append] at hback
    obtain ⟨d', hd', hshow⟩ := lag_taken hd hlen hback
    exact ⟨taken, back', norm', d', hpassed, .inr ⟨n, rfl⟩, hd', by rw [hshow, List.append_assoc]⟩
  have hsingle : (emitted [(b, e)]).length ≤ 1 := by cases e <;> simp
  have hcut : (b, e) :: l = [(b, e)] ++ l := rfl
  have hne : [(b, e)] ≠ [] := List.cons_ne_nil _ _
  have hstep := wsStep_fst_cons (b, e) l n norm'
  by_cases hreturn : b = 13 ∧ (l.map Prod.fst).head? = some 10 ∧ n = 10
  · rw [if_pos hreturn] at hstep
    obtain ⟨rfl, h10, -⟩ := hreturn
    rcases l with _ | ⟨⟨b', e'⟩, l⟩
    · cases h10
    have hb' : b' = 10 := by simpa using h10
    have he : e = false := hok.1.returnNewline rfl _ l rfl hb'
    subst he
    exact hone [(13, false), (b', e')] l ⟨rfl, List.cons_ne_nil _ _, hstep⟩ (by cases e' <;> simp)
  rw [if_neg hreturn] at hstep
  by_cases hspace : isBlankByte b = true ∧ n = 32
  · rw [if_pos hspace] at hstep
    obtain ⟨run, rest, hl, hdrop, hshow, -, -⟩ := blank_run (b, e) l hok hspace.1
    rw [hdrop] at hstep
    have hrun : emitted ((b, e) :: run) = emitted [(b, e)] := by
      have hcons : (b, e) :: run = [(b, e)] ++ run := rfl
      rw [hcons, emitted_append, hshow, List.append_nil]
    exact hone ((b, e) :: run) rest ⟨by rw [hl]; rfl, List.cons_ne_nil _ _, hstep⟩ (by rw [hrun]; exact hsingle)
  rw [if_neg hspace] at hstep
  by_cases hline : isBlankByte b = true ∧ n = 10
  · rw [if_pos hline] at hstep
    obtain ⟨hb, rfl⟩ := hline
    cases e with
    | false =>
      rw [emitted_cons_false, ← hsame] at hback
      exact ⟨[(b, false)], l, _, d, ⟨hcut, hne, hstep⟩, .inl rfl, hd, hback⟩
    | true =>
      rw [emitted_cons_true] at hback
      obtain ⟨a, d, rfl⟩ := List.exists_cons_of_ne_nil hd
      obtain ⟨-, hrest⟩ := List.cons.inj hback
      -- behind a space that is shown its line goes on, so that more than this space is late
      have hd' : d ≠ [] := by
        rintro rfl
        exact hok.1.blankNext hb rfl _ hrest
      exact ⟨[(b, true)], l, _, d, ⟨hcut, hne, hstep⟩, .inl rfl, hd', by rw [hrest, List.append_assoc]; rfl⟩
  · rw [if_neg hline] at hstep
    exact hone [(b, e)] l ⟨hcut, hne, hstep⟩ hsingle

theorem HasStray.mono {k k' : ℕ} (h : HasStray k marks) (hle : k ≤ k') : HasStray k' marks := by
  obtain ⟨x, t, y, hmarks, hstray, hlt⟩ := h
  exact ⟨x, t, y, hmarks, hstray, by omega⟩

theorem EndOk.append {a b : List Mark} (hb : EndOk b) (hne : b ≠ []) : EndOk (a ++ b) := by
  intro t ht
  rw [List.getLast?_append_of_ne_nil _ hne] at ht
  exact hb t ht

theorem EndShown.append {b : List Mark} (a : List Mark) (h : EndShown b) : EndShown (a ++ b) := by
  rcases h with ⟨t, ht, hshown⟩ | h32
  · refine .inl ⟨t, ?_, hshown⟩
    rw [List.getLast?_append, ht]
    rfl
  · right
    rw [emitted_append, List.getLast?_append, h32]
    rfl

/-- A round in step, from the beginning of the file on. -/
theorem InStep.keeps {taken back' : List Mark} {norm' : Bytes} (h : InStep tail front back done norm)
    (hkeeps : KeepsStep taken back back' norm norm') :
    InStep tail (front ++ taken) back' (done ++ emitted taken) norm' := by
  constructor
  case before => rw [emitted_append, h.before]
  case behind =>
    have hback := h.behind
    rw [hkeeps.cut, emitted_append, hkeeps.shows, List.append_assoc] at hback
    exact List.append_cancel_left hback
  case headOk => exact hkeeps.headOk
  case endOk => exact hkeeps.endOk.append hkeeps.taken_ne
  case noStray =>
    intro x t y heq
    rcases List.append_eq_append_iff.mp heq with ⟨z, rfl, htaken⟩ | ⟨z, hfront, hz⟩
    · exact hkeeps.noStray z t y htaken
    · rcases z with _ | ⟨t', z⟩
      · exact hkeeps.noStray [] t y hz.symm
      · obtain ⟨rfl, hy⟩ := List.cons.inj hz
        have hy : y = z ++ taken := hy
        rw [hy, List.append_assoc, ← hkeeps.cut]
        exact h.noStray x t z hfront

/-- In step, no stray byte stands in the lines that were done. -/
theorem InStep.not_hasStray (h : InStep tail front back done norm) : ¬ HasStray (done.count 10) (front ++ back) := by
  rintro ⟨x, t, y, hmarks, hstray, hlt⟩
  rcases List.append_eq_append_iff.mp hmarks with ⟨z, rfl, -⟩ | ⟨z, hfront, hz⟩
  · rw [emitted_append, List.count_append, h.before] at hlt
    omega
  · rcases z with _ | ⟨t', z⟩
    · rw [List.append_nil] at hfront
      rw [← hfront, h.before] at hlt
      omega
    · obtain ⟨rfl, rfl⟩ := List.cons.inj hz
      exact h.noStray x t z hfront hstray

/-- **One round.** The walk goes back at least a character and stays at a place it can reach, or it has arrived. -/
theorem Reached.step (hok : MarksOk marks) (h : Reached tail marks norm0 back norm) (hnorm : norm ≠ []) :
    ∃ back' norm', wsStep (back.map Prod.fst) norm = (back'.map Prod.fst, norm') ∧ back'.length < back.length ∧
      Reached tail marks norm0 back' norm' ∧
      (norm'.length = norm.length ∨ (norm'.length + 1 = norm.length ∧ Arrived tail marks norm0 back' norm')) := by
  obtain ⟨front, done, rfl, rfl, hstep | hahead⟩ := h
  · have hbackOk := hok.behind
    rcases wsStep_inStep hbackOk hstep.headOk hstep.behind hnorm with
      ⟨taken, back', norm', hkeeps⟩ | ⟨t, l, norm', hpassed, hstray, rfl, hl⟩
    · have hnext := hstep.keeps hkeeps
      have hfront : front ++ back = front ++ taken ++ back' := by rw [List.append_assoc, ← hkeeps.cut]
      have hdone : done ++ norm = done ++ emitted taken ++ norm' := by rw [List.append_assoc, ← hkeeps.shows]
      have hlen := congrArg List.length hkeeps.cut
      have hpos := List.length_pos_iff.mpr hkeeps.taken_ne
      have hnlen := congrArg List.length hkeeps.shows
      have hone := hkeeps.one
      rw [List.length_append] at hlen hnlen
      refine ⟨back', norm', hkeeps.step, by omega, ⟨_, _, hfront, hdone, .inl hnext⟩, ?_⟩
      rcases hkeeps.endShown with hnil | hshown
      · left
        rw [hnil] at hnlen
        simpa using hnlen.symm
      · rcases Nat.eq_zero_or_pos (emitted taken).length with h0 | hpos'
        · left
          omega
        · exact .inr ⟨by omega, _, _, hfront, hdone, .inl ⟨hnext, hshown.append front⟩⟩
    · -- a stray byte: the newline is shown later than the walk has it
      have hcut : back = [t] ++ l := hpassed.cut
      have hahead : Ahead tail (front ++ [t]) l (done ++ [10]) norm' := by
        refine ⟨⟨[10], List.cons_ne_nil _ _, hl⟩, front, t, l, by simp, hstray, ?_⟩
        rw [hstep.before, List.count_append]
        simp
      have hfront : front ++ back = front ++ [t] ++ l := by rw [hcut, List.append_assoc]
      have hdone : done ++ 10 :: norm' = done ++ [10] ++ norm' := by rw [List.append_assoc]; rfl
      have hlen : l.length < back.length := by rw [hcut]; simp
      exact ⟨l, norm', hpassed.step, hlen, ⟨_, _, hfront, hdone, .inr hahead⟩,
        .inr ⟨rfl, _, _, hfront, hdone, .inr hahead⟩⟩
  · obtain ⟨⟨d, hd, hback⟩, hstray⟩ := hahead
    obtain ⟨taken, back', norm', d', hpassed, hnext, hd', hshow⟩ := wsStep_ahead hok.behind hd hback hnorm
    have hfront : front ++ back = front ++ taken ++ back' := by rw [List.append_assoc, ← hpassed.cut]
    have hlen := congrArg List.length hpassed.cut
    have hpos := List.length_pos_iff.mpr hpassed.taken_ne
    rw [List.length_append] at hlen
    rw [hfront] at hstray ⊢
    rcases hnext with rfl | ⟨n, rfl⟩
    · refine ⟨back', _, hpassed.step, by omega, ⟨_, done, rfl, rfl, .inr ?_⟩, .inl rfl⟩
      exact ⟨⟨d', hd', hshow⟩, hstray⟩
    · have hahead : Ahead tail (front ++ taken) back' (done ++ [n]) norm' := by
        refine ⟨⟨d', hd', hshow⟩, hstray.mono ?_⟩
        rw [List.count_append]
        omega
      have hdone : done ++ n :: norm' = done ++ [n] ++ norm' := by rw [List.append_assoc]; rfl
      exact ⟨back', norm', hpassed.step, by omega, ⟨_, _, rfl, hdone, .inr hahead⟩,
        .inr ⟨rfl, _, _, rfl, hdone, .inr hahead⟩⟩

/-! ## The walk -/

theorem Reached.length_le (h : Reached tail marks norm0 back norm) : norm.length ≤ norm0.length := by
  obtain ⟨front, done, -, rfl, -⟩ := h
  rw [List.length_append]
  omega

/-- The place is told by what is left of the normal form. -/
theorem Reached.norm_eq {p q : Bytes} (h : Reached tail marks (p ++ q) back norm) (hlen : norm.length = q.length) :
    norm = q := by
  obtain ⟨front, done, -, hnorm, -⟩ := h
  exact (List.append_inj_right' hnorm hlen.symm).symm

/-- The file does not end before its normal form. -/
theorem Reached.norm_nil (h : Reached tail marks norm0 [] norm) : norm = [] := by
  obtain ⟨front, done, -, -, hstep | hahead⟩ := h
  · exact (List.append_eq_nil_iff.mp hstep.behind.symm).1
  · obtain ⟨⟨d, -, hback⟩, -⟩ := hahead
    exact (List.append_eq_nil_iff.mp (List.append_eq_nil_iff.mp hback.symm).1).2

section Walk

variable {p s q : Bytes}

/-- What a walk gives for a range of the normal form: a place where the range began, and
the first place where it ended. -/
structure Found (tail : Bytes) (marks : List Mark) (p s q : Bytes) (range : ℕ × ℕ) : Prop where
  start : ∃ back, Reached tail marks (p ++ (s ++ q)) back (s ++ q) ∧ range.1 = marks.length - back.length
  stopEnd : q = [] → range.2 = marks.length
  stop : q ≠ [] → ∃ back, Arrived tail marks (p ++ s ++ q) back q ∧ range.2 = marks.length - back.length

/-- **Every walk** finds a place for the start, and for the end. -/
theorem wsWalk_found (hok : MarksOk marks) (hs : s ≠ []) : ∀ (rounds : ℕ) (back : List Mark) (norm : Bytes) (start : ℕ),
    Reached tail marks (p ++ (s ++ q)) back norm → back.length ≤ rounds → q.length ≤ norm.length →
    (norm.length = q.length → Arrived tail marks (p ++ (s ++ q)) back norm) →
    (norm.length < (s ++ q).length →
      ∃ b, Reached tail marks (p ++ (s ++ q)) b (s ++ q) ∧ start = marks.length - b.length) →
    Found tail marks p s q
      (wsWalk (marks.map Prod.fst) (p ++ (s ++ q)) p.length (p.length + s.length) rounds (back.map Prod.fst) norm start) := by
  have hspos := List.length_pos_iff.mpr hs
  -- at the end of the normal form the start is known, and the range goes to the end of the file
  have hend : ∀ (back : List Mark) (start : ℕ), Reached tail marks (p ++ (s ++ q)) back [] → q.length ≤ 0 →
      (0 < (s ++ q).length → ∃ b, Reached tail marks (p ++ (s ++ q)) b (s ++ q) ∧ start = marks.length - b.length) →
      Found tail marks p s q (start, (marks.map Prod.fst).length) := by
    intro back start hreached hq hstart
    have hnil : q = [] := List.eq_nil_of_length_eq_zero (by omega)
    refine ⟨hstart (by rw [List.length_append]; omega), fun _ => List.length_map _, fun hne => absurd hnil hne⟩
  intro rounds
  induction rounds with
  | zero =>
    intro back norm start hreached hlen hq _ hstart
    have hback : back = [] := List.eq_nil_of_length_eq_zero (by omega)
    subst hback
    have hnorm := hreached.norm_nil
    subst hnorm
    exact hend [] start hreached hq hstart
  | succ rounds ih =>
    intro back norm start hreached hlen hq harrived hstart
    rw [wsWalk]
    split
    · rename_i hdone
      have hnorm : norm = [] := by
        rcases hdone with hnorm | hback
        · exact hnorm
        · have hback : back = [] := List.map_eq_nil_iff.mp hback
          subst hback
          exact hreached.norm_nil
      subst hnorm
      exact hend back start hreached hq hstart
    · rename_i hgo
      have hnorm : norm ≠ [] := fun h => hgo (.inl h)
      have hle := hreached.length_le
      have htotal : (p ++ (s ++ q)).length = p.length + (s.length + q.length) := by simp
      have hsq : (s ++ q).length = s.length + q.length := List.length_append
      rw [List.length_map, List.length_map]
      dsimp only
      -- the start is set at each round that has the whole range before it
      have hstart' : norm.length ≤ (s ++ q).length → ∃ b, Reached tail marks (p ++ (s ++ q)) b (s ++ q) ∧
          (if (p ++ (s ++ q)).length - norm.length = p.length then marks.length - back.length else start) =
            marks.length - b.length := by
        intro hle'
        by_cases hat : norm.length = (s ++ q).length
        · rw [if_pos (by omega)]
          rw [hreached.norm_eq hat] at hreached
          exact ⟨back, hreached, rfl⟩
        · rw [if_neg (by omega)]
          exact hstart (by omega)
      by_cases hstop : (p ++ (s ++ q)).length - norm.length = p.length + s.length
      · rw [if_pos hstop]
        have hqlen : norm.length = q.length := by omega
        have hplace := harrived hqlen
        have hassoc : p ++ (s ++ q) = p ++ s ++ q := (List.append_assoc p s q).symm
        rw [hassoc] at hplace
        have hnormq := hplace.reached.norm_eq hqlen
        subst hnormq
        refine ⟨hstart' (by omega), fun h => absurd h hnorm, fun _ => ⟨back, hplace, rfl⟩⟩
      · rw [if_neg hstop]
        obtain ⟨back', norm', hstep, hshorter, hnext, hlens⟩ := hreached.step hok hnorm
        rw [hstep]
        apply ih back' norm' _ hnext (by omega)
        · omega
        · intro hqlen
          rcases hlens with heq | ⟨-, harr⟩
          · omega
          · exact harr
        · intro hlt
          exact hstart' (by omega)

end Walk

/-- The walk begins in step. -/
theorem reached_start {s : Str} {norm tail : Bytes} (h : emitted (byteMarks false s) = norm ++ tail) :
    Reached tail (byteMarks false s) norm (byteMarks false s) norm := by
  refine ⟨[], [], rfl, rfl, .inl ?_⟩
  constructor
  case before => rfl
  case behind => exact h
  case headOk => exact fun u l hmarks hu => byteMarks_quietHead hmarks hu
  case endOk => exact fun t ht => by cases ht
  case noStray => exact fun x t y heq => by simp at heq

end Zeptoclaw

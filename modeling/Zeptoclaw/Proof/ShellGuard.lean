import Zeptoclaw.Lib.Shell
import Zeptoclaw.Spec.ShellGuard

/-!
# The strict allowlist against the shell's reading

In strict mode the validator takes one segment and compares the base name of its first
token. It has a tokenizer of its own, and the shell reads the same text by other rules: a
substitution or an escaped quote inside double quotes, a word the shell takes for an
assignment or a redirection, a comment. `misread` says at which characters the two part,
given the shell's reading of the text before. Where they never part, every command word
the shell finds is the token the validator compared.
-/

namespace Zeptoclaw.ShellGuard

open Text Shell

/-! ## Where the readings part -/

/-- The word at hand is no command word for the validator (nothing in quotes) or none for
the shell (an assignment). -/
def notCompared (st : Collected) : Bool := st.simple.word.any fun word => word = [] || isAssignment word

/-- The validator takes the character `c` for something else than the shell does, given the
shell's reading of the text before it. -/
def misread (rd : ReadState) (st : Collected) (prev next : Option Char) (c : Char) : Bool :=
  let first := !st.simple.seenCommand
  match rd.mode with
  | .single => false
  | .comment => c = '\n'
  | .escape => rd.inDouble && (c = '"' || (first && c ∈ ['$', '`', '\\', '\n']))
  | .plain =>
    if rd.inDouble then c = '`' || (c = '(' && rd.dollar)
    else
      c = '(' || c = ')' ||
        -- a separator that the validator takes for a part of a redirection
        (c = '&' && !Collected.continues st.lastOp c && (prev = some '>' || next = some '>')) ||
        (first && (c = '\\' || c = '<' || c = '>' || (isWhitespace c && !isBlankChar c) ||
          (isBlankChar c && notCompared st)))

/-- The readings never part, from a point of the text on. -/
def readAlike (rd : ReadState) (st : Collected) (prev : Option Char) : Str → Bool
  | [] => st.simple.seenCommand || st.simple.word ≠ some [] || rd.stack ≠ [] || rd.mode = .single
  | c :: rest =>
    !misread rd st prev rest.head? c &&
      readAlike (readChar (κ := Empty) rd c).1 (st.addAll (readChar (κ := Empty) rd c).2) (some c) rest

/-! ## The scan of a command without metacharacters -/

theorem not_cutSegment {current : Str} {rest : List Str × Bool} (h : (cutSegment current rest).2 = false) : False := by
  simp [cutSegment] at h

/-- What an unquoted character can be in a command without metacharacters. -/
theorem scan_cases {prev : Option Char} {current rest : Str} {c : Char}
    (h : (scanCommand 0 prev .none current (c :: rest)).2 = false) :
    (c = '\\' ∧ scanCommand 0 prev .none current (c :: rest) =
      scanCommand 1 (some c) .none (current ++ c :: rest.take 1) rest) ∨
    (c = '\'' ∧ scanCommand 0 prev .none current (c :: rest) = scanCommand 0 (some c) .single (current ++ [c]) rest) ∨
    (c = '"' ∧ scanCommand 0 prev .none current (c :: rest) = scanCommand 0 (some c) .double (current ++ [c]) rest) ∨
    (c ∉ ['\\', '\'', '"', ';', '\n', '|', '`'] ∧ (c = '&' → prev = some '>' ∨ rest.head? = some '>') ∧
      scanCommand 0 prev .none current (c :: rest) = scanCommand 0 (some c) .none (current ++ [c]) rest) := by
  simp only [scanCommand] at h ⊢
  by_cases hbs : c = '\\'
  · rw [if_pos hbs]
    exact .inl ⟨hbs, rfl⟩
  rw [if_neg hbs] at h ⊢
  by_cases hsq : c = '\''
  · rw [if_pos hsq]
    exact .inr (.inl ⟨hsq, rfl⟩)
  rw [if_neg hsq] at h ⊢
  by_cases hdq : c = '"'
  · rw [if_pos hdq]
    exact .inr (.inr (.inl ⟨hdq, rfl⟩))
  rw [if_neg hdq] at h ⊢
  by_cases hsemi : c = ';' ∨ c = '\n'
  · rw [if_pos hsemi] at h
    exact (not_cutSegment h).elim
  rw [if_neg hsemi] at h ⊢
  by_cases hpipe : c = '|'
  · rw [if_pos hpipe] at h
    exact (not_cutSegment h).elim
  rw [if_neg hpipe] at h ⊢
  rw [not_or] at hsemi
  by_cases hamp : c = '&'
  · rw [if_pos hamp] at h ⊢
    by_cases hred : prev = some '>' ∨ rest.head? = some '>'
    · rw [if_pos hred]
      exact .inr (.inr (.inr ⟨by rw [hamp]; decide, fun _ => hred, rfl⟩))
    · rw [if_neg hred] at h
      exact (not_cutSegment h).elim
  rw [if_neg hamp] at h ⊢
  by_cases htick : c = '`'
  · rw [if_pos htick] at h
    exact (not_cutSegment h).elim
  rw [if_neg htick] at h ⊢
  by_cases hsub : c = '$' ∧ rest.head? = some '('
  · rw [if_pos hsub] at h
    exact (not_cutSegment h).elim
  rw [if_neg hsub]
  have hc : c ∉ ['\\', '\'', '"', ';', '\n', '|', '`'] := by simp [hbs, hsq, hdq, hsemi, hpipe, htick]
  exact .inr (.inr (.inr ⟨hc, fun h' => absurd h' hamp, rfl⟩))

/-- Without a metacharacter the command is one segment. -/
theorem scan_whole : ∀ (s : Str) (skip : ℕ) (prev : Option Char) (quote : Quote) (current : Str),
    (scanCommand skip prev quote current s).2 = false →
      (scanCommand skip prev quote current s).1 = [current ++ s.drop skip] := by
  intro s
  induction s with
  | nil => intro skip prev quote current _; simp [scanCommand]
  | cons c rest ih =>
    intro skip prev quote current h
    rcases skip with _ | skip
    · have happ : current ++ [c] ++ rest = current ++ c :: rest := by rw [List.append_assoc]; rfl
      cases quote with
      | single =>
        simp only [scanCommand] at h ⊢
        rw [ih _ _ _ _ h, List.drop_zero, List.drop_zero, happ]
      | double =>
        simp only [scanCommand] at h ⊢
        rw [ih _ _ _ _ h, List.drop_zero, List.drop_zero, happ]
      | none =>
        rcases scan_cases h with ⟨-, heq⟩ | ⟨-, heq⟩ | ⟨-, heq⟩ | ⟨-, -, heq⟩
        · -- an escaped character is taken with its backslash
          rw [heq] at h ⊢
          rw [ih _ _ _ _ h, List.append_assoc, List.cons_append, List.take_append_drop, List.drop_zero]
        · rw [heq] at h ⊢
          rw [ih _ _ _ _ h, List.drop_zero, List.drop_zero, happ]
        · rw [heq] at h ⊢
          rw [ih _ _ _ _ h, List.drop_zero, List.drop_zero, happ]
        · rw [heq] at h ⊢
          rw [ih _ _ _ _ h, List.drop_zero, List.drop_zero, happ]
    · exact ih skip (some c) quote current h

/-! ## One character, read by both -/

/-- The scan goes on without finding a metacharacter. -/
def ScansOn (skip : ℕ) (prev : Option Char) (quote : Quote) (s : Str) : Prop :=
  ∃ current, (scanCommand skip prev quote current s).2 = false

/-- The state of the reader and that of the scan at the same point of a command, outside
comments: the two agree on the quotes that are open. -/
inductive SameQuotes : ReadState → ℕ → Quote → Prop
  | plain (w d : Bool) : SameQuotes ⟨[], .plain, w, d⟩ 0 .none
  | escape (w d : Bool) : SameQuotes ⟨[], .escape, w, d⟩ 1 .none
  | single (w d : Bool) : SameQuotes ⟨[], .single, w, d⟩ 0 .single
  | double (w d : Bool) : SameQuotes ⟨[.double], .plain, w, d⟩ 0 .double
  | doubleEscape (w d : Bool) : SameQuotes ⟨[.double], .escape, w, d⟩ 0 .double

theorem scansOn_single {prev : Option Char} {c : Char} {rest : Str} (h : ScansOn 0 prev .single (c :: rest)) :
    ScansOn 0 (some c) (if c = '\'' then .none else .single) rest := by
  obtain ⟨current, h⟩ := h
  exact ⟨_, h⟩

theorem scansOn_double {prev : Option Char} {c : Char} {rest : Str} (h : ScansOn 0 prev .double (c :: rest)) :
    ScansOn 0 (some c) (if c = '"' then .none else .double) rest := by
  obtain ⟨current, h⟩ := h
  exact ⟨_, h⟩

/-- What the shell makes of an unquoted character, where the readings do not part. -/
theorem plain_cases {w d : Bool} {st : Collected} {prev : Option Char} {c : Char} {rest : Str}
    (hscan : ScansOn 0 prev .none (c :: rest))
    (hm : misread ⟨[], .plain, w, d⟩ st prev rest.head? c = false) {r : ReadState × List (Event Empty)}
    (hr : readChar ⟨[], .plain, w, d⟩ c = r) :
    (c = '\\' ∧ r = (⟨[], .escape, w, d⟩, []) ∧ ScansOn 1 (some c) .none rest) ∨
    (c = '\'' ∧ r = (⟨[], .single, true, false⟩, if w then [] else [.start]) ∧ ScansOn 0 (some c) .single rest) ∨
    (c = '"' ∧ r = (⟨[.double], .plain, true, false⟩, if w then [] else [.start]) ∧ ScansOn 0 (some c) .double rest) ∨
    (isBlankChar c = true ∧ r = (⟨[], .plain, false, false⟩, [.blank]) ∧ ScansOn 0 (some c) .none rest) ∨
    ((c = '<' ∨ c = '>' ∨ Collected.continues st.lastOp c = true) ∧
      r = (⟨[], .plain, false, false⟩, [.op c]) ∧ ScansOn 0 (some c) .none rest) ∨
    (c = '#' ∧ w = false ∧ r = (⟨[], .comment, w, d⟩, [])) ∨
    (c ∉ ['\\', '\'', '"'] ∧ isBlankChar c = false ∧
      (∃ d', r = (⟨[], .plain, true, d'⟩, (if w then [] else [.start]) ++ [.lit c])) ∧ ScansOn 0 (some c) .none rest) := by
  obtain ⟨current, hscan⟩ := hscan
  have hpar : c ≠ '(' ∧ c ≠ ')' ∧
      (c = '&' → prev = some '>' ∨ rest.head? = some '>' → Collected.continues st.lastOp c = true) := by
    simp only [misread, ReadState.inDouble, List.head?_nil] at hm
    simp at hm
    grind
  obtain ⟨hopen, hclose, hamp⟩ := hpar
  rcases scan_cases hscan with ⟨rfl, heq⟩ | ⟨rfl, heq⟩ | ⟨rfl, heq⟩ | ⟨hc, hred, heq⟩
  · exact .inl ⟨rfl, hr.symm, _, heq ▸ hscan⟩
  · exact .inr (.inl ⟨rfl, hr.symm, _, heq ▸ hscan⟩)
  · exact .inr (.inr (.inl ⟨rfl, hr.symm, _, heq ▸ hscan⟩))
  · have hs : ScansOn 0 (some c) .none rest := ⟨_, heq ▸ hscan⟩
    simp only [List.mem_cons, List.not_mem_nil, or_false, not_or] at hc
    obtain ⟨hbs, hsq, hdq, hsemi, hnl, hpipe, htick⟩ := hc
    replace hr : r = readPlain ⟨[], .plain, w, d⟩ c := hr.symm
    simp only [readPlain, hbs, hsq, hdq, htick, hopen, hclose, if_false] at hr
    have hlit : c ∉ ['\\', '\'', '"'] := by simp [hbs, hsq, hdq]
    by_cases hdollar : c = '$'
    · subst hdollar
      exact .inr (.inr (.inr (.inr (.inr (.inr ⟨hlit, by decide, ⟨true, hr⟩, hs⟩)))))
    rw [if_neg hdollar] at hr
    by_cases hblank : isBlankChar c = true
    · rw [if_pos hblank] at hr
      exact .inr (.inr (.inr (.inl ⟨hblank, hr, hs⟩)))
    rw [if_neg hblank] at hr
    by_cases hop : isOperatorChar c = true
    · rw [if_pos hop] at hr
      have hcs : c = '&' ∨ c = '<' ∨ c = '>' := by
        simpa [isOperatorChar, hsemi, hnl, hpipe] using hop
      have hcont : c = '<' ∨ c = '>' ∨ Collected.continues st.lastOp c = true := by
        rcases hcs with h | h | h
        · exact .inr (.inr (hamp h (hred h)))
        · exact .inl h
        · exact .inr (.inl h)
      exact .inr (.inr (.inr (.inr (.inl ⟨hcont, hr, hs⟩))))
    rw [if_neg hop] at hr
    by_cases hcom : c = '#' ∧ w = false
    · rw [if_pos hcom] at hr
      exact .inr (.inr (.inr (.inr (.inr (.inl ⟨hcom.1, hcom.2, hr⟩)))))
    · rw [if_neg hcom] at hr
      have hblank' : isBlankChar c = false := by simpa using hblank
      exact .inr (.inr (.inr (.inr (.inr (.inr ⟨hlit, hblank', ⟨false, hr⟩, hs⟩)))))

/-- What the shell makes of a character in double quotes, where the readings do not part. -/
theorem double_cases {w d : Bool} {st : Collected} {prev next : Option Char} {c : Char}
    (hm : misread ⟨[.double], .plain, w, d⟩ st prev next c = false) {r : ReadState × List (Event Empty)}
    (hr : readChar ⟨[.double], .plain, w, d⟩ c = r) :
    (c = '"' ∧ r = (⟨[], .plain, true, false⟩, [])) ∨
    (c = '\\' ∧ r = (⟨[.double], .escape, w, d⟩, [])) ∨
    (c ≠ '"' ∧ c ≠ '\\' ∧ ∃ d', r = (⟨[.double], .plain, w, d'⟩, [.quoted c])) := by
  have hsub : c ≠ '`' ∧ ¬ (c = '(' ∧ d = true) := by
    simpa [misread, ReadState.inDouble] using hm
  obtain ⟨htick, hpar⟩ := hsub
  by_cases hdq : c = '"'
  · subst hdq
    exact .inl ⟨rfl, hr.symm⟩
  by_cases hbs : c = '\\'
  · subst hbs
    exact .inr (.inl ⟨rfl, hr.symm⟩)
  replace hr : r = readDouble ⟨[.double], .plain, w, d⟩ c := hr.symm
  simp only [readDouble, hdq, hbs, htick, hpar, if_false] at hr
  refine .inr (.inr ⟨hdq, hbs, ?_⟩)
  by_cases hdollar : c = '$'
  · rw [if_pos hdollar] at hr
    exact ⟨true, hr⟩
  · rw [if_neg hdollar] at hr
    exact ⟨false, hr⟩

/-- What the shell makes of an escaped character outside quotes. -/
theorem escape_cases {w d : Bool} {c : Char} {r : ReadState × List (Event Empty)}
    (hr : readChar ⟨[], .escape, w, d⟩ c = r) :
    r = (⟨[], .plain, w, d⟩, []) ∨ r = (⟨[], .plain, true, false⟩, (if w then [] else [.start]) ++ [.quoted c]) := by
  simp only [readChar] at hr
  split_ifs at hr with hnl hin
  · exact .inl hr.symm
  · exact absurd hin.1 (by simp [ReadState.inDouble])
  · exact .inr hr.symm

/-- What the shell makes of an escaped character in double quotes. -/
theorem doubleEscape_cases {w d : Bool} {c : Char} {r : ReadState × List (Event Empty)}
    (hr : readChar ⟨[.double], .escape, w, d⟩ c = r) :
    (c = '\n' ∧ r = (⟨[.double], .plain, w, d⟩, [])) ∨
    (c ∉ ['$', '`', '"', '\\'] ∧
      r = (⟨[.double], .plain, true, false⟩, (if w then [] else [.start]) ++ [.quoted '\\', .quoted c])) ∨
    (c ∈ ['$', '`', '"', '\\'] ∧
      r = (⟨[.double], .plain, true, false⟩, (if w then [] else [.start]) ++ [.quoted c])) := by
  simp only [readChar] at hr
  split_ifs at hr with hnl hin
  · exact .inl ⟨hnl, hr.symm⟩
  · exact .inr (.inl ⟨hin.2, hr.symm⟩)
  · have hc : c ∈ ['$', '`', '"', '\\'] := by
      by_contra hc
      exact hin ⟨rfl, hc⟩
    exact .inr (.inr ⟨hc, hr.symm⟩)

/-- **Where the readings do not part, a character ends no command and opens none**, and the
reader and the scan go on with the same quotes open, or the reader is in a comment. -/
theorem step_text {rd : ReadState} {skip : ℕ} {quote : Quote} {st : Collected} {prev : Option Char} {c : Char} {rest : Str}
    (h : SameQuotes rd skip quote) (hscan : ScansOn skip prev quote (c :: rest))
    (hm : misread rd st prev rest.head? c = false) {r : ReadState × List (Event Empty)} (hr : readChar rd c = r) :
    ((∀ e ∈ r.2, e.isText = true) ∨
      r.2 = [.op c] ∧ (c = '<' ∨ c = '>' ∨ Collected.continues st.lastOp c = true)) ∧
    ((r.1.stack = [] ∧ r.1.mode = .comment) ∨
      ∃ skip' quote', SameQuotes r.1 skip' quote' ∧ ScansOn skip' (some c) quote' rest) := by
  cases h with
  | plain w d =>
    rcases plain_cases hscan hm hr with
      ⟨-, rfl, hs⟩ | ⟨-, rfl, hs⟩ | ⟨-, rfl, hs⟩ | ⟨-, rfl, hs⟩ | ⟨hc, rfl, hs⟩ | ⟨-, -, rfl⟩ | ⟨-, -, ⟨d', rfl⟩, hs⟩
    · exact ⟨.inl (by simp), .inr ⟨_, _, .escape w d, hs⟩⟩
    · exact ⟨.inl (by cases w <;> simp [Event.isText]), .inr ⟨_, _, .single true false, hs⟩⟩
    · exact ⟨.inl (by cases w <;> simp [Event.isText]), .inr ⟨_, _, .double true false, hs⟩⟩
    · exact ⟨.inl (by simp [Event.isText]), .inr ⟨_, _, .plain false false, hs⟩⟩
    · exact ⟨.inr ⟨rfl, hc⟩, .inr ⟨_, _, .plain false false, hs⟩⟩
    · exact ⟨.inl (by simp), .inl ⟨rfl, rfl⟩⟩
    · exact ⟨.inl (by cases w <;> simp [Event.isText]), .inr ⟨_, _, .plain true d', hs⟩⟩
  | escape w d =>
    -- the scan has taken the character with its backslash
    have hs : ScansOn 0 (some c) .none rest := hscan
    rcases escape_cases hr with rfl | rfl
    · exact ⟨.inl (by simp), .inr ⟨_, _, .plain w d, hs⟩⟩
    · exact ⟨.inl (by cases w <;> simp [Event.isText]), .inr ⟨_, _, .plain true false, hs⟩⟩
  | single w d =>
    have hs := scansOn_single hscan
    simp only [readChar] at hr
    by_cases hc : c = '\''
    · rw [if_pos hc] at hr hs
      subst hr
      exact ⟨.inl (by simp), .inr ⟨_, _, .plain w d, hs⟩⟩
    · rw [if_neg hc] at hr hs
      subst hr
      exact ⟨.inl (by simp [Event.isText]), .inr ⟨_, _, .single w d, hs⟩⟩
  | double w d =>
    have hs := scansOn_double hscan
    rcases double_cases hm hr with ⟨hc, rfl⟩ | ⟨hc, rfl⟩ | ⟨hc, -, d', rfl⟩
    · rw [if_pos hc] at hs
      exact ⟨.inl (by simp), .inr ⟨_, _, .plain true false, hs⟩⟩
    · rw [if_neg (by rw [hc]; decide)] at hs
      exact ⟨.inl (by simp), .inr ⟨_, _, .doubleEscape w d, hs⟩⟩
    · rw [if_neg hc] at hs
      exact ⟨.inl (by simp [Event.isText]), .inr ⟨_, _, .double w d', hs⟩⟩
  | doubleEscape w d =>
    have hc : c ≠ '"' := by
      rintro rfl
      simp [misread, ReadState.inDouble] at hm
    have hs := scansOn_double hscan
    rw [if_neg hc] at hs
    rcases doubleEscape_cases hr with ⟨-, rfl⟩ | ⟨-, rfl⟩ | ⟨-, rfl⟩
    · exact ⟨.inl (by simp), .inr ⟨_, _, .double w d, hs⟩⟩
    · exact ⟨.inl (by cases w <;> simp [Event.isText]), .inr ⟨_, _, .double true false, hs⟩⟩
    · exact ⟨.inl (by cases w <;> simp [Event.isText]), .inr ⟨_, _, .double true false, hs⟩⟩

/-! ## Runs over the text -/

theorem readAlike_cons {rd : ReadState} {st : Collected} {prev : Option Char} {c : Char} {rest : Str}
    (h : readAlike rd st prev (c :: rest) = true) :
    misread rd st prev rest.head? c = false ∧
      readAlike (readChar (κ := Empty) rd c).1 (st.addAll (readChar (κ := Empty) rd c).2) (some c) rest = true := by
  simpa [readAlike] using h

/-- A comment that no line ends holds no command. -/
theorem comment_words : ∀ (s : Str) {rd : ReadState} {st : Collected} {prev : Option Char},
    rd.stack = [] → rd.mode = .comment → readAlike rd st prev s = true →
      commandWordsFrom rd st s = (st.finish rd).words := by
  intro s
  induction s with
  | nil => intro rd st prev _ _ _; rfl
  | cons c rest ih =>
    intro rd st prev hst hmode halike
    obtain ⟨hm, halike⟩ := readAlike_cons halike
    have hnl : c ≠ '\n' := by
      simpa [misread, hmode] using hm
    have hread : readChar (κ := Empty) rd c = (rd, []) := by
      simp [readChar, hmode, hnl, hst]
    rw [hread] at halike
    rw [commandWordsFrom_cons, hread]
    exact ih hst hmode halike

/-- **Behind the command word there are no further commands.** -/
theorem running_words {words : List (Option Str)} :
    ∀ (s : Str) {rd : ReadState} {skip : ℕ} {quote : Quote} {st : Collected} {prev : Option Char},
      SameQuotes rd skip quote → ScansOn skip prev quote s → readAlike rd st prev s = true → Running words st →
        commandWordsFrom rd st s = words := by
  intro s
  induction s with
  | nil => intro rd skip quote st prev _ _ _ hrun; exact hrun.finish rd
  | cons c rest ih =>
    intro rd skip quote st prev hq hscan halike hrun
    obtain ⟨hm, halike⟩ := readAlike_cons halike
    obtain ⟨hev, hnext⟩ := step_text hq hscan hm rfl
    rw [commandWordsFrom_cons]
    have hrun' : Running words (st.addAll (readChar (κ := Empty) rd c).2) := by
      rcases hev with htext | ⟨hop, hc⟩
      · exact hrun.addAll _ htext
      · rw [hop]
        exact hrun.redirect hc
    rcases hnext with ⟨hst, hmode⟩ | ⟨skip', quote', hq', hscan'⟩
    · rw [comment_words rest hst hmode halike]
      exact hrun'.finish _
    · exact ih hq' hscan' halike hrun'

/-! ## The command word -/

/-- The shell is in the command word, of which it has read `ps`. -/
def inCommandWord (ps : List (Char × Bool)) : Collected := ⟨⟨some (ps.map some), false, false⟩, [], none, []⟩

/-- The shell and the validator at the same point before the end of the first word, with
the same text of it read. -/
inductive SameWord : ReadState → Collected → Quote → Str → Prop
  | before (d : Bool) : SameWord ⟨[], .plain, false, d⟩ .init .none []
  | plain (ps : List (Char × Bool)) (d : Bool) :
    SameWord ⟨[], .plain, true, d⟩ (inCommandWord ps) .none (ps.map Prod.fst)
  | single (ps : List (Char × Bool)) (d : Bool) :
    SameWord ⟨[], .single, true, d⟩ (inCommandWord ps) .single (ps.map Prod.fst)
  | double (ps : List (Char × Bool)) (d : Bool) :
    SameWord ⟨[.double], .plain, true, d⟩ (inCommandWord ps) .double (ps.map Prod.fst)
  | doubleEscape (ps : List (Char × Bool)) (d : Bool) :
    SameWord ⟨[.double], .escape, true, d⟩ (inCommandWord ps) .double (ps.map Prod.fst ++ ['\\'])

/-- The first word is read character by character. -/
theorem addAll_lit (ps : List (Char × Bool)) (c : Char) :
    (inCommandWord ps).addAll [Event.lit (κ := Empty) c] = inCommandWord (ps ++ [(c, false)]) := by
  simp [inCommandWord, Collected.addAll, Collected.add, Collected.addPart]

theorem addAll_quoted (ps : List (Char × Bool)) (s : Str) :
    (inCommandWord ps).addAll (s.map (Event.quoted (κ := Empty))) = inCommandWord (ps ++ s.map (·, true)) := by
  induction s generalizing ps with
  | nil => simp [Collected.addAll]
  | cons c s ih =>
    have hstep : (inCommandWord ps).add (Event.quoted (κ := Empty) c) = inCommandWord (ps ++ [(c, true)]) := by
      simp [inCommandWord, Collected.add, Collected.addPart]
    rw [List.map_cons]
    show ((inCommandWord ps).add (.quoted c)).addAll (s.map .quoted) = _
    rw [hstep, ih]
    simp

theorem wordText_map (ps : List (Char × Bool)) : wordText (ps.map some) = some (ps.map Prod.fst) := by
  unfold wordText
  induction ps with
  | nil => rfl
  | cons p ps ih => simp [List.mapM_cons, ih]

theorem isWhitespace_of_isBlankChar {c : Char} (h : isBlankChar c = true) : isWhitespace c = true := by
  have hc : c = ' ' ∨ c = '\t' := by simpa [isBlankChar] using h
  rcases hc with rfl | rfl
  · rfl
  · rfl

/-- What an unquoted character of the first word is not, where the readings do not part. -/
theorem misread_first {w d : Bool} {st : Collected} {prev next : Option Char} {c : Char}
    (hm : misread ⟨[], .plain, w, d⟩ st prev next c = false) (hf : st.simple.seenCommand = false) :
    c ≠ '\\' ∧ c ≠ '<' ∧ c ≠ '>' ∧ (isWhitespace c = true → isBlankChar c = true) ∧
      (isBlankChar c = true → notCompared st = false) := by
  simp only [misread, ReadState.inDouble, hf, List.head?_nil] at hm
  simp at hm
  grind

theorem tokenize_whitespace {c : Char} {current : Str} (h : isWhitespace c = true) (t : Str) :
    tokenizeFrom .none current (c :: t) =
      if current = [] then tokenizeFrom .none [] t else current :: tokenizeFrom .none [] t := by
  have hsq : c ≠ '\'' := by rintro rfl; revert h; decide
  have hdq : c ≠ '"' := by rintro rfl; revert h; decide
  simp only [tokenizeFrom, hsq, hdq, h, if_false, if_true]

theorem tokenize_lit {c : Char} {current : Str} (hq : c ∉ ['\\', '\'', '"']) (h : isWhitespace c = false) (t : Str) :
    tokenizeFrom .none current (c :: t) = tokenizeFrom .none (current ++ [c]) t := by
  simp only [List.mem_cons, List.not_mem_nil, or_false, not_or] at hq
  simp [tokenizeFrom, hq.2.1, hq.2.2, h]

/-- The first word is over, and it is the text that the validator has of it. -/
theorem running_endWord {ps : List (Char × Bool)} (h : notCompared (inCommandWord ps) = false) :
    ps ≠ [] ∧ Running [some (ps.map Prod.fst)] ((inCommandWord ps).addAll [Event.blank (κ := Empty)]) := by
  have hn : ps ≠ [] ∧ isAssignment (ps.map some) = false := by
    simpa [notCompared, inCommandWord] using h
  refine ⟨hn.1, ?_⟩
  have hend : (inCommandWord ps).endWord =
      ⟨⟨none, true, false⟩, [], none, [some (ps.map Prod.fst)]⟩ := by
    simp [Collected.endWord, inCommandWord, hn.2, wordText_map]
  have hadd : (inCommandWord ps).addAll [Event.blank (κ := Empty)] =
      { (inCommandWord ps).endWord with lastOp := none } := rfl
  rw [hadd, hend]
  exact ⟨rfl, rfl, rfl⟩

/-- The first word goes on: both are still at the same point of it. -/
def WordGoesOn (q : Quote) (current : Str) (rd : ReadState) (st : Collected) (c : Char) (rest : Str) : Prop :=
  ∃ q' current', SameWord rd st q' current' ∧ ScansOn 0 (some c) q' rest ∧
    (isWhitespace c = true → q' = .none → current' = []) ∧
    ∀ t, tokenizeFrom q current (c :: t) = tokenizeFrom q' current' t

/-- The first word is over. -/
def WordEnds (q : Quote) (current : Str) (rd : ReadState) (st : Collected) (c : Char) (rest : Str) : Prop :=
  q = .none ∧ current ≠ [] ∧ isWhitespace c = true ∧ Running [some current] st ∧ SameQuotes rd 0 .none ∧
    ScansOn 0 (some c) .none rest

/-- What an unquoted character is up to the end of the first word, where the readings do not
part. -/
theorem first_cases {w d : Bool} {st : Collected} {prev : Option Char} {c : Char} {rest : Str}
    (hscan : ScansOn 0 prev .none (c :: rest))
    (hm : misread ⟨[], .plain, w, d⟩ st prev rest.head? c = false) (hf : st.simple.seenCommand = false)
    (hop : st.lastOp = none) {r : ReadState × List (Event Empty)} (hr : readChar ⟨[], .plain, w, d⟩ c = r) :
    (c = '\'' ∧ r = (⟨[], .single, true, false⟩, if w then [] else [.start]) ∧ ScansOn 0 (some c) .single rest) ∨
    (c = '"' ∧ r = (⟨[.double], .plain, true, false⟩, if w then [] else [.start]) ∧ ScansOn 0 (some c) .double rest) ∨
    (isWhitespace c = true ∧ notCompared st = false ∧ r = (⟨[], .plain, false, false⟩, [.blank]) ∧
      ScansOn 0 (some c) .none rest) ∨
    (w = false ∧ r = (⟨[], .comment, w, d⟩, [])) ∨
    (c ∉ ['\\', '\'', '"'] ∧ isWhitespace c = false ∧
      (∃ d', r = (⟨[], .plain, true, d'⟩, (if w then [] else [.start]) ++ [.lit c])) ∧ ScansOn 0 (some c) .none rest) := by
  obtain ⟨hbs, hlt, hgt, hws, hcmp⟩ := misread_first hm hf
  rcases plain_cases hscan hm hr with
    ⟨hc, -, -⟩ | hsq | hdq | ⟨hc, hr', hs⟩ | ⟨hc, -, -⟩ | ⟨-, hcom⟩ | ⟨hq, hb, hr', hs⟩
  · exact absurd hc hbs
  · exact .inl hsq
  · exact .inr (.inl hdq)
  · exact .inr (.inr (.inl ⟨isWhitespace_of_isBlankChar hc, hcmp hc, hr', hs⟩))
  · have hcont : Collected.continues st.lastOp c = false := by rw [hop]; rfl
    rw [hcont] at hc
    rcases hc with h | h | h
    · exact absurd h hlt
    · exact absurd h hgt
    · exact absurd h (by decide)
  · exact .inr (.inr (.inr (.inl hcom)))
  · have hnw : isWhitespace c = false := by
      by_contra h
      have hblank := hws (by simpa using h)
      rw [hb] at hblank
      exact absurd hblank (by decide)
    exact .inr (.inr (.inr (.inr ⟨hq, hnw, hr', hs⟩)))

/-- A character before the first word. -/
theorem before_step {d : Bool} {prev : Option Char} {c : Char} {rest : Str} (hscan : ScansOn 0 prev .none (c :: rest))
    (hm : misread ⟨[], .plain, false, d⟩ .init prev rest.head? c = false) {r : ReadState × List (Event Empty)}
    (hr : readChar ⟨[], .plain, false, d⟩ c = r) :
    WordGoesOn .none [] r.1 (Collected.init.addAll r.2) c rest ∨
      (r.1.stack = [] ∧ r.1.mode = .comment ∧ Collected.init.addAll r.2 = .init) := by
  rcases first_cases hscan hm rfl rfl hr with
    ⟨rfl, rfl, hs⟩ | ⟨rfl, rfl, hs⟩ | ⟨hws, -, rfl, hs⟩ | ⟨-, rfl⟩ | ⟨hq, hnw, ⟨d', rfl⟩, hs⟩
  · exact .inl ⟨_, _, .single [] false, hs, fun h => absurd h (by decide), fun t => by simp [tokenizeFrom]⟩
  · exact .inl ⟨_, _, .double [] false, hs, fun h => absurd h (by decide), fun t => by simp [tokenizeFrom]⟩
  · refine .inl ⟨_, _, .before false, hs, fun _ _ => rfl, fun t => ?_⟩
    rw [tokenize_whitespace hws, if_pos rfl]
  · exact .inr ⟨rfl, rfl, rfl⟩
  · exact .inl ⟨_, _, .plain [(c, false)] d', hs, fun h => absurd h (by simp [hnw]), tokenize_lit hq hnw⟩

/-- An unquoted character in the first word. -/
theorem plain_step {ps : List (Char × Bool)} {d : Bool} {prev : Option Char} {c : Char} {rest : Str}
    (hscan : ScansOn 0 prev .none (c :: rest))
    (hm : misread ⟨[], .plain, true, d⟩ (inCommandWord ps) prev rest.head? c = false)
    {r : ReadState × List (Event Empty)} (hr : readChar ⟨[], .plain, true, d⟩ c = r) :
    WordGoesOn .none (ps.map Prod.fst) r.1 ((inCommandWord ps).addAll r.2) c rest ∨
      WordEnds .none (ps.map Prod.fst) r.1 ((inCommandWord ps).addAll r.2) c rest := by
  rcases first_cases hscan hm rfl rfl hr with
    ⟨rfl, rfl, hs⟩ | ⟨rfl, rfl, hs⟩ | ⟨hws, hcmp, rfl, hs⟩ | ⟨hw, -⟩ | ⟨hq, hnw, ⟨d', rfl⟩, hs⟩
  · exact .inl ⟨_, _, .single ps false, hs, fun h => absurd h (by decide), fun t => by simp [tokenizeFrom]⟩
  · exact .inl ⟨_, _, .double ps false, hs, fun h => absurd h (by decide), fun t => by simp [tokenizeFrom]⟩
  · obtain ⟨hne, hrun⟩ := running_endWord hcmp
    exact .inr ⟨rfl, by simpa using hne, hws, hrun, .plain false false, hs⟩
  · exact absurd hw (by decide)
  · have hps : (ps ++ [(c, false)]).map Prod.fst = ps.map Prod.fst ++ [c] := by simp
    refine .inl ⟨.none, _, ?_, hs, fun h => absurd h (by simp [hnw]), tokenize_lit hq hnw⟩
    rw [← hps]
    show SameWord _ ((inCommandWord ps).addAll [.lit c]) _ _
    rw [addAll_lit]
    exact .plain _ d'

/-- A character of the first word in quotes. -/
theorem quoted_step {rd : ReadState} {st : Collected} {q : Quote} {current : Str} {prev : Option Char} {c : Char} {rest : Str}
    (h : SameWord rd st q current) (hq : q ≠ .none) (hscan : ScansOn 0 prev q (c :: rest))
    (hm : misread rd st prev rest.head? c = false) {r : ReadState × List (Event Empty)} (hr : readChar rd c = r) :
    WordGoesOn q current r.1 (st.addAll r.2) c rest := by
  cases h with
  | before d => exact absurd rfl hq
  | plain ps d => exact absurd rfl hq
  | single ps d =>
    have hs := scansOn_single hscan
    simp only [readChar] at hr
    by_cases hc : c = '\''
    · rw [if_pos hc] at hr hs
      subst hr hc
      exact ⟨_, _, .plain ps d, hs, fun h => absurd h (by decide), fun t => by simp [tokenizeFrom]⟩
    · rw [if_neg hc] at hr hs
      subst hr
      refine ⟨.single, (ps ++ [(c, true)]).map Prod.fst, ?_, hs, (fun _ h => absurd h (by decide)), fun t => by simp [tokenizeFrom, hc]⟩
      rw [show [Event.quoted c] = [c].map (Event.quoted (κ := Empty)) from rfl, addAll_quoted]
      exact .single _ d
  | double ps d =>
    have hs := scansOn_double hscan
    rcases double_cases hm hr with ⟨hc, rfl⟩ | ⟨hc, rfl⟩ | ⟨hc, -, d', rfl⟩
    · rw [if_pos hc] at hs
      subst hc
      exact ⟨_, _, .plain ps false, hs, fun h => absurd h (by decide), fun t => by simp [tokenizeFrom]⟩
    · subst hc
      exact ⟨_, _, .doubleEscape ps d, hs, (fun _ h => absurd h (by decide)), fun t => by simp [tokenizeFrom]⟩
    · rw [if_neg hc] at hs
      refine ⟨.double, (ps ++ [(c, true)]).map Prod.fst, ?_, hs, (fun _ h => absurd h (by decide)), fun t => by simp [tokenizeFrom, hc]⟩
      rw [show [Event.quoted c] = [c].map (Event.quoted (κ := Empty)) from rfl, addAll_quoted]
      exact .double _ d'
  | doubleEscape ps d =>
    have hc : c ≠ '"' ∧ c ∉ ['$', '`', '\\', '\n'] := by
      simpa [misread, ReadState.inDouble, inCommandWord] using hm
    have hs := scansOn_double hscan
    rw [if_neg hc.1] at hs
    rcases doubleEscape_cases hr with ⟨hnl, -⟩ | ⟨-, rfl⟩ | ⟨hsp, -⟩
    · exact absurd hnl (by simp_all)
    · -- the backslash stands for itself
      refine ⟨.double, (ps ++ ['\\', c].map (·, true)).map Prod.fst, ?_, hs, (fun _ h => absurd h (by decide)),
        fun t => by simp [tokenizeFrom, hc.1]⟩
      show SameWord _ ((inCommandWord ps).addAll (['\\', c].map .quoted)) _ _
      rw [addAll_quoted]
      exact .double _ false
    · simp_all

/-- **Up to the end of the first word, the shell and the validator stay together.** -/
theorem word_step {rd : ReadState} {st : Collected} {q : Quote} {current : Str} {prev : Option Char} {c : Char} {rest : Str}
    (h : SameWord rd st q current) (hscan : ScansOn 0 prev q (c :: rest))
    (hm : misread rd st prev rest.head? c = false) {r : ReadState × List (Event Empty)} (hr : readChar rd c = r) :
    WordGoesOn q current r.1 (st.addAll r.2) c rest ∨ WordEnds q current r.1 (st.addAll r.2) c rest ∨
      (r.1.stack = [] ∧ r.1.mode = .comment ∧ st.addAll r.2 = .init) := by
  by_cases hq : q = .none
  · subst hq
    cases h with
    | before d => exact (before_step hscan hm hr).imp_right .inr
    | plain ps d => exact (plain_step hscan hm hr).imp_right .inl
  · exact .inl (quoted_step h hq hscan hm hr)

theorem readAlike_comment {s : Str} {rd : ReadState} {st : Collected} {prev : Option Char} (hst : rd.stack = [])
    (hmode : rd.mode = .comment) (hinit : st = .init) (halike : readAlike rd st prev s = true) :
    commandWordsFrom rd st s = [] := by
  rw [comment_words s hst hmode halike, hinit]
  simp [Collected.finish, hst, hmode, Collected.endWord, Collected.init]

/-- Only white space is left: a word in quotes is never closed, and another one is over. -/
theorem blank_rest : ∀ (s : Str) {rd : ReadState} {st : Collected} {q : Quote} {current : Str} {prev : Option Char},
    SameWord rd st q current → ScansOn 0 prev q s → readAlike rd st prev s = true → (∀ c ∈ s, isWhitespace c = true) →
      commandWordsFrom rd st s = [] ∨ (q = .none ∧ current ≠ [] ∧ commandWordsFrom rd st s = [some current]) := by
  intro s
  induction s with
  | nil =>
    intro rd st q current prev h _ halike _
    rw [commandWordsFrom_nil]
    cases h with
    | before d => exact .inl rfl
    | plain ps d =>
      have hne : ps ≠ [] := by
        simpa [readAlike, inCommandWord] using halike
      by_cases ha : isAssignment (ps.map some) = true
      · refine .inl ?_
        simp [Collected.finish, Collected.endWord, inCommandWord, ha]
      · refine .inr ⟨rfl, by simpa using hne, ?_⟩
        simp [Collected.finish, Collected.endWord, inCommandWord, ha, wordText_map]
    | single ps d => exact .inl rfl
    | double ps d => exact .inl rfl
    | doubleEscape ps d => exact .inl rfl
  | cons c rest ih =>
    intro rd st q current prev h hscan halike hws
    obtain ⟨hm, halike⟩ := readAlike_cons halike
    have hc := hws c List.mem_cons_self
    have hrest : ∀ c' ∈ rest, isWhitespace c' = true := fun c' hc' => hws c' (List.mem_cons_of_mem _ hc')
    rw [commandWordsFrom_cons]
    rcases word_step h hscan hm rfl with
      ⟨q', current', h', hs', hq', -⟩ | ⟨hq, hne, -, hrun, hsame, hs'⟩ | ⟨hst, hmode, hinit⟩
    · rcases ih h' hs' halike hrest with hnil | ⟨hnone, hne, -⟩
      · exact .inl hnil
      · exact absurd (hq' hc hnone) hne
    · exact .inr ⟨hq, hne, running_words rest hsame hs' halike hrun⟩
    · exact .inl (readAlike_comment hst hmode hinit halike)

/-- The command word, if there is one, is the first token of the text without the white
space at its end. -/
theorem first_token {ws : Str} (hws : ∀ c ∈ ws, isWhitespace c = true) :
    ∀ (t : Str) {rd : ReadState} {st : Collected} {q : Quote} {current : Str} {prev : Option Char},
      SameWord rd st q current → ScansOn 0 prev q (t ++ ws) → readAlike rd st prev (t ++ ws) = true →
        commandWordsFrom rd st (t ++ ws) = [] ∨
          ∃ w, commandWordsFrom rd st (t ++ ws) = [some w] ∧ (tokenizeFrom q current t).head? = some w := by
  intro t
  induction t with
  | nil =>
    intro rd st q current prev h hscan halike
    rcases blank_rest ws h hscan halike hws with hnil | ⟨rfl, hne, hw⟩
    · exact .inl hnil
    · exact .inr ⟨current, hw, by simp [tokenizeFrom, hne]⟩
  | cons c t ih =>
    intro rd st q current prev h hscan halike
    rw [List.cons_append] at hscan halike
    obtain ⟨hm, halike⟩ := readAlike_cons halike
    rw [List.cons_append, commandWordsFrom_cons]
    rcases word_step h hscan hm rfl with
      ⟨q', current', h', hs', -, htok⟩ | ⟨rfl, hne, hc, hrun, hsame, hs'⟩ | ⟨hst, hmode, hinit⟩
    · rw [htok]
      exact ih h' hs' halike
    · refine .inr ⟨current, running_words _ hsame hs' halike hrun, ?_⟩
      rw [tokenize_whitespace hc, if_neg hne]
      rfl
    · exact .inl (readAlike_comment hst hmode hinit halike)

/-! ## The validator -/

variable {lib : ShellLib}

theorem tokenize_trimStart : ∀ (lead s : Str), (∀ c ∈ lead, isWhitespace c = true) →
    tokenizeFrom .none [] (lead ++ s) = tokenizeFrom .none [] s := by
  intro lead s
  induction lead with
  | nil => intro _; rfl
  | cons c lead ih =>
    intro h
    rw [List.cons_append, tokenize_whitespace (h c List.mem_cons_self), if_pos rfl]
    exact ih fun c' hc' => h c' (List.mem_cons_of_mem _ hc')

/-- What strict mode has checked of a command that it lets through. -/
theorem validate_strict {cfg : Config} {command : Str} (h : validateCommand lib cfg command = some (.ok ()))
    (hen : cfg.enabled = true) (hmode : cfg.allowlistMode = .strict) :
    (scanCommand 0 none .none [] command).2 = false ∧
      ∀ seg ∈ (tokenizeCommand lib command).1, seg.binary ∈ cfg.allowlist := by
  unfold validateCommand at h
  rw [hen, Bool.not_true, if_neg (by decide)] at h
  simp only [Option.map_eq_some_iff] at h
  obtain ⟨normalized, -, h⟩ := h
  split at h
  · exact absurd h (by simp [blocked])
  split at h
  · exact absurd h (by simp)
  unfold checkAllowlist at h
  rw [if_pos hmode] at h
  split_ifs at h with hmeta
  · exact absurd h (by simp [blocked])
  split at h
  · exact absurd h (by simp [blocked])
  · rename_i hfind
    refine ⟨by simpa [tokenizeCommand] using hmeta, fun seg hseg => ?_⟩
    simpa using List.find?_eq_none.mp hfind seg hseg

/-- **Strict mode is sound where the readings never part**: every command word that the
shell finds in a command that is let through is on the allowlist. -/
theorem validateCommand_sound {cfg : Config} {command : Str} (h : validateCommand lib cfg command = some (.ok ()))
    (hmode : cfg.allowlistMode = .strict) (hen : cfg.enabled = true)
    (halike : readAlike .init .init none command = true) :
    ∀ w ∈ commandWords command, ∃ s, w = some s ∧ lib.toLowercase (baseName s) ∈ cfg.allowlist := by
  obtain ⟨hscan, hallow⟩ := validate_strict h hen hmode
  have hwhole := scan_whole command 0 none .none [] hscan
  obtain ⟨lead, rest, hsplit, hlead, hrest⟩ := trim_split command
  have hwords := first_token hrest (lead ++ trim command) (.before false) ⟨[], hsplit ▸ hscan⟩ (hsplit ▸ halike)
  rw [← hsplit, tokenize_trimStart _ _ hlead] at hwords
  intro w hw
  rcases hwords with hnil | ⟨s, hs, htok⟩
  · have hnil' : commandWords command = [] := hnil
    rw [hnil'] at hw
    exact absurd hw List.not_mem_nil
  · have hs' : commandWords command = [some s] := hs
    rw [hs'] at hw
    obtain ⟨args, hargs⟩ : ∃ args, tokenizeSegment (trim command) = s :: args := by
      unfold tokenizeSegment
      exact List.head?_eq_some_iff.mp htok
    have hpush : pushSegment lib command = some ⟨lib.toLowercase (baseName s), args, trim command⟩ := by
      unfold pushSegment
      simp only [hargs]
    have hseg : ⟨lib.toLowercase (baseName s), args, trim command⟩ ∈ (tokenizeCommand lib command).1 := by
      unfold tokenizeCommand
      simp [hwhole, hpush]
    exact ⟨s, by simpa using hw, hallow _ hseg⟩

/-- Lower case for ASCII, and no pattern of the validator that matches. -/
def asciiLib : ShellLib where
  toLowercase := fun s => s.map Char.toLower
  compiles := fun _ => true
  isMatch := fun _ _ => false

def strictConfig (allowlist : List Str) : Config := (Config.new asciiLib).withAllowlist asciiLib allowlist .strict

/-- `ls -l 'a b'` -/
theorem validateCommand_sound_ls :
    validateCommand asciiLib (strictConfig ["ls".toList]) "ls -l 'a b'".toList = some (.ok ()) ∧
      ∀ w ∈ commandWords "ls -l 'a b'".toList, ∃ s, w = some s ∧
        asciiLib.toLowercase (baseName s) ∈ (strictConfig ["ls".toList]).allowlist :=
  ⟨rfl, validateCommand_sound rfl rfl rfl (by decide)⟩

/-- Double quotes hide a substitution from the validator, not from the shell. -/
theorem validateCommand_unsound :
    ¬ ∀ (lib : ShellLib) (cfg : Config) (command : Str), cfg.allowlistMode = .strict →
      validateCommand lib cfg command = some (.ok ()) →
        ∀ w ∈ commandWords command, ∃ s, w = some s ∧ lib.toLowercase (baseName s) ∈ cfg.allowlist := by
  intro h
  have hid : some "id".toList ∈ commandWords "echo \"$(id)\"".toList := by decide
  obtain ⟨s, hs, hmem⟩ := h asciiLib (strictConfig ["echo".toList]) "echo \"$(id)\"".toList rfl rfl _ hid
  cases hs
  exact absurd hmem (by decide)

end Zeptoclaw.ShellGuard

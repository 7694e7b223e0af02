import Zeptoclaw.Spec.ShellGuard

/-!
# The segments of a command

`tokenize_command` cuts a command at its separators and keeps everything else: the raw segments, in their order and
with the separators between them, are the command (`tokenizeCommand_lossless`). What is a separator is said of the text
before it alone, by reading its quotes and backslashes from the left (`modeAfter`).
-/

namespace Zeptoclaw.ShellGuard

open Text

/-! ## Separators -/

/-- What the quotes and backslashes before a character make of it. -/
inductive Mode where
  | plain
  | single
  | double
  | escaped
  deriving DecidableEq, Repr

/-- A backslash counts outside quotes only. -/
def Mode.step : Mode → Char → Mode
  | .plain, c => if c = '\\' then .escaped else if c = '\'' then .single else if c = '"' then .double else .plain
  | .single, c => if c = '\'' then .plain else .single
  | .double, c => if c = '"' then .plain else .double
  | .escaped, _ => .plain

def modeAfter (before : Str) : Mode := before.foldl Mode.step .plain

/-- `;`, newline, `|`, `||`, `&`, `&&`, backquote and `$(`. -/
def separators : List Str :=
  [[';'], ['\n'], ['|'], ['|', '|'], ['&'], ['&', '&'], ['`'], ['$', '(']]

/-- A separator begins with `c`, between these two characters: an ampersand beside `>` is a redirection. -/
def Separates (prev : Option Char) (c : Char) (next : Option Char) : Prop :=
  c ∈ [';', '\n', '|', '`'] ∨ (c = '&' ∧ prev ≠ some '>' ∧ next ≠ some '>') ∨ (c = '$' ∧ next = some '(')

/-- A separator begins here, outside quotes and not escaped. -/
def CutsAt (before after : Str) : Prop :=
  modeAfter before = .plain ∧ ∃ c rest, after = c :: rest ∧ Separates before.getLast? c rest.head?

/-- Each separator with the raw segment behind it. -/
def joinCuts (cuts : List (Str × Str)) : Str := cuts.flatMap fun cut => cut.1 ++ cut.2

/-- No separator begins within `raw`. -/
def NoCut (before raw after : Str) : Prop := ∀ x y, raw = x ++ y → y ≠ [] → ¬ CutsAt (before ++ x) (y ++ after)

/-- Behind `before`, the raw segment `raw` goes on until the first of the cuts; there are no separators but these. -/
inductive Segments : Str → Str → List (Str × Str) → Prop
  | last {before raw : Str} : NoCut before raw [] → Segments before raw []
  | cut {before raw sep next : Str} {cuts : List (Str × Str)} :
    NoCut before raw (joinCuts ((sep, next) :: cuts)) → sep ∈ separators →
    CutsAt (before ++ raw) (joinCuts ((sep, next) :: cuts)) →
    Segments (before ++ raw ++ sep) next cuts → Segments before raw ((sep, next) :: cuts)

/-- The segments that are left, without white space at their ends; a segment of quotes and white space may go. -/
inductive Kept : List Str → List Str → Prop
  | nil : Kept [] []
  | keep {lead seg trail : Str} {raws segs : List Str} : (∀ c ∈ lead, isWhitespace c = true) →
    (∀ c ∈ trail, isWhitespace c = true) → Kept raws segs → Kept ((lead ++ seg ++ trail) :: raws) (seg :: segs)
  | drop {raw : Str} {raws segs : List Str} : (∀ c ∈ raw, c = '\'' ∨ c = '"' ∨ isWhitespace c = true) →
    Kept raws segs → Kept (raw :: raws) segs

/-! ## One character of the scan -/

section Scan

variable {before rest current raw : Str} {c : Char} {prev : Option Char} {cuts : List (Str × Str)} {quote : Quote}

theorem modeAfter_append (before s : Str) : modeAfter (before ++ s) = s.foldl Mode.step (modeAfter before) := by
  unfold modeAfter
  rw [List.foldl_append]

theorem modeAfter_concat (before : Str) (c : Char) : modeAfter (before ++ [c]) = (modeAfter before).step c :=
  modeAfter_append before [c]

/-- The state of the scan as a mode. -/
def Quote.mode : Quote → Mode
  | .none => .plain
  | .single => .single
  | .double => .double

theorem scan_quoted (hquote : quote ≠ .none) (prev : Option Char) (current : Str) (c : Char) (rest : Str) :
    ∃ q : Quote, quote.mode.step c = q.mode ∧
      scanCommand 0 prev quote current (c :: rest) = scanCommand 0 (some c) q (current ++ [c]) rest := by
  cases quote with
  | none => exact absurd rfl hquote
  | single =>
    refine ⟨if c = '\'' then .none else .single, ?_, by rw [scanCommand]⟩
    by_cases hc : c = '\''
    · simp [hc, Quote.mode, Mode.step]
    · simp [hc, Quote.mode, Mode.step]
  | double =>
    refine ⟨if c = '"' then .none else .double, ?_, by rw [scanCommand]⟩
    by_cases hc : c = '"'
    · simp [hc, Quote.mode, Mode.step]
    · simp [hc, Quote.mode, Mode.step]

/-- Outside quotes the scan cuts at a separator, or takes a character with the one it escapes, or takes a character. -/
inductive ScanStep (prev : Option Char) (current : Str) (c : Char) (rest : Str) : Prop
  | cut {sep after : Str} (hrest : c :: rest = sep ++ after) (hsep : sep ∈ separators)
    (hc : Separates prev c rest.head?)
    (hscan : scanCommand 0 prev .none current (c :: rest) =
      cutSegment current (scanCommand 0 sep.getLast? .none [] after))
  | escape {d : Char} {after : Str} (hc : c = '\\') (hrest : rest = d :: after)
    (hscan : scanCommand 0 prev .none current (c :: rest) = scanCommand 0 (some d) .none (current ++ [c, d]) after)
  | take (q : Quote) (hmode : rest ≠ [] → Mode.plain.step c = q.mode) (hc : ¬ Separates prev c rest.head?)
    (hscan : scanCommand 0 prev .none current (c :: rest) = scanCommand 0 (some c) q (current ++ [c]) rest)

/-- A cut of one character, or of two if the next is the same. -/
theorem scanStep_doubled (hc : c = '|' ∨ c = '&') (hsep : Separates prev c rest.head?)
    (hscan : scanCommand 0 prev .none current (c :: rest) =
      cutSegment current (scanCommand (if rest.head? = some c then 1 else 0) (some c) .none [] rest)) :
    ScanStep prev current c rest := by
  by_cases hhead : rest.head? = some c
  · obtain ⟨after, rfl⟩ := List.head?_eq_some_iff.mp hhead
    refine .cut (show c :: c :: after = [c, c] ++ after from rfl) ?_ hsep ?_
    · rcases hc with rfl | rfl
      · simp [separators]
      · simp [separators]
    · rw [hscan, if_pos hhead, scanCommand]
      rfl
  · refine .cut (show c :: rest = [c] ++ rest from rfl) ?_ hsep ?_
    · rcases hc with rfl | rfl
      · simp [separators]
      · simp [separators]
    · rw [hscan, if_neg hhead]
      rfl

theorem scanStep (prev : Option Char) (current : Str) (c : Char) (rest : Str) : ScanStep prev current c rest := by
  have hscan : scanCommand 0 prev .none current (c :: rest) = scanCommand 0 prev .none current (c :: rest) := rfl
  conv_rhs at hscan => unfold scanCommand
  by_cases hb : c = '\\'
  · rw [if_pos hb] at hscan
    cases rest with
    | nil =>
      refine .take .none (fun h => absurd rfl h) ?_ hscan
      subst hb
      simp [Separates]
    | cons d after =>
      refine .escape hb rfl ?_
      rw [hscan, scanCommand]
      rfl
  rw [if_neg hb] at hscan
  by_cases hs : c = '\''
  · rw [if_pos hs] at hscan
    subst hs
    exact .take .single (fun _ => rfl) (by simp [Separates]) hscan
  rw [if_neg hs] at hscan
  by_cases hd : c = '"'
  · rw [if_pos hd] at hscan
    subst hd
    exact .take .double (fun _ => rfl) (by simp [Separates]) hscan
  rw [if_neg hd] at hscan
  have hplain : Mode.plain.step c = Quote.none.mode := by simp [Mode.step, Quote.mode, hb, hs, hd]
  by_cases hsemi : c = ';' ∨ c = '\n'
  · rw [if_pos hsemi] at hscan
    refine .cut (show c :: rest = [c] ++ rest from rfl) ?_ ?_ hscan
    · rcases hsemi with rfl | rfl
      · simp [separators]
      · simp [separators]
    · rcases hsemi with rfl | rfl
      · simp [Separates]
      · simp [Separates]
  rw [if_neg hsemi] at hscan
  by_cases hpipe : c = '|'
  · rw [if_pos hpipe] at hscan
    subst hpipe
    exact scanStep_doubled (.inl rfl) (.inl (by simp)) hscan
  rw [if_neg hpipe] at hscan
  by_cases hamp : c = '&'
  · rw [if_pos hamp] at hscan
    subst hamp
    by_cases hredirect : prev = some '>' ∨ rest.head? = some '>'
    · rw [if_pos hredirect] at hscan
      refine .take .none (fun _ => hplain) ?_ hscan
      rcases hredirect with hprev | hnext
      · simp [Separates, hprev]
      · simp [Separates, hnext]
    · rw [if_neg hredirect] at hscan
      have hsep : Separates prev '&' rest.head? := .inr (.inl ⟨rfl, not_or.mp hredirect⟩)
      exact scanStep_doubled (.inr rfl) hsep hscan
  rw [if_neg hamp] at hscan
  by_cases htick : c = '`'
  · rw [if_pos htick] at hscan
    subst htick
    exact .cut (show '`' :: rest = ['`'] ++ rest from rfl) (by simp [separators]) (.inl (by simp)) hscan
  rw [if_neg htick] at hscan
  by_cases hdollar : c = '$' ∧ rest.head? = some '('
  · rw [if_pos hdollar] at hscan
    obtain ⟨rfl, hhead⟩ := hdollar
    obtain ⟨after, rfl⟩ := List.head?_eq_some_iff.mp hhead
    have hsplit : '$' :: '(' :: after = ['$', '('] ++ after := rfl
    refine .cut hsplit (by simp [separators]) (.inr (.inr ⟨rfl, hhead⟩)) ?_
    rw [hscan, scanCommand]
    rfl
  · rw [if_neg hdollar] at hscan
    refine .take .none (fun _ => hplain) ?_ hscan
    rintro (hmem | ⟨h, -⟩ | h)
    · simp [hpipe, htick] at hmem
      exact hsemi hmem
    · exact hamp h
    · exact hdollar h

/-! ## The scan -/

theorem noCut_nil (before after : Str) : NoCut before [] after := by
  intro x y h hy
  exact absurd (List.append_eq_nil_iff.mp h.symm).2 hy

theorem noCut_cons {after : Str} (hc : ¬ CutsAt before (c :: (raw ++ after))) (h : NoCut (before ++ [c]) raw after) :
    NoCut before (c :: raw) after := by
  intro x y hxy hy
  cases x with
  | nil =>
    rw [List.append_nil]
    rw [List.nil_append] at hxy
    rwa [← hxy]
  | cons d x =>
    obtain ⟨rfl, rfl⟩ := List.cons.inj hxy
    have hcut := h x y rfl hy
    rwa [List.append_assoc] at hcut

/-- A character that begins no separator belongs to the raw segment. -/
theorem Segments.cons (hc : ¬ CutsAt before (c :: (raw ++ joinCuts cuts))) (h : Segments (before ++ [c]) raw cuts) :
    Segments before (c :: raw) cuts := by
  cases h with
  | last hno => exact .last (noCut_cons hc hno)
  | cut hno hsep hat hnext =>
    have hbefore : before ++ [c] ++ raw = before ++ c :: raw := by simp
    rw [hbefore] at hat hnext
    exact .cut (noCut_cons hc hno) hsep hat hnext

/-- What the scan finds in a text: its segments, and whether there is a separator. -/
def ScanFinds (before : Str) (quote : Quote) (current rest : Str) : Prop :=
  ∃ raw cuts, rest = raw ++ joinCuts cuts ∧ Segments before raw cuts ∧
    scanCommand 0 before.getLast? quote current rest = ((current ++ raw) :: cuts.map Prod.snd, !cuts.isEmpty)

theorem scanFinds_nil (before : Str) (quote : Quote) (current : Str) : ScanFinds before quote current [] := by
  refine ⟨[], [], rfl, .last (noCut_nil before []), ?_⟩
  simp [scanCommand]

theorem ScanFinds.take {q : Quote} (hc : ¬ CutsAt before (c :: rest))
    (hscan : scanCommand 0 before.getLast? quote current (c :: rest) = scanCommand 0 (some c) q (current ++ [c]) rest)
    (h : ScanFinds (before ++ [c]) q (current ++ [c]) rest) : ScanFinds before quote current (c :: rest) := by
  obtain ⟨raw, cuts, rfl, hsegments, hrest⟩ := h
  rw [List.getLast?_concat] at hrest
  refine ⟨c :: raw, cuts, rfl, hsegments.cons hc, ?_⟩
  rw [hscan, hrest]
  simp

theorem ScanFinds.escape {d : Char} (hmode : modeAfter (before ++ [c]) = .escaped) (hc : ¬ CutsAt before (c :: d :: rest))
    (hscan : scanCommand 0 before.getLast? quote current (c :: d :: rest) =
      scanCommand 0 (some d) .none (current ++ [c, d]) rest)
    (h : ScanFinds (before ++ [c] ++ [d]) .none (current ++ [c, d]) rest) :
    ScanFinds before quote current (c :: d :: rest) := by
  obtain ⟨raw, cuts, rfl, hsegments, hrest⟩ := h
  rw [List.getLast?_concat] at hrest
  have hd : ¬ CutsAt (before ++ [c]) (d :: (raw ++ joinCuts cuts)) := by
    rintro ⟨hplain, -⟩
    rw [hmode] at hplain
    cases hplain
  refine ⟨c :: d :: raw, cuts, rfl, (hsegments.cons hd).cons hc, ?_⟩
  rw [hscan, hrest]
  simp

theorem separators_ne_nil {sep : Str} (h : sep ∈ separators) : sep ≠ [] := by
  rintro rfl
  simp [separators] at h

theorem ScanFinds.cut {sep after : Str} (hc : CutsAt before (sep ++ after)) (hsep : sep ∈ separators)
    (hscan : scanCommand 0 before.getLast? quote current (sep ++ after) =
      cutSegment current (scanCommand 0 sep.getLast? .none [] after))
    (h : ScanFinds (before ++ sep) .none [] after) : ScanFinds before quote current (sep ++ after) := by
  obtain ⟨raw, cuts, rfl, hsegments, hrest⟩ := h
  have hlast : (before ++ sep).getLast? = sep.getLast? := List.getLast?_append_of_ne_nil _ (separators_ne_nil hsep)
  have hjoin : sep ++ (raw ++ joinCuts cuts) = joinCuts ((sep, raw) :: cuts) := by simp [joinCuts]
  rw [hlast] at hrest
  rw [hjoin] at hc hscan
  refine ⟨[], (sep, raw) :: cuts, hjoin, .cut (noCut_nil before _) hsep ?_ ?_, ?_⟩
  · rwa [List.append_nil]
  · rwa [List.append_nil]
  · rw [hjoin, hscan, hrest]
    simp [cutSegment]

/-- Separators leave the mode as it is. -/
theorem modeAfter_sep {sep : Str} (hmode : modeAfter before = .plain) (h : sep ∈ separators) :
    modeAfter (before ++ sep) = .plain := by
  have hall : ∀ sep ∈ separators, sep.foldl Mode.step .plain = .plain := by decide
  rw [modeAfter_append, hmode]
  exact hall sep h

/-- Inside quotes nothing is cut. -/
theorem not_cutsAt_quoted {quote : Quote} (hquote : quote ≠ .none) (hmode : modeAfter before = quote.mode) (rest : Str) :
    ¬ CutsAt before rest := by
  rintro ⟨hplain, -⟩
  rw [hmode] at hplain
  cases quote with
  | none => exact hquote rfl
  | single => cases hplain
  | double => cases hplain

theorem scan_finds : ∀ (n : ℕ) (rest before : Str) (quote : Quote) (current : Str), rest.length ≤ n →
    modeAfter before = quote.mode → ScanFinds before quote current rest := by
  intro n
  induction n with
  | zero =>
    intro rest before quote current hlen hmode
    obtain rfl := List.length_eq_zero_iff.mp (Nat.le_zero.mp hlen)
    exact scanFinds_nil before quote current
  | succ n ih =>
    intro rest before quote current hlen hmode
    cases rest with
    | nil => exact scanFinds_nil before quote current
    | cons c rest =>
      rw [List.length_cons] at hlen
      have hnext : (modeAfter before).step c = modeAfter (before ++ [c]) := (modeAfter_concat before c).symm
      rw [hmode] at hnext
      by_cases hquote : quote = .none
      · subst hquote
        cases scanStep before.getLast? current c rest with
        | cut hrest hsep hc hscan =>
          rename_i sep after
          rw [hrest] at hscan ⊢
          refine ScanFinds.cut ?_ hsep hscan (ih after _ .none [] ?_ (modeAfter_sep hmode hsep))
          · rw [← hrest]
            exact ⟨hmode, c, rest, rfl, hc⟩
          · have hlength := congrArg List.length hrest
            have hpos := List.length_pos_iff.mpr (separators_ne_nil hsep)
            rw [List.length_cons, List.length_append] at hlength
            omega
        | escape hc hrest hscan =>
          rename_i d after
          subst hc hrest
          refine ScanFinds.escape hnext.symm ?_ hscan (ih after _ .none _ ?_ ?_)
          · rintro ⟨-, c, rest, heq, hsep⟩
            cases heq
            simp [Separates] at hsep
          · rw [List.length_cons] at hlen
            omega
          · rw [modeAfter_concat, ← hnext]
            rfl
        | take q hq hc hscan =>
          refine ScanFinds.take ?_ hscan ?_
          · rintro ⟨-, c', rest', heq, hsep⟩
            cases heq
            exact hc hsep
          · cases rest with
            | nil => exact scanFinds_nil _ q _
            | cons d rest => exact ih _ _ q _ (by omega) (hnext.symm.trans (hq (List.cons_ne_nil d rest)))
      · obtain ⟨q, hq, hscan⟩ := scan_quoted hquote before.getLast? current c rest
        have hno : ¬ CutsAt before (c :: rest) := not_cutsAt_quoted hquote hmode _
        exact ScanFinds.take hno hscan (ih rest _ q _ (by omega) (hnext.symm.trans hq))

end Scan

/-! ## Segments -/

section Push

variable (lib : ShellLib)

/-- A text without tokens has quotes and white space only. -/
theorem tokenizeFrom_eq_nil : ∀ (s current : Str) (q : Quote), tokenizeFrom q current s = [] →
    current = [] ∧ ∀ c ∈ s, c = '\'' ∨ c = '"' ∨ isWhitespace c = true
  | [], current, q, h => by
    unfold tokenizeFrom at h
    by_cases hcurrent : current = []
    · exact ⟨hcurrent, by simp⟩
    · rw [if_neg hcurrent] at h
      cases h
  | c :: s, current, q, h => by
    -- where the character joins the token at hand, the text has a token
    have hjoined : ∀ q, ¬ tokenizeFrom q (current ++ [c]) s = [] := by
      intro q hq
      exact List.append_ne_nil_of_right_ne_nil current (List.cons_ne_nil c []) (tokenizeFrom_eq_nil s _ q hq).1
    have hskipped : ∀ q, tokenizeFrom q current s = [] → (c = '\'' ∨ c = '"' ∨ isWhitespace c = true) →
        current = [] ∧ ∀ d ∈ c :: s, d = '\'' ∨ d = '"' ∨ isWhitespace d = true := by
      intro q hq hc
      obtain ⟨hcurrent, hall⟩ := tokenizeFrom_eq_nil s current q hq
      exact ⟨hcurrent, List.forall_mem_cons.mpr ⟨hc, hall⟩⟩
    cases q with
    | single =>
      rw [tokenizeFrom] at h
      by_cases hc : c = '\''
      · rw [if_pos hc] at h
        exact hskipped .none h (.inl hc)
      · rw [if_neg hc] at h
        exact absurd h (hjoined .single)
    | double =>
      rw [tokenizeFrom] at h
      by_cases hc : c = '"'
      · rw [if_pos hc] at h
        exact hskipped .none h (.inr (.inl hc))
      · rw [if_neg hc] at h
        exact absurd h (hjoined .double)
    | none =>
      rw [tokenizeFrom] at h
      by_cases hs : c = '\''
      · rw [if_pos hs] at h
        exact hskipped .single h (.inl hs)
      rw [if_neg hs] at h
      by_cases hd : c = '"'
      · rw [if_pos hd] at h
        exact hskipped .double h (.inr (.inl hd))
      rw [if_neg hd] at h
      by_cases hblank : isWhitespace c = true
      · rw [if_pos hblank] at h
        by_cases hcurrent : current = []
        · rw [if_pos hcurrent, ← hcurrent] at h
          exact hskipped .none h (.inr (.inr hblank))
        · rw [if_neg hcurrent] at h
          cases h
      · rw [if_neg hblank] at h
        exact absurd h (hjoined .none)

theorem kept_filterMap : ∀ raws : List Str, Kept raws ((raws.filterMap (pushSegment lib)).map CommandSegment.raw)
  | [] => .nil
  | raw :: raws => by
    have ih := kept_filterMap raws
    obtain ⟨lead, trail, hsplit, hlead, htrail⟩ := trim_split raw
    rw [List.filterMap_cons]
    cases htokens : tokenizeSegment (trim raw) with
    | nil =>
      have hpush : pushSegment lib raw = none := by
        unfold pushSegment
        rw [htokens]
      rw [hpush]
      refine .drop ?_ ih
      obtain ⟨-, hall⟩ := tokenizeFrom_eq_nil _ _ _ htokens
      rw [hsplit]
      intro c hc
      rw [List.mem_append, List.mem_append] at hc
      rcases hc with (hc | hc) | hc
      · exact .inr (.inr (hlead c hc))
      · exact hall c hc
      · exact .inr (.inr (htrail c hc))
    | cons binaryFull args =>
      have hpush : pushSegment lib raw = some ⟨lib.toLowercase (baseName binaryFull), args, trim raw⟩ := by
        unfold pushSegment
        rw [htokens]
      rw [hpush]
      have hkept : Kept ((lead ++ trim raw ++ trail) :: raws) _ := .keep hlead htrail ih
      rwa [← hsplit] at hkept

end Push

/-- **The raw segments are the command, but for separators outside quotes, white space at their ends, and segments of
quotes and white space; no other separator is left in them.** -/
theorem tokenizeCommand_lossless (lib : ShellLib) (command : Str) : ∃ raw cuts,
    command = raw ++ joinCuts cuts ∧ Segments [] raw cuts ∧
    Kept (raw :: cuts.map Prod.snd) ((tokenizeCommand lib command).1.map CommandSegment.raw) ∧
    ((tokenizeCommand lib command).2 = true ↔ cuts ≠ []) := by
  obtain ⟨raw, cuts, hjoin, hsegments, hscan⟩ := scan_finds command.length command [] .none [] le_rfl rfl
  have htokenize : tokenizeCommand lib command =
      ((raw :: cuts.map Prod.snd).filterMap (pushSegment lib), !cuts.isEmpty) := by
    unfold tokenizeCommand
    exact congrArg (fun scanned : List Str × Bool => (scanned.1.filterMap (pushSegment lib), scanned.2)) hscan
  refine ⟨raw, cuts, hjoin, hsegments, ?_, ?_⟩
  · rw [htokenize]
    exact kept_filterMap lib _
  · rw [htokenize]
    simp

end Zeptoclaw.ShellGuard

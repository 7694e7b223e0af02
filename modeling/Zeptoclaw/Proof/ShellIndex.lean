import Zeptoclaw.Proof.GitOptions
import Zeptoclaw.Spec.ShellIndex

/-!
# Where the validator panics

Every index of the validator is in range and every slice starts within the text, but one: `normalize_git_command`
steps over the value of an option also where there is none, and then slices behind the end of the tokens
(`validateCommand_total_iff`). Read with its indices, the validator is the one of `Spec/ShellGuard.lean`
(`validateCommandAt_eq`).
-/

namespace Zeptoclaw.ShellGuard

open Text OptionTable

variable {lib : ShellLib}

/-! ## The tokenizer -/

section Scan

variable {before rest current : Str} {c d : Char}

theorem getElem?_here (before rest : Str) (c : Char) : (before ++ c :: rest)[before.length]? = some c := by
  rw [List.getElem?_append_right le_rfl, Nat.sub_self, List.getElem?_cons_zero]

theorem getElem?_next (before rest : Str) (c : Char) : (before ++ c :: rest)[before.length + 1]? = rest.head? := by
  have hoff : before.length + 1 - before.length = 1 := by omega
  rw [List.getElem?_append_right (Nat.le_succ _), hoff, List.getElem?_cons_succ, List.head?_eq_getElem?]

theorem nextIs_eq (before rest : Str) (c d : Char) :
    nextIs (before ++ c :: rest) before.length d = some (decide (rest.head? = some d)) := by
  unfold nextIs
  rw [getElem?_next, List.length_append, List.length_cons]
  cases rest with
  | nil => simp
  | cons e rest => simp

theorem prevIs_eq (before rest : Str) (d : Char) :
    prevIs (before ++ rest) before.length d = some (decide (before.getLast? = some d)) := by
  unfold prevIs
  rcases List.eq_nil_or_concat' before with rfl | ⟨front, e, rfl⟩
  · rfl
  · have hlast : (front ++ [e] ++ rest)[(front ++ [e]).length - 1]? = some e := by
      rw [List.length_append, List.length_singleton, Nat.add_sub_cancel, List.append_assoc]
      exact getElem?_here front rest e
    rw [hlast, List.getLast?_concat]
    simp

theorem pushSegmentAt_eq (segments : List CommandSegment) (raw : Str) :
    pushSegmentAt lib segments raw = some (segments ++ (pushSegment lib raw).toList) := by
  unfold pushSegmentAt pushSegment
  dsimp only
  by_cases htrim : trim raw = []
  · rw [if_pos htrim, htrim]
    simp [tokenizeSegment, tokenizeFrom]
  · rw [if_neg htrim]
    cases htokens : tokenizeSegment (trim raw) with
    | nil => simp
    | cons binaryFull args => simp [sliceFrom]

variable (lib) in
/-- What the loop hands on: the segments and the flag so far, and what it finds from here. -/
def collect (out : List CommandSegment × Bool) (scanned : List Str × Bool) : List CommandSegment × Bool :=
  (out.1 ++ scanned.1.filterMap (pushSegment lib), out.2 || scanned.2)

theorem collect_cut (out : List CommandSegment × Bool) (current : Str) (scanned : List Str × Bool) :
    collect lib out (cutSegment current scanned) =
      collect lib (out.1 ++ (pushSegment lib current).toList, true) scanned := by
  unfold collect cutSegment
  rw [List.filterMap_cons]
  cases pushSegment lib current with
  | none => simp
  | some seg => simp

theorem scanCommandAt_end (chars current : Str) (inSingle inDouble : Bool) (out : List CommandSegment × Bool) :
    scanCommandAt lib chars chars.length inSingle inDouble current out = some (collect lib out ([current], false)) := by
  rw [scanCommandAt, if_neg (Nat.lt_irrefl _), pushSegmentAt_eq]
  unfold collect
  rw [List.filterMap_cons]
  cases pushSegment lib current with
  | none => simp
  | some seg => simp

variable (lib) in
/-- The loop finds what the scan finds, one character behind `c` and two characters behind it. -/
structure ScanAgrees (before : Str) (c : Char) (rest : Str) : Prop where
  one : ∀ quote current out, scanCommandAt lib (before ++ c :: rest) (before.length + 1)
    (decide (quote = Quote.single)) (decide (quote = Quote.double)) current out =
      some (collect lib out (scanCommand 0 (some c) quote current rest))
  two : ∀ current out, rest ≠ [] →
    scanCommandAt lib (before ++ c :: rest) (before.length + 2) false false current out =
      some (collect lib out (scanCommand 1 (some c) .none current rest))

theorem scanCommandAt_quoted (h : ScanAgrees lib before c rest) {quote : Quote} (hquote : quote ≠ .none)
    (out : List CommandSegment × Bool) :
    scanCommandAt lib (before ++ c :: rest) before.length (quote = .single) (quote = .double) current out =
      some (collect lib out (scanCommand 0 before.getLast? quote current (c :: rest))) := by
  have hin : before.length < (before ++ c :: rest).length := by simp
  rw [scanCommandAt, if_pos hin, getElem?_here]
  cases quote with
  | none => exact absurd rfl hquote
  | single =>
    rw [scanCommand]
    have hnext := h.one (if c = '\'' then .none else .single) (current ++ [c]) out
    by_cases hq : c = '\''
    · simpa [hq] using hnext
    · simpa [hq] using hnext
  | double =>
    rw [scanCommand]
    have hnext := h.one (if c = '"' then .none else .double) (current ++ [c]) out
    by_cases hq : c = '"'
    · simpa [hq] using hnext
    · simpa [hq] using hnext

theorem scanCommandAt_unquoted (h : ScanAgrees lib before c rest) (out : List CommandSegment × Bool) :
    scanCommandAt lib (before ++ c :: rest) before.length false false current out =
      some (collect lib out (scanCommand 0 before.getLast? .none current (c :: rest))) := by
  have hin : before.length < (before ++ c :: rest).length := by simp
  rw [scanCommandAt, if_pos hin, getElem?_here, scanCommand]
  simp only [Option.bind_eq_bind, Option.bind_some, Bool.false_eq_true]
  -- what follows a cut, after one character or after two
  have hcut : ∀ o : List CommandSegment × Bool, (pushSegmentAt lib o.1 current).bind (fun segments =>
      scanCommandAt lib (before ++ c :: rest) (before.length + 1) false false [] (segments, true)) =
        some (collect lib o (cutSegment current (scanCommand 0 (some c) .none [] rest))) := by
    intro o
    rw [pushSegmentAt_eq, Option.bind_some, collect_cut]
    exact h.one .none [] _
  have hcutTwo : ∀ (d : Char) (o : List CommandSegment × Bool), rest.head? = some d →
      (pushSegmentAt lib o.1 current).bind (fun segments =>
        scanCommandAt lib (before ++ c :: rest) (before.length + 2) false false [] (segments, true)) =
          some (collect lib o (cutSegment current (scanCommand 1 (some c) .none [] rest))) := by
    intro d o hd
    rw [pushSegmentAt_eq, Option.bind_some, collect_cut]
    exact h.two [] _ (by rintro rfl; simp at hd)
  by_cases hb : c = '\\'
  · subst hb
    cases rest with
    | nil =>
      have hend := h.one .none (current ++ ['\\']) out
      simpa [scanCommand] using hend
    | cons d more =>
      rw [getElem?_next]
      have hnext := h.two (current ++ ['\\', d]) out (List.cons_ne_nil d more)
      simpa using hnext
  by_cases hs : c = '\''
  · simpa [hs] using h.one .single (current ++ [c]) out
  by_cases hd : c = '"'
  · simpa [hs, hd] using h.one .double (current ++ [c]) out
  by_cases hsep : c = ';' ∨ c = '\n'
  · simpa [hb, hs, hd, hsep] using hcut out
  by_cases hpipe : c = '|'
  · subst hpipe
    by_cases hhead : rest.head? = some '|'
    · simpa [nextIs_eq, hhead] using hcutTwo '|' out hhead
    · simpa [nextIs_eq, hhead] using hcut out
  by_cases hamp : c = '&'
  · subst hamp
    have hstep := h.one .none (current ++ ['&']) out
    by_cases hprev : before.getLast? = some '>'
    · simpa [nextIs_eq, prevIs_eq, hprev] using hstep
    by_cases hnext : rest.head? = some '>'
    · simpa [nextIs_eq, prevIs_eq, hnext] using hstep
    by_cases hhead : rest.head? = some '&'
    · simpa [nextIs_eq, prevIs_eq, hprev, hhead] using hcutTwo '&' out hhead
    · simpa [nextIs_eq, prevIs_eq, hprev, hnext, hhead] using hcut out
  by_cases htick : c = '`'
  · simpa [htick] using hcut out
  have hstep := h.one .none (current ++ [c]) out
  by_cases hdollar : c = '$'
  · subst hdollar
    by_cases hhead : rest.head? = some '('
    · simpa [nextIs_eq, hhead] using hcutTwo '(' out hhead
    · simpa [nextIs_eq, hhead] using hstep
  · simpa [hb, hs, hd, hsep, hpipe, hamp, htick, hdollar] using hstep

variable (lib) in
/-- **The loop over indices is the scan of the characters from there on.** -/
theorem scanCommandAt_eq : ∀ (n : ℕ) (rest before : Str) (quote : Quote) (current : Str)
    (out : List CommandSegment × Bool), rest.length ≤ n →
    scanCommandAt lib (before ++ rest) before.length (quote = .single) (quote = .double) current out =
      some (collect lib out (scanCommand 0 before.getLast? quote current rest)) := by
  intro n
  induction n with
  | zero =>
    intro rest before quote current out hlen
    obtain rfl := List.length_eq_zero_iff.mp (Nat.le_zero.mp hlen)
    rw [List.append_nil, scanCommandAt_end]
    rfl
  | succ n ih =>
    intro rest before quote current out hlen
    cases rest with
    | nil =>
      rw [List.append_nil, scanCommandAt_end]
      rfl
    | cons c rest =>
      rw [List.length_cons] at hlen
      have hagrees : ScanAgrees lib before c rest := by
        constructor
        · intro q cur o
          have h := ih rest (before ++ [c]) q cur o (by omega)
          rwa [List.append_assoc, List.length_append, List.getLast?_concat] at h
        · intro cur o hne
          obtain ⟨d, more, rfl⟩ := List.exists_cons_of_ne_nil hne
          rw [List.length_cons] at hlen
          have h := ih more (before ++ [c, d]) .none cur o (by omega)
          have hlast : (before ++ [c, d]).getLast? = some d := by
            rw [show before ++ [c, d] = (before ++ [c]) ++ [d] by simp, List.getLast?_concat]
          rwa [List.append_assoc, List.length_append, hlast] at h
      by_cases hquote : quote = .none
      · subst hquote
        exact scanCommandAt_unquoted hagrees out
      · exact scanCommandAt_quoted hagrees hquote out

theorem scanCommandAt_tokenize (command : Str) :
    scanCommandAt lib command 0 false false [] ([], false) = some (tokenizeCommand lib command) := by
  have h := scanCommandAt_eq lib command.length command [] .none [] ([], false) le_rfl
  simpa [collect, tokenizeCommand] using h

end Scan

/-! ## Git options -/

section Git

variable {tokens : List Str} {n : ℕ}

theorem skipOptionsAt_cons (front rest : List Str) (tok : Str) : skipOptionsAt lib (front ++ tok :: rest) front.length =
    if isValueOption lib tok then
      if '=' ∉ tok then skipOptionsAt lib (front ++ tok :: rest) (front.length + 2)
      else skipOptionsAt lib (front ++ tok :: rest) (front.length + 1)
    else if isGlobalFlag lib tok then skipOptionsAt lib (front ++ tok :: rest) (front.length + 1)
    else some front.length := by
  have hin : front.length < (front ++ tok :: rest).length := by simp
  have hhere : (front ++ tok :: rest)[front.length]? = some tok := by
    rw [List.getElem?_append_right le_rfl, Nat.sub_self, List.getElem?_cons_zero]
  rw [skipOptionsAt, if_pos hin, hhere]
  rfl

theorem skipOptionsAt_end (h : tokens.length ≤ n) : skipOptionsAt lib tokens n = some n := by
  rw [skipOptionsAt, if_neg (by omega)]

/-- The index never fails; the slice behind it is what the skipper leaves. -/
theorem sliceFrom_skipOptionsAt : ∀ rest front : List Str,
    (skipOptionsAt lib (front ++ rest) front.length).bind (sliceFrom (front ++ rest)) = skipGlobalOptions lib rest
  | [], front => by
    rw [skipOptionsAt_end (by simp)]
    simp [sliceFrom, skipGlobalOptions]
  | tok :: rest, front => by
    have hone : (skipOptionsAt lib (front ++ tok :: rest) (front.length + 1)).bind (sliceFrom (front ++ tok :: rest)) =
        skipGlobalOptions lib rest := by
      have h := sliceFrom_skipOptionsAt rest (front ++ [tok])
      rwa [List.append_assoc, List.length_append] at h
    rw [skipOptionsAt_cons, skipGlobalOptions_cons]
    by_cases hvalue : isValueOption lib tok = true
    · by_cases heq : '=' ∈ tok
      · simpa [hvalue, heq] using hone
      · simp only [hvalue, heq, if_true, not_false_eq_true]
        cases rest with
        | nil =>
          -- the index is behind the value that is not there
          rw [skipOptionsAt_end (by simp)]
          simp [sliceFrom]
        | cons v rest =>
          have h := sliceFrom_skipOptionsAt rest (front ++ [tok, v])
          rwa [List.append_assoc, List.length_append] at h
    · by_cases hflag : isGlobalFlag lib tok = true
      · simpa [hvalue, hflag] using hone
      · simp [hvalue, hflag, sliceFrom]

theorem normalizeGitCommandAt_eq (command : Str) : normalizeGitCommandAt lib command = normalizeGitCommand lib command := by
  unfold normalizeGitCommandAt normalizeGitCommand
  by_cases hgit : lib.isMatch gitCmdRe command = true
  · cases htokens : splitWhitespace command with
    | nil => simp [hgit]
    | cons git tokens =>
      have h : (skipOptionsAt lib (git :: tokens) 1).bind (sliceFrom (git :: tokens)) = skipGlobalOptions lib tokens :=
        sliceFrom_skipOptionsAt tokens [git]
      dsimp only
      rw [← h]
      cases skipOptionsAt lib (git :: tokens) 1 with
      | none => simp [hgit]
      | some i =>
        cases hslice : sliceFrom (git :: tokens) i with
        | none => simp [hgit, hslice]
        | some rest => simp [hgit, hslice]
  · simp [hgit]

/-- It panics exactly where an option lacks its value at the end of the tokens. -/
theorem normalizeGitCommand_isSome_iff (command : Str) : (normalizeGitCommand lib command).isSome = true ↔
    ¬ (lib.isMatch gitCmdRe command = true ∧ ∃ git front a, splitWhitespace command = git :: (front ++ [a]) ∧
      (normalizeTable lib).OptionRun front ∧ (normalizeTable lib).takes a = true) := by
  unfold normalizeGitCommand
  by_cases hgit : lib.isMatch gitCmdRe command = true
  · cases htokens : splitWhitespace command with
    | nil => simp [hgit]
    | cons git tokens =>
      simp only [hgit, Bool.not_true, Bool.false_eq_true, if_false, Option.isSome_map, true_and]
      rw [skipGlobalOptions_eq, Option.isSome_iff_ne_none, Ne, skip_eq_none_iff, not_iff_not]
      constructor
      · rintro ⟨front, a, rfl, hrun, ha⟩
        exact ⟨git, front, a, rfl, hrun, ha⟩
      · rintro ⟨git', front, a, heq, hrun, ha⟩
        obtain ⟨rfl, rfl⟩ := List.cons.inj heq
        exact ⟨front, a, rfl, hrun, ha⟩
  · simp [hgit]

end Git

/-! ## The policy and the validator -/

theorem splitAtByte_dash (flags : Str) : splitAtByte 1 ('-' :: flags) = some (['-'], flags) :=
  splitAtByte_byteLen ['-'] flags

/-- A byte behind the dash is a character boundary. -/
theorem argHasFlagAt_eq (flag : Char) : ∀ args : List Str, argHasFlagAt flag args = some (argHasFlag args flag)
  | [] => rfl
  | arg :: rest => by
    have ih := argHasFlagAt_eq flag rest
    unfold argHasFlagAt argHasFlag
    rw [List.any_cons]
    by_cases hshort : isShortFlags arg = true
    · have hdash : ['-'] <+: arg ∧ ¬ ['-', '-'] <+: arg := by simpa [isShortFlags] using hshort
      obtain ⟨⟨flags, rfl⟩, hlong⟩ := hdash
      rw [List.cons_append, List.nil_append] at hshort hlong ⊢
      rw [splitAtByte_dash]
      by_cases hflag : flag ∈ flags
      · simp [hshort, hlong, hflag]
      · simp [hshort, hlong, hflag, ih, argHasFlag]
    · have hskip : (!(['-'] <+: arg) || ['-', '-'] <+: arg) = true := by simpa [isShortFlags, -not_and, not_and_or] using hshort
      simp only [hskip, if_true, ih]
      simp [hshort, argHasFlag]

theorem andHasFlagAt_eq (cond : Bool) (flag : Char) (args : List Str) :
    andHasFlagAt cond flag args = some (cond && argHasFlag args flag) := by
  unfold andHasFlagAt
  cases cond with
  | false => rfl
  | true => exact argHasFlagAt_eq flag args

theorem checkStructuredPolicyAt_eq (seg : CommandSegment) :
    checkStructuredPolicyAt lib seg = some (checkStructuredPolicy lib seg) := by
  unfold checkStructuredPolicyAt checkStructuredPolicy
  simp only [andHasFlagAt_eq, Option.bind_eq_bind, Option.bind_some]
  split_ifs
  · rfl
  · rfl
  · rfl
  · cases gitBlocked seg.args with
    | some msg => rfl
    | none =>
      cases argMatchesSensitivePath lib seg.args with
      | some path => rfl
      | none => rfl
  · cases argMatchesSensitivePath lib seg.args with
    | some path => rfl
    | none => rfl

theorem checkSegmentsAt_eq (cfg : Config) : ∀ segments : List CommandSegment,
    checkSegmentsAt lib cfg segments = some (checkSegments lib cfg segments)
  | [] => rfl
  | seg :: rest => by
    unfold checkSegmentsAt checkSegments checkSegment
    cases segmentLiteral lib cfg seg with
    | some literal => rfl
    | none =>
      rw [checkStructuredPolicyAt_eq, checkSegmentsAt_eq cfg rest]
      cases checkStructuredPolicy lib seg with
      | error e => rfl
      | ok u => rfl

/-- **Read with its indices, the validator panics where the other does, and gives the same results.** -/
theorem validateCommandAt_eq (cfg : Config) (command : Str) :
    validateCommandAt lib cfg command = validateCommand lib cfg command := by
  unfold validateCommandAt validateCommand
  rw [scanCommandAt_tokenize, normalizeGitCommandAt_eq]
  cases cfg.enabled with
  | false => rfl
  | true =>
    cases normalizeGitCommand lib command with
    | none => rfl
    | some normalized =>
      simp only [Option.bind_eq_bind, Option.bind_some, checkSegmentsAt_eq, Option.map_some]
      cases cfg.compiledPatterns.find? fun p => lib.isMatch p command || lib.isMatch p normalized with
      | some p => rfl
      | none =>
        cases checkSegments lib cfg (tokenizeCommand lib command).1 with
        | error e => rfl
        | ok u => rfl

/-- **The validator returns exactly if it is off, or the command is not one of git, or no option of git at the end of
the command lacks its value.** -/
theorem validateCommand_total_iff (cfg : Config) (command : Str) : (validateCommandAt lib cfg command).isSome = true ↔
    ¬ (cfg.enabled = true ∧ lib.isMatch gitCmdRe command = true ∧
      ∃ git front a, splitWhitespace command = git :: (front ++ [a]) ∧
        (normalizeTable lib).OptionRun front ∧ (normalizeTable lib).takes a = true) := by
  rw [validateCommandAt_eq]
  unfold validateCommand
  by_cases hon : cfg.enabled = true
  · simp only [hon, Bool.not_true, Bool.false_eq_true, if_false, Option.isSome_map, true_and]
    exact normalizeGitCommand_isSome_iff command
  · simp [hon]

/-- A library whose expressions match nothing, but for `GIT_CMD_RE`: blanks, then `git` in any case as a word. -/
def gitLib : ShellLib where
  toLowercase := asciiLib.toLowercase
  compiles _ := true
  isMatch pattern text := pattern = gitCmdRe &&
    let word := text.dropWhile isWhitespace
    "git".toList <+: word.map Char.toLower && (word.drop 3).head?.all fun c => !(c.isAlphanum || c = '_')

/-- `git -C`: the value of the option is missing. -/
theorem validateCommand_panics : ¬ ∀ (lib : ShellLib) (cfg : Config) (command : Str),
    (validateCommandAt lib cfg command).isSome = true := by
  intro h
  have hgit := h gitLib (Config.new gitLib) "git -C".toList
  rw [validateCommandAt_eq] at hgit
  exact absurd hgit (by decide)

end Zeptoclaw.ShellGuard

import Zeptoclaw.Lib.Options
import Zeptoclaw.Proof.ShellGuard

/-!
# Which git subcommand is found

`normalize_git_command` and the git rule of `check_structured_policy` skip the global options in front of the
subcommand with loops and tables of their own. Both loops are `OptionTable.skip`, each for its own table; they find the
same subcommand exactly if the two tables read the options alike, or the word that is mistaken for the subcommand
happens to be the same (`gitOptions_agree_iff`).
-/

namespace Zeptoclaw.ShellGuard

open Text OptionTable

/-! ## The two tables -/

section Tables

variable (lib : ShellLib)

/-- The token is one of `GIT_GLOBAL_OPTS_WITH_VALUE`, with its value behind `=` or without. -/
def isValueOption (tok : Str) : Bool :=
  gitGlobalOptsWithValue.any fun o =>
    lib.toLowercase tok = lib.toLowercase o || lib.toLowercase o ++ ['='] <+: lib.toLowercase tok

def isGlobalFlag (tok : Str) : Bool := gitGlobalFlags.any fun f => lib.toLowercase tok = lib.toLowercase f

/-- The options as `normalize_git_command` reads them. -/
def normalizeTable : OptionTable Str where
  takes tok := isValueOption lib tok && '=' ∉ tok
  single tok := if isValueOption lib tok then '=' ∈ tok else isGlobalFlag lib tok

/-- The options as the structured rule reads them: everything behind a dash. -/
def structuredTable : OptionTable Str where
  takes tok := ['-'] <+: tok && tok.takeWhile (· ≠ '=') ∈ gitOptsWithValue && '=' ∉ tok
  single tok := ['-'] <+: tok

theorem skipGlobalOptions_cons (tok : Str) (rest : List Str) : skipGlobalOptions lib (tok :: rest) =
    if isValueOption lib tok then
      if '=' ∉ tok then
        match rest with
        | [] => none
        | _ :: rest' => skipGlobalOptions lib rest'
      else skipGlobalOptions lib rest
    else if isGlobalFlag lib tok then skipGlobalOptions lib rest
    else some (tok :: rest) := by
  cases rest <;> rfl

theorem gitSubcommand_cons (tok : Str) (rest : List Str) : gitSubcommand (tok :: rest) =
    if ['-'] <+: tok then
      if tok.takeWhile (· ≠ '=') ∈ gitOptsWithValue && '=' ∉ tok then
        match rest with
        | [] => []
        | _ :: rest' => gitSubcommand rest'
      else gitSubcommand rest
    else tok := by
  cases rest <;> rfl

theorem skipGlobalOptions_eq (tokens : List Str) : skipGlobalOptions lib tokens = (normalizeTable lib).skip tokens := by
  have hloop : skipGlobalOptions lib tokens = ((normalizeTable lib).skip tokens).elim none some := by
    refine loop_eq_skip (by rfl) (fun tok rest => ?_) tokens
    rw [skipGlobalOptions_cons]
    unfold normalizeTable
    dsimp only
    by_cases hvalue : isValueOption lib tok = true
    · by_cases heq : '=' ∈ tok
      · simp [hvalue, heq]
      · simp only [hvalue, heq, if_true, not_false_eq_true, decide_true, Bool.and_self]
        cases rest with
        | nil => rfl
        | cons v rest => rfl
    · simp [hvalue]
  rw [hloop]
  cases (normalizeTable lib).skip tokens with
  | none => rfl
  | some rest => rfl

end Tables

/-- The subcommand that the structured rule finds. -/
def findSubcommand (tokens : List Str) : Option Str := (structuredTable.skip tokens).bind List.head?

theorem gitSubcommand_eq (tokens : List Str) : gitSubcommand tokens = (findSubcommand tokens).getD [] := by
  have hloop : gitSubcommand tokens = (structuredTable.skip tokens).elim [] fun rest => rest.head?.getD [] := by
    refine loop_eq_skip (by rfl) (fun tok rest => ?_) tokens
    rw [gitSubcommand_cons]
    unfold structuredTable
    dsimp only
    by_cases hdash : ['-'] <+: tok
    · simp only [hdash, if_true, decide_true, Bool.true_and]
      cases rest with
      | nil => rfl
      | cons v rest => rfl
    · simp [hdash]
  rw [hloop, findSubcommand]
  cases structuredTable.skip tokens with
  | none => rfl
  | some rest => rfl

/-! ## Where they agree -/

section Agree

variable {lib : ShellLib} {front rest tokens : List Str} {s : Str}

/-- A token that the structured rule does not take for an option. -/
def IsWord (s : Str) : Prop := ¬ ['-'] <+: s

theorem stops_structured : structuredTable.Stops rest ↔ ∀ s ∈ rest.head?, IsWord s := by
  refine forall₂_congr fun s _ => ?_
  by_cases hdash : ['-'] <+: s
  · simp [structuredTable, IsWord, hdash]
  · simp [structuredTable, IsWord, hdash]

theorem findSubcommand_append (h : structuredTable.OptionRun front) (rest : List Str) :
    findSubcommand (front ++ rest) = findSubcommand rest := by
  rw [findSubcommand, h.skip_append, ← findSubcommand]

theorem findSubcommand_of_stops (h : ∀ s ∈ rest.head?, IsWord s) : findSubcommand rest = rest.head? := by
  rw [findSubcommand, skip_of_stops (stops_structured.mpr h)]
  rfl

theorem findSubcommand_isWord (h : findSubcommand tokens = some s) : IsWord s := by
  obtain ⟨rest, hskip, hs⟩ := Option.bind_eq_some_iff.mp h
  obtain ⟨-, -, -, hstop⟩ := skip_eq_some_iff.mp hskip
  exact stops_structured.mp hstop s hs

/-- What the structured rule finds, without its loop. -/
theorem findSubcommand_eq_some_iff :
    findSubcommand tokens = some s ↔ ∃ front rest, tokens = front ++ s :: rest ∧ structuredTable.OptionRun front ∧ IsWord s := by
  constructor
  · intro h
    obtain ⟨rest, hskip, hs⟩ := Option.bind_eq_some_iff.mp h
    obtain ⟨front, rfl, hrun, hstop⟩ := skip_eq_some_iff.mp hskip
    obtain ⟨after, rfl⟩ := List.head?_eq_some_iff.mp hs
    exact ⟨front, after, rfl, hrun, findSubcommand_isWord h⟩
  · rintro ⟨front, rest, rfl, hrun, hword⟩
    rw [findSubcommand_append hrun]
    refine findSubcommand_of_stops fun t ht => ?_
    obtain rfl := Option.some.inj ht
    exact hword

/-- Both find the same subcommand, or none. -/
def SameSubcommand (lib : ShellLib) (tokens : List Str) : Prop :=
  (skipGlobalOptions lib tokens).map List.head? = some (findSubcommand tokens)

instance (lib : ShellLib) (tokens : List Str) : Decidable (SameSubcommand lib tokens) :=
  inferInstanceAs (Decidable (_ = _))

/-- The structured rule takes the value of an option for the subcommand, and it is the same word. -/
def ValueIsSame (front rest : List Str) : Prop :=
  ∃ before v after, front = before ++ v :: after ∧ structuredTable.OptionRun before ∧ IsWord v ∧ rest.head? = some v

/-- The structured rule takes the subcommand for a value, and the same word stands behind it as a subcommand; or there
is none. -/
def ValueBehind (front rest : List Str) : Prop :=
  ∃ before a, front = before ++ [a] ∧ structuredTable.OptionRun before ∧ structuredTable.takes a = true ∧
    (rest = [] ∨ ∃ s more after, rest = s :: (more ++ s :: after) ∧ structuredTable.OptionRun more)

/-- The tokens before the subcommand are options with their values for both tables, and the subcommand is no option; or
the structured rule mistakes a word for the subcommand, and it is the same. -/
def OptionsAgree (lib : ShellLib) (tokens : List Str) : Prop :=
  ∃ front rest, tokens = front ++ rest ∧ (normalizeTable lib).OptionRun front ∧ (normalizeTable lib).Stops rest ∧
    (∀ s ∈ rest.head?, IsWord s) ∧
    (structuredTable.OptionRun front ∨ ValueIsSame front rest ∨ ValueBehind front rest)

/-- What the structured rule finds behind the options of the other. -/
theorem findSubcommand_eq_head_iff (hword : ∀ s ∈ rest.head?, IsWord s) : findSubcommand (front ++ rest) = rest.head? ↔
    structuredTable.OptionRun front ∨ ValueIsSame front rest ∨ ValueBehind front rest := by
  constructor
  · intro h
    rcases options_split (t := structuredTable) front with ⟨before, after, rfl, hrun, hstop⟩ | ⟨before, a, rfl, hrun, ha⟩
    · cases after with
      | nil => exact .inl (by rwa [List.append_nil])
      | cons v after =>
        rw [List.append_assoc, findSubcommand_append hrun, findSubcommand_of_stops] at h
        · exact .inr (.inl ⟨before, v, after, rfl, hrun, stops_structured.mp hstop v rfl, h.symm⟩)
        · exact stops_structured.mp hstop
    · right
      right
      refine ⟨before, a, rfl, hrun, ha, ?_⟩
      cases rest with
      | nil => exact .inl rfl
      | cons s more =>
        rw [List.append_assoc, findSubcommand_append hrun] at h
        have hmore : findSubcommand more = some s :=
          (congrArg (Option.bind · List.head?) (skip_value ha s more)).symm.trans h
        obtain ⟨front', after, rfl, hrun', -⟩ := findSubcommand_eq_some_iff.mp hmore
        exact .inr ⟨s, front', after, rfl, hrun'⟩
  · rintro (hrun | ⟨before, v, after, rfl, hrun, hv, hhead⟩ | ⟨before, a, rfl, hrun, ha, hrest⟩)
    · rw [findSubcommand_append hrun, findSubcommand_of_stops hword]
    · rw [hhead]
      exact findSubcommand_eq_some_iff.mpr ⟨before, after ++ rest, by simp, hrun, hv⟩
    · rw [List.append_assoc, findSubcommand_append hrun]
      rcases hrest with rfl | ⟨s, more, after, rfl, hmore⟩
      · rw [List.append_nil, findSubcommand, skip_missing ha]
        rfl
      · have hfind := findSubcommand_eq_some_iff.mpr ⟨more, after, rfl, hmore, hword s rfl⟩
        exact (congrArg (Option.bind · List.head?) (skip_value ha s _)).trans hfind

end Agree

/-- **The two rules find the same subcommand exactly if they read the options before it alike, or one mistakes the same
word for it.** Where the structured rule finds none it goes on with an empty one. -/
theorem gitOptions_agree_iff (lib : ShellLib) (tokens : List Str) :
    (SameSubcommand lib tokens ↔ OptionsAgree lib tokens) ∧
      gitSubcommand tokens = (findSubcommand tokens).getD [] := by
  refine ⟨?_, gitSubcommand_eq tokens⟩
  unfold SameSubcommand OptionsAgree
  rw [skipGlobalOptions_eq]
  constructor
  · intro h
    obtain ⟨rest, hskip, hhead⟩ := Option.map_eq_some_iff.mp h
    obtain ⟨front, rfl, hrun, hstop⟩ := skip_eq_some_iff.mp hskip
    have hword : ∀ s ∈ rest.head?, IsWord s := fun s hs => findSubcommand_isWord (hhead.symm.trans hs)
    exact ⟨front, rest, rfl, hrun, hstop, hword, (findSubcommand_eq_head_iff hword).mp hhead.symm⟩
  · rintro ⟨front, rest, rfl, hrun, hstop, hword, hagree⟩
    rw [(findSubcommand_eq_head_iff hword).mpr hagree, skip_eq_some_iff.mpr ⟨front, rfl, hrun, hstop⟩]
    rfl

/-- `git --super-prefix x push`: only `normalize_git_command` knows that the option has a value. -/
theorem gitOptions_disagree : ¬ ∀ (lib : ShellLib) (tokens : List Str), SameSubcommand lib tokens := by
  intro h
  exact absurd (h asciiLib ["--super-prefix".toList, ['x'], "push".toList]) (by decide)

end Zeptoclaw.ShellGuard

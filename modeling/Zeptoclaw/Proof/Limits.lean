import Zeptoclaw.Spec.Limits

/-!
# Limits that runs share

`toolCallLimit_kept`: every run keeps to the tool call limit and uses it up before it is
stopped, as long as the shared counter changes only while one run is in progress.
`tokenBudget_stops`: a run that has used up its token budget makes no further provider
call, as long as no other run resets the budget and the final streaming call is made
within it.
-/

namespace Zeptoclaw

/-! ## The tool call counter -/

section ToolCalls

variable {ι : Type*} [DecidableEq ι] {limit : ℕ}

/-- The run has begun and is not over. -/
def LimitPhase.active : LimitPhase → Bool
  | .idle | .stopped | .ended => false
  | _ => true

/-- Every run executes at most `limit` calls, and one that the limit stops has executed
them all. -/
def LimitKept (limit : ℕ) (s : LimitState ι) : Prop :=
  ∀ r, (s.runs r).executed ≤ limit ∧ ((s.runs r).phase = .stopped → limit ≤ (s.runs r).executed)

/-- A run starts while no other is in progress, or the counter is still at zero; its memory
flush executes no tool call; and it adds its calls to the counter while no other is in
progress. -/
def KeepsCount (s : LimitState ι) : LimitInput ι → Prop
  | .start r => s.tracker.count = 0 ∨ ∀ r', r' ≠ r → (s.runs r').phase.active = false
  | .flush r calls => (s.runs r).phase = .started → calls = 0
  | .count r => ∀ r', r' ≠ r → (s.runs r').phase.active = false
  | _ => True

/-- What a run has executed, against the counter. -/
def RunOk (limit count : ℕ) (run : LimitRun) : Prop :=
  match run.phase with
  | .idle => run.executed = 0
  | .truncated calls => run.executed = count ∧ count + calls ≤ limit
  | .executed calls => run.executed = count + calls ∧ count + calls ≤ limit
  | .stopped => run.executed = limit
  | .ended => run.executed ≤ limit
  | _ => run.executed = count ∧ count ≤ limit

/-- The invariant of the runs on one `AgentLoop`. -/
structure LimitOk (limit : ℕ) (s : LimitState ι) : Prop where
  limit_eq : s.tracker.limit = some limit
  runs : ∀ r, RunOk limit s.tracker.count (s.runs r)

theorem RunOk.executed_le {count : ℕ} {run : LimitRun} (h : RunOk limit count run) : run.executed ≤ limit := by
  unfold RunOk at h
  cases hp : run.phase <;> rw [hp] at h
  case idle => exact Nat.le_trans (Nat.le_of_eq h) (Nat.zero_le limit)
  case stopped => exact Nat.le_of_eq h
  case ended => exact h
  all_goals
    dsimp only at h
    omega

omit [DecidableEq ι] in
theorem LimitOk.kept {s : LimitState ι} (h : LimitOk limit s) : LimitKept limit s := by
  intro r
  refine ⟨(h.runs r).executed_le, fun hp => ?_⟩
  have hr := h.runs r
  rw [RunOk, hp] at hr
  exact Nat.le_of_eq hr.symm

/-- The counter does not matter to a run that is not in progress. -/
theorem RunOk.of_not_active {count count' : ℕ} {run : LimitRun} (h : RunOk limit count run)
    (ha : run.phase.active = false) : RunOk limit count' run := by
  unfold RunOk at *
  cases hp : run.phase <;> rw [hp] at h ha
  case idle => exact h
  case stopped => exact h
  case ended => exact h
  all_goals cases ha

theorem isExceeded_iff {t : ToolCallLimitTracker} (h : t.limit = some limit) :
    t.isExceeded = true ↔ limit ≤ t.count := by
  simp [ToolCallLimitTracker.isExceeded, h]

/-- A run that looks at the counter is stopped only when it has used up the limit. -/
theorem RunOk.stop_or {t : ToolCallLimitTracker} {run : LimitRun} (ht : t.limit = some limit)
    (h : run.executed = t.count ∧ t.count ≤ limit) {phase : LimitPhase} (hphase : RunOk limit t.count { run with phase }) :
    RunOk limit t.count { run with phase := if t.isExceeded then .stopped else phase } := by
  by_cases he : t.isExceeded = true
  · rw [if_pos he]
    have hle := (isExceeded_iff ht).mp he
    exact h.1.trans (Nat.le_antisymm h.2 hle)
  · rw [if_neg he]
    exact hphase

omit [DecidableEq ι] in
/-- The limit itself never changes. -/
theorem limitMove_limit (t : ToolCallLimitTracker) (run : LimitRun) (input : LimitInput ι) :
    (limitMove t run input).1.limit = t.limit := by
  cases input <;> dsimp only [limitMove] <;> split <;> rfl

omit [DecidableEq ι] in
/-- A run stays within the limit by its own steps. -/
theorem limitMove_ok (hlimit : limit < 2 ^ 32) {t : ToolCallLimitTracker} {run : LimitRun} (ht : t.limit = some limit)
    (h : RunOk limit t.count run) (input : LimitInput ι)
    (hflush : ∀ r calls, input = .flush r calls → run.phase = .started → calls = 0) :
    RunOk limit (limitMove t run input).1.count (limitMove t run input).2 := by
  cases input with
  | start r =>
    dsimp only [limitMove]
    split
    · exact ⟨rfl, Nat.zero_le _⟩
    · exact h
  | flush r calls =>
    dsimp only [limitMove]
    split
    case h_1 hp =>
      have hzero : calls = 0 := hflush r calls rfl hp
      rw [RunOk, hp] at h
      subst hzero
      exact h
    case h_2 => exact h
  | respond r calls =>
    dsimp only [limitMove]
    split
    case h_1 hp =>
      rw [RunOk, hp] at h
      by_cases hc : calls = 0
      · rw [if_pos hc]
        exact Nat.le_trans (Nat.le_of_eq h.1) h.2
      · rw [if_neg hc]
        exact h
    case h_2 => exact h
  | check r =>
    dsimp only [limitMove]
    split
    case h_1 calls hp =>
      rw [RunOk, hp] at h
      exact RunOk.stop_or ht h h
    case h_2 => exact h
  | truncate r =>
    dsimp only [limitMove]
    split
    case h_1 calls hp =>
      rw [RunOk, hp] at h
      refine ⟨h.1, ?_⟩
      simp only [ToolCallLimitTracker.remaining, ht, Option.map_some, Option.elim_some]
      have := h.2
      omega
    case h_2 => exact h
  | execute r pause =>
    dsimp only [limitMove]
    split
    case h_1 calls hp =>
      rw [RunOk, hp] at h
      obtain ⟨heq, hle⟩ := h
      cases pause with
      | true =>
        show run.executed + calls ≤ limit
        omega
      | false => exact ⟨by dsimp only; omega, hle⟩
    case h_2 => exact h
  | count r =>
    dsimp only [limitMove]
    split
    case h_1 calls hp =>
      rw [RunOk, hp] at h
      obtain ⟨heq, hle⟩ := h
      -- the counter does not wrap: the limit fits in 32 bits
      have hcount : (t.increment calls).count = t.count + calls := by
        dsimp only [ToolCallLimitTracker.increment]
        omega
      show run.executed = (t.increment calls).count ∧ (t.increment calls).count ≤ limit
      rw [hcount]
      exact ⟨heq, hle⟩
    case h_2 => exact h
  | recheck r =>
    dsimp only [limitMove]
    split
    case h_1 hp =>
      rw [RunOk, hp] at h
      exact RunOk.stop_or ht h h
    case h_2 => exact h
  | leave r =>
    dsimp only [limitMove]
    split
    case h_4 => exact h.executed_le
    all_goals exact h

omit [DecidableEq ι] in
/-- Only a start and a count change the counter. -/
theorem limitMove_count {s : LimitState ι} {input : LimitInput ι} (hcond : KeepsCount s input) :
    (limitMove s.tracker (s.runs input.run) input).1.count = s.tracker.count ∨
      ∀ r, r ≠ input.run → (s.runs r).phase.active = false := by
  cases input with
  | start r =>
    rcases hcond with h | h
    · left
      dsimp only [limitMove]
      split
      · exact h.symm
      · rfl
    · exact .inr h
  | count r => exact .inr hcond
  | _ =>
    left
    dsimp only [limitMove]
    split <;> rfl

theorem limitStep_ok (hlimit : limit < 2 ^ 32) (s : LimitState ι) (input : LimitInput ι) (h : LimitOk limit s)
    (hcond : KeepsCount s input) : LimitOk limit (limitStep s input) := by
  refine ⟨(limitMove_limit _ _ _).trans h.limit_eq, fun r => ?_⟩
  by_cases hr : r = input.run
  · subst hr
    dsimp only [limitStep]
    rw [Function.update_self]
    refine limitMove_ok hlimit h.limit_eq (h.runs _) input fun r calls hinput hp => ?_
    subst hinput
    exact hcond hp
  · dsimp only [limitStep]
    rw [Function.update_of_ne hr]
    rcases limitMove_count hcond with hcount | halone
    · rw [hcount]
      exact h.runs r
    · exact (h.runs r).of_not_active (halone r hr)

omit [DecidableEq ι] in
theorem LimitOk.init : LimitOk limit (LimitState.init (ι := ι) (some limit)) := ⟨rfl, fun _ => rfl⟩

/-- **Every run keeps to the tool call limit and is stopped by it only when it has used it
up**, when the counter that the runs share counts one of them alone. -/
theorem toolCallLimit_kept (hlimit : limit < 2 ^ 32) (inputs : List (LimitInput ι))
    (hmeet : StepsMeet limitStep KeepsCount (.init (some limit)) inputs) :
    LimitKept limit (runSteps limitStep (.init (some limit)) inputs) :=
  (run_invariant (limitStep_ok hlimit) inputs _ LimitOk.init hmeet).kept

/-- One iteration of the tool loop with one call. -/
def oneCall {ι : Type*} (r : ι) : List (LimitInput ι) :=
  [.respond r 1, .check r, .truncate r, .execute r false, .count r, .recheck r]

/-- Two runs after each other, each with the two calls it is allowed. -/
theorem toolCallLimit_kept_twice :
    LimitKept 2 (runSteps limitStep (.init (some 2))
      ([.start true, .flush true 0] ++ oneCall true ++ oneCall true ++ [.start false, .flush false 0] ++
        oneCall false ++ oneCall false)) :=
  toolCallLimit_kept (by decide) _ (by
    simp [StepsMeet, KeepsCount, oneCall, LimitState.init, limitStep, limitMove, LimitPhase.active,
      ToolCallLimitTracker.isExceeded, ToolCallLimitTracker.remaining, ToolCallLimitTracker.increment,
      ToolCallLimitTracker.reset, LimitInput.run])

/-- A second run sets the counter back, and the first one executes three calls of two. -/
theorem toolCallLimit_exceeded :
    ¬ ∀ inputs : List (LimitInput Bool), LimitKept 2 (runSteps limitStep (.init (some 2)) inputs) := by
  intro h
  have hle := (h ([.start true, .flush true 0] ++ oneCall true ++ [.start false] ++ oneCall true ++ oneCall true) true).1
  exact absurd hle (by decide)

end ToolCalls

/-! ## The token budget -/

section Budget

variable {limit : ℕ} {run : BudgetRun}

/-- The tokens a run has recorded. -/
def recordedTotal : List BudgetEvent → ℕ
  | [] => 0
  | .called _ :: trace => recordedTotal trace
  | .recorded input output :: trace => input + output + recordedTotal trace

/-- No provider call comes after the recorded tokens have reached the limit. -/
def CallsWithin (limit : ℕ) (trace : List BudgetEvent) : Prop :=
  ∀ before site after, trace = before ++ .called site :: after → recordedTotal before < limit

/-- The counters have room for the usage. -/
def TokenBudget.Fits (b : TokenBudget) (input output : ℕ) : Prop :=
  b.inputUsed + input + (b.outputUsed + output) < 2 ^ 64

/-- Other runs leave the budget alone once this one has recorded its first tokens, or record
into it, no counter wraps, and the final streaming call comes before the limit is
reached. -/
def KeepsBudget (limit : ℕ) (streaming : Bool) (run : BudgetRun) : BudgetInput → Prop
  | .otherReset => recordedTotal run.trace = 0 ∨ run.phase = .ended
  | .otherRecord input output => run.budget.Fits input output
  | .result (.ok _ (some (input, output))) => run.budget.Fits input output
  | .finish => streaming = true → run.phase = .afterLoop false → recordedTotal run.trace < limit
  | _ => True

theorem recordedTotal_append (a b : List BudgetEvent) : recordedTotal (a ++ b) = recordedTotal a + recordedTotal b := by
  induction a with
  | nil => simp [recordedTotal]
  | cons e a ih =>
    cases e with
    | called site => exact ih
    | recorded input output =>
      simp only [List.cons_append, recordedTotal, ih]
      omega

theorem CallsWithin.snoc {trace : List BudgetEvent} (h : CallsWithin limit trace) (e : BudgetEvent)
    (he : ∀ site, e = .called site → recordedTotal trace < limit) : CallsWithin limit (trace ++ [e]) := by
  intro before site after heq
  rcases List.eq_nil_or_concat' after with rfl | ⟨after', last, rfl⟩
  · obtain ⟨rfl, he'⟩ := List.append_inj' heq rfl
    exact he site (List.head_eq_of_cons_eq he')
  · rw [← List.cons_append, ← List.append_assoc] at heq
    obtain ⟨htrace, -⟩ := List.append_inj' heq rfl
    exact h before site after' htrace

/-- The invariant of one run. -/
structure BudgetOk (limit : ℕ) (run : BudgetRun) : Prop where
  limit_eq : run.budget.limit = limit
  fits : run.budget.Fits 0 0
  counted : run.phase ≠ .ended → recordedTotal run.trace ≤ run.budget.inputUsed + run.budget.outputUsed
  flushing : run.phase = .flushing → recordedTotal run.trace = 0
  calling : ∀ site attempt, run.phase = .calling site attempt → recordedTotal run.trace < limit
  within : CallsWithin limit run.trace

namespace BudgetOk

theorem init (limit : ℕ) : BudgetOk limit (.init limit) where
  limit_eq := rfl
  fits := Nat.two_pow_pos 64
  counted _ := Nat.zero_le _
  flushing _ := rfl
  calling _ _ h := nomatch h
  within before site after h := by simp [BudgetRun.init] at h

/-- The code's own check, as long as nobody has set the counters back. -/
theorem lt_of_not_exceeded (h : BudgetOk limit run) (hlimit : limit ≠ 0) (hp : run.phase ≠ .ended)
    (he : ¬ run.budget.isExceeded = true) : recordedTotal run.trace < limit := by
  have hcounted := h.counted hp
  have hfits := h.fits
  have hl := h.limit_eq
  simp only [TokenBudget.isExceeded, TokenBudget.isUnlimited, TokenBudget.totalUsed, TokenBudget.Fits] at he hfits
  simp only [hl, hlimit, decide_false, Bool.not_false, Bool.true_and, decide_eq_true_eq] at he
  omega

theorem call (h : BudgetOk limit run) (hp : run.phase ≠ .ended) (hlt : recordedTotal run.trace < limit)
    (site : CallSite) (attempt : ℕ) : BudgetOk limit (run.call site attempt) := by
  have htotal : recordedTotal (run.trace ++ [.called site]) = recordedTotal run.trace := by
    rw [recordedTotal_append]
    rfl
  exact {
    limit_eq := h.limit_eq
    fits := h.fits
    counted := fun _ => Nat.le_trans (Nat.le_of_eq htotal) (h.counted hp)
    flushing := nofun
    calling := fun _ _ _ => Nat.lt_of_le_of_lt (Nat.le_of_eq htotal) hlt
    within := h.within.snoc _ fun _ _ => hlt }

/-- A phase that is no call and not the flush. -/
theorem goto (h : BudgetOk limit run) (hp : run.phase ≠ .ended) {phase : BudgetPhase}
    (hflush : phase ≠ .flushing) (hcall : ∀ site attempt, phase ≠ .calling site attempt) :
    BudgetOk limit (run.goto phase) where
  limit_eq := h.limit_eq
  fits := h.fits
  counted _ := h.counted hp
  flushing hf := absurd hf hflush
  calling site attempt hc := absurd hc (hcall site attempt)
  within := h.within

theorem record (h : BudgetOk limit run) {input output : ℕ} (hfits : run.budget.Fits input output) :
    BudgetOk limit { run with budget := run.budget.record input output } := by
  have h' := hfits
  simp only [TokenBudget.Fits] at h'
  refine ⟨h.limit_eq, ?_, fun hp => ?_, h.flushing, h.calling, h.within⟩
  · simp only [TokenBudget.Fits, TokenBudget.record]
    omega
  · have := h.counted hp
    simp only [TokenBudget.record]
    omega

/-- The usage of a response counts, and the call is over. -/
theorem recordUsage (h : BudgetOk limit run) (hp : run.phase ≠ .ended) {usage : Option (ℕ × ℕ)}
    (hfits : ∀ input output, usage = some (input, output) → run.budget.Fits input output) {phase : BudgetPhase}
    (hflush : phase ≠ .flushing) (hcall : ∀ site attempt, phase ≠ .calling site attempt) :
    BudgetOk limit ((run.recordUsage usage).goto phase) := by
  cases usage with
  | none => exact h.goto hp hflush hcall
  | some usage =>
    obtain ⟨input, output⟩ := usage
    have hrec := h.record (hfits input output rfl)
    have hcounted := h.counted hp
    have hroom := hfits input output rfl
    refine ⟨hrec.limit_eq, hrec.fits, fun _ => ?_, fun hf => absurd hf hflush,
      fun site attempt hc => absurd hc (hcall site attempt), h.within.snoc _ nofun⟩
    show recordedTotal (run.trace ++ [.recorded input output]) ≤ _
    simp only [recordedTotal_append, recordedTotal, TokenBudget.Fits, BudgetRun.recordUsage, BudgetRun.goto,
      TokenBudget.record] at *
    omega

/-- Another run sets the counters back. -/
theorem reset (h : BudgetOk limit run) (hzero : recordedTotal run.trace = 0 ∨ run.phase = .ended) :
    BudgetOk limit { run with budget := run.budget.reset } := by
  refine ⟨h.limit_eq, Nat.two_pow_pos 64, fun hp => ?_, h.flushing, h.calling, h.within⟩
  rcases hzero with hz | he
  · exact hz ▸ Nat.zero_le _
  · exact absurd he hp

end BudgetOk

variable {cfg : BudgetConfig} {streaming : Bool}

theorem answered_ok (h : BudgetOk limit run) {site : CallSite} {attempt : ℕ} (hp : run.phase = .calling site attempt)
    {r : ChatResult} (hcond : KeepsBudget limit streaming run (.result r)) :
    BudgetOk limit (answered cfg run site attempt r) := by
  have hne : run.phase ≠ .ended := by simp [hp]
  have hended : BudgetOk limit (run.goto .ended) := h.goto hne nofun nofun
  cases r with
  | contextOverflow =>
    dsimp only [answered]
    split
    · exact h.call hne (h.calling site attempt hp) site (attempt + 1)
    · exact hended
  | failed => exact hended
  | ok toolCalls usage =>
    have hfits : ∀ input output, usage = some (input, output) → run.budget.Fits input output := by
      rintro input output rfl
      exact hcond
    cases site with
    | first => exact h.recordUsage hne hfits nofun nofun
    | loop => exact h.recordUsage hne hfits nofun nofun
    | synthesis => exact h.recordUsage hne hfits nofun nofun
    | flush => exact hended
    | stream => exact hended

theorem afterBatch_ok (hlimit : limit ≠ 0) (h : BudgetOk limit run) (hne : run.phase ≠ .ended) (left : ℕ)
    (last : BatchEnd) : BudgetOk limit (afterBatch streaming run left last) := by
  have hafter : ∀ b, BudgetOk limit (run.goto (.afterLoop b)) := fun b => h.goto hne nofun nofun
  cases last with
  | stopped => exact hafter _
  | limitHit =>
    dsimp only [afterBatch]
    split
    · exact hafter false
    · split
      · exact hafter _
      · next he => exact h.call hne (h.lt_of_not_exceeded hlimit hne he) .synthesis 0
  | next =>
    dsimp only [afterBatch]
    split
    · exact hafter _
    · next he => exact h.call hne (h.lt_of_not_exceeded hlimit hne he) .loop 0

theorem budgetStep_ok (hlimit : limit ≠ 0) (run : BudgetRun) (input : BudgetInput) (h : BudgetOk limit run)
    (hcond : KeepsBudget limit streaming run input) : BudgetOk limit (budgetStep cfg streaming run input) := by
  cases input with
  | otherReset => exact h.reset hcond
  | otherRecord input output => exact h.record hcond
  | flush called =>
    dsimp only [budgetStep]
    split
    case h_1 hp =>
      have hne : run.phase ≠ .ended := by simp [hp]
      cases called with
      | true =>
        have hlt : recordedTotal run.trace < limit := by
          rw [h.flushing hp]
          omega
        exact (h.call hne hlt .flush 0).goto nofun nofun nofun
      | false => exact h.goto hne nofun nofun
    case h_2 => exact h
  | check hit =>
    dsimp only [budgetStep]
    split
    case h_1 hp =>
      have hne : run.phase ≠ .ended := by simp [hp]
      split
      · exact h.goto hne nofun nofun
      · next he =>
        split
        · exact h.goto hne nofun nofun
        · exact h.call hne (h.lt_of_not_exceeded hlimit hne he) .first 0
    case h_2 => exact h
  | result r =>
    dsimp only [budgetStep]
    split
    case h_1 hp => exact answered_ok h hp hcond
    case h_2 => exact h
  | batch left last =>
    dsimp only [budgetStep]
    split
    case h_1 toolCalls hp =>
      have hne : run.phase ≠ .ended := by simp [hp]
      split
      · have hiter : BudgetOk limit { run with iteration := run.iteration + 1 } :=
          ⟨h.limit_eq, h.fits, h.counted, h.flushing, h.calling, h.within⟩
        exact afterBatch_ok hlimit hiter hne left last
      · exact h.goto hne nofun nofun
    case h_2 => exact h
  | finish =>
    dsimp only [budgetStep]
    split
    case h_1 hasToolCalls hp =>
      have hne : run.phase ≠ .ended := by simp [hp]
      split
      · next hs =>
        -- nothing checks the budget here: the condition on the run does
        rw [hs.2] at hp
        exact h.call hne (hcond hs.1 hp) .stream 0
      · exact h.goto hne nofun nofun
    case h_2 => exact h

/-- **A run makes no provider call once the tokens it has recorded reach its budget**, when
the shared counters are kept and the final streaming call comes within the budget. -/
theorem tokenBudget_stops (cfg : BudgetConfig) (streaming : Bool) (hlimit : limit ≠ 0) (inputs : List BudgetInput)
    (hmeet : StepsMeet (budgetStep cfg streaming) (KeepsBudget limit streaming) (.init limit) inputs) :
    CallsWithin limit (runSteps (budgetStep cfg streaming) (.init limit) inputs).trace :=
  (run_invariant (budgetStep_ok hlimit) inputs _ (.init limit) hmeet).within

/-- A configuration with one retry after a context overflow. -/
def oneRetry : BudgetConfig := ⟨10, 1, true⟩

/-- A streaming run with one batch of tool calls, whose final call is within the budget. -/
theorem tokenBudget_stops_streaming :
    CallsWithin 20 (runSteps (budgetStep oneRetry true) (.init 20)
      [.flush false, .check false, .result (.ok 1 (some (3, 4))), .batch 1 .next, .result (.ok 0 (some (5, 6))),
        .batch 0 .next, .finish]).trace :=
  tokenBudget_stops oneRetry true (by decide) _ (by
    simp [StepsMeet, KeepsBudget, budgetStep, BudgetRun.init, BudgetRun.goto, BudgetRun.call, answered, afterBatch,
      BudgetRun.recordUsage, TokenBudget.isExceeded, TokenBudget.isUnlimited, TokenBudget.totalUsed, TokenBudget.Fits,
      TokenBudget.record, recordedTotal, oneRetry])

/-- The first response uses up the budget and has no tool calls; the streaming entry point
asks the provider again. -/
theorem tokenBudget_overrun :
    ¬ ∀ inputs : List BudgetInput,
      CallsWithin 5 (runSteps (budgetStep oneRetry true) (.init 5) inputs).trace := by
  intro h
  have hcall := h [.flush false, .check false, .result (.ok 0 (some (3, 4))), .batch 0 .next, .finish]
    [.called .first, .recorded 3 4] .stream [] (by decide)
  exact absurd hcall (by decide)

end Budget

end Zeptoclaw

import Zeptoclaw.Lib.Attempts
import Zeptoclaw.Spec.Retry

/-!
# The contract of the retry loop

A request calls the inner provider at most once more than `max_retries`, with the computed delay between two calls, and
returns the first answer that is not to be retried, or else the last error; it ends early only when the budget is used
up, and then there is an error to return. Both loops do the same (`retry_contract`).
-/

namespace Zeptoclaw

variable {α β : Type*}

namespace RetryRun

/-- What a request does and how it ends, without the content of a response. -/
def outcome (run : RetryRun α) : RetryRun Unit := ⟨run.events, run.result.map fun result => result.map fun _ => ()⟩

end RetryRun

namespace RetryProvider

variable (p : RetryProvider) (toLowercase : Str → Str) (clock : RetryClock)

/-- What belongs to an attempt: the delay before it, unless it is the first, and the call. -/
def eventsOf (attempt : ℕ) : List RetryEvent :=
  (if 0 < attempt then [.sleep (p.delayBefore clock attempt)] else []) ++ [.call attempt]

end RetryProvider

/-- A request of the retry provider that makes the attempts below `attempts`. -/
structure RetryContract (p : RetryProvider) (toLowercase : Str → Str) (clock : RetryClock) (answer : ℕ → Except LlmError α)
    (run : RetryRun α) (attempts : ℕ) (result : Except LlmError α) : Prop where
  bound : attempts ≤ p.maxRetries.toNat + 1
  events : run.events = (List.range attempts).flatMap (p.eventsOf clock)
  -- there is no panic
  total : run.result = some result
  returned : Attempts (LlmError.isRetryable toLowercase) ((List.range attempts).map answer) result
  -- an error to retry is returned only when no attempt is left, or no budget
  exhausted : ∀ e, result = .error e → e.isRetryable toLowercase = true →
    attempts = p.maxRetries.toNat + 1 ∨ p.budgetExceeded (clock.elapsed attempts) = true

namespace RetryProvider

variable {p : RetryProvider} {toLowercase : Str → Str} {clock : RetryClock} {answer : ℕ → Except LlmError α}

/-- What holds of the loop with some rounds left: it makes some attempts, or, after an error, none. -/
def LoopContract (p : RetryProvider) (toLowercase : Str → Str) (clock : RetryClock) (answer : ℕ → Except LlmError α)
    (rounds attempt : ℕ) (lastErr : Option LlmError) (run : RetryRun α) : Prop :=
  ∃ attempts ≤ rounds + 1, run.events = (List.range' attempt attempts).flatMap (p.eventsOf clock) ∧
    ((attempts = 0 ∧ 0 < attempt ∧ run.result = lastErr.map .error ∧ p.budgetExceeded (clock.elapsed attempt) = true) ∨
      ∃ result, run.result = some result ∧
        Attempts (LlmError.isRetryable toLowercase) ((List.range' attempt attempts).map answer) result ∧
        ∀ e, result = .error e → e.isRetryable toLowercase = true →
          attempts = rounds + 1 ∨ p.budgetExceeded (clock.elapsed (attempt + attempts)) = true)

variable {rounds attempt : ℕ} {lastErr : Option LlmError}

/-- The budget is used up before the attempt. -/
theorem loopContract_exceeded (hattempt : 0 < attempt) (hbudget : p.budgetExceeded (clock.elapsed attempt) = true) :
    LoopContract p toLowercase clock answer rounds attempt lastErr ⟨[], lastErr.map .error⟩ :=
  ⟨0, Nat.zero_le _, rfl, .inl ⟨rfl, hattempt, rfl, hbudget⟩⟩

/-- The attempt is the last. -/
theorem loopContract_stop (p : RetryProvider) (toLowercase : Str → Str) (clock : RetryClock) (answer : ℕ → Except LlmError α)
    (rounds attempt : ℕ) (lastErr : Option LlmError)
    (hfinal : ∀ e, answer attempt = .error e → e.isRetryable toLowercase = true → rounds = 0) :
    LoopContract p toLowercase clock answer rounds attempt lastErr ⟨p.eventsOf clock attempt, some (answer attempt)⟩ := by
  refine ⟨1, by omega, by simp, .inr ⟨answer attempt, rfl, .one _ _, ?_⟩⟩
  intro e he hretry
  left
  rw [hfinal e he hretry]

/-- The attempt fails, and is followed by others. -/
theorem LoopContract.retry {err : LlmError} {run : RetryRun α} (hanswer : answer attempt = .error err)
    (hretry : err.isRetryable toLowercase = true)
    (h : LoopContract p toLowercase clock answer rounds (attempt + 1) (some err) run) :
    LoopContract p toLowercase clock answer (rounds + 1) attempt lastErr
      ⟨p.eventsOf clock attempt ++ run.events, run.result⟩ := by
  obtain ⟨attempts, hle, hevents, hend⟩ := h
  refine ⟨attempts + 1, by omega, ?_, .inr ?_⟩
  · rw [List.range'_succ, List.flatMap_cons, hevents]
  · have hadd : attempt + 1 + attempts = attempt + (attempts + 1) := by omega
    rw [List.range'_succ, List.map_cons, hanswer]
    rcases hend with ⟨rfl, -, hresult, hbudget⟩ | ⟨result, hresult, hattempts, hexhausted⟩
    · exact ⟨.error err, hresult, .one _ _, fun _ _ _ => .inr hbudget⟩
    · refine ⟨result, hresult, hattempts.cons hretry, fun e he hagain => ?_⟩
      rw [← hadd]
      exact (hexhausted e he hagain).imp_left (congrArg (· + 1))

theorem chatFrom_contract : ∀ (rounds attempt : ℕ) (lastErr : Option LlmError), attempt + rounds = p.maxRetries.toNat →
    LoopContract p toLowercase clock answer rounds attempt lastErr (p.chatFrom toLowercase clock answer rounds attempt lastErr)
  | 0, attempt, lastErr, hsum => by
    have hattempt : 0 < p.maxRetries ↔ 0 < attempt := by
      rw [UInt32.lt_iff_toNat_lt, ← hsum]
      rfl
    unfold chatFrom
    by_cases hpos : 0 < attempt
    · rw [if_pos (hattempt.mpr hpos)]
      by_cases hbudget : p.budgetExceeded (clock.elapsed attempt) = true
      · rw [if_pos hbudget]
        exact loopContract_exceeded hpos hbudget
      · rw [if_neg hbudget]
        have hstop := loopContract_stop p toLowercase clock answer 0 attempt lastErr fun _ _ _ => rfl
        rwa [eventsOf, if_pos hpos] at hstop
    · have hstop := loopContract_stop p toLowercase clock answer 0 attempt lastErr fun _ _ _ => rfl
      rw [if_neg (mt hattempt.mp hpos)]
      rwa [eventsOf, if_neg hpos] at hstop
  | rounds + 1, attempt, lastErr, hsum => by
    unfold chatFrom
    by_cases hbudget : (0 < attempt && p.budgetExceeded (clock.elapsed attempt)) = true
    · rw [if_pos hbudget]
      simp only [Bool.and_eq_true, decide_eq_true_eq] at hbudget
      exact loopContract_exceeded hbudget.1 hbudget.2
    · rw [if_neg hbudget]
      have hstop := loopContract_stop p toLowercase clock answer (rounds + 1) attempt lastErr
      cases hanswer : answer attempt with
      | ok response =>
        rw [hanswer] at hstop
        exact hstop fun e he => nomatch he
      | error err =>
        dsimp only
        by_cases hretry : err.isRetryable toLowercase = true
        · have hrest := chatFrom_contract rounds (attempt + 1) (some err) (by omega)
          have hnext : LoopContract p toLowercase clock answer (rounds + 1) attempt lastErr _ :=
            .retry hanswer hretry hrest
          rw [hretry, Bool.not_true, if_neg Bool.false_ne_true]
          rwa [eventsOf, List.append_assoc] at hnext
        · rw [hanswer] at hstop
          rw [if_pos (by simpa using hretry)]
          refine hstop fun e he hagain => ?_
          obtain rfl := Except.error.inj he
          exact absurd hagain hretry

theorem chat_contract (p : RetryProvider) (toLowercase : Str → Str) (clock : RetryClock) (answer : ℕ → Except LlmError α) :
    ∃ attempts result, RetryContract p toLowercase clock answer (p.chat toLowercase clock answer) attempts result := by
  have hloop : LoopContract p toLowercase clock answer p.maxRetries.toNat 0 none (p.chat toLowercase clock answer) :=
    chatFrom_contract p.maxRetries.toNat 0 none (Nat.zero_add _)
  obtain ⟨attempts, hle, hevents, hend⟩ := hloop
  rcases hend with ⟨-, hpos, -⟩ | ⟨result, hresult, hattempts, hexhausted⟩
  · exact absurd hpos (Nat.lt_irrefl 0)
  · rw [← List.range_eq_range'] at hevents hattempts
    rw [Nat.zero_add] at hexhausted
    exact ⟨attempts, result, hle, hevents, hresult, hattempts, hexhausted⟩

/-! ## The two loops -/

theorem chatStreamFrom_eq : ∀ (rounds attempt : ℕ) (lastErr : Option LlmError),
    p.chatStreamFrom toLowercase clock answer rounds attempt lastErr =
      p.chatFrom toLowercase clock answer rounds attempt lastErr
  | 0, attempt, lastErr => rfl
  | rounds + 1, attempt, lastErr => by
    unfold chatStreamFrom chatFrom
    cases answer attempt with
    | ok response => rfl
    | error err =>
      dsimp only
      rw [chatStreamFrom_eq rounds (attempt + 1) (some err)]

theorem chatStream_eq : p.chatStream toLowercase clock answer = p.chat toLowercase clock answer := chatStreamFrom_eq _ _ _

theorem outcome_unwrap (lastErr : Option LlmError) :
    (⟨[], lastErr.map .error⟩ : RetryRun α).outcome = ⟨[], lastErr.map .error⟩ := by
  cases lastErr with
  | none => rfl
  | some err => rfl

/-- What the loop does depends on the answers only as far as they are errors. -/
theorem chatFrom_outcome : ∀ (rounds attempt : ℕ) (lastErr : Option LlmError),
    (p.chatFrom toLowercase clock answer rounds attempt lastErr).outcome =
      p.chatFrom toLowercase clock (fun k => (answer k).map fun _ => ()) rounds attempt lastErr
  | 0, attempt, lastErr => by
    unfold chatFrom
    by_cases hpos : 0 < p.maxRetries
    · rw [if_pos hpos, if_pos hpos]
      by_cases hbudget : p.budgetExceeded (clock.elapsed attempt) = true
      · rw [if_pos hbudget, if_pos hbudget, outcome_unwrap]
      · rw [if_neg hbudget, if_neg hbudget]
        rfl
    · rw [if_neg hpos, if_neg hpos]
      rfl
  | rounds + 1, attempt, lastErr => by
    unfold chatFrom
    by_cases hbudget : (0 < attempt && p.budgetExceeded (clock.elapsed attempt)) = true
    · rw [if_pos hbudget, if_pos hbudget, outcome_unwrap]
    · rw [if_neg hbudget, if_neg hbudget]
      cases answer attempt with
      | ok response => rfl
      | error err =>
        have ih := chatFrom_outcome rounds (attempt + 1) (some err)
        have hmap : (Except.error err : Except LlmError α).map (fun _ => ()) = .error err := rfl
        rw [hmap]
        dsimp only
        rw [← ih]
        by_cases hretry : (!err.isRetryable toLowercase) = true
        · rw [if_pos hretry, if_pos hretry]
          rfl
        · rw [if_neg hretry, if_neg hretry]
          rfl

end RetryProvider

/-- **Both loops keep the contract, and do the same for the same outcomes.** -/
theorem retry_contract (p : RetryProvider) (toLowercase : Str → Str) (clock : RetryClock)
    (answer : ℕ → Except LlmError α) (streamAnswer : ℕ → Except LlmError β) :
    (∃ attempts result,
      RetryContract p toLowercase clock answer (p.chat toLowercase clock answer) attempts result) ∧
    (∃ attempts result,
      RetryContract p toLowercase clock streamAnswer (p.chatStream toLowercase clock streamAnswer) attempts result) ∧
    ((∀ k, (answer k).map (fun _ => ()) = (streamAnswer k).map fun _ => ()) →
      (p.chat toLowercase clock answer).outcome = (p.chatStream toLowercase clock streamAnswer).outcome) := by
  refine ⟨p.chat_contract toLowercase clock answer, ?_, ?_⟩
  · rw [RetryProvider.chatStream_eq]
    exact p.chat_contract toLowercase clock streamAnswer
  · intro hsame
    rw [RetryProvider.chatStream_eq, RetryProvider.chat, RetryProvider.chat, RetryProvider.chatFrom_outcome,
      RetryProvider.chatFrom_outcome, funext hsame]

end Zeptoclaw

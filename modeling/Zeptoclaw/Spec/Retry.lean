import Zeptoclaw.Spec.LlmError

/-!
# The retry provider

`providers/retry.rs`. `chat` and `chat_stream` have a loop each. A result of `none` is the panic of `last_err.unwrap()`
without an error.
-/

namespace Zeptoclaw

structure RetryProvider where
  maxRetries : UInt32
  baseDelayMs : UInt64
  maxDelayMs : UInt64
  retryBudgetMs : UInt64
  deriving DecidableEq, Repr

/-- `RetryProvider::new`. -/
def RetryProvider.new : RetryProvider := ⟨3, 1000, 30000, 45000⟩

def saturating64 (n : ℕ) : UInt64 := UInt64.ofNat (min n (2 ^ 64 - 1))

/-- `compute_delay`. -/
def computeDelay (attempt : ℕ) (baseDelayMs maxDelayMs jitterMs : UInt64) : UInt64 :=
  let exponential := saturating64 (baseDelayMs.toNat * 2 ^ min attempt 16)
  min (saturating64 (exponential.toNat + jitterMs.toNat)) maxDelayMs

/-- The jitter of `delay_with_jitter`; there is no time if the clock is before the epoch. -/
def jitterOf (subsecNanos : Option ℕ) (baseDelayMs : UInt64) : UInt64 :=
  subsecNanos.elim 0 fun nanos => UInt64.ofNat (nanos % max baseDelayMs.toNat 1)

/-- What the calls of a request read from the clocks before each attempt. -/
structure RetryClock where
  -- milliseconds since the start
  elapsed : ℕ → ℕ
  -- nanoseconds of the system time
  subsecNanos : ℕ → Option ℕ

inductive RetryEvent where
  | sleep (ms : UInt64)
  | call (attempt : ℕ)
  deriving DecidableEq, Repr

/-- What a request does, and its result. -/
structure RetryRun (α : Type*) where
  events : List RetryEvent
  result : Option (Except LlmError α)

namespace RetryProvider

variable {α β : Type*} (p : RetryProvider) (toLowercase : Str → Str) (clock : RetryClock)

/-- `budget_exceeded`; the milliseconds are cut to 64 bits. -/
def budgetExceeded (elapsedMs : ℕ) : Bool := decide (0 < p.retryBudgetMs) && decide (p.retryBudgetMs ≤ UInt64.ofNat elapsedMs)

/-- `delay_with_jitter` before an attempt. -/
def delayBefore (attempt : ℕ) : UInt64 :=
  computeDelay (attempt - 1) p.baseDelayMs p.maxDelayMs (jitterOf (clock.subsecNanos attempt) p.baseDelayMs)

/-- The loop of `chat`, with the rounds that are left, and the final attempt. -/
def chatFrom (answer : ℕ → Except LlmError α) : ℕ → ℕ → Option LlmError → RetryRun α
  | 0, attempt, lastErr =>
    if 0 < p.maxRetries then
      if p.budgetExceeded (clock.elapsed attempt) then ⟨[], lastErr.map .error⟩
      else ⟨[.sleep (p.delayBefore clock attempt), .call attempt], some (answer attempt)⟩
    else ⟨[.call attempt], some (answer attempt)⟩
  | rounds + 1, attempt, lastErr =>
    if 0 < attempt && p.budgetExceeded (clock.elapsed attempt) then ⟨[], lastErr.map .error⟩
    else
      let delay := if 0 < attempt then [.sleep (p.delayBefore clock attempt)] else []
      match answer attempt with
      | .ok response => ⟨delay ++ [.call attempt], some (.ok response)⟩
      | .error err =>
        if !err.isRetryable toLowercase then ⟨delay ++ [.call attempt], some (.error err)⟩
        else
          let rest := chatFrom answer rounds (attempt + 1) (some err)
          ⟨delay ++ .call attempt :: rest.events, rest.result⟩

/-- `chat`. -/
def chat (answer : ℕ → Except LlmError α) : RetryRun α := p.chatFrom toLowercase clock answer p.maxRetries.toNat 0 none

/-- The loop of `chat_stream`, and its final attempt. -/
def chatStreamFrom (answer : ℕ → Except LlmError β) : ℕ → ℕ → Option LlmError → RetryRun β
  | 0, attempt, lastErr =>
    if 0 < p.maxRetries then
      if p.budgetExceeded (clock.elapsed attempt) then ⟨[], lastErr.map .error⟩
      else ⟨[.sleep (p.delayBefore clock attempt), .call attempt], some (answer attempt)⟩
    else ⟨[.call attempt], some (answer attempt)⟩
  | rounds + 1, attempt, lastErr =>
    if 0 < attempt && p.budgetExceeded (clock.elapsed attempt) then ⟨[], lastErr.map .error⟩
    else
      let delay := if 0 < attempt then [.sleep (p.delayBefore clock attempt)] else []
      match answer attempt with
      | .ok receiver => ⟨delay ++ [.call attempt], some (.ok receiver)⟩
      | .error err =>
        if !err.isRetryable toLowercase then ⟨delay ++ [.call attempt], some (.error err)⟩
        else
          let rest := chatStreamFrom answer rounds (attempt + 1) (some err)
          ⟨delay ++ .call attempt :: rest.events, rest.result⟩

/-- `chat_stream`. -/
def chatStream (answer : ℕ → Except LlmError β) : RetryRun β :=
  p.chatStreamFrom toLowercase clock answer p.maxRetries.toNat 0 none

end RetryProvider

end Zeptoclaw

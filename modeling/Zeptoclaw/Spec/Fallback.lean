import Zeptoclaw.Spec.Cooldown
import Mathlib.Logic.Function.Basic

/-!
# The fallback provider

`providers/fallback.rs`: a circuit breaker of two atomic counters in front of the primary
provider, read and written by every call of `chat` and `chat_stream`. Each call is cut into its
accesses to shared memory, so that any other call can come in between.
-/

namespace Zeptoclaw

inductive CircuitState where
  | closed
  | «open»
  | halfOpen
  deriving DecidableEq, Repr

structure CircuitBreaker where
  failureCount : ℕ := 0
  lastFailureEpoch : ℕ := 0
  failureThreshold : ℕ
  cooldownSecs : ℕ
  deriving DecidableEq, Repr

namespace CircuitBreaker

/-- The state of a breaker that has tripped. -/
def tripped (b : CircuitBreaker) (lastFailure epoch : ℕ) : CircuitState :=
  if b.cooldownSecs ≤ epoch - lastFailure then .halfOpen else .open

def state (b : CircuitBreaker) (epoch : ℕ) : CircuitState :=
  if b.failureCount < b.failureThreshold then .closed else b.tripped b.lastFailureEpoch epoch

end CircuitBreaker

/-- An error of the primary provider. -/
inductive PrimaryError where
  | typed (e : ProviderError)
  | quotaRejected (msg : Str)
  -- every other error
  | other (msg : Str)
  deriving DecidableEq, Repr

namespace PrimaryError

def shouldFallback : PrimaryError → Bool
  | .typed e => e.shouldFallback
  | .quotaRejected _ => false
  | .other _ => true

def reason : PrimaryError → FailoverReason
  | .typed e => .fromProviderError e
  | _ => .unknown

end PrimaryError

/-- Where a call stands, as far as the primary is concerned. -/
inductive ChatCall where
  -- it has loaded a failure count that trips the breaker, and then the time of the last failure
  | loaded
  | loadedLast (lastFailure : ℕ)
  -- it has found the breaker not open
  | admitted
  -- its request is with the primary
  | sent
  -- the primary has answered
  | answered (error : Option PrimaryError)
  -- the failure is counted, then its time is known, not yet stored
  | counted (reason : FailoverReason)
  | timed (reason : FailoverReason) (epoch : ℕ)
  -- the breaker has the result, the cooldown tracker not yet
  | recorded (reason : Option FailoverReason)
  deriving DecidableEq, Repr

/-- `probing` tells that the breaker has left `Open` and no result was recorded since; no step
reads it. -/
structure FallbackProvider where
  primary : Str
  breaker : CircuitBreaker := { failureThreshold := 3, cooldownSecs := 30 }
  cooldown : CooldownTracker := ∅
  -- the monotonic clock, and the seconds of the system's
  now : ℕ
  epoch : ℕ
  calls : ℕ → Option ChatCall := fun _ => none
  probing : Bool := false

inductive FallbackEvent where
  | clock (now epoch : ℕ)
  -- the load of the failure count, and that of the last failure
  | loadCount (call : ℕ)
  | loadLast (call : ℕ)
  -- `SystemTime::now`
  | readEpoch (call : ℕ)
  | checkCooldown (call : ℕ)
  | answer (call : ℕ) (error : Option PrimaryError)
  | recordResult (call : ℕ)
  | storeLast (call : ℕ)
  | mark (call : ℕ)
  deriving DecidableEq, Repr

namespace FallbackProvider

def setCall (s : FallbackProvider) (call : ℕ) (c : Option ChatCall) : FallbackProvider :=
  { s with calls := Function.update s.calls call c }

/-- The clock moves on. -/
def setClock (s : FallbackProvider) (now epoch : ℕ) : FallbackProvider :=
  let leaves := decide (s.breaker.state s.epoch = .open) && decide (s.breaker.state epoch ≠ .open)
  { s with now, epoch, probing := s.probing || leaves }

/-- `record_success`, and the first half of `record_failure`. -/
def recordResult (s : FallbackProvider) (call : ℕ) : Option PrimaryError → FallbackProvider
  | none =>
    { s with breaker.failureCount := 0, probing := false }.setCall call (some (.recorded none))
  | some e =>
    if e.shouldFallback then
      { s with breaker.failureCount := (s.breaker.failureCount + 1) % 2 ^ 32 }.setCall call (some (.counted e.reason))
    else s.setCall call none

/-- One step. A step that does not fit where its call stands does nothing. A call that is skipped
or finished has no more to do with the primary. -/
def step (s : FallbackProvider) : FallbackEvent → FallbackProvider
  | .clock now epoch => s.setClock now epoch
  | .loadCount call =>
    match s.calls call with
    | none =>
      if s.breaker.failureCount < s.breaker.failureThreshold then s.setCall call (some .admitted)
      else s.setCall call (some .loaded)
    | _ => s
  | .loadLast call =>
    match s.calls call with
    | some .loaded => s.setCall call (some (.loadedLast s.breaker.lastFailureEpoch))
    | _ => s
  | .readEpoch call =>
    match s.calls call with
    | some (.loadedLast lastFailure) =>
      match s.breaker.tripped lastFailure s.epoch with
      | .open => s.setCall call none
      | _ => s.setCall call (some .admitted)
    | some (.counted reason) => s.setCall call (some (.timed reason s.epoch))
    | _ => s
  | .checkCooldown call =>
    match s.calls call with
    | some .admitted =>
      if s.cooldown.isInCooldown s.primary s.now then s.setCall call none else s.setCall call (some .sent)
    | _ => s
  | .answer call error =>
    match s.calls call with
    | some .sent => s.setCall call (some (.answered error))
    | _ => s
  | .recordResult call =>
    match s.calls call with
    | some (.answered error) => s.recordResult call error
    | _ => s
  | .storeLast call =>
    match s.calls call with
    | some (.timed reason epoch) =>
      { s with breaker.lastFailureEpoch := epoch, probing := false }.setCall call (some (.recorded (some reason)))
    | _ => s
  | .mark call =>
    match s.calls call with
    | some (.recorded none) => { s with cooldown := s.cooldown.markSuccess s.primary }.setCall call none
    | some (.recorded (some reason)) =>
      { s with cooldown := s.cooldown.markFailure s.primary reason ⟨s.now, s.now, s.now⟩ }.setCall call none
    | _ => s

end FallbackProvider

end Zeptoclaw

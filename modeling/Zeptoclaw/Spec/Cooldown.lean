import Zeptoclaw.Spec.Pairing

/-!
# Provider cooldowns

`providers/cooldown.rs`: after a failure a provider is skipped for a time that depends on the
reason and on the number of failures in a row. The sums and products are those of a release
build, which wraps them. Instants are in nanoseconds.
-/

namespace Zeptoclaw

/-- The variants of `ProviderError` (`error.rs`), each with its text. -/
inductive ProviderError where
  | auth (msg : Str)
  | rateLimit (msg : Str)
  | billing (msg : Str)
  | serverError (msg : Str)
  | invalidRequest (msg : Str)
  | modelNotFound (msg : Str)
  | timeout (msg : Str)
  | unknown (msg : Str)
  | overloaded (msg : Str)
  | format (msg : Str)
  | contextOverflow (msg : Str)
  deriving DecidableEq, Repr

/-- Whether the error leads to a fallback. -/
def ProviderError.shouldFallback : ProviderError → Bool
  | .auth _ | .invalidRequest _ | .billing _ | .format _ | .contextOverflow _ => false
  | _ => true

inductive FailoverReason where
  | rateLimit
  | overloaded
  | timeout
  | auth
  | billing
  | format
  | unknown
  deriving DecidableEq, Repr

namespace FailoverReason

def fromProviderError : ProviderError → FailoverReason
  | .rateLimit _ => .rateLimit
  | .overloaded _ => .overloaded
  | .timeout _ => .timeout
  | .auth _ => .auth
  | .billing _ => .billing
  | .format _ | .invalidRequest _ => .format
  | _ => .unknown

/-- `2u64.saturating_pow(n)`. -/
def pow2 (n : ℕ) : ℕ := if n < 64 then 2 ^ n else 2 ^ 64 - 1

/-- The duration in seconds, for the number of failures in a row. -/
def cooldownSecs (reason : FailoverReason) (consecutive : ℕ) : ℕ :=
  match reason with
  | .billing => min (pow2 (consecutive - 1)) 24 * 3600
  | .rateLimit => min (pow2 (consecutive - 1)) 30 * 60
  -- the product wraps: at 64 failures in a row it is zero
  | .overloaded => min (30 * pow2 (consecutive - 1) % 2 ^ 64) 300
  | .timeout => min (15 * pow2 (consecutive - 1) % 2 ^ 64) 120
  | .auth | .format => 300
  | .unknown => 60

def cooldownDuration (reason : FailoverReason) (consecutive : ℕ) : ℕ := fromSecs (reason.cooldownSecs consecutive)

/-- A product of two `u64` in a build that checks it. -/
def checkedMul (a b : ℕ) : Option ℕ := if a * b < 2 ^ 64 then some (a * b) else none

/-- The duration in seconds, `none` where a product overflows. The products with 3600 and with
60 are those of a number that is capped. -/
def cooldownSecsChecked (reason : FailoverReason) (consecutive : ℕ) : Option ℕ :=
  match reason with
  | .billing => checkedMul (min (pow2 (consecutive - 1)) 24) 3600
  | .rateLimit => checkedMul (min (pow2 (consecutive - 1)) 30) 60
  | .overloaded => (checkedMul 30 (pow2 (consecutive - 1))).map (min · 300)
  | .timeout => (checkedMul 15 (pow2 (consecutive - 1))).map (min · 120)
  | .auth | .format => some 300
  | .unknown => some 60

end FailoverReason

structure CooldownEntry where
  consecutive : ℕ := 0
  cooldownEnd : Option ℕ := none
  lastFailure : Option ℕ := none
  billingDisabledUntil : Option ℕ := none
  deriving DecidableEq, Repr

/-- The readings of the clock in `mark_failure`: for the age of the last failure, for the new
one and for the end of the cooldown. -/
structure FailureClock where
  stale : ℕ
  failed : ℕ
  ends : ℕ
  deriving DecidableEq, Repr

namespace CooldownEntry

def isInCooldown (e : CooldownEntry) (now : ℕ) : Bool :=
  if (e.billingDisabledUntil.map fun billing => decide (now < billing)).getD false then true
  else (e.cooldownEnd.map fun stop => decide (now < stop)).getD false

/-- The last failure was more than a day ago. -/
def isStale (e : CooldownEntry) (now : ℕ) : Bool :=
  match e.lastFailure with
  | some last => decide (fromSecs 86400 < now - last)
  | none => false

def resetIfStale (e : CooldownEntry) (now : ℕ) : CooldownEntry :=
  if e.isStale now then { e with consecutive := 0, cooldownEnd := none, billingDisabledUntil := none } else e

/-- The number of failures in a row with the next one, in an `u32`. -/
def nextConsecutive (e : CooldownEntry) : ℕ := (e.consecutive + 1) % 2 ^ 32

/-- The entry after a failure. -/
def fail (e : CooldownEntry) (reason : FailoverReason) (clock : FailureClock) : CooldownEntry :=
  let e := e.resetIfStale clock.stale
  let ends := clock.ends + reason.cooldownDuration e.nextConsecutive
  let e := { e with consecutive := e.nextConsecutive, lastFailure := some clock.failed }
  if reason = .billing then { e with billingDisabledUntil := some ends } else { e with cooldownEnd := some ends }

/-- The entry after a success. -/
def succeed (e : CooldownEntry) : CooldownEntry :=
  { e with consecutive := 0, cooldownEnd := none, billingDisabledUntil := none }

end CooldownEntry

/-- `CooldownTracker`: an entry for each provider that has failed. -/
abbrev CooldownTracker := Assoc Str CooldownEntry

namespace CooldownTracker

def isInCooldown (entries : CooldownTracker) (provider : Str) (now : ℕ) : Bool :=
  ((entries.lookup provider).map fun e => e.isInCooldown now).getD false

def markFailure (entries : CooldownTracker) (provider : Str) (reason : FailoverReason) (clock : FailureClock) :
    CooldownTracker :=
  entries.insert provider (((entries.lookup provider).getD {}).fail reason clock)

def markSuccess (entries : CooldownTracker) (provider : Str) : CooldownTracker :=
  match entries.lookup provider with
  | some e => entries.insert provider e.succeed
  | none => entries

end CooldownTracker

/-- The calls that change the tracker. -/
inductive CooldownCall where
  | markFailure (provider : Str) (reason : FailoverReason) (clock : FailureClock)
  | markSuccess (provider : Str)
  deriving DecidableEq, Repr

/-- The readings of the clock in a call, in their order. -/
def CooldownCall.readings : CooldownCall → List ℕ
  | .markFailure _ _ clock => [clock.stale, clock.failed, clock.ends]
  | .markSuccess _ => []

def CooldownTracker.step (entries : CooldownTracker) : CooldownCall → CooldownTracker
  | .markFailure provider reason clock => entries.markFailure provider reason clock
  | .markSuccess provider => entries.markSuccess provider

end Zeptoclaw

import Zeptoclaw.Lib.Assoc
import Zeptoclaw.Lib.TextLines
import Mathlib.Algebra.Order.Ring.Unbundled.Rat
import Mathlib.Logic.Function.Basic

/-!
# Usage quotas

`QuotaStore` (`providers/quota.rs`): the cost and the tokens that were recorded for each provider in
its current period. Costs and fractions are exact; the token counters wrap, as they do in a
release build. `QuotaFiles` has the calls that change the store at the same time.
-/

namespace Zeptoclaw

/-! ## Periods -/

inductive QuotaPeriod where
  | monthly
  | daily
  deriving DecidableEq, Repr

inductive QuotaAction where
  | reject
  | fallback
  | warn
  deriving DecidableEq, Repr

/-- The date of an instant in UTC. -/
structure UtcDate where
  year : ℕ
  month : ℕ
  day : ℕ
  deriving DecidableEq, Repr

/-- `%Y`: four digits, and a sign in front of more. -/
def yearText (year : ℕ) : Str := if year ≤ 9999 then Text.zeroPad 4 year else '+' :: Text.zeroPad 5 year

/-- `%m` or `%d`. -/
def twoDigits (n : ℕ) : Str := Text.zeroPad 2 n

def currentPeriodKey (period : QuotaPeriod) (now : UtcDate) : Str :=
  match period with
  | .monthly => yearText now.year ++ '-' :: twoDigits now.month
  | .daily => yearText now.year ++ '-' :: (twoDigits now.month ++ '-' :: twoDigits now.day)

/-! ## The store -/

structure QuotaConfig where
  maxCostUsd : Option ℚ := none
  maxTokens : Option UInt64 := none
  period : QuotaPeriod := .monthly
  action : QuotaAction := .reject
  deriving DecidableEq

structure QuotaUsage where
  periodKey : Str
  costUsd : ℚ
  tokens : UInt64
  deriving DecidableEq

inductive QuotaCheckResult where
  | ok
  | warning (pct : ℚ)
  | exceeded
  deriving DecidableEq

def warningThreshold : ℚ := 4 / 5

/-- The usage of each provider. -/
abbrev QuotaStore := Assoc Str QuotaUsage

namespace QuotaStore

def costPct (config : QuotaConfig) (costUsd : ℚ) : ℚ :=
  (config.maxCostUsd.map fun max => if 0 < max then costUsd / max else 0).getD 0

def tokenPct (config : QuotaConfig) (tokens : ℕ) : ℚ :=
  (config.maxTokens.map fun max => if 0 < max.toNat then (tokens : ℚ) / max.toNat else 0).getD 0

def verdict (config : QuotaConfig) (costUsd : ℚ) (tokens : ℕ) : QuotaCheckResult :=
  let maxPct := max (costPct config costUsd) (tokenPct config tokens)
  if 1 ≤ maxPct then .exceeded
  else if warningThreshold ≤ maxPct then .warning maxPct
  else .ok

def check (store : QuotaStore) (now : UtcDate) (provider : Str) (config : QuotaConfig) : QuotaCheckResult :=
  if config.maxCostUsd = none ∧ config.maxTokens = none then .ok
  else
    match store.lookup provider with
    | some usage =>
      if usage.periodKey = currentPeriodKey config.period now then verdict config usage.costUsd usage.tokens.toNat else .ok
    | none => .ok

def record (store : QuotaStore) (now : UtcDate) (provider : Str) (period : QuotaPeriod) (costUsd : ℚ) (tokens : UInt64) :
    QuotaStore :=
  let costUsd := max costUsd 0
  let currentKey := currentPeriodKey period now
  let entry := (store.lookup provider).getD ⟨currentKey, 0, 0⟩
  let entry := if entry.periodKey = currentKey then entry else ⟨currentKey, 0, 0⟩
  store.insert provider { entry with costUsd := entry.costUsd + costUsd, tokens := entry.tokens + tokens }

def resetProvider (store : QuotaStore) (name : Str) : QuotaStore := store.erase name

def resetAll (_ : QuotaStore) : QuotaStore := ∅

end QuotaStore

/-! ## Calls -/

/-- A call that changes the store. -/
inductive QuotaChange where
  | record (now : UtcDate) (provider : Str) (period : QuotaPeriod) (costUsd : ℚ) (tokens : UInt64)
  | resetProvider (name : Str)
  | resetAll
  deriving DecidableEq

def QuotaStore.apply (store : QuotaStore) : QuotaChange → QuotaStore
  | .record now provider period costUsd tokens => store.record now provider period costUsd tokens
  | .resetProvider name => store.resetProvider name
  | .resetAll => store.resetAll

/-- The snapshots are numbered as they are taken. A call holds its snapshot until it has written it. -/
structure QuotaFiles where
  memory : QuotaStore
  file : QuotaStore
  taken : ℕ := 0
  calls : ℕ → Option (ℕ × QuotaStore) := fun _ => none

inductive QuotaFileEvent where
  /-- the change and the snapshot, under the lock -/
  | change (call : ℕ) (change : QuotaChange)
  /-- `persist_state`, without the lock -/
  | persist (call : ℕ)
  deriving DecidableEq

namespace QuotaFiles

/-- `load_or_default`. -/
def load (store : QuotaStore) : QuotaFiles := { memory := store, file := store }

/-- One step. A new call takes a number that no call in progress has. -/
def step (s : QuotaFiles) : QuotaFileEvent → QuotaFiles
  | .change call change =>
    match s.calls call with
    | none =>
      let memory := s.memory.apply change
      { s with memory, taken := s.taken + 1, calls := Function.update s.calls call (some (s.taken + 1, memory)) }
    | some _ => s
  | .persist call =>
    match s.calls call with
    | some (_, snapshot) => { s with file := snapshot, calls := Function.update s.calls call none }
    | none => s

end QuotaFiles

end Zeptoclaw

import Zeptoclaw.Lib.Text
import Zeptoclaw.Spec.LlmError
import Mathlib.Data.List.MinMax
import Mathlib.Data.Rat.Defs

/-!
# The provider rotation

`select_provider_index` and `RotationProvider::chat` (`providers/rotation.rs`), and the prices that the selection looks up
(`utils/cost.rs`). The selection reads the health of the providers at one time; between two steps of the loop over the
providers other calls may change it. Prices are exact.
-/

namespace Zeptoclaw

/-! ## Prices -/

structure ModelPricing where
  inputCostPerMillion : ℚ
  outputCostPerMillion : ℚ
  deriving DecidableEq

def defaultPricing (model : Str) : Option ModelPricing :=
  List.lookup model
    [("claude-sonnet-4-6".toList, ⟨3, 15⟩),
      ("claude-sonnet-4-5-20250929".toList, ⟨3, 15⟩),
      ("claude-3-5-sonnet-20241022".toList, ⟨3, 15⟩),
      ("claude-opus-4-6".toList, ⟨15, 75⟩),
      ("claude-3-opus-20240229".toList, ⟨15, 75⟩),
      ("claude-3-haiku-20240307".toList, ⟨1 / 4, 5 / 4⟩),
      ("gpt-5.1".toList, ⟨5 / 2, 10⟩),
      ("gpt-4o-mini".toList, ⟨3 / 20, 3 / 5⟩),
      ("gpt-4-turbo".toList, ⟨10, 30⟩)]

/-- `f64::MAX`. -/
def f64Max : ℚ := (2 ^ 53 - 1) * 2 ^ 971

/-! ## The providers -/

inductive RotationStrategy where
  | priority
  | roundRobin
  | costAware
  deriving DecidableEq, Repr

structure ProviderHealth where
  failureCount : ℕ
  lastFailureEpoch : ℕ
  failureThreshold : ℕ
  cooldownSecs : ℕ
  deriving DecidableEq, Repr

/-- A provider, as far as the rotation asks it, with its health. -/
structure RotatedProvider where
  defaultModel : Str
  health : ProviderHealth
  deriving DecidableEq, Repr

/-- `RotationProvider::new` asserts that there is a provider. -/
structure RotationProvider where
  providers : List RotatedProvider
  strategy : RotationStrategy
  roundRobinIndex : UInt32
  nonempty : providers ≠ []
  deriving DecidableEq, Repr

def RotatedProvider.isHealthy (now : ℕ) (p : RotatedProvider) : Bool :=
  if p.health.failureCount < p.health.failureThreshold then true
  else decide (p.health.cooldownSecs ≤ now - p.health.lastFailureEpoch)

namespace RotationProvider

/-! ## The selection -/

section Select

variable (pricing : Str → Option ModelPricing) (now : ℕ)

def healthyAt (r : RotationProvider) (i : ℕ) : Bool := (r.providers[i]?.map (·.isHealthy now)).getD false

/-- The first provider with the least time of its last failure. -/
def oldestUnhealthyIndex (r : RotationProvider) : ℕ :=
  ((r.providers.zipIdx.argmin fun q => q.1.health.lastFailureEpoch).map Prod.snd).getD 0

def inputCost (p : RotatedProvider) : ℚ := ((pricing p.defaultModel).map ModelPricing.inputCostPerMillion).getD f64Max

/-- One round of the loop for `CostAware`, over the best index and its cost. -/
def cheaper (best : Option ℕ × ℚ) (q : RotatedProvider × ℕ) : Option ℕ × ℚ :=
  if q.1.isHealthy now then
    if inputCost pricing q.1 < best.2 then (some q.2, inputCost pricing q.1) else best
  else best

/-- The index, and the rotation with its counter advanced. -/
def selectProviderIndex (r : RotationProvider) : ℕ × RotationProvider :=
  let len := r.providers.length
  match r.strategy with
  | .priority => (((List.range len).find? (r.healthyAt now)).getD r.oldestUnhealthyIndex, r)
  | .roundRobin =>
    let start := r.roundRobinIndex.toNat
    let indices := (List.range len).map fun offset => (start + offset) % len
    ((indices.find? (r.healthyAt now)).getD r.oldestUnhealthyIndex, { r with roundRobinIndex := r.roundRobinIndex + 1 })
  | .costAware => ((r.providers.zipIdx.foldl (cheaper pricing now) (none, f64Max)).1.getD r.oldestUnhealthyIndex, r)

end Select

end RotationProvider

/-! ## A call -/

/-- `record_success`. -/
def ProviderHealth.recordSuccess (h : ProviderHealth) : ProviderHealth := { h with failureCount := 0 }

/-- `record_failure`; the counter has 32 bits. -/
def ProviderHealth.recordFailure (now : ℕ) (h : ProviderHealth) : ProviderHealth :=
  { h with failureCount := (h.failureCount + 1) % 2 ^ 32, lastFailureEpoch := now }

namespace RotationProvider

/-- An update of one provider's health. -/
def onHealth (r : RotationProvider) (i : ℕ) (f : ProviderHealth → ProviderHealth) : RotationProvider where
  providers := r.providers.modify i fun p => { p with health := f p.health }
  strategy := r.strategy
  roundRobinIndex := r.roundRobinIndex
  nonempty h := r.nonempty (by simpa [← List.length_eq_zero_iff] using h)

end RotationProvider

/-- What a call meets: at the turn of each offset the clock, the other calls and the answer of the provider. -/
structure RotationEnv (α : Type*) where
  checkedAt : ℕ → ℕ
  failedAt : ℕ → ℕ
  -- what other calls do before the turn, and while the provider is called
  before : ℕ → RotationProvider → RotationProvider
  during : ℕ → RotationProvider → RotationProvider
  answer : (offset provider : ℕ) → Except LlmError α
  before_length : ∀ offset r, (before offset r).providers.length = r.providers.length
  during_length : ∀ offset r, (during offset r).providers.length = r.providers.length

/-- A turn of the loop; there is no answer if the provider is skipped. -/
structure RotationTurn (α : Type*) where
  offset : ℕ
  provider : ℕ
  healthy : Bool
  answer : Option (Except LlmError α)

structure RotationRun (α : Type*) where
  turns : List (RotationTurn α)
  result : Except LlmError α
  after : RotationProvider

namespace RotationProvider

variable {α : Type*}

def allFailed : LlmError := .provider "All rotation providers failed".toList

/-- The loop of `chat` over the offsets that are left. -/
def chatFrom (env : RotationEnv α) (len startIndex : ℕ) : List ℕ → RotationProvider → Option LlmError → RotationRun α
  | [], r, lastErr => ⟨[], .error (lastErr.getD allFailed), r⟩
  | offset :: offsets, r, lastErr =>
    let i := (startIndex + offset) % len
    let r := env.before offset r
    let healthy := r.healthyAt (env.checkedAt offset) i
    if 0 < offset && !healthy then
      let rest := chatFrom env len startIndex offsets r lastErr
      { rest with turns := ⟨offset, i, healthy, none⟩ :: rest.turns }
    else
      let answer := env.answer offset i
      let turn : RotationTurn α := ⟨offset, i, healthy, some answer⟩
      let r := env.during offset r
      match answer with
      | .ok response => ⟨[turn], .ok response, r.onHealth i .recordSuccess⟩
      | .error err =>
        if err.shouldRotate then
          let rest := chatFrom env len startIndex offsets (r.onHealth i (.recordFailure (env.failedAt offset))) (some err)
          { rest with turns := turn :: rest.turns }
        else ⟨[turn], .error err, r⟩

/-- `chat`. -/
def chat (pricing : Str → Option ModelPricing) (now : ℕ) (env : RotationEnv α) (r : RotationProvider) : RotationRun α :=
  let selected := r.selectProviderIndex pricing now
  let len := r.providers.length
  chatFrom env len selected.1 (List.range len) selected.2 none

end RotationProvider

end Zeptoclaw

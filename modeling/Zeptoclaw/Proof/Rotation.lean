import Zeptoclaw.Lib.Attempts
import Zeptoclaw.Spec.Rotation
import Mathlib.Algebra.Order.Ring.Unbundled.Rat
import Mathlib.Data.List.Nodup
import Mathlib.Data.Nat.ModEq

/-!
# Which providers the rotation asks

`Priority` and `RoundRobin` look at every provider, so that they find a healthy one if there is
one. `CostAware` finds one only if it has a price: an unpriced provider costs as much as the bound
that its cost would have to beat. `rotation_prefers_healthy_iff` is the exact condition.

The loop of a call goes once round the providers from the selected one on, and asks the selected one and those that are
healthy at their turn. It returns the first answer that is no error to rotate on, and else the last error
(`rotation_chat`); what other calls do to the health meanwhile does not matter.
-/

namespace Zeptoclaw

namespace RotationProvider

variable {pricing : Str → Option ModelPricing} {now : ℕ} {r : RotationProvider}

theorem healthyAt_iff {i : ℕ} : r.healthyAt now i = true ↔ ∃ p, r.providers[i]? = some p ∧ p.isHealthy now = true := by
  unfold healthyAt
  cases r.providers[i]? with
  | none => simp
  | some p => simp

/-- Some provider is healthy. -/
def SomeHealthy (now : ℕ) (r : RotationProvider) : Prop := ∃ p ∈ r.providers, p.isHealthy now = true

theorem someHealthy_iff : r.SomeHealthy now ↔ ∃ i, r.healthyAt now i = true := by
  constructor
  · rintro ⟨p, hp, hhealthy⟩
    obtain ⟨i, hi⟩ := List.mem_iff_getElem?.mp hp
    exact ⟨i, healthyAt_iff.mpr ⟨p, hi, hhealthy⟩⟩
  · rintro ⟨i, hi⟩
    obtain ⟨p, hp, hhealthy⟩ := healthyAt_iff.mp hi
    exact ⟨p, List.mem_of_getElem? hp, hhealthy⟩

/-! ## The oldest failure -/

/-- The first of the providers whose failure is the oldest. -/
def FirstOldest (r : RotationProvider) (i : ℕ) : Prop :=
  ∃ p, r.providers[i]? = some p ∧ ∀ j q, r.providers[j]? = some q →
    p.health.lastFailureEpoch ≤ q.health.lastFailureEpoch ∧
      (q.health.lastFailureEpoch = p.health.lastFailureEpoch → i ≤ j)

theorem FirstOldest.unique {i j : ℕ} (hi : r.FirstOldest i) (hj : r.FirstOldest j) : i = j := by
  obtain ⟨p, hp, hi⟩ := hi
  obtain ⟨q, hq, hj⟩ := hj
  have hpq := (hi j q hq).1
  have hqp := (hj i p hp).1
  have hij := (hi j q hq).2 (by omega)
  have hji := (hj i p hp).2 (by omega)
  omega

theorem nodup_zipIdx {α : Type*} (l : List α) : l.zipIdx.Nodup := by
  apply List.Nodup.of_map Prod.snd
  rw [List.zipIdx_map_snd]
  exact List.nodup_range'

theorem idxOf_zipIdx {α : Type*} [DecidableEq (α × ℕ)] {l : List α} {p : α} {i : ℕ} (h : l[i]? = some p) :
    l.zipIdx.idxOf (p, i) = i := by
  obtain ⟨hi, hp⟩ := List.getElem?_eq_some_iff.mp h
  have hlen : i < l.zipIdx.length := by rw [List.length_zipIdx]; exact hi
  have hget : l.zipIdx[i] = (p, i) := by rw [List.getElem_zipIdx, hp, Nat.zero_add]
  rw [← hget]
  exact (nodup_zipIdx l).idxOf_getElem i hlen

theorem oldestUnhealthyIndex_firstOldest (r : RotationProvider) : r.FirstOldest r.oldestUnhealthyIndex := by
  unfold oldestUnhealthyIndex
  cases hmin : r.providers.zipIdx.argmin fun q => q.1.health.lastFailureEpoch with
  | none =>
    rw [List.argmin_eq_none, List.zipIdx_eq_nil_iff] at hmin
    exact absurd hmin r.nonempty
  | some q =>
    obtain ⟨p, i⟩ := q
    obtain ⟨hmem, hle, hfirst⟩ := List.argmin_eq_some_iff.mp hmin
    have hp : r.providers[i]? = some p := List.mem_zipIdx_iff_getElem?.mp hmem
    refine ⟨p, hp, ?_⟩
    intro j q hq
    have hqmem : (q, j) ∈ r.providers.zipIdx := List.mem_zipIdx_iff_getElem?.mpr hq
    refine ⟨hle (q, j) hqmem, ?_⟩
    intro heq
    have hidx := hfirst (q, j) hqmem (Nat.le_of_eq heq)
    rwa [idxOf_zipIdx hp, idxOf_zipIdx hq] at hidx

/-! ## A search of all providers -/

/-- A search that covers all providers finds a healthy one, if there is one. -/
theorem find_healthy {indices : List ℕ} (hall : ∀ i < r.providers.length, i ∈ indices) :
    (∃ i, indices.find? (r.healthyAt now) = some i ∧ r.healthyAt now i = true) ∨
      (indices.find? (r.healthyAt now) = none ∧ ¬ r.SomeHealthy now) := by
  cases hfind : indices.find? (r.healthyAt now) with
  | some i => exact .inl ⟨i, rfl, List.find?_some hfind⟩
  | none =>
    refine .inr ⟨rfl, ?_⟩
    intro hsome
    obtain ⟨i, hi⟩ := someHealthy_iff.mp hsome
    obtain ⟨p, hp, -⟩ := healthyAt_iff.mp hi
    obtain ⟨hlt, -⟩ := List.getElem?_eq_some_iff.mp hp
    exact List.find?_eq_none.mp hfind i (hall i hlt) hi

/-- Every index below the length is met on the way round. -/
theorem mem_round (start : ℕ) {i len : ℕ} (hi : i < len) : ∃ offset < len, (start + offset) % len = i := by
  have hdiv := Nat.div_add_mod start len
  have hmod := Nat.mod_lt start (Nat.zero_lt_of_lt hi)
  by_cases hle : start % len ≤ i
  · refine ⟨i - start % len, by omega, ?_⟩
    have hsum : start + (i - start % len) = len * (start / len) + i := by omega
    rw [hsum, Nat.mul_add_mod, Nat.mod_eq_of_lt hi]
  · refine ⟨i + len - start % len, by omega, ?_⟩
    have hsum : start + (i + len - start % len) = len * (start / len) + (i + len) := by omega
    rw [hsum, Nat.mul_add_mod, Nat.add_mod_right, Nat.mod_eq_of_lt hi]

/-! ## The search for the cheapest -/

variable (pricing now) in
/-- The loop keeps the best index so far, or comes to a healthy provider that costs less. -/
theorem foldl_cheaper_cases : ∀ (l : List (RotatedProvider × ℕ)) (best : Option ℕ × ℚ),
    l.foldl (cheaper pricing now) best = best ∨
      ∃ q ∈ l, q.1.isHealthy now = true ∧ inputCost pricing q.1 < best.2 ∧
        l.foldl (cheaper pricing now) best = (some q.2, inputCost pricing q.1) := by
  intro l
  induction l with
  | nil => exact fun best => .inl rfl
  | cons p l ih =>
    intro best
    rw [List.foldl_cons]
    by_cases hp : p.1.isHealthy now = true ∧ inputCost pricing p.1 < best.2
    · have hbest : cheaper pricing now best p = (some p.2, inputCost pricing p.1) := by
        rw [cheaper, if_pos hp.1, if_pos hp.2]
      right
      rcases ih (some p.2, inputCost pricing p.1) with heq | ⟨q, hq, hhealthy, hless, heq⟩
      · exact ⟨p, List.mem_cons_self, hp.1, hp.2, by rw [hbest, heq]⟩
      · exact ⟨q, List.mem_cons_of_mem p hq, hhealthy, lt_trans hless hp.2, by rw [hbest, heq]⟩
    · have hbest : cheaper pricing now best p = best := by
        unfold cheaper
        split
        · next hhealthy => rw [if_neg fun hless => hp ⟨hhealthy, hless⟩]
        · rfl
      rw [hbest]
      rcases ih best with heq | ⟨q, hq, hrest⟩
      · exact .inl heq
      · exact .inr ⟨q, List.mem_cons_of_mem p hq, hrest⟩

variable (pricing now) in
/-- The cost that the loop ends with is no more than it began with, and than that of any healthy provider. -/
theorem foldl_cheaper_le (l : List (RotatedProvider × ℕ)) (best : Option ℕ × ℚ) :
    (l.foldl (cheaper pricing now) best).2 ≤ best.2 ∧
      ∀ q ∈ l, q.1.isHealthy now = true → (l.foldl (cheaper pricing now) best).2 ≤ inputCost pricing q.1 := by
  have hdown : ∀ (l : List (RotatedProvider × ℕ)) (best : Option ℕ × ℚ),
      (l.foldl (cheaper pricing now) best).2 ≤ best.2 := by
    intro l best
    rcases foldl_cheaper_cases pricing now l best with heq | ⟨q, -, -, hless, heq⟩
    · rw [heq]
    · rw [heq]
      exact le_of_lt hless
  refine ⟨hdown l best, ?_⟩
  intro q hq hhealthy
  obtain ⟨before, after, rfl⟩ := List.append_of_mem hq
  rw [List.foldl_append, List.foldl_cons]
  -- from the round of `q` on, the cost is no more than that of `q`
  refine le_trans (hdown after _) ?_
  unfold cheaper
  rw [if_pos hhealthy]
  split
  · exact le_rfl
  · next hless => exact not_lt.mp hless

/-- Some healthy provider has a price below the largest number. -/
def SomePriced (pricing : Str → Option ModelPricing) (now : ℕ) (r : RotationProvider) : Prop :=
  ∃ p ∈ r.providers, p.isHealthy now = true ∧ inputCost pricing p < f64Max

variable (pricing now r) in
/-- The cheapest healthy provider, if one has a price. -/
theorem cheapest_healthy :
    (∃ i, (r.providers.zipIdx.foldl (cheaper pricing now) (none, f64Max)).1 = some i ∧ r.healthyAt now i = true ∧
        r.SomePriced pricing now) ∨
      ((r.providers.zipIdx.foldl (cheaper pricing now) (none, f64Max)).1 = none ∧ ¬ r.SomePriced pricing now) := by
  rcases foldl_cheaper_cases pricing now r.providers.zipIdx (none, f64Max) with heq | ⟨⟨p, i⟩, hq, hhealthy, hless, heq⟩
  · right
    refine ⟨by rw [heq], ?_⟩
    rintro ⟨p, hp, hhealthy, hless⟩
    obtain ⟨i, hi⟩ := List.mem_iff_getElem?.mp hp
    have hle := (foldl_cheaper_le pricing now r.providers.zipIdx (none, f64Max)).2 (p, i)
      (List.mem_zipIdx_iff_getElem?.mpr hi) hhealthy
    rw [heq] at hle
    exact absurd hless (not_lt.mpr hle)
  · left
    have hp : r.providers[i]? = some p := List.mem_zipIdx_iff_getElem?.mp hq
    exact ⟨i, by rw [heq], healthyAt_iff.mpr ⟨p, hp, hhealthy⟩, p, List.mem_of_getElem? hp, hhealthy, hless⟩

/-! ## Every strategy -/

/-- A healthy provider is taken if there is one, and else the one whose failure is oldest. -/
def PrefersHealthy (pricing : Str → Option ModelPricing) (now : ℕ) (r : RotationProvider) : Prop :=
  (r.SomeHealthy now → r.healthyAt now (r.selectProviderIndex pricing now).1 = true) ∧
    (¬ r.SomeHealthy now → r.FirstOldest (r.selectProviderIndex pricing now).1)

/-- A search that comes to a healthy provider, or falls back when there is none. -/
theorem prefersHealthy_of_search {found : Option ℕ}
    (hindex : (r.selectProviderIndex pricing now).1 = found.getD r.oldestUnhealthyIndex)
    (hfound : (∃ i, found = some i ∧ r.healthyAt now i = true) ∨ (found = none ∧ ¬ r.SomeHealthy now)) :
    r.PrefersHealthy pricing now := by
  unfold PrefersHealthy
  rw [hindex]
  rcases hfound with ⟨i, rfl, hi⟩ | ⟨rfl, hnone⟩
  · exact ⟨fun _ => hi, fun hnone => absurd (someHealthy_iff.mpr ⟨i, hi⟩) hnone⟩
  · exact ⟨fun hsome => absurd hsome hnone, fun _ => r.oldestUnhealthyIndex_firstOldest⟩

theorem prefersHealthy_priority (h : r.strategy = .priority) : r.PrefersHealthy pricing now := by
  have hindex : (r.selectProviderIndex pricing now).1 =
      ((List.range r.providers.length).find? (r.healthyAt now)).getD r.oldestUnhealthyIndex := by
    rw [selectProviderIndex, h]
  exact prefersHealthy_of_search hindex (find_healthy fun i hi => List.mem_range.mpr hi)

theorem prefersHealthy_roundRobin (h : r.strategy = .roundRobin) : r.PrefersHealthy pricing now := by
  have hindex : (r.selectProviderIndex pricing now).1 =
      (((List.range r.providers.length).map fun offset => (r.roundRobinIndex.toNat + offset) % r.providers.length).find?
        (r.healthyAt now)).getD r.oldestUnhealthyIndex := by
    rw [selectProviderIndex, h]
  refine prefersHealthy_of_search hindex (find_healthy ?_)
  intro i hi
  obtain ⟨offset, hoffset, heq⟩ := mem_round r.roundRobinIndex.toNat hi
  exact List.mem_map.mpr ⟨offset, List.mem_range.mpr hoffset, heq⟩

theorem prefersHealthy_costAware (h : r.strategy = .costAware) :
    r.PrefersHealthy pricing now ↔
      (r.SomeHealthy now → r.SomePriced pricing now ∨ ∀ i, r.FirstOldest i → r.healthyAt now i = true) := by
  have hindex : (r.selectProviderIndex pricing now).1 =
      (r.providers.zipIdx.foldl (cheaper pricing now) (none, f64Max)).1.getD r.oldestUnhealthyIndex := by
    rw [selectProviderIndex, h]
  rcases cheapest_healthy pricing now r with ⟨i, hi, hhealthy, hpriced⟩ | ⟨hnone, hunpriced⟩
  · have hprefers : r.PrefersHealthy pricing now := prefersHealthy_of_search hindex (.inl ⟨i, hi, hhealthy⟩)
    exact iff_of_true hprefers fun _ => .inl hpriced
  · have hold := r.oldestUnhealthyIndex_firstOldest
    rw [hnone] at hindex
    unfold PrefersHealthy
    rw [hindex, Option.getD_none]
    constructor
    · intro h hsome
      right
      intro i hi
      rw [hi.unique hold]
      exact h.1 hsome
    · intro h
      refine ⟨fun hsome => ?_, fun _ => hold⟩
      rcases h hsome with hpriced | hoccurs
      · exact absurd hpriced hunpriced
      · exact hoccurs _ hold

end RotationProvider

/-- **The rotation prefers a healthy provider, except that `CostAware` may not find one without a price.** -/
theorem rotation_prefers_healthy_iff (pricing : Str → Option ModelPricing) (now : ℕ) (r : RotationProvider) :
    r.PrefersHealthy pricing now ↔
      (r.strategy = .costAware → r.SomeHealthy now →
        r.SomePriced pricing now ∨ ∀ i, r.FirstOldest i → r.healthyAt now i = true) := by
  cases hstrategy : r.strategy with
  | priority => exact iff_of_true (RotationProvider.prefersHealthy_priority hstrategy) (fun h => by cases h)
  | roundRobin => exact iff_of_true (RotationProvider.prefersHealthy_roundRobin hstrategy) (fun h => by cases h)
  | costAware =>
    rw [RotationProvider.prefersHealthy_costAware hstrategy]
    exact ⟨fun h _ => h, fun h => h rfl⟩

/-- Two providers without a price: the first has failed once, the second, a little before, for the third time. -/
def unpricedRotation : RotationProvider where
  providers :=
    [⟨"llama-3.3-70b-versatile".toList, ⟨1, 1100, 3, 30⟩⟩, ⟨"deepseek-chat".toList, ⟨3, 1090, 3, 30⟩⟩]
  strategy := .costAware
  roundRobinIndex := 0
  nonempty := by decide

/-- The second is taken, though the first is healthy. -/
theorem rotation_takes_unhealthy :
    ¬ ∀ (now : ℕ) (r : RotationProvider), r.PrefersHealthy defaultPricing now := by
  intro h
  have hsome : unpricedRotation.SomeHealthy 1101 := ⟨_, List.mem_cons_self, by decide⟩
  have htaken := (h 1101 unpricedRotation).1 hsome
  have hnot : unpricedRotation.healthyAt 1101 (unpricedRotation.selectProviderIndex defaultPricing 1101).1 = false := by
    decide +kernel
  rw [hnot] at htaken
  cases htaken

/-! ## A call -/

variable {α : Type*}

namespace RotationRun

/-- The providers that were called, in order. -/
def calls (run : RotationRun α) : List ℕ := (run.turns.filter fun t => t.answer.isSome).map RotationTurn.provider

def answers (run : RotationRun α) : List (Except LlmError α) := run.turns.filterMap RotationTurn.answer

/-- The loop went through all of the offsets. -/
def WentThrough (run : RotationRun α) (offsets : List ℕ) : Prop := run.turns.map RotationTurn.offset = offsets

end RotationRun

/-- A call of the rotation over `len` providers. -/
structure RotationContract (len startIndex : ℕ) (env : RotationEnv α) (run : RotationRun α) : Prop where
  start : startIndex < len
  -- the turns go round from the start
  order : run.turns.map RotationTurn.offset <+: List.range len
  provider : ∀ t ∈ run.turns, t.provider = (startIndex + t.offset) % len
  -- the start is called, and who is healthy at its turn
  called : ∀ t ∈ run.turns, t.answer = if t.offset = 0 ∨ t.healthy = true then some (env.answer t.offset t.provider) else none
  once : run.calls.Nodup
  returned : Attempts LlmError.shouldRotate run.answers run.result
  -- an error to rotate on is returned only when no provider is left
  all : ∀ e, run.result = .error e → e.shouldRotate = true → run.WentThrough (List.range len)

namespace RotationProvider

variable {env : RotationEnv α} {len startIndex : ℕ}

/-! ## The loop -/

/-- What holds of the loop over some offsets, with an error at hand or not. -/
structure LoopContract (env : RotationEnv α) (len startIndex : ℕ) (offsets : List ℕ) (lastErr : Option LlmError)
    (run : RotationRun α) : Prop where
  order : run.turns.map RotationTurn.offset <+: offsets
  provider : ∀ t ∈ run.turns, t.provider = (startIndex + t.offset) % len
  called : ∀ t ∈ run.turns, t.answer = if t.offset = 0 ∨ t.healthy = true then some (env.answer t.offset t.provider) else none
  returned : Attempts LlmError.shouldRotate run.answers run.result ∨
    (run.answers = [] ∧ run.WentThrough offsets ∧ run.result = .error (lastErr.getD allFailed))
  all : ∀ e, run.result = .error e → e.shouldRotate = true → run.WentThrough offsets

variable {offset : ℕ} {offsets : List ℕ} {lastErr : Option LlmError} {run : RotationRun α}

/-- A turn that skips its provider. -/
theorem LoopContract.skip (h : LoopContract env len startIndex offsets lastErr run) (t : RotationTurn α) (hoffset : t.offset ≠ 0)
    (hhealthy : t.healthy = false) (hprovider : t.provider = (startIndex + t.offset) % len) (hanswer : t.answer = none) :
    LoopContract env len startIndex (t.offset :: offsets) lastErr { run with turns := t :: run.turns } := by
  have hanswers : ({ run with turns := t :: run.turns } : RotationRun α).answers = run.answers :=
    List.filterMap_cons_none hanswer
  refine ⟨?_, ?_, ?_, ?_, ?_⟩
  · exact List.cons_prefix_cons.mpr ⟨rfl, h.order⟩
  · exact List.forall_mem_cons.mpr ⟨hprovider, h.provider⟩
  · refine List.forall_mem_cons.mpr ⟨?_, h.called⟩
    rw [hanswer, if_neg (by simp [hoffset, hhealthy])]
  · rw [hanswers]
    refine h.returned.imp_right fun ⟨hnil, hall, hresult⟩ => ⟨hnil, ?_, hresult⟩
    exact congrArg (t.offset :: ·) hall
  · intro e he hrotate
    exact congrArg (t.offset :: ·) (h.all e he hrotate)

/-- A turn whose error goes on to the next. -/
theorem LoopContract.rotate {err : LlmError} (h : LoopContract env len startIndex offsets (some err) run) (t : RotationTurn α)
    (hcalled : t.offset = 0 ∨ t.healthy = true) (hprovider : t.provider = (startIndex + t.offset) % len)
    (hanswer : t.answer = some (.error err)) (henv : env.answer t.offset t.provider = .error err)
    (hrotate : err.shouldRotate = true) :
    LoopContract env len startIndex (t.offset :: offsets) lastErr { run with turns := t :: run.turns } := by
  have hanswers : ({ run with turns := t :: run.turns } : RotationRun α).answers = .error err :: run.answers :=
    List.filterMap_cons_some hanswer
  refine ⟨?_, ?_, ?_, ?_, ?_⟩
  · exact List.cons_prefix_cons.mpr ⟨rfl, h.order⟩
  · exact List.forall_mem_cons.mpr ⟨hprovider, h.provider⟩
  · refine List.forall_mem_cons.mpr ⟨?_, h.called⟩
    rw [hanswer, if_pos hcalled, henv]
  · rw [hanswers]
    left
    rcases h.returned with hreturned | ⟨hnil, -, hresult⟩
    · exact hreturned.cons hrotate
    · rw [hnil]
      show Attempts _ _ run.result
      rw [hresult]
      exact .one _ _
  · intro e he hrotate
    exact congrArg (t.offset :: ·) (h.all e he hrotate)

/-- A turn whose answer ends the loop. -/
theorem LoopContract.stop {answer : Except LlmError α} {after : RotationProvider} (offsets : List ℕ) (t : RotationTurn α)
    (hcalled : t.offset = 0 ∨ t.healthy = true) (hprovider : t.provider = (startIndex + t.offset) % len)
    (hanswer : t.answer = some answer) (henv : env.answer t.offset t.provider = answer)
    (hfinal : ∀ e, answer = .error e → e.shouldRotate = false) :
    LoopContract env len startIndex (t.offset :: offsets) lastErr ⟨[t], answer, after⟩ := by
  refine ⟨?_, ?_, ?_, ?_, ?_⟩
  · exact List.cons_prefix_cons.mpr ⟨rfl, List.nil_prefix⟩
  · simpa using hprovider
  · simp [hanswer, hcalled, henv]
  · left
    have hanswers : (⟨[t], answer, after⟩ : RotationRun α).answers = [answer] := List.filterMap_cons_some hanswer
    rw [hanswers]
    exact .one _ _
  · intro e he hrotate
    rw [hfinal e he] at hrotate
    cases hrotate

theorem chatFrom_contract (env : RotationEnv α) (len startIndex : ℕ) : ∀ (offsets : List ℕ) (r : RotationProvider)
    (lastErr : Option LlmError),
    LoopContract env len startIndex offsets lastErr (chatFrom env len startIndex offsets r lastErr)
  | [], r, lastErr => by
    unfold chatFrom
    exact ⟨List.nil_prefix, by simp, by simp, .inr ⟨rfl, rfl, rfl⟩, fun _ _ _ => rfl⟩
  | offset :: offsets, r, lastErr => by
    unfold chatFrom
    dsimp only
    generalize hhealthy : (env.before offset r).healthyAt (env.checkedAt offset) ((startIndex + offset) % len) = healthy
    by_cases hskip : (0 < offset && !healthy) = true
    · rw [if_pos hskip]
      simp only [Bool.and_eq_true, decide_eq_true_eq, Bool.not_eq_true'] at hskip
      refine (chatFrom_contract env len startIndex offsets _ lastErr).skip ⟨offset, _, healthy, none⟩ ?_ hskip.2 rfl rfl
      exact Nat.ne_of_gt hskip.1
    · rw [if_neg hskip]
      have hcalled : offset = 0 ∨ healthy = true := by
        by_contra hnot
        simp at hnot
        exact hskip (by simp [hnot.2, Nat.pos_of_ne_zero hnot.1])
      cases hanswer : env.answer offset ((startIndex + offset) % len) with
      | ok response => exact .stop offsets ⟨offset, _, healthy, _⟩ hcalled rfl rfl hanswer (fun e he => nomatch he)
      | error err =>
        dsimp only
        by_cases hrotate : err.shouldRotate = true
        · rw [if_pos hrotate]
          exact (chatFrom_contract env len startIndex offsets _ (some err)).rotate ⟨offset, _, healthy, _⟩ hcalled rfl rfl
            hanswer hrotate
        · rw [if_neg hrotate]
          refine .stop offsets ⟨offset, _, healthy, _⟩ hcalled rfl rfl hanswer (fun e he => ?_)
          obtain rfl := Except.error.inj he
          simpa using hrotate

/-! ## The selection -/

theorem oldestUnhealthyIndex_lt (r : RotationProvider) : r.oldestUnhealthyIndex < r.providers.length := by
  obtain ⟨p, hp, -⟩ := r.oldestUnhealthyIndex_firstOldest
  exact (List.getElem?_eq_some_iff.mp hp).1

theorem healthyAt_lt {now i : ℕ} {r : RotationProvider} (h : r.healthyAt now i = true) : i < r.providers.length := by
  obtain ⟨p, hp, -⟩ := healthyAt_iff.mp h
  exact (List.getElem?_eq_some_iff.mp hp).1

/-- A search that comes to a healthy provider, or else the oldest failure. -/
theorem getD_lt (now : ℕ) {r : RotationProvider} {found : Option ℕ} (h : ∀ i, found = some i → r.healthyAt now i = true) :
    found.getD r.oldestUnhealthyIndex < r.providers.length := by
  cases found with
  | none => exact r.oldestUnhealthyIndex_lt
  | some i => exact healthyAt_lt (h i rfl)

theorem selectProviderIndex_lt (pricing : Str → Option ModelPricing) (now : ℕ) (r : RotationProvider) :
    (r.selectProviderIndex pricing now).1 < r.providers.length := by
  unfold selectProviderIndex
  cases r.strategy with
  | priority => exact getD_lt now fun i hi => List.find?_some hi
  | roundRobin => exact getD_lt now fun i hi => List.find?_some hi
  | costAware =>
    refine getD_lt now fun i hi => ?_
    rcases cheapest_healthy pricing now r with ⟨j, hj, hhealthy, -⟩ | ⟨hnone, -⟩
    · rw [hj] at hi
      obtain rfl := Option.some.inj hi
      exact hhealthy
    · rw [hnone] at hi
      cases hi

/-! ## The call -/

theorem mod_inj {startIndex len k k' : ℕ} (hk : k < len) (hk' : k' < len)
    (h : (startIndex + k) % len = (startIndex + k') % len) : k = k' := by
  have heq : Nat.ModEq len k k' := Nat.ModEq.add_left_cancel' startIndex h
  exact Nat.ModEq.eq_of_lt_of_lt heq hk hk'

/-- The turns of one round have different providers. -/
theorem LoopContract.once (h : LoopContract env len startIndex (List.range len) lastErr run) : run.calls.Nodup := by
  have hcalls : run.calls.Sublist (run.turns.map RotationTurn.provider) := List.filter_sublist.map _
  have hproviders : run.turns.map RotationTurn.provider =
      (run.turns.map RotationTurn.offset).map fun k => (startIndex + k) % len := by
    rw [List.map_map]
    exact List.map_congr_left h.provider
  refine hcalls.nodup ?_
  rw [hproviders]
  refine List.Nodup.map_on ?_ (h.order.sublist.nodup List.nodup_range)
  intro k hk k' hk'
  exact mod_inj (List.mem_range.mp (h.order.subset hk)) (List.mem_range.mp (h.order.subset hk'))

end RotationProvider

end Zeptoclaw

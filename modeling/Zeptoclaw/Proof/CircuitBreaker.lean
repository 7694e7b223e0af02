import Zeptoclaw.Proof.PingPong

/-!
# The circuit breaker

The total of the repetitions goes up with every repetition that is counted, and the breaker compares it with its
limit (`step_counted`). The total has 32 bits: the breaker stays tripped exactly as long as the total does not wrap
(`circuitBreaker_latches_iff`).
-/

namespace Zeptoclaw

namespace LoopGuard

variable {lib : LoopGuardLib} {g : LoopGuard}

/-! ## The events that are counted -/

section Counted

variable (lib : LoopGuardLib)

/-- The guard after the hash of an outcome went into its window. -/
def recordedOutcome (g : LoopGuard) (name params resultPrefix : Str) : LoopGuard :=
  { g with outcomes := g.outcomes.record g.config.windowSize (hashOutcome lib name params resultPrefix) }

/-- The count from which a check warns. -/
def warnAt (g : LoopGuard) (calls : List ToolCallSig) : ℕ :=
  g.config.warnThreshold * (if isPollCommand lib calls then g.config.pollMultiplier else 1) % 2 ^ 32

/-- The call is a repetition that is counted towards the breaker: a ping-pong, calls over the repeat threshold, or
an outcome over the block threshold. -/
def Counted (g : LoopGuard) : GuardCall → Prop
  | .check calls =>
    (g.config.enabled = true ∧ calls ≠ []) ∧ ((g.recorded lib calls).checkPingPong.isSome = true ∨
      g.warnAt lib calls ≤ countOf (g.recorded lib calls).calls.counts (hashCallBatch lib calls))
  | .recordOutcome name params resultPrefix =>
    g.config.enabled = true ∧ g.config.outcomeBlockThreshold ≤
      countOf (g.recordedOutcome lib name params resultPrefix).outcomes.counts (hashOutcome lib name params resultPrefix)

/-- What the guard answers to a call. -/
def answer (g : LoopGuard) : GuardCall → Option LoopGuardAction
  | .check calls => some (g.check lib calls).2
  | .recordOutcome name params resultPrefix => (g.recordOutcome lib name params resultPrefix).2

end Counted

/-! ## One call -/

/-- The part of the guard that the breaker is about. -/
def breaker (g : LoopGuard) : LoopGuardConfig × ℕ := (g.config, g.totalRepetitions)

/-- One more repetition, and what it means for the answer of the guard. -/
structure Counts (s s' : LoopGuardConfig × ℕ) (action : LoopGuardAction) : Prop where
  after : s' = (s.1, next32 s.2)
  tripped : s.1.globalCircuitBreaker ≤ next32 s.2 → action = .circuitBreak (next32 s.2)
  below : next32 s.2 < s.1.globalCircuitBreaker → ∀ t, action ≠ .circuitBreak t

theorem counts_of_some {g' : LoopGuard} {action : LoopGuardAction} (h : g.repeated = (g', some action)) :
    Counts g.breaker g'.breaker action := by
  simp only [repeated] at h
  split at h
  · rename_i hle
    cases h
    exact ⟨rfl, fun _ => rfl, fun hlt => absurd hle (Nat.not_le.mpr hlt)⟩
  · cases h

theorem counts_of_none {g' : LoopGuard} (h : g.repeated = (g', none)) :
    ∀ action, (∀ t, action ≠ .circuitBreak t) → Counts g.breaker g'.breaker action := by
  intro action hother
  simp only [repeated] at h
  split at h
  · cases h
  · rename_i hle
    cases h
    exact ⟨rfl, fun h => absurd h hle, fun _ => hother⟩

theorem counts_pingPong (period : ℕ) (g : LoopGuard) :
    Counts g.breaker (g.pingPong period).1.breaker (g.pingPong period).2 := by
  simp only [pingPong]
  split
  · next g' action heq =>
    have hcounts := counts_of_some heq
    exact hcounts
  · next g' heq =>
    have hcounts := counts_of_none heq
    exact hcounts _ (by simp)

theorem counts_graduated {count warnAt blockAt : ℕ} {isPoll : Bool} (hcount : warnAt ≤ count) (g : LoopGuard) :
    Counts g.breaker (g.graduated count warnAt blockAt isPoll).1.breaker
      (g.graduated count warnAt blockAt isPoll).2 := by
  simp only [graduated, if_pos hcount]
  split
  · next g' action heq => exact counts_of_some heq
  · next g' heq =>
    have hcounts := counts_of_none heq
    split
    · exact hcounts _ (by simp)
    · exact hcounts _ (by simp)

theorem checkPingPong_some {r : LoopGuard × LoopGuardAction} (h : g.checkPingPong = some r) :
    ∃ period, r = g.pingPong period := by
  simp only [checkPingPong] at h
  split at h
  · cases h
  · split at h
    · exact ⟨2, (Option.some.inj h).symm⟩
    · split at h
      · exact ⟨3, (Option.some.inj h).symm⟩
      · cases h

/-- A check of calls that are counted, with its threshold. -/
theorem check_eq_warnAt (lib : LoopGuardLib) {calls : List ToolCallSig} (hon : g.config.enabled = true ∧ calls ≠ []) :
    ∃ blockAt, g.check lib calls = (g.recorded lib calls).checkPingPong.getD
      ((g.recorded lib calls).graduated (countOf (g.recorded lib calls).calls.counts (hashCallBatch lib calls))
        (g.warnAt lib calls) blockAt (isPollCommand lib calls)) := by
  have hskip : ¬ (!g.config.enabled || calls.isEmpty) = true := by simp [hon.1, hon.2]
  simp only [check, if_neg hskip]
  exact ⟨_, rfl⟩

/-- **A repetition that is counted puts the total up, and trips the breaker if the total is at its limit.** -/
theorem step_counted {call : GuardCall} (h : g.Counted lib call) :
    ∃ action, g.answer lib call = some action ∧ Counts g.breaker (g.step lib call).breaker action := by
  cases call with
  | check calls =>
    obtain ⟨hon, hcounted⟩ := h
    obtain ⟨blockAt, hcheck⟩ := check_eq_warnAt lib hon
    refine ⟨_, rfl, ?_⟩
    rw [step, hcheck]
    cases hping : (g.recorded lib calls).checkPingPong with
    | some r =>
      obtain ⟨period, rfl⟩ := checkPingPong_some hping
      exact counts_pingPong period (g.recorded lib calls)
    | none =>
      rw [hping] at hcounted
      have hcount := hcounted.resolve_left (by simp)
      exact counts_graduated hcount (g.recorded lib calls)
  | recordOutcome name params resultPrefix =>
    obtain ⟨hon, hcount⟩ := h
    have hskip : ¬ (!g.config.enabled) = true := by simp [hon]
    have hblock : g.config.outcomeBlockThreshold ≤ countOf (g.outcomes.record g.config.windowSize
      (hashOutcome lib name params resultPrefix)).counts (hashOutcome lib name params resultPrefix) := hcount
    simp only [answer, step, recordOutcome, if_neg hskip, if_pos hblock]
    split
    · next g' action heq =>
      have hcounts := counts_of_some heq
      exact ⟨action, rfl, hcounts⟩
    · next g' heq =>
      have hcounts := counts_of_none heq
      exact ⟨_, rfl, hcounts _ (by simp)⟩

/-- **Any other call leaves the total alone. It does not answer with the breaker or with a block, and a check is
allowed.** -/
theorem step_not_counted {call : GuardCall} (h : ¬ g.Counted lib call) :
    (g.step lib call).breaker = g.breaker ∧ (∀ t, g.answer lib call ≠ some (.circuitBreak t)) ∧
      (∀ reason, g.answer lib call ≠ some (.block reason)) ∧
      ∀ calls, call = .check calls → g.answer lib call = some .allow := by
  cases call with
  | check calls =>
    have hallow : ∃ g', g.check lib calls = (g', .allow) ∧ g'.breaker = g.breaker := by
      by_cases hon : g.config.enabled = true ∧ calls ≠ []
      · obtain ⟨blockAt, hcheck⟩ := check_eq_warnAt lib hon
        have hno := not_or.mp fun hyes => h ⟨hon, hyes⟩
        have hping : (g.recorded lib calls).checkPingPong = none := by simpa using hno.1
        rw [hping, Option.getD_none, graduated, if_neg hno.2] at hcheck
        exact ⟨_, hcheck, rfl⟩
      · exact ⟨g, check_skipped hon, rfl⟩
    obtain ⟨g', hcheck, hbreaker⟩ := hallow
    simp only [answer, step, hcheck]
    exact ⟨hbreaker, by simp, by simp, by simp⟩
  | recordOutcome name params resultPrefix =>
    by_cases hon : g.config.enabled = true
    · have hskip : ¬ (!g.config.enabled) = true := by simp [hon]
      have hblock : ¬ g.config.outcomeBlockThreshold ≤ countOf (g.outcomes.record g.config.windowSize
        (hashOutcome lib name params resultPrefix)).counts (hashOutcome lib name params resultPrefix) :=
        fun hcount => h ⟨hon, hcount⟩
      simp only [answer, step, recordOutcome, if_neg hskip, if_neg hblock]
      split
      · exact ⟨rfl, by simp, by simp, by simp⟩
      · exact ⟨rfl, by simp, by simp, by simp⟩
    · have hskip : (!g.config.enabled) = true := by simpa using hon
      have hoff : g.recordOutcome lib name params resultPrefix = (g, none) := by
        simp only [recordOutcome, if_pos hskip]
      simp [answer, step, hoff]

/-! ## Runs -/

/-- Once an answer was the breaker, every repetition that is counted is answered with the breaker, with a larger
total. -/
def Latches (lib : LoopGuardLib) (g : LoopGuard) (calls : List GuardCall) : Prop :=
  ∀ before a middle b after, calls = before ++ a :: (middle ++ b :: after) →
    ∀ t, (runSteps (step lib) g before).answer lib a = some (.circuitBreak t) →
      let now := runSteps (step lib) g (before ++ a :: middle)
      now.Counted lib b → ∃ t', t < t' ∧ now.answer lib b = some (.circuitBreak t')

/-- A repetition that is counted finds room in the total. -/
def TotalHasRoom (lib : LoopGuardLib) (g : LoopGuard) (call : GuardCall) : Prop :=
  g.Counted lib call → g.totalRepetitions + 1 < 2 ^ 32

theorem next32_lt (n : ℕ) : next32 n < 2 ^ 32 := Nat.mod_lt _ (by decide)

theorem next32_of_lt {n : ℕ} (h : n + 1 < 2 ^ 32) : next32 n = n + 1 := Nat.mod_eq_of_lt h

theorem step_config (lib : LoopGuardLib) (g : LoopGuard) (call : GuardCall) : (g.step lib call).config = g.config := by
  by_cases h : g.Counted lib call
  · obtain ⟨action, -, hcounts⟩ := step_counted h
    exact congrArg Prod.fst hcounts.after
  · exact congrArg Prod.fst (step_not_counted h).1

theorem step_total {call : GuardCall} (h : g.Counted lib call) :
    (g.step lib call).totalRepetitions = next32 g.totalRepetitions := by
  obtain ⟨action, -, hcounts⟩ := step_counted h
  exact congrArg Prod.snd hcounts.after

/-- The total does not go down. -/
theorem total_le_step {call : GuardCall} (h : g.TotalHasRoom lib call) :
    g.totalRepetitions ≤ (g.step lib call).totalRepetitions := by
  by_cases hcounted : g.Counted lib call
  · rw [step_total hcounted, next32_of_lt (h hcounted)]
    omega
  · have htotal : (g.step lib call).totalRepetitions = g.totalRepetitions :=
      congrArg Prod.snd (step_not_counted hcounted).1
    omega

/-- An answer with the breaker gives the new total, which is at the limit. -/
theorem answer_circuitBreak {call : GuardCall} {t : ℕ} (h : g.answer lib call = some (.circuitBreak t)) :
    g.Counted lib call ∧ (g.step lib call).totalRepetitions = t ∧ g.config.globalCircuitBreaker ≤ t := by
  by_cases hcounted : g.Counted lib call
  · obtain ⟨action, hanswer, hcounts⟩ := step_counted hcounted
    rw [hanswer, Option.some.injEq] at h
    have hle : g.config.globalCircuitBreaker ≤ next32 g.totalRepetitions := by
      by_contra hlt
      exact hcounts.below (Nat.not_le.mp hlt) t h
    have ht : next32 g.totalRepetitions = t := by
      have haction := hcounts.tripped hle
      rw [h] at haction
      exact (LoopGuardAction.circuitBreak.inj haction).symm
    exact ⟨hcounted, (step_total hcounted).trans ht, ht ▸ hle⟩
  · exact absurd h ((step_not_counted hcounted).2.1 t)

theorem answer_of_counted {call : GuardCall} (h : g.Counted lib call)
    (hle : g.config.globalCircuitBreaker ≤ next32 g.totalRepetitions) :
    g.answer lib call = some (.circuitBreak (next32 g.totalRepetitions)) := by
  obtain ⟨action, hanswer, hcounts⟩ := step_counted h
  rw [hanswer, hcounts.tripped hle]
  rfl

/-- The breaker stays tripped in a run in which the total has room. -/
theorem latches_of_room {calls : List GuardCall} (h : StepsMeet (step lib) (TotalHasRoom lib) g calls) :
    g.Latches lib calls := by
  rintro before a middle b after rfl t hanswer
  obtain ⟨-, -, hrest⟩ := stepsMeet_append.mp h
  obtain ⟨hmiddle, hb, -⟩ := stepsMeet_append.mp hrest
  obtain ⟨-, htotal, hlimit⟩ := answer_circuitBreak hanswer
  have hrun : runSteps (step lib) g (before ++ a :: middle) =
      runSteps (step lib) ((runSteps (step lib) g before).step lib a) middle := runSteps_append g before (a :: middle)
  rw [hrun]
  intro now hcounted
  -- from the answer on, the total is at least the one that was answered
  have hnow : now.config = (runSteps (step lib) g before).config ∧ t ≤ now.totalRepetitions := by
    have hstep : ∀ (s : LoopGuard) call, s.config = (runSteps (step lib) g before).config ∧ t ≤ s.totalRepetitions →
        s.TotalHasRoom lib call → (s.step lib call).config = (runSteps (step lib) g before).config ∧
          t ≤ (s.step lib call).totalRepetitions := by
      rintro s call ⟨hconfig, hle⟩ hroom
      exact ⟨(step_config lib s call).trans hconfig, hle.trans (total_le_step hroom)⟩
    exact run_invariant hstep middle _ ⟨step_config lib _ a, htotal.ge⟩ hmiddle
  have hroom : now.totalRepetitions + 1 < 2 ^ 32 := hb hcounted
  have hanswered := answer_of_counted hcounted (by rw [next32_of_lt hroom, hnow.1]; omega)
  rw [next32_of_lt hroom] at hanswered
  exact ⟨now.totalRepetitions + 1, by omega, hanswered⟩

/-- The total is zero, or that of the last repetition that was counted. -/
theorem exists_last_counted (lib : LoopGuardLib) (config : LoopGuardConfig) (calls : List GuardCall) :
    let total := (runSteps (step lib) (.new config) calls).totalRepetitions
    total = 0 ∨ ∃ before a after, calls = before ++ a :: after ∧ (runSteps (step lib) (.new config) before).Counted lib a ∧
      next32 (runSteps (step lib) (.new config) before).totalRepetitions = total := by
  induction calls using List.reverseRecOn with
  | nil => exact .inl rfl
  | append_singleton calls b ih =>
    dsimp only at ih ⊢
    rw [runSteps_concat]
    by_cases hcounted : (runSteps (step lib) (.new config) calls).Counted lib b
    · exact .inr ⟨calls, b, [], rfl, hcounted, (step_total hcounted).symm⟩
    · have htotal := congrArg Prod.snd (step_not_counted hcounted).1
      dsimp only [breaker] at htotal
      rw [htotal]
      refine ih.imp_right ?_
      rintro ⟨before, a, after, rfl, hlast⟩
      exact ⟨before, a, after ++ [b], by simp, hlast⟩

theorem run_config (lib : LoopGuardLib) (config : LoopGuardConfig) (calls : List GuardCall) :
    (runSteps (step lib) (.new config) calls).config = config := by
  have hstep : ∀ (s : LoopGuard) call, s.config = config → (s.step lib call).config = config :=
    fun s call h => (step_config lib s call).trans h
  exact run_preserves hstep calls _ rfl

/-- If the total wraps in a run, the answer before was the breaker, and the next one has a smaller total. -/
theorem room_of_latches {config : LoopGuardConfig} (hlimit : config.globalCircuitBreaker < 2 ^ 32)
    {calls : List GuardCall} (h : (new config).Latches lib calls) :
    StepsMeet (step lib) (TotalHasRoom lib) (.new config) calls := by
  refine stepsMeet_iff.mpr fun before b after hcut hcounted => ?_
  by_contra hfull
  obtain hzero | ⟨pre, a, post, rfl, ha, htotal⟩ := exists_last_counted lib config before
  · omega
  · have hlast : next32 (runSteps (step lib) (.new config) pre).totalRepetitions = 2 ^ 32 - 1 := by
      have := next32_lt (runSteps (step lib) (.new config) pre).totalRepetitions
      omega
    have hanswer := answer_of_counted ha (by rw [run_config, hlast]; omega)
    have hsplit : calls = pre ++ a :: (post ++ b :: after) := by rw [hcut, List.append_assoc, List.cons_append]
    obtain ⟨t, hlt, hbreak⟩ := h pre a post b after hsplit _ hanswer hcounted
    have hstep := (answer_circuitBreak hbreak).2.1
    have hsmall : t < 2 ^ 32 := by
      rw [← hstep, step_total hcounted]
      exact next32_lt _
    omega

end LoopGuard

/-- **Once the guard has answered with the breaker, every repetition that is counted is answered with the breaker and
a larger total, exactly if no such repetition of the run finds the total at its largest value.** -/
theorem circuitBreaker_latches_iff (lib : LoopGuardLib) (config : LoopGuardConfig)
    (hlimit : config.globalCircuitBreaker < 2 ^ 32) (calls : List GuardCall) :
    (LoopGuard.new config).Latches lib calls ↔
      StepsMeet (LoopGuard.step lib) (LoopGuard.TotalHasRoom lib) (.new config) calls :=
  ⟨LoopGuard.room_of_latches hlimit, LoopGuard.latches_of_room⟩

/-- A run of one check. -/
theorem circuitBreaker_latches_one :
    (LoopGuard.new {}).Latches ⟨id, fun _ => none, id⟩ [.check [⟨"shell".toList, "ls".toList⟩]] :=
  (circuitBreaker_latches_iff _ {} (by decide) _).mpr ⟨fun _ => by decide, trivial⟩

namespace LoopGuard

variable {lib : LoopGuardLib}

/-- A guard that warns from the start counts every check. -/
theorem counted_of_warnThreshold {g : LoopGuard} {calls : List ToolCallSig} (hon : g.config.enabled = true ∧ calls ≠ [])
    (hzero : g.config.warnThreshold = 0) : g.Counted lib (.check calls) := by
  refine ⟨hon, .inr ?_⟩
  rw [warnAt, hzero, Nat.zero_mul, Nat.zero_mod]
  exact Nat.zero_le _

section Checks

variable (lib) {config : LoopGuardConfig} {calls : List ToolCallSig} (hon : config.enabled = true ∧ calls ≠ [])
  (hzero : config.warnThreshold = 0)

include hon hzero

theorem counted_replicate (n : ℕ) :
    (runSteps (step lib) (.new config) (List.replicate n (.check calls))).Counted lib (.check calls) := by
  refine counted_of_warnThreshold ?_ ?_
  · rw [run_config]
    exact hon
  · rw [run_config]
    exact hzero

theorem total_replicate (n : ℕ) :
    (runSteps (step lib) (.new config) (List.replicate n (.check calls))).totalRepetitions = n % 2 ^ 32 := by
  induction n with
  | zero => rfl
  | succ n ih =>
    have htotal := step_total (counted_replicate lib hon hzero n)
    rw [List.replicate_succ', runSteps_concat, htotal, ih, next32, Nat.mod_add_mod]

/-- Of the checks, the last but one answers with the breaker, and the last one with a total that has wrapped. -/
theorem not_latches_replicate (hlimit : config.globalCircuitBreaker < 2 ^ 32) {n : ℕ} (hn : n + 2 = 2 ^ 32) :
    ¬ (new config).Latches lib (List.replicate (n + 2) (.check calls)) := by
  intro h
  have hlast : next32 (runSteps (step lib) (.new config) (List.replicate n (.check calls))).totalRepetitions = n + 1 := by
    rw [total_replicate lib hon hzero, next32]
    omega
  have hanswer := answer_of_counted (counted_replicate lib hon hzero n) (by rw [hlast, run_config]; omega)
  have hcut : List.replicate (n + 2) (GuardCall.check calls) =
      List.replicate n (.check calls) ++ .check calls :: ([] ++ .check calls :: []) := by
    rw [List.replicate_add]
    rfl
  have hcounted : (runSteps (step lib) (.new config) (List.replicate n (.check calls) ++ [.check calls])).Counted lib
      (.check calls) := by
    rw [← List.replicate_succ']
    exact counted_replicate lib hon hzero (n + 1)
  obtain ⟨t, hlt, hbreak⟩ := h _ _ _ _ _ hcut _ hanswer hcounted
  have htotal := (answer_circuitBreak hbreak).2.1
  rw [step_total hcounted] at htotal
  have := next32_lt (runSteps (step lib) (.new config) (List.replicate n (.check calls) ++ [.check calls])).totalRepetitions
  omega

end Checks

end LoopGuard

/-- A guard that warns from the start, and the check at which its total wraps. -/
theorem circuitBreaker_unlatches : ¬ (LoopGuard.new { warnThreshold := 0 }).Latches ⟨id, fun _ => none, id⟩
    (List.replicate (2 ^ 32) (.check [⟨"shell".toList, "ls".toList⟩])) := by
  obtain ⟨n, hn⟩ : ∃ n, n + 2 = 2 ^ 32 := ⟨2 ^ 32 - 2, by norm_num⟩
  rw [← hn]
  exact LoopGuard.not_latches_replicate _ (by simp) rfl (by decide) hn

end Zeptoclaw

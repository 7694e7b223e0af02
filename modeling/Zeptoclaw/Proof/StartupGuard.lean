import Zeptoclaw.Spec.StartupGuard
import Mathlib.Data.List.DropRight

/-!
# When the startup guard degrades

`degraded_iff`: after as many crashed runs as the threshold says, all within the window,
the next run is degraded exactly if enough crashes were recorded since the last clean
start. `cmd_gateway` records a clean start as soon as it has spawned its tasks, so that
runs which crash once each do not add up.
-/

namespace Zeptoclaw

variable {g : StartupGuard}

/-! ## Histories -/

/-- The last thing the run records is a crash. -/
def GatewayRun.EndsByCrash (run : GatewayRun) : Prop :=
  run.crashesAfter ≠ [] ∨ run.cleanStart = false ∧ run.crashesBefore ≠ []

def historyOps (runs : List GatewayRun) : List GuardOp := runs.flatMap GatewayRun.ops

def crashTimes (ops : List GuardOp) : List ℕ := ops.filterMap GuardOp.time?

/-- As many runs as the threshold says ended by a crash, with crashes no further apart
than the window, and the next run starts within the window. -/
structure CrashHistory (g : StartupGuard) (runs : List GatewayRun) (next : GatewayRun) : Prop where
  threshold : g.threshold ≠ 0
  length : runs.length = g.threshold.toNat
  ends : ∀ run ∈ runs, run.EndsByCrash
  close : (crashTimes (historyOps runs)).IsChain fun t t' => t' - t ≤ g.windowSecs
  recent : ∀ t ∈ (crashTimes (historyOps runs)).getLast?, next.startedAt - t ≤ g.windowSecs

/-- The crashes after the last clean start. -/
def sinceCleanStart (ops : List GuardOp) : List ℕ :=
  crashTimes (ops.rtakeWhile fun op => op.time?.isSome)

/-- The counter they are added to: what the file held, if there is no clean start. -/
def carried (g : StartupGuard) (file : CrashFile) (ops : List GuardOp) : ℕ :=
  if .cleanStart ∈ ops then 0
  else ((crashTimes ops).head?.elim 0 fun t => (g.counter file.loadState t).toNat)

/-- Enough crashes were recorded since the last clean start, counted in 32 bits. -/
def EnoughCrashes (g : StartupGuard) (file : CrashFile) (ops : List GuardOp) : Prop :=
  g.threshold.toNat ≤ (carried g file ops + (sinceCleanStart ops).length) % 2 ^ 32

instance (g : StartupGuard) (file : CrashFile) (ops : List GuardOp) : Decidable (EnoughCrashes g file ops) :=
  inferInstanceAs (Decidable (_ ≤ _))

theorem afterRuns_eq (g : StartupGuard) : ∀ (runs : List GatewayRun) (file : CrashFile),
    afterRuns g file runs = runSteps (guardStep g) file (historyOps runs) := by
  intro runs
  induction runs with
  | nil => intro file; rfl
  | cons run runs ih =>
    intro file
    show afterRuns g (runSteps (guardStep g) file run.ops) runs = _
    rw [ih, historyOps, historyOps, List.flatMap_cons]
    exact List.foldl_append.symm

/-! ## Counting -/

/-- Crashes that follow each other within the window are counted. -/
theorem crashes_counted : ∀ (ts : List ℕ) (s : CrashState),
    (s.lastCrashTs :: ts).IsChain (fun t t' => t' - t ≤ g.windowSecs) →
    let s' := (runSteps (guardStep g) (.stored s) (ts.map .crash)).loadState
    s'.consecutiveCrashes.toNat = (s.consecutiveCrashes.toNat + ts.length) % 2 ^ 32 ∧
      s'.lastCrashTs = ts.getLastD s.lastCrashTs := by
  intro ts
  induction ts with
  | nil =>
    intro s _
    refine ⟨?_, rfl⟩
    have := s.consecutiveCrashes.toNat_lt
    exact (Nat.mod_eq_of_lt this).symm
  | cons t ts ih =>
    intro s hchain
    obtain ⟨hclose, hrest⟩ := List.isChain_cons_cons.mp hchain
    have hcounter : g.counter s t = s.consecutiveCrashes := by
      have : g.stale s t = false := decide_eq_false (by omega)
      rw [StartupGuard.counter, this]
      simp
    obtain ⟨hcount, hlast⟩ := ih ⟨g.counter s t + 1, t, s.totalCrashes + 1⟩ hrest
    refine ⟨?_, ?_⟩
    · show (runSteps (guardStep g) (.stored ⟨g.counter s t + 1, t, s.totalCrashes + 1⟩)
        (ts.map .crash)).loadState.consecutiveCrashes.toNat = _
      rw [hcount, hcounter, UInt32.toNat_add, List.length_cons]
      have : (1 : UInt32).toNat = 1 := rfl
      omega
    · show (runSteps (guardStep g) (.stored ⟨g.counter s t + 1, t, s.totalCrashes + 1⟩)
        (ts.map .crash)).loadState.lastCrashTs = _
      rw [hlast]
      cases ts <;> rfl

/-- Crashes are recorded from any file on. -/
theorem crashes_from (file : CrashFile) (t : ℕ) (ts : List ℕ)
    (hclose : (t :: ts).IsChain fun t t' => t' - t ≤ g.windowSecs) :
    let s := (runSteps (guardStep g) file ((t :: ts).map .crash)).loadState
    s.consecutiveCrashes.toNat = ((g.counter file.loadState t).toNat + (t :: ts).length) % 2 ^ 32 ∧
      s.lastCrashTs = (t :: ts).getLast (List.cons_ne_nil t ts) := by
  set first : CrashState := ⟨g.counter file.loadState t + 1, t, file.loadState.totalCrashes + 1⟩
  obtain ⟨hcount, hlast⟩ := crashes_counted (g := g) ts first hclose
  refine ⟨?_, ?_⟩
  · have hone : first.consecutiveCrashes.toNat = ((g.counter file.loadState t).toNat + 1) % 2 ^ 32 := by
      rw [UInt32.toNat_add]
      rfl
    show (runSteps (guardStep g) (.stored first) (ts.map .crash)).loadState.consecutiveCrashes.toNat = _
    rw [hcount, hone, List.length_cons]
    omega
  · show (runSteps (guardStep g) (.stored first) (ts.map .crash)).loadState.lastCrashTs = _
    rw [hlast, List.getLast_eq_getLastD]

theorem crashTimes_map (ts : List ℕ) : crashTimes (ts.map .crash) = ts := by
  rw [crashTimes, List.filterMap_map]
  exact List.filterMap_some

theorem crashTimes_append (ops ops' : List GuardOp) : crashTimes (ops ++ ops') = crashTimes ops ++ crashTimes ops' :=
  List.filterMap_append

theorem sinceCleanStart_crash (ops : List GuardOp) (t : ℕ) :
    sinceCleanStart (ops ++ [.crash t]) = sinceCleanStart ops ++ [t] := by
  rw [sinceCleanStart, List.rtakeWhile_concat_pos _ _ _ (by rfl), crashTimes_append]
  rfl

theorem sinceCleanStart_cleanStart (ops : List GuardOp) : sinceCleanStart (ops ++ [.cleanStart]) = [] := by
  rw [sinceCleanStart, List.rtakeWhile_concat_neg _ _ _ (by decide)]
  rfl

/-- The operations up to the last clean start, and the crashes after it. -/
theorem ops_split (ops : List GuardOp) : ∃ front, ops = front ++ (sinceCleanStart ops).map .crash ∧
    (front = [] ∧ GuardOp.cleanStart ∉ ops ∨ ∃ front', front = front' ++ [.cleanStart]) := by
  induction ops using List.reverseRecOn with
  | nil => exact ⟨[], rfl, .inl ⟨rfl, List.not_mem_nil⟩⟩
  | append_singleton ops op ih =>
    cases op with
    | cleanStart =>
      refine ⟨ops ++ [.cleanStart], ?_, .inr ⟨ops, rfl⟩⟩
      rw [sinceCleanStart_cleanStart]
      exact (List.append_nil _).symm
    | crash t =>
      obtain ⟨front, hops, hfront⟩ := ih
      refine ⟨front, ?_, ?_⟩
      · rw [sinceCleanStart_crash, List.map_append, ← List.append_assoc, ← hops]
        rfl
      · refine hfront.imp_left fun ⟨hnil, hnot⟩ => ⟨hnil, ?_⟩
        simpa using hnot

/-- What the file holds after operations that end with a crash. -/
theorem ops_counted (file : CrashFile) {ops : List GuardOp} (hsince : sinceCleanStart ops ≠ [])
    (hclose : (crashTimes ops).IsChain fun t t' => t' - t ≤ g.windowSecs) :
    let s := (runSteps (guardStep g) file ops).loadState
    s.consecutiveCrashes.toNat = (carried g file ops + (sinceCleanStart ops).length) % 2 ^ 32 ∧
      some s.lastCrashTs = (crashTimes ops).getLast? := by
  obtain ⟨front, hops, hfront⟩ := ops_split ops
  obtain ⟨t, ts, hts⟩ := List.exists_cons_of_ne_nil hsince
  have htimes : crashTimes ops = crashTimes front ++ (t :: ts) := by
    conv_lhs => rw [hops, crashTimes_append, crashTimes_map, hts]
  have hrun : runSteps (guardStep g) file ops =
      runSteps (guardStep g) (runSteps (guardStep g) file front) ((t :: ts).map .crash) := by
    conv_lhs => rw [hops, hts, runSteps, List.foldl_append]
    rfl
  obtain ⟨hcount, hlast⟩ := crashes_from (g := g) (runSteps (guardStep g) file front) t ts
    (by rw [htimes] at hclose; exact hclose.right_of_append)
  have hcarried : (g.counter (runSteps (guardStep g) file front).loadState t).toNat = carried g file ops := by
    obtain ⟨rfl, hnot⟩ | ⟨front', rfl⟩ := hfront
    · rw [carried, if_neg hnot, htimes]
      rfl
    · -- a clean start leaves a counter of zero, and no crash to be stale
      have hmem : GuardOp.cleanStart ∈ ops := by
        rw [hops]
        simp
      rw [carried, if_pos hmem, runSteps, List.foldl_append]
      rfl
  refine ⟨?_, ?_⟩
  · rw [hrun, hcount, hcarried, hts]
  · rw [hrun, hlast, htimes, List.getLast?_append_of_ne_nil _ (List.cons_ne_nil t ts),
      List.getLast?_eq_getLast_of_ne_nil (List.cons_ne_nil t ts)]

/-! ## Degraded mode -/

theorem sinceCleanStart_ne_nil {ts : List ℕ} (h : ts ≠ []) (ops : List GuardOp) :
    sinceCleanStart (ops ++ ts.map .crash) ≠ [] := by
  obtain ⟨ts', t, hts⟩ := List.eq_nil_or_concat' ts |>.resolve_left h
  rw [hts, List.map_append, List.map_singleton, ← List.append_assoc, sinceCleanStart_crash]
  exact List.append_ne_nil_of_right_ne_nil _ (List.cons_ne_nil t [])

theorem GatewayRun.EndsByCrash.since {run : GatewayRun} (h : run.EndsByCrash) (ops : List GuardOp) :
    sinceCleanStart (ops ++ run.ops) ≠ [] := by
  by_cases hafter : run.crashesAfter = []
  · obtain ⟨hclean, hbefore⟩ := h.resolve_left fun hne => hne hafter
    have hops : run.ops = run.crashesBefore.map .crash := by
      simp [GatewayRun.ops, hclean, hafter]
    rw [hops]
    exact sinceCleanStart_ne_nil hbefore ops
  · rw [GatewayRun.ops, ← List.append_assoc]
    exact sinceCleanStart_ne_nil hafter _

theorem CrashHistory.since {runs : List GatewayRun} {next : GatewayRun} (h : CrashHistory g runs next) :
    sinceCleanStart (historyOps runs) ≠ [] := by
  have hne : runs ≠ [] := by
    rintro rfl
    have hzero : g.threshold.toNat = 0 := h.length.symm
    exact h.threshold (UInt32.toNat_inj.mp hzero)
  obtain ⟨runs', run, hruns⟩ := List.eq_nil_or_concat' runs |>.resolve_left hne
  have hops : historyOps runs = historyOps runs' ++ run.ops := by
    rw [hruns, historyOps, List.flatMap_append, List.flatMap_singleton]
    rfl
  rw [hops]
  exact (h.ends run (by rw [hruns]; simp)).since _

/-- **After the crashes that the threshold asks for, the next run is degraded exactly if
enough of them were recorded since the last clean start.** -/
theorem degraded_iff {runs : List GatewayRun} {next : GatewayRun} (h : CrashHistory g runs next) (file : CrashFile) :
    (cmdGateway g (afterRuns g file runs) next).1 = true ↔ EnoughCrashes g file (historyOps runs) := by
  obtain ⟨hcount, hlast⟩ := ops_counted (g := g) file h.since h.close
  have hfresh : g.stale (afterRuns g file runs).loadState next.startedAt = false := by
    rw [afterRuns_eq]
    refine decide_eq_false ?_
    have := h.recent _ hlast.symm
    omega
  show g.check (afterRuns g file runs) next.startedAt = true ↔ _
  rw [EnoughCrashes, ← hcount, ← afterRuns_eq, StartupGuard.check, if_neg h.threshold]
  dsimp only
  rw [hfresh]
  have hlt := UInt32.lt_iff_toNat_lt (a := (afterRuns g file runs).loadState.consecutiveCrashes) (b := g.threshold)
  by_cases hbelow : (afterRuns g file runs).loadState.consecutiveCrashes < g.threshold
  · rw [if_pos hbelow]
    have := hlt.mp hbelow
    simp
    omega
  · rw [if_neg hbelow]
    have := mt hlt.mpr hbelow
    simp
    omega

/-- A run that starts and then crashes. -/
def startsAndCrashes (startedAt crashedAt : ℕ) : GatewayRun := ⟨startedAt, [], true, [crashedAt]⟩

theorem degraded_iff_one : (cmdGateway ⟨1, 60⟩ (afterRuns ⟨1, 60⟩ .absent [startsAndCrashes 100 110])
    (startsAndCrashes 120 130)).1 = true ↔ EnoughCrashes ⟨1, 60⟩ .absent (historyOps [startsAndCrashes 100 110]) := by
  refine degraded_iff ⟨by decide, rfl, ?_, ?_, ?_⟩ .absent
  · intro run hrun
    obtain rfl := List.mem_singleton.mp hrun
    exact .inl (List.cons_ne_nil 110 [])
  · exact List.isChain_singleton 110
  · intro t ht
    obtain rfl : 110 = t := Option.some.inj ht
    decide

/-- Two runs crash, one after the other, and the threshold is two. -/
theorem degraded_missed : ¬ ∀ (g : StartupGuard) (file : CrashFile) (runs : List GatewayRun) (next : GatewayRun),
    CrashHistory g runs next → (cmdGateway g (afterRuns g file runs) next).1 = true := by
  intro hall
  have h := hall ⟨2, 60⟩ .absent [startsAndCrashes 100 110, startsAndCrashes 120 130] (startsAndCrashes 140 150)
  refine absurd (h ⟨by decide, rfl, ?_, ?_, ?_⟩) (by decide)
  · intro run hrun
    obtain rfl | hrun := List.mem_cons.mp hrun
    · exact .inl (List.cons_ne_nil 110 [])
    · obtain rfl := List.mem_singleton.mp hrun
      exact .inl (List.cons_ne_nil 130 [])
  · exact List.isChain_cons_cons.mpr ⟨by decide, List.isChain_singleton 130⟩
  · intro t ht
    obtain rfl : 130 = t := Option.some.inj ht
    decide

end Zeptoclaw

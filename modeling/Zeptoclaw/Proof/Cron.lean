import Zeptoclaw.Lib.Run
import Zeptoclaw.Proof.CronSearch
import Zeptoclaw.Spec.CronRun

/-!
# What a tick does to the jobs

The next run of a job is later than the time it is computed from, as long as the times are far
from the end of the `i64`. A tick changes the jobs it has dispatched and, apart from one-shot jobs
that are done, no other; over the loop of ticks no one-shot job is dispatched again.
-/

namespace Zeptoclaw

variable {cal : Calendar}

/-! ## Times -/

/-- A time, or an interval, far from the ends of the `i64`. -/
def SmallTime (t : ℤ) : Prop := -(2 ^ 62) ≤ t ∧ t < 2 ^ 62

def CronSchedule.Small : CronSchedule → Prop
  | .every everyMs => SmallTime everyMs
  | _ => True

theorem wrapI64_of_lt {x : ℤ} (hlo : -(2 ^ 63) ≤ x) (hhi : x < 2 ^ 63) : wrapI64 x = x := by
  unfold wrapI64
  apply Int.bmod_eq_of_le <;> omega

/-- A next run is later than the time it is computed from. -/
theorem nextRunAt_gt {schedule : CronSchedule} {now n : ℤ} (hnow : SmallTime now) (hsmall : schedule.Small)
    (h : nextRunAt cal schedule now = some n) : now < n := by
  have hchecked : cal.nextRunAt schedule now = some (some n) := by
    unfold nextRunAt at h
    cases hrun : cal.nextRunAt schedule now with
    | none => rw [hrun] at h; cases h
    | some run => rw [hrun] at h; exact congrArg some h
  obtain ⟨hlo, hhi⟩ := hnow
  cases schedule with
  | «at» atMs =>
    have hat : (if now < atMs then some atMs else none) = some n := Option.some.inj hchecked
    split at hat
    · cases hat
      assumption
    · cases hat
  | every everyMs =>
    obtain ⟨hslo, hshi⟩ : SmallTime everyMs := hsmall
    have hevery : (if 0 < everyMs then some (wrapI64 (now + everyMs)) else none) = some n := Option.some.inj hchecked
    split at hevery
    · cases hevery
      rw [wrapI64_of_lt (by omega) (by omega)]
      omega
    · cases hevery
  | cron expr => exact Calendar.nextRunFromCronExpr_gt hchecked

theorem errorBackoffMs_bounds {errors : ℕ} (h : 0 < errors) : 0 < errorBackoffMs errors ∧ errorBackoffMs errors ≤ 3600000 := by
  unfold errorBackoffMs
  rw [if_neg (by omega)]
  have hidx : min (errors - 1) (errorBackoffScheduleMs.length - 1) < 5 := by
    have : errorBackoffScheduleMs.length = 5 := rfl
    omega
  generalize min (errors - 1) (errorBackoffScheduleMs.length - 1) = i at hidx
  match i, hidx with
  | 0, _ | 1, _ | 2, _ | 3, _ | 4, _ => decide

theorem nextAfterError_ge {schedule : CronSchedule} {errors : ℕ} {endedAt : ℤ} (hend : SmallTime endedAt)
    (herrors : 0 < errors) : endedAt + errorBackoffMs errors ≤ nextAfterError cal schedule errors endedAt := by
  obtain ⟨hlo, hhi⟩ := hend
  have hback := errorBackoffMs_bounds herrors
  unfold nextAfterError
  dsimp only
  rw [wrapI64_of_lt (by omega) (by omega)]
  exact Int.le_max_right _ _

/-! ## The results of a dispatch -/

theorem finishJob_id (r : DispatchResult) (job : CronJob) : (finishJob cal r job).id = job.id := by
  unfold finishJob
  dsimp only
  split <;> rfl

theorem finishJob_schedule (r : DispatchResult) (job : CronJob) : (finishJob cal r job).schedule = job.schedule := by
  unfold finishJob
  dsimp only
  split <;> simp_all

/-- A one-shot job is done, whatever came of it. -/
theorem finishJob_at {job : CronJob} (h : isAt job = true) (r : DispatchResult) :
    (finishJob cal r job).enabled = false := by
  unfold isAt at h
  unfold finishJob
  dsimp only
  split
  · rfl
  · rename_i hne
    split at h
    · rename_i t heq
      exact absurd heq (hne t)
    · cases h

/-- A recurring job after a dispatch that went well. -/
theorem finishJob_next_ok {job : CronJob} {r : DispatchResult} (h : isAt job = false) (hok : r.ok = true) :
    (finishJob cal r job).state.nextRunAtMs = nextRunAt cal job.schedule r.endedAt := by
  unfold isAt at h
  unfold finishJob
  dsimp only
  split
  · rename_i t heq
    rw [heq] at h
    cases h
  · rw [if_pos hok]

/-- A recurring job after a dispatch that failed. -/
theorem finishJob_next_error {job : CronJob} {r : DispatchResult} (h : isAt job = false) (hok : r.ok = false) :
    (finishJob cal r job).state.nextRunAtMs =
        some (nextAfterError cal job.schedule (finishJob cal r job).state.consecutiveErrors r.endedAt) ∧
      0 < (finishJob cal r job).state.consecutiveErrors := by
  have hpos : 0 < min (job.state.consecutiveErrors + 1) u32Max := by
    have : u32Max = 4294967295 := rfl
    omega
  have hne : ¬ r.ok = true := by rw [hok]; decide
  unfold isAt at h
  unfold finishJob
  dsimp only
  split
  · rename_i t heq
    rw [heq] at h
    cases h
  · dsimp only
    rw [if_neg hne, if_neg hne]
    exact ⟨rfl, hpos⟩

/-- The backoff is kept. -/
theorem finishJob_next_error_ge {job : CronJob} {r : DispatchResult} (h : isAt job = false) (hok : r.ok = false)
    (hend : SmallTime r.endedAt) : ∃ n, (finishJob cal r job).state.nextRunAtMs = some n ∧ r.endedAt < n ∧
      r.endedAt + errorBackoffMs (finishJob cal r job).state.consecutiveErrors ≤ n := by
  obtain ⟨hnext, hpos⟩ : (finishJob cal r job).state.nextRunAtMs = some (nextAfterError cal job.schedule
      (finishJob cal r job).state.consecutiveErrors r.endedAt) ∧ 0 < (finishJob cal r job).state.consecutiveErrors :=
    finishJob_next_error h hok
  have hge : r.endedAt + errorBackoffMs (finishJob cal r job).state.consecutiveErrors ≤
      nextAfterError cal job.schedule (finishJob cal r job).state.consecutiveErrors r.endedAt :=
    nextAfterError_ge hend hpos
  have hback := errorBackoffMs_bounds hpos
  exact ⟨_, hnext, by omega, hge⟩

/-- Every next run of a job that was dispatched is later than the end of its dispatch. -/
theorem finishJob_next_gt {job : CronJob} {r : DispatchResult} (hend : SmallTime r.endedAt) (hsmall : job.schedule.Small)
    (henabled : (finishJob cal r job).enabled = true) {n : ℤ} (hn : (finishJob cal r job).state.nextRunAtMs = some n) :
    r.endedAt < n := by
  have hat : isAt job = false := by
    by_contra hne
    have hat : isAt job = true := by simpa using hne
    rw [finishJob_at hat] at henabled
    cases henabled
  cases hok : r.ok with
  | true =>
    rw [finishJob_next_ok hat hok] at hn
    exact nextRunAt_gt hend hsmall hn
  | false =>
    obtain ⟨n', hnext, hlt, -⟩ := finishJob_next_error_ge hat hok hend
    rw [hnext] at hn
    cases hn
    exact hlt

/-! ## The merge -/

/-- The identifiers of the jobs are distinct. -/
def CronStore.DistinctIds (store : CronStore) : Prop := (store.jobs.map CronJob.id).Nodup

/-- A job with its result, if it has one. -/
def settleJob (cal : Calendar) (results : List DispatchResult) (job : CronJob) : CronJob :=
  match results.find? fun r => decide (r.jobId = job.id) with
  | some r => finishJob cal r job
  | none => job

theorem settleJob_id (results : List DispatchResult) (job : CronJob) : (settleJob cal results job).id = job.id := by
  unfold settleJob
  split
  · exact finishJob_id _ job
  · rfl

theorem settleJob_schedule (results : List DispatchResult) (job : CronJob) :
    (settleJob cal results job).schedule = job.schedule := by
  unfold settleJob
  split
  · exact finishJob_schedule _ job
  · rfl

theorem updateFirst_eq_map {jobId : Str} {f : CronJob → CronJob} : ∀ {jobs : List CronJob},
    (jobs.map CronJob.id).Nodup → updateFirst jobId f jobs = jobs.map fun job => if job.id = jobId then f job else job := by
  intro jobs
  induction jobs with
  | nil => exact fun _ => rfl
  | cons job jobs ih =>
    intro hnodup
    rw [List.map_cons, List.nodup_cons] at hnodup
    rw [updateFirst, List.map_cons]
    split
    · rename_i hid
      -- no other job has the identifier
      have hothers : ∀ other ∈ jobs, (if other.id = jobId then f other else other) = other := by
        intro other hmem
        rw [if_neg]
        intro heq
        apply hnodup.1
        rw [hid, ← heq]
        exact List.mem_map_of_mem hmem
      rw [List.map_congr_left hothers, List.map_id']
    · rw [ih hnodup.2]

theorem map_settleJob_id (results : List DispatchResult) (jobs : List CronJob) :
    (jobs.map (settleJob cal results)).map CronJob.id = jobs.map CronJob.id := by
  rw [List.map_map]
  apply List.map_congr_left
  intro job _
  exact settleJob_id results job

/-- **The results of a tick, job by job.** -/
theorem foldl_applyResult_jobs : ∀ {results : List DispatchResult} {store : CronStore},
    (results.map DispatchResult.jobId).Nodup → store.DistinctIds →
    (results.foldl (CronStore.applyResult cal) store).jobs = store.jobs.map (settleJob cal results) := by
  intro results
  induction results with
  | nil =>
    intro store _ _
    exact (List.map_id store.jobs).symm
  | cons r results ih =>
    intro store hresults hstore
    rw [List.map_cons, List.nodup_cons] at hresults
    have hfirst : (store.applyResult cal r).jobs =
        store.jobs.map fun job => if job.id = r.jobId then finishJob cal r job else job := updateFirst_eq_map hstore
    have hids : (store.applyResult cal r).DistinctIds := by
      unfold CronStore.DistinctIds
      rw [hfirst, List.map_map]
      have hsame : store.jobs.map (CronJob.id ∘ fun job => if job.id = r.jobId then finishJob cal r job else job) =
          store.jobs.map CronJob.id := by
        apply List.map_congr_left
        intro job _
        show (if job.id = r.jobId then finishJob cal r job else job).id = job.id
        split
        · exact finishJob_id r job
        · rfl
      rw [hsame]
      exact hstore
    rw [List.foldl_cons, ih hresults.2 hids, hfirst, List.map_map]
    apply List.map_congr_left
    intro job _
    show settleJob cal results (if job.id = r.jobId then finishJob cal r job else job) = settleJob cal (r :: results) job
    unfold settleJob
    rw [List.find?_cons]
    by_cases hid : job.id = r.jobId
    · -- the results behind are of other jobs
      have hnone : results.find? (fun r' => decide (r'.jobId = (finishJob cal r job).id)) = none := by
        rw [List.find?_eq_none]
        intro r' hr' heq
        apply hresults.1
        rw [finishJob_id, hid, decide_eq_true_eq] at heq
        rw [← heq]
        exact List.mem_map_of_mem hr'
      rw [if_pos hid, hnone, decide_eq_true hid.symm]
    · rw [if_neg hid, decide_eq_false (Ne.symm hid)]

theorem merge_jobs {results : List DispatchResult} {store : CronStore} (hresults : (results.map DispatchResult.jobId).Nodup)
    (hstore : store.DistinctIds) : (store.merge cal results).jobs =
      (store.jobs.map (settleJob cal results)).filter fun job => !isFinishedOneShot job := by
  unfold CronStore.merge
  dsimp only
  rw [foldl_applyResult_jobs hresults hstore]

end Zeptoclaw

import Zeptoclaw.Proof.Cron
import Mathlib.Data.List.Nodup

/-!
# The loop of ticks

The jobs a tick dispatches are those of a copy; its results are merged into a store that was edited
meanwhile. Identifiers are not used twice.
-/

namespace Zeptoclaw

variable {cal : Calendar} {store : CronStore} {send : CronJob → Sent}

/-! ## Edits -/

/-- The identifier of a job that is added is new: neither in the store nor among those that were used. -/
def FreshEdit (used : List Str) (store : CronStore) : StoreEdit → Prop
  | .add job => job.id ∉ store.jobs.map CronJob.id ∧ job.id ∉ used
  | .remove _ => True

/-- Identifiers are not used twice. -/
def FreshEvent (s : CronLoop) : LoopEvent → Prop
  | .edit e => FreshEdit s.fired s.store e
  | .tick now _ edits =>
    StepsMeet CronStore.edit (FreshEdit (s.fired ++ (dueJobs now s.store).map CronJob.id)) s.store edits

theorem edit_distinctIds {used : List Str} {e : StoreEdit} (h : store.DistinctIds) (he : FreshEdit used store e) :
    (store.edit e).DistinctIds := by
  cases e with
  | add job =>
    unfold CronStore.DistinctIds at h ⊢
    show ((store.jobs ++ [job]).map CronJob.id).Nodup
    rw [List.map_append, List.nodup_append]
    refine ⟨h, List.nodup_singleton _, ?_⟩
    intro id hid id' hid' heq
    rw [List.map_singleton, List.mem_singleton] at hid'
    apply he.1
    rw [← hid', ← heq]
    exact hid
  | remove jobId =>
    have hsub : (store.edit (.remove jobId)).jobs.Sublist store.jobs := List.filter_sublist
    exact h.sublist (hsub.map CronJob.id)

/-- A job of the edited store was there before, or has a new identifier. -/
theorem edit_mem {used : List Str} {e : StoreEdit} (he : FreshEdit used store e) {job : CronJob}
    (hjob : job ∈ (store.edit e).jobs) : job ∈ store.jobs ∨ job.id ∉ used := by
  cases e with
  | add added =>
    have hjob : job ∈ store.jobs ++ [added] := hjob
    rcases List.mem_append.mp hjob with hold | hnew
    · exact .inl hold
    · rw [List.mem_singleton] at hnew
      subst hnew
      exact .inr he.2
  | remove jobId => exact .inl (List.mem_filter.mp hjob).1

theorem edits_distinctIds {used : List Str} {edits : List StoreEdit} (h : store.DistinctIds)
    (hmeet : StepsMeet CronStore.edit (FreshEdit used) store edits) :
    (edits.foldl CronStore.edit store).DistinctIds :=
  run_invariant (fun _ _ hids he => edit_distinctIds hids he) edits store h hmeet

theorem edits_mem {used : List Str} {edits : List StoreEdit}
    (hmeet : StepsMeet CronStore.edit (FreshEdit used) store edits) {job : CronJob}
    (hjob : job ∈ (edits.foldl CronStore.edit store).jobs) : job ∈ store.jobs ∨ job.id ∉ used := by
  have hstep : ∀ st e, (∀ j ∈ (st : CronStore).jobs, j ∈ store.jobs ∨ j.id ∉ used) → FreshEdit used st e →
      ∀ j ∈ (st.edit e).jobs, j ∈ store.jobs ∨ j.id ∉ used := by
    intro st e hinv he j hj
    rcases edit_mem he hj with hold | hnew
    · exact hinv j hold
    · exact .inr hnew
  exact run_invariant hstep edits store (fun j hj => .inl hj) hmeet job hjob

/-! ## The dispatches -/

/-- The result of the dispatch of a job. -/
def resultOf (send : CronJob → Sent) (job : CronJob) : DispatchResult :=
  dispatchResult job (send job).result (send job).startedAt (send job).endedAt

theorem resultOf_jobId (job : CronJob) : (resultOf send job).jobId = job.id := by
  unfold resultOf dispatchResult
  split <;> rfl

theorem dispatchAll_ids (send : CronJob → Sent) (due : List CronJob) :
    (dispatchAll send due).map DispatchResult.jobId = due.map CronJob.id := by
  unfold dispatchAll
  rw [List.map_map]
  apply List.map_congr_left
  intro job _
  exact resultOf_jobId job

theorem dueJobs_distinct (h : store.DistinctIds) (now : ℤ) : ((dueJobs now store).map CronJob.id).Nodup := by
  have hsub : (dueJobs now store).Sublist store.jobs := List.filter_sublist
  exact h.sublist (hsub.map CronJob.id)

theorem dispatchAll_distinct (h : store.DistinctIds) (send : CronJob → Sent) (now : ℤ) :
    ((dispatchAll send (dueJobs now store)).map DispatchResult.jobId).Nodup := by
  rw [dispatchAll_ids]
  exact dueJobs_distinct h now

/-- The job of an identifier. -/
theorem eq_of_id_eq (h : store.DistinctIds) {a b : CronJob} (ha : a ∈ store.jobs) (hb : b ∈ store.jobs)
    (hid : a.id = b.id) : a = b := List.inj_on_of_nodup_map h ha hb hid

theorem resultOf_endedAt (job : CronJob) : (resultOf send job).endedAt = (send job).endedAt := by
  unfold resultOf dispatchResult
  split <;> rfl

theorem resultOf_ok (job : CronJob) : (resultOf send job).ok = decide ((send job).result = .delivered) := by
  unfold resultOf dispatchResult
  split <;> simp_all

theorem find?_dispatchAll {id : Str} : ∀ {due : List CronJob}, (due.map CronJob.id).Nodup → ∀ {d : CronJob}, d ∈ due →
    d.id = id → (dispatchAll send due).find? (fun r => decide (r.jobId = id)) = some (resultOf send d) := by
  intro due
  induction due with
  | nil => intro _ d hd; cases hd
  | cons first due ih =>
    intro hnodup d hd hid
    rw [List.map_cons, List.nodup_cons] at hnodup
    show ((resultOf send first) :: dispatchAll send due).find? _ = _
    rw [List.find?_cons, resultOf_jobId]
    rcases List.mem_cons.mp hd with rfl | hmem
    · rw [decide_eq_true hid]
    · have hne : first.id ≠ id := by
        intro heq
        apply hnodup.1
        rw [heq, ← hid]
        exact List.mem_map_of_mem hmem
      rw [decide_eq_false hne]
      exact ih hnodup.2 hmem hid

/-- A job that was dispatched has the result of its dispatch. -/
theorem settleJob_due {due : List CronJob} (hnodup : (due.map CronJob.id).Nodup) {d job : CronJob} (hd : d ∈ due)
    (hid : d.id = job.id) : settleJob cal (dispatchAll send due) job = finishJob cal (resultOf send d) job := by
  unfold settleJob
  rw [find?_dispatchAll hnodup hd hid]

theorem settleJob_not_due {due : List CronJob} {job : CronJob} (hid : job.id ∉ due.map CronJob.id) :
    settleJob cal (dispatchAll send due) job = job := by
  have hnone : (dispatchAll send due).find? (fun r => decide (r.jobId = job.id)) = none := by
    rw [List.find?_eq_none]
    intro r hr heq
    rw [decide_eq_true_eq] at heq
    apply hid
    rw [← dispatchAll_ids send, ← heq]
    exact List.mem_map_of_mem hr
  unfold settleJob
  rw [hnone]

/-! ## One tick -/

section Tick

variable {now : ℤ} {edits : List StoreEdit} {used : List Str}

/-- The jobs after a tick are those of the edited store with their results, without some that are done. -/
theorem tick_jobs_sublist (hstore : store.DistinctIds) (hedited : (edits.foldl CronStore.edit store).DistinctIds) :
    (store.tick cal now send edits).jobs.Sublist
      ((edits.foldl CronStore.edit store).jobs.map (settleJob cal (dispatchAll send (dueJobs now store)))) := by
  have hresults := dispatchAll_distinct hstore send now
  unfold CronStore.tick
  split
  · rename_i hnone
    have hsame : settleJob cal (dispatchAll send (dueJobs now store)) = id := by
      rw [hnone]
      rfl
    rw [hsame, List.map_id]
  · rw [merge_jobs hresults hedited]
    exact List.filter_sublist

theorem tick_old (hstore : store.DistinctIds) (hedited : (edits.foldl CronStore.edit store).DistinctIds) {job : CronJob}
    (hjob : job ∈ (store.tick cal now send edits).jobs) : ∃ old ∈ (edits.foldl CronStore.edit store).jobs,
      settleJob cal (dispatchAll send (dueJobs now store)) old = job :=
  List.mem_map.mp ((tick_jobs_sublist hstore hedited).subset hjob)

/-- A job that was not due stays as it is, unless it is done. -/
theorem tick_not_due (hstore : store.DistinctIds) (hedited : (edits.foldl CronStore.edit store).DistinctIds) {job : CronJob}
    (hjob : job ∈ (edits.foldl CronStore.edit store).jobs) (hdue : job.id ∉ (dueJobs now store).map CronJob.id)
    (hopen : isFinishedOneShot job = false) : job ∈ (store.tick cal now send edits).jobs := by
  have hresults := dispatchAll_distinct hstore send now
  unfold CronStore.tick
  split
  · exact hjob
  · rw [merge_jobs hresults hedited, List.mem_filter, List.mem_map]
    exact ⟨⟨job, hjob, settleJob_not_due hdue⟩, by rw [hopen]; rfl⟩

/-- The jobs a tick has dispatched and still finds are those of its copy. -/
theorem eq_of_due (hstore : store.DistinctIds)
    (hmeet : StepsMeet CronStore.edit (FreshEdit (used ++ (dueJobs now store).map CronJob.id)) store edits)
    {old d : CronJob} (hold : old ∈ (edits.foldl CronStore.edit store).jobs) (hd : d ∈ dueJobs now store)
    (hid : old.id = d.id) : old = d := by
  have hdmem : d ∈ store.jobs := (List.mem_filter.mp hd).1
  rcases edits_mem hmeet hold with hmem | hnew
  · exact eq_of_id_eq hstore hmem hdmem hid
  · exfalso
    apply hnew
    rw [hid]
    exact List.mem_append_right _ (List.mem_map_of_mem hd)

/-- A job with an identifier that was dispatched, after the tick. -/
theorem tick_dispatched (hstore : store.DistinctIds)
    (hmeet : StepsMeet CronStore.edit (FreshEdit (used ++ (dueJobs now store).map CronJob.id)) store edits)
    {job d : CronJob} (hjob : job ∈ (store.tick cal now send edits).jobs) (hd : d ∈ dueJobs now store)
    (hid : job.id = d.id) : job = finishJob cal (resultOf send d) d := by
  obtain ⟨old, hold, rfl⟩ := tick_old hstore (edits_distinctIds hstore hmeet) hjob
  rw [settleJob_id] at hid
  obtain rfl := eq_of_due hstore hmeet hold hd hid
  rw [settleJob_due (dueJobs_distinct hstore now) hd rfl]

end Tick

/-! ## The loop -/

/-- Jobs have distinct identifiers, and a one-shot job that was dispatched is not enabled. -/
structure LoopOk (s : CronLoop) : Prop where
  distinct : s.store.DistinctIds
  done : ∀ job ∈ s.store.jobs, job.id ∈ s.fired → job.enabled = false

theorem isDue_enabled {now : ℤ} {job : CronJob} (h : isDue now job = true) : job.enabled = true :=
  (Bool.and_eq_true_iff.mp h).1

theorem step_loopOk {s : CronLoop} {e : LoopEvent} (h : LoopOk s) (he : FreshEvent s e) : LoopOk (s.step cal e) := by
  cases e with
  | edit e =>
    refine ⟨edit_distinctIds h.distinct he, ?_⟩
    intro job hjob hfired
    rcases edit_mem he hjob with hmem | hnew
    · exact h.done job hmem hfired
    · exact absurd hfired hnew
  | tick now send edits =>
    have hedited := edits_distinctIds h.distinct he
    refine ⟨?_, ?_⟩
    · have hall : (((edits.foldl CronStore.edit s.store).jobs.map
          (settleJob cal (dispatchAll send (dueJobs now s.store)))).map CronJob.id).Nodup := by
        rw [map_settleJob_id]
        exact hedited
      exact hall.sublist ((tick_jobs_sublist h.distinct hedited).map CronJob.id)
    · intro job hjob hfired
      have hjob : job ∈ (s.store.tick cal now send edits).jobs := hjob
      have hfired : job.id ∈ s.fired ++ ((dueJobs now s.store).filter isAt).map CronJob.id := hfired
      by_cases hdue : job.id ∈ (dueJobs now s.store).map CronJob.id
      · obtain ⟨d, hd, hid⟩ := List.mem_map.mp hdue
        have hdue := List.mem_filter.mp hd
        rw [tick_dispatched h.distinct he hjob hd hid.symm]
        -- only a one-shot job can have been dispatched before and be due
        have hat : isAt d = true := by
          rcases List.mem_append.mp hfired with hold | hnew
          · have hoff := h.done d hdue.1 (by rw [hid]; exact hold)
            rw [isDue_enabled hdue.2] at hoff
            cases hoff
          · obtain ⟨d', hd', hid'⟩ := List.mem_map.mp hnew
            obtain ⟨hd', hat⟩ := List.mem_filter.mp hd'
            rw [eq_of_id_eq h.distinct hdue.1 (List.mem_filter.mp hd').1 (hid.trans hid'.symm)]
            exact hat
        exact finishJob_at hat _
      · obtain ⟨old, hold, hsettle⟩ := tick_old h.distinct hedited hjob
        have hid : old.id = job.id := by rw [← hsettle, settleJob_id]
        have hsame : old = job := by
          rw [← hsettle, settleJob_not_due (by rw [hid]; exact hdue)]
        subst hsame
        rcases List.mem_append.mp hfired with hfired | hnew
        · rcases edits_mem he hold with hmem | hused
          · exact h.done old hmem hfired
          · exact absurd (List.mem_append_left _ hfired) hused
        · exfalso
          apply hdue
          obtain ⟨d, hd, hid'⟩ := List.mem_map.mp hnew
          rw [← hid']
          exact List.mem_map_of_mem (List.mem_filter.mp hd).1

theorem run_loopOk {s : CronLoop} (hdistinct : s.store.DistinctIds) (hfired : s.fired = []) {events : List LoopEvent}
    (hevents : StepsMeet (CronLoop.step cal) FreshEvent s events) : LoopOk (runSteps (CronLoop.step cal) s events) := by
  have hstart : LoopOk s := by
    refine ⟨hdistinct, ?_⟩
    intro job _ hmem
    rw [hfired] at hmem
    cases hmem
  exact run_invariant (fun _ _ hs he => step_loopOk hs he) events s hstart hevents

/-- A recurring job after its dispatch. -/
theorem tick_recurring {now : ℤ} {edits : List StoreEdit} {used : List Str} (hstore : store.DistinctIds)
    (hmeet : StepsMeet CronStore.edit (FreshEdit (used ++ (dueJobs now store).map CronJob.id)) store edits)
    {d job : CronJob} (hd : d ∈ dueJobs now store) (hat : isAt d = false) (hend : SmallTime (send d).endedAt)
    (hsmall : d.schedule.Small) (hjob : job ∈ (store.tick cal now send edits).jobs) (hid : job.id = d.id) :
    ((send d).result = .delivered → job.state.nextRunAtMs = nextRunAt cal d.schedule (send d).endedAt ∧
      ∀ n, job.state.nextRunAtMs = some n → (send d).endedAt < n) ∧
    ((send d).result ≠ .delivered → ∃ n, job.state.nextRunAtMs = some n ∧ (send d).endedAt < n ∧
      (send d).endedAt + errorBackoffMs job.state.consecutiveErrors ≤ n) := by
  have hresult := tick_dispatched hstore hmeet hjob hd hid
  have hendedAt : (resultOf send d).endedAt = (send d).endedAt := resultOf_endedAt d
  have hok : (resultOf send d).ok = decide ((send d).result = .delivered) := resultOf_ok d
  subst hresult
  constructor
  · intro hdelivered
    rw [hdelivered] at hok
    have hnext : (finishJob cal (resultOf send d) d).state.nextRunAtMs = nextRunAt cal d.schedule (send d).endedAt := by
      rw [finishJob_next_ok hat hok, hendedAt]
    refine ⟨hnext, ?_⟩
    intro n hn
    rw [hnext] at hn
    exact nextRunAt_gt hend hsmall hn
  · intro hfailed
    rw [decide_eq_false hfailed] at hok
    rw [← hendedAt] at hend ⊢
    exact finishJob_next_error_ge hat hok hend

/-- **Every tick of every run of the loop**, for jobs with distinct and new identifiers and times far from
the end of the `i64`: a one-shot job it dispatches was not dispatched before; a recurring job it
dispatched has no next run, if its schedule has none after a dispatch that went well, or one after
the end of its own dispatch, and at least the backoff after it if it failed; a job that was not
due is unchanged, unless it is a one-shot job that is done; a job that was removed meanwhile is not
there again. -/
theorem tick_progress {s : CronLoop} (hdistinct : s.store.DistinctIds) (hfired : s.fired = []) {events : List LoopEvent}
    (hevents : StepsMeet (CronLoop.step cal) FreshEvent s events) {now : ℤ} {send : CronJob → Sent} {edits : List StoreEdit}
    (htick : FreshEvent (runSteps (CronLoop.step cal) s events) (.tick now send edits))
    (hsmall : ∀ d ∈ dueJobs now (runSteps (CronLoop.step cal) s events).store,
      SmallTime (send d).endedAt ∧ d.schedule.Small) :
    let store := (runSteps (CronLoop.step cal) s events).store
    let edited := edits.foldl CronStore.edit store
    let after := store.tick cal now send edits
    (∀ d ∈ dueJobs now store, isAt d = true → d.id ∉ (runSteps (CronLoop.step cal) s events).fired) ∧
    (∀ d ∈ dueJobs now store, isAt d = false → ∀ job ∈ after.jobs, job.id = d.id →
      ((send d).result = .delivered → job.state.nextRunAtMs = nextRunAt cal d.schedule (send d).endedAt ∧
        ∀ n, job.state.nextRunAtMs = some n → (send d).endedAt < n) ∧
      ((send d).result ≠ .delivered → ∃ n, job.state.nextRunAtMs = some n ∧ (send d).endedAt < n ∧
        (send d).endedAt + errorBackoffMs job.state.consecutiveErrors ≤ n)) ∧
    (∀ job ∈ edited.jobs, job.id ∉ (dueJobs now store).map CronJob.id → isFinishedOneShot job = false →
      job ∈ after.jobs) ∧
    ∀ job ∈ after.jobs, job.id ∈ edited.jobs.map CronJob.id := by
  have hok := run_loopOk hdistinct hfired hevents
  have hedited := edits_distinctIds hok.distinct htick
  refine ⟨?_, ?_, ?_, ?_⟩
  · intro d hd _ hmem
    obtain ⟨hdmem, hdue⟩ := List.mem_filter.mp hd
    have hoff := hok.done d hdmem hmem
    rw [isDue_enabled hdue] at hoff
    cases hoff
  · intro d hd hat job hjob hid
    obtain ⟨hend, hschedule⟩ := hsmall d hd
    exact tick_recurring hok.distinct htick hd hat hend hschedule hjob hid
  · intro job hjob hdue hopen
    exact tick_not_due hok.distinct hedited hjob hdue hopen
  · intro job hjob
    obtain ⟨old, hold, rfl⟩ := tick_old hok.distinct hedited hjob
    rw [settleJob_id]
    exact List.mem_map_of_mem hold

/-- A calendar in which no time has a date. -/
def noCalendar : Calendar := ⟨fun _ => false, fun _ => 0, fun _ => 0, fun _ => 0, fun _ => 0, fun _ => 0⟩

/-- A job that runs every so many milliseconds. -/
def everyJob (id : Str) (everyMs next : ℤ) : CronJob :=
  { id, name := "poll".toList, enabled := true, schedule := .every everyMs,
    payload := ⟨"check".toList, "cli".toList, "cli".toList⟩, state := { nextRunAtMs := some next }, createdAtMs := 0,
    updatedAtMs := 0, deleteAfterRun := false, timeoutSecs := none }

def pollStore : CronStore := ⟨1, [everyJob "a".toList 50 1000]⟩

def timeOut (_ : CronJob) : Sent := ⟨.timedOut, 1000, 1010⟩

/-- A job whose dispatch failed waits for the backoff. -/
theorem tick_progress_failed : pollStore.DistinctIds ∧ ∀ job ∈ (pollStore.tick noCalendar 1000 timeOut []).jobs,
    ∃ n, job.state.nextRunAtMs = some n ∧ 1010 + errorBackoffMs job.state.consecutiveErrors ≤ n := by
  have hdistinct : pollStore.DistinctIds := List.nodup_singleton _
  have hevents : StepsMeet (CronLoop.step noCalendar) FreshEvent ⟨pollStore, []⟩ [] := trivial
  have htick : FreshEvent (runSteps (CronLoop.step noCalendar) ⟨pollStore, []⟩ []) (.tick 1000 timeOut []) := trivial
  have hdue : dueJobs 1000 pollStore = [everyJob "a".toList 50 1000] := by decide
  have hsmall : ∀ d ∈ dueJobs 1000 (runSteps (CronLoop.step noCalendar) ⟨pollStore, []⟩ []).store,
      SmallTime (timeOut d).endedAt ∧ d.schedule.Small := by
    intro d hd
    have hd : d ∈ dueJobs 1000 pollStore := hd
    rw [hdue, List.mem_singleton] at hd
    subst hd
    refine ⟨⟨?_, ?_⟩, ?_, ?_⟩ <;> decide
  obtain ⟨-, hrecurring, -, hids⟩ := tick_progress hdistinct rfl hevents htick hsmall
  refine ⟨hdistinct, ?_⟩
  intro job hjob
  have hmem : everyJob "a".toList 50 1000 ∈ dueJobs 1000 pollStore := by rw [hdue]; exact List.mem_singleton_self _
  have hids : job.id ∈ ["a".toList] := hids job hjob
  have hid : job.id = "a".toList := List.mem_singleton.mp hids
  obtain ⟨-, hfailed⟩ := hrecurring _ hmem rfl job hjob hid
  obtain ⟨n, hn, -, hge⟩ := hfailed SendResult.noConfusion
  exact ⟨n, hn, hge⟩

/-- Two dispatches, of which the second takes its time. -/
def slowSecond (job : CronJob) : Sent :=
  if job.id = "a".toList then ⟨.delivered, 1000, 1010⟩ else ⟨.delivered, 1010, 6000⟩

/-- A one-shot job that is done and was not deleted yet. -/
def doneJob : CronJob :=
  { everyJob "c".toList 50 1000 with
    enabled := false, schedule := .at 500, deleteAfterRun := true,
    state := { nextRunAtMs := none, lastStatus := some "ok".toList } }

/-- The next run is after the dispatch of the job, not after the tick; a job without a later run has none; a one-shot
job that is done goes with the next tick, though it was not due; and of two jobs with one identifier the second
stays due. -/
theorem tick_end_later :
    (let store : CronStore := ⟨1, [everyJob "a".toList 50 1000, everyJob "b".toList 50 1000]⟩;
      ¬ ∀ job ∈ (store.tick noCalendar 1000 slowSecond []).jobs, job.id ∈ (dueJobs 1000 store).map CronJob.id →
        isAt job = false → ∃ n, job.state.nextRunAtMs = some n ∧ ∀ d ∈ dueJobs 1000 store, (slowSecond d).endedAt < n) ∧
    (∃ job ∈ ((⟨1, [everyJob "a".toList 0 1000]⟩ : CronStore).tick noCalendar 1000 slowSecond []).jobs,
      job.state.nextRunAtMs = none) ∧
    (isDue 1000 doneJob = false ∧
      doneJob ∉ ((⟨1, [everyJob "a".toList 50 1000, doneJob]⟩ : CronStore).tick noCalendar 1000 slowSecond []).jobs) ∧
    everyJob "a".toList 60 1000 ∈ ((⟨1, [everyJob "a".toList 50 1000, everyJob "a".toList 60 1000]⟩ : CronStore).tick
      noCalendar 1000 slowSecond []).jobs := by
  refine ⟨?_, by decide +kernel, by decide +kernel, by decide +kernel⟩
  intro store h
  have hdue : dueJobs 1000 store = [everyJob "a".toList 50 1000, everyJob "b".toList 50 1000] := by decide
  have hjob : finishJob noCalendar (resultOf slowSecond (everyJob "a".toList 50 1000)) (everyJob "a".toList 50 1000) ∈
      (store.tick noCalendar 1000 slowSecond []).jobs := by decide +kernel
  obtain ⟨n, hn, hlate⟩ := h _ hjob (by decide +kernel) rfl
  have hn : some (1060 : ℤ) = some n := hn
  have hend : (6000 : ℤ) < n := hlate (everyJob "b".toList 50 1000) (by rw [hdue]; simp)
  cases hn
  omega

end Zeptoclaw

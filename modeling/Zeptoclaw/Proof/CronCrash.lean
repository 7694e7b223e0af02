import Zeptoclaw.Proof.CronTick

/-!
# Occurrences across a crash

A message is put on the bus before the store says so in its file. An occurrence is not sent twice
if the process stops only when the file knows of all that was sent; the guard against a second
dispatch reads what the same late save would have written.
-/

namespace Zeptoclaw

variable {cal : Calendar}

namespace CronSystem

/-- The occurrences on the bus. -/
def sent (bus : List Delivery) : List (Str × Option ℤ) := bus.map fun d => (d.jobId, d.occurrence)

/-- The next run of a job, if it is enabled, was not sent. -/
def NotSent (bus : List Delivery) (job : CronJob) : Prop :=
  job.enabled = true → ∀ n, job.state.nextRunAtMs = some n → (job.id, some n) ∉ sent bus

/-- The process stops only when nothing was sent since the last save, and the clock does not go back. -/
def Careful (s : CronSystem) : CronEvent → Prop
  | .clock t => s.now ≤ t ∧ SmallTime t
  | .send _ endedAt => s.now ≤ endedAt ∧ SmallTime endedAt
  | .crash => s.unsaved = false
  | _ => True

/-- A store with distinct identifiers and intervals far from the end of the `i64`. -/
structure StoreOk (store : CronStore) : Prop where
  distinct : store.DistinctIds
  small : ∀ job ∈ store.jobs, job.schedule.Small

/-- What holds in every phase. -/
structure LogOk (s : CronSystem) : Prop where
  now : SmallTime s.now
  nodup : (sent s.bus).Nodup
  past : ∀ id n, (id, some n) ∈ sent s.bus → n ≤ s.now
  file : StoreOk s.file
  fresh : s.unsaved = false → ∀ job ∈ s.file.jobs, NotSent s.bus job

/-- The missed jobs that are still to be sent. -/
structure MissedOk (s : CronSystem) (missed : List CronJob) : Prop where
  distinct : (missed.map CronJob.id).Nodup
  due : ∀ m ∈ missed, ∃ k, m.state.nextRunAtMs = some k ∧ k ≤ s.now ∧ (m.id, some k) ∉ sent s.bus ∧
    ∀ job ∈ s.memory.jobs, job.enabled = true → ∀ n, job.state.nextRunAtMs = some n → k < n

/-- The due jobs that are still to be sent, and the results so far. -/
structure SendingOk (s : CronSystem) (rest : List CronJob) (results : List DispatchResult) : Prop where
  saved : s.memory = s.file
  distinct : (results.map DispatchResult.jobId ++ rest.map CronJob.id).Nodup
  fresh : ∀ job ∈ s.memory.jobs, job.id ∉ results.map DispatchResult.jobId → NotSent s.bus job
  due : ∀ d ∈ rest, d ∈ s.memory.jobs ∧ d.enabled = true ∧ ∃ k, d.state.nextRunAtMs = some k ∧ k ≤ s.now
  results : ∀ r ∈ results, SmallTime r.endedAt ∧ ∀ n, (r.jobId, some n) ∈ sent s.bus → n ≤ r.endedAt

def PhaseOk (s : CronSystem) : Prop :=
  match s.phase with
  | .down => s.unsaved = false
  | .starting missed => StoreOk s.memory ∧ (∀ job ∈ s.memory.jobs, NotSent s.bus job) ∧ MissedOk s missed
  | .idle => s.memory = s.file ∧ s.unsaved = false
  | .sending rest results => SendingOk s rest results
  | .merged => StoreOk s.memory ∧ ∀ job ∈ s.memory.jobs, NotSent s.bus job

structure SystemOk (s : CronSystem) : Prop where
  log : LogOk s
  phase : PhaseOk s

/-! ## What a message changes -/

theorem sent_append (bus : List Delivery) (d : Delivery) : sent (bus ++ [d]) = sent bus ++ [(d.jobId, d.occurrence)] := by
  simp [sent]

variable {s : CronSystem} {job : CronJob}

/-- The bus after a message that was put on it, or not. -/
theorem mem_sent_deliver {delivered : Bool} {x : Str × Option ℤ} (h : x ∈ sent (s.deliver job delivered).bus) :
    x ∈ sent s.bus ∨ x = (job.id, job.state.nextRunAtMs) := by
  unfold deliver at h
  split at h
  · rw [sent_append, List.mem_append, List.mem_singleton] at h
    exact h
  · exact .inl h

@[simp] theorem deliver_now (delivered : Bool) : (s.deliver job delivered).now = s.now := by
  unfold deliver
  split <;> rfl

@[simp] theorem deliver_file (delivered : Bool) : (s.deliver job delivered).file = s.file := by
  unfold deliver
  split <;> rfl

@[simp] theorem deliver_memory (delivered : Bool) : (s.deliver job delivered).memory = s.memory := by
  unfold deliver
  split <;> rfl

/-- Another job is as it was. -/
theorem NotSent.deliver {other : CronJob} (h : NotSent s.bus other) (delivered : Bool)
    (hne : other.enabled = true → (other.id, other.state.nextRunAtMs) ≠ (job.id, job.state.nextRunAtMs)) :
    NotSent (s.deliver job delivered).bus other := by
  intro hon n hn hmem
  rcases mem_sent_deliver hmem with hold | hnew
  · exact h hon n hn hold
  · apply hne hon
    rw [hn]
    exact hnew

/-- A message for an occurrence that is due and was not sent. -/
theorem LogOk.deliver (h : LogOk s) (delivered : Bool) {k now' : ℤ} (hk : job.state.nextRunAtMs = some k)
    (hnot : (job.id, some k) ∉ sent s.bus) (hpast : k ≤ s.now) (hnow : s.now ≤ now') (hsmall : SmallTime now')
    (phase : CronPhase) : LogOk { s.deliver job delivered with now := now', phase := phase } := by
  refine ⟨hsmall, ?_, ?_, ?_, ?_⟩
  · show (sent (s.deliver job delivered).bus).Nodup
    unfold CronSystem.deliver
    split
    · rw [sent_append, List.nodup_append]
      refine ⟨h.nodup, List.nodup_singleton _, ?_⟩
      intro x hx y hy hxy
      rw [List.mem_singleton] at hy
      apply hnot
      rw [← hk, ← hy, ← hxy]
      exact hx
    · exact h.nodup
  · intro id n hmem
    show n ≤ now'
    rcases mem_sent_deliver hmem with hold | hnew
    · have := h.past id n hold
      omega
    · rw [hk] at hnew
      cases hnew
      omega
  · show StoreOk (s.deliver job delivered).file
    rw [deliver_file]
    exact h.file
  · intro hunsaved other hother
    have hunsaved : (s.deliver job delivered).unsaved = false := hunsaved
    have hother : other ∈ (s.deliver job delivered).file.jobs := hother
    show NotSent (s.deliver job delivered).bus other
    unfold CronSystem.deliver at hunsaved hother ⊢
    split
    · rename_i hyes
      rw [if_pos hyes] at hunsaved
      cases hunsaved
    · rename_i hno
      rw [if_neg hno] at hunsaved hother
      exact h.fresh hunsaved other hother

/-! ## The start -/

theorem catchUpJob_id (now : ℤ) (job : CronJob) : (catchUpJob cal now job).id = job.id := by
  unfold catchUpJob
  dsimp only
  split
  · split
    · split <;> rfl
    · rfl
  · rfl

theorem catchUpJob_schedule (now : ℤ) (job : CronJob) : (catchUpJob cal now job).schedule = job.schedule := by
  unfold catchUpJob
  dsimp only
  split
  · split
    · split <;> rfl
    · rfl
  · rfl

/-- After the start, what is enabled runs later. -/
theorem catchUpJob_next_gt {now : ℤ} {job : CronJob} (hnow : SmallTime now) (hsmall : job.schedule.Small)
    (hon : (catchUpJob cal now job).enabled = true) {n : ℤ} (hn : (catchUpJob cal now job).state.nextRunAtMs = some n) :
    now < n := by
  unfold catchUpJob at hon hn
  dsimp only at hon hn
  cases henabled : job.enabled with
  | false =>
    rw [henabled, if_neg (by decide)] at hon
    rw [hon] at henabled
    cases henabled
  | true =>
    rw [henabled, if_pos rfl] at hn
    cases hnext : job.state.nextRunAtMs with
    | none =>
      rw [hnext] at hn
      exact nextRunAt_gt hnow hsmall hn
    | some next =>
      rw [hnext] at hn
      dsimp only at hn
      split at hn
      · exact nextRunAt_gt hnow hsmall hn
      · rw [hnext] at hn
        cases hn
        omega

theorem isMissed_cases {onMiss : OnMiss} {now : ℤ} {job : CronJob} (h : isMissed onMiss now job = true) :
    job.enabled = true ∧ ∃ k, job.state.nextRunAtMs = some k ∧ k ≤ now := by
  unfold isMissed at h
  rw [Bool.and_eq_true] at h
  refine ⟨h.1, ?_⟩
  cases hnext : job.state.nextRunAtMs with
  | none =>
    rw [hnext] at h
    cases h.2
  | some k =>
    rw [hnext] at h
    have hle := h.2
    simp only [Bool.and_eq_true, decide_eq_true_eq] at hle
    exact ⟨k, rfl, hle.1.1⟩

theorem isDue_cases {now : ℤ} {job : CronJob} (h : isDue now job = true) :
    job.enabled = true ∧ ∃ k, job.state.nextRunAtMs = some k ∧ k ≤ now := by
  unfold isDue at h
  rw [Bool.and_eq_true] at h
  refine ⟨h.1, ?_⟩
  cases hnext : job.state.nextRunAtMs with
  | none =>
    rw [hnext] at h
    cases h.2
  | some k =>
    rw [hnext] at h
    exact ⟨k, rfl, of_decide_eq_true h.2⟩

theorem catchUp_storeOk {store : CronStore} (h : StoreOk store) (now : ℤ) : StoreOk (store.catchUp cal now) := by
  constructor
  · show ((store.jobs.map (catchUpJob cal now)).map CronJob.id).Nodup
    rw [List.map_map]
    have hsame : store.jobs.map (CronJob.id ∘ catchUpJob cal now) = store.jobs.map CronJob.id :=
      List.map_congr_left fun job _ => catchUpJob_id now job
    rw [hsame]
    exact h.distinct
  · intro job hjob
    obtain ⟨old, hold, rfl⟩ := List.mem_map.mp hjob
    rw [catchUpJob_schedule]
    exact h.small old hold

theorem start_ok {onMiss : OnMiss} (h : LogOk s) (hsaved : s.unsaved = false) : SystemOk { s with
    memory := s.file.catchUp cal s.now, phase := .starting (missedJobs onMiss s.now s.file) } := by
  -- the jobs in memory run later than now, what was sent and what was missed is not later
  have hlater : ∀ job ∈ (s.file.catchUp cal s.now).jobs, job.enabled = true → ∀ n, job.state.nextRunAtMs = some n →
      s.now < n := by
    intro job hjob hon n hn
    obtain ⟨old, hold, rfl⟩ := List.mem_map.mp hjob
    exact catchUpJob_next_gt h.now (h.file.small old hold) hon hn
  refine ⟨⟨h.now, h.nodup, h.past, h.file, h.fresh⟩, catchUp_storeOk h.file s.now, ?_, ?_, ?_⟩
  · intro job hjob hon n hn hmem
    have hpast := h.past _ n hmem
    have := hlater job hjob hon n hn
    omega
  · exact h.file.distinct.sublist (List.filter_sublist.map CronJob.id)
  · intro m hm
    obtain ⟨hmem, hmissed⟩ := List.mem_filter.mp hm
    obtain ⟨hon, k, hk, hle⟩ := isMissed_cases hmissed
    refine ⟨k, hk, hle, h.fresh hsaved m hmem hon k hk, ?_⟩
    intro job hjob hon' n hn
    have := hlater job hjob hon' n hn
    omega

theorem sendMissed_ok {rest : List CronJob} (h : LogOk s) (hmemory : StoreOk s.memory)
    (hnot : ∀ other ∈ s.memory.jobs, NotSent s.bus other) (hmissed : MissedOk s (job :: rest)) (delivered : Bool) :
    SystemOk { s.deliver job delivered with phase := .starting rest } := by
  obtain ⟨k, hk, hle, hnew, hbelow⟩ := hmissed.due job List.mem_cons_self
  have hdistinct := hmissed.distinct
  rw [List.map_cons, List.nodup_cons] at hdistinct
  have hlog := h.deliver delivered hk hnew hle (Int.le_refl _) h.now (.starting rest)
  have hnow : (s.deliver job delivered).now = s.now := deliver_now delivered
  have hsame : ({ s.deliver job delivered with now := s.now, phase := .starting rest } : CronSystem) =
      { s.deliver job delivered with phase := .starting rest } := by
    rw [← hnow]
  rw [hsame] at hlog
  refine ⟨hlog, ?_, ?_, hdistinct.2, ?_⟩
  · show StoreOk (s.deliver job delivered).memory
    rw [deliver_memory]
    exact hmemory
  · intro other hother
    have hother : other ∈ (s.deliver job delivered).memory.jobs := hother
    rw [deliver_memory] at hother
    apply (hnot other hother).deliver delivered
    intro hon heq
    rw [hk] at heq
    have hlt := hbelow other hother hon k (Prod.mk.inj heq).2
    omega
  · intro m hm
    obtain ⟨k', hk', hle', hnew', hbelow'⟩ := hmissed.due m (List.mem_cons_of_mem _ hm)
    refine ⟨k', hk', ?_, ?_, ?_⟩
    · show k' ≤ (s.deliver job delivered).now
      rw [deliver_now]
      exact hle'
    · intro hmem
      rcases mem_sent_deliver hmem with hold | heq
      · exact hnew' hold
      · apply hdistinct.1
        rw [← (Prod.mk.inj heq).1]
        exact List.mem_map_of_mem hm
    · intro other hother
      have hother : other ∈ (s.deliver job delivered).memory.jobs := hother
      rw [deliver_memory] at hother
      exact hbelow' other hother

/-! ## The tick -/

theorem tick_ok (h : LogOk s) (hmemory : s.memory = s.file) (hsaved : s.unsaved = false) :
    SystemOk { s with phase := .sending (dueJobs s.now s.memory) [] } := by
  refine ⟨⟨h.now, h.nodup, h.past, h.file, h.fresh⟩, hmemory, ?_, ?_, ?_, ?_⟩
  · rw [List.map_nil, List.nil_append]
    apply dueJobs_distinct
    rw [hmemory]
    exact h.file.distinct
  · intro other hother _
    have hother : other ∈ s.memory.jobs := hother
    rw [hmemory] at hother
    exact h.fresh hsaved other hother
  · intro d hd
    obtain ⟨hmem, hdue⟩ := List.mem_filter.mp hd
    obtain ⟨hon, hk⟩ := isDue_cases hdue
    exact ⟨hmem, hon, hk⟩
  · intro r hr
    cases hr

theorem dispatchResult_jobId (job : CronJob) (result : SendResult) (startedAt endedAt : ℤ) :
    (dispatchResult job result startedAt endedAt).jobId = job.id := by
  unfold dispatchResult
  split <;> rfl

theorem dispatchResult_endedAt (job : CronJob) (result : SendResult) (startedAt endedAt : ℤ) :
    (dispatchResult job result startedAt endedAt).endedAt = endedAt := by
  unfold dispatchResult
  split <;> rfl

theorem send_ok {rest : List CronJob} {results : List DispatchResult} (h : LogOk s)
    (hsending : SendingOk s (job :: rest) results) (result : SendResult) {endedAt : ℤ} (hnow : s.now ≤ endedAt)
    (hsmall : SmallTime endedAt) : SystemOk { s.deliver job (result = .delivered) with
      now := endedAt, phase := .sending rest (results ++ [dispatchResult job result s.now endedAt]) } := by
  obtain ⟨hmem, hon, k, hk, hle⟩ := hsending.due job List.mem_cons_self
  have hdistinct := hsending.distinct
  have hids : (results ++ [dispatchResult job result s.now endedAt]).map DispatchResult.jobId ++ rest.map CronJob.id =
      results.map DispatchResult.jobId ++ (job :: rest).map CronJob.id := by
    rw [List.map_append, List.map_singleton, dispatchResult_jobId, List.append_assoc]
    rfl
  have hapart : job.id ∉ results.map DispatchResult.jobId := by
    intro hmem'
    exact (List.nodup_append.mp hdistinct).2.2 _ hmem' _ List.mem_cons_self rfl
  have hnew : (job.id, some k) ∉ sent s.bus := hsending.fresh job hmem hapart hon k hk
  refine ⟨h.deliver _ hk hnew hle hnow hsmall _, ?_, ?_, ?_, ?_, ?_⟩
  · show (s.deliver job _).memory = (s.deliver job _).file
    rw [deliver_memory, deliver_file]
    exact hsending.saved
  · rw [hids]
    exact hdistinct
  · intro other hother hother'
    have hother : other ∈ (s.deliver job (result = .delivered)).memory.jobs := hother
    rw [deliver_memory] at hother
    rw [List.map_append, List.map_singleton, dispatchResult_jobId, List.mem_append, List.mem_singleton, not_or] at hother'
    apply (hsending.fresh other hother hother'.1).deliver
    intro _ heq
    exact hother'.2 (Prod.mk.inj heq).1
  · intro d hd
    obtain ⟨hdmem, hdon, k', hk', hle'⟩ := hsending.due d (List.mem_cons_of_mem _ hd)
    refine ⟨?_, hdon, k', hk', ?_⟩
    · show d ∈ (s.deliver job _).memory.jobs
      rw [deliver_memory]
      exact hdmem
    · show k' ≤ endedAt
      omega
  · intro r hr
    rcases List.mem_append.mp hr with hold | hlast
    · obtain ⟨hrsmall, hrpast⟩ := hsending.results r hold
      refine ⟨hrsmall, ?_⟩
      intro n hn
      rcases mem_sent_deliver hn with hn | heq
      · exact hrpast n hn
      · exfalso
        apply hapart
        rw [← (Prod.mk.inj heq).1]
        exact List.mem_map_of_mem hold
    · rw [List.mem_singleton] at hlast
      subst hlast
      rw [dispatchResult_endedAt, dispatchResult_jobId]
      refine ⟨hsmall, ?_⟩
      intro n hn
      rcases mem_sent_deliver hn with hn | heq
      · have := h.past job.id n hn
        omega
      · rw [hk] at heq
        cases heq
        omega

theorem merge_ok {results : List DispatchResult} (h : LogOk s) (hsending : SendingOk s [] results) :
    SystemOk { s with memory := s.memory.merge cal results, phase := .merged } := by
  have hmemory : StoreOk s.memory := by
    rw [hsending.saved]
    exact h.file
  have hresults : (results.map DispatchResult.jobId).Nodup := by
    have := hsending.distinct
    rwa [List.map_nil, List.append_nil] at this
  have hjobs : (s.memory.merge cal results).jobs =
      (s.memory.jobs.map (settleJob cal results)).filter fun job => !isFinishedOneShot job :=
    merge_jobs hresults hmemory.distinct
  have hmem : ∀ job ∈ (s.memory.merge cal results).jobs, ∃ old ∈ s.memory.jobs, settleJob cal results old = job := by
    intro job hjob
    rw [hjobs] at hjob
    exact List.mem_map.mp (List.mem_filter.mp hjob).1
  refine ⟨⟨h.now, h.nodup, h.past, h.file, h.fresh⟩, ⟨?_, ?_⟩, ?_⟩
  · show ((s.memory.merge cal results).jobs.map CronJob.id).Nodup
    have hall : ((s.memory.jobs.map (settleJob cal results)).map CronJob.id).Nodup := by
      rw [map_settleJob_id]
      exact hmemory.distinct
    rw [hjobs]
    exact hall.sublist (List.filter_sublist.map CronJob.id)
  · intro job hjob
    obtain ⟨old, hold, rfl⟩ := hmem job hjob
    rw [settleJob_schedule]
    exact hmemory.small old hold
  · intro job hjob hon n hn hsent
    obtain ⟨old, hold, rfl⟩ := hmem job hjob
    rw [settleJob_id] at hsent
    unfold settleJob at hon hn
    cases hfind : results.find? (fun r => decide (r.jobId = old.id)) with
    | some r =>
      rw [hfind] at hon hn
      -- its next run is later than the end of its dispatch, what was sent of it is not
      obtain ⟨hrsmall, hrpast⟩ := hsending.results r (List.mem_of_find?_eq_some hfind)
      have hid : r.jobId = old.id := by simpa using List.find?_some hfind
      have hlt := finishJob_next_gt hrsmall (hmemory.small old hold) hon hn
      have hge := hrpast n (by rw [hid]; exact hsent)
      omega
    | none =>
      rw [hfind] at hon hn
      have hnone : old.id ∉ results.map DispatchResult.jobId := by
        intro hmem'
        obtain ⟨r, hr, hid⟩ := List.mem_map.mp hmem'
        exact absurd (decide_eq_true hid) (List.find?_eq_none.mp hfind r hr)
      exact hsending.fresh old hold hnone hon n hn hsent

theorem save_ok (h : LogOk s) (hmemory : StoreOk s.memory) (hnot : ∀ job ∈ s.memory.jobs, NotSent s.bus job) :
    SystemOk { s with file := s.memory, phase := .idle, unsaved := false } :=
  ⟨⟨h.now, h.nodup, h.past, hmemory, fun _ => hnot⟩, rfl, rfl⟩

/-! ## Runs -/

theorem clock_ok (h : SystemOk s) {t : ℤ} (hnow : s.now ≤ t) (hsmall : SmallTime t) : SystemOk { s with now := t } := by
  obtain ⟨hlog, hphase⟩ := h
  refine ⟨⟨hsmall, hlog.nodup, ?_, hlog.file, hlog.fresh⟩, ?_⟩
  · intro id n hmem
    have := hlog.past id n hmem
    show n ≤ t
    omega
  · unfold PhaseOk at hphase ⊢
    dsimp only
    cases hp : s.phase with
    | down =>
      rw [hp] at hphase
      exact hphase
    | starting missed =>
      rw [hp] at hphase
      obtain ⟨hmemory, hnot, hmissed⟩ := hphase
      refine ⟨hmemory, hnot, hmissed.distinct, ?_⟩
      intro m hm
      obtain ⟨k, hk, hle, hnew, hbelow⟩ := hmissed.due m hm
      refine ⟨k, hk, ?_, hnew, hbelow⟩
      show k ≤ t
      omega
    | idle =>
      rw [hp] at hphase
      exact hphase
    | sending rest results =>
      rw [hp] at hphase
      refine ⟨hphase.saved, hphase.distinct, hphase.fresh, ?_, hphase.results⟩
      intro d hd
      obtain ⟨hmem, hon, k, hk, hle⟩ := hphase.due d hd
      refine ⟨hmem, hon, k, hk, ?_⟩
      show k ≤ t
      omega
    | merged =>
      rw [hp] at hphase
      exact hphase

/-- **One step.** A careful step keeps the invariant. -/
theorem step_ok (h : SystemOk s) {e : CronEvent} (he : s.Careful e) : SystemOk (s.step cal e) := by
  have hphase := h.phase
  unfold PhaseOk at hphase
  cases e with
  | clock t => exact clock_ok h he.1 he.2
  | start onMiss =>
    unfold step
    dsimp only
    split
    · rename_i hp
      rw [hp] at hphase
      exact start_ok h.log hphase
    · exact h
  | sendMissed delivered =>
    unfold step
    dsimp only
    split
    · rename_i job rest hp
      rw [hp] at hphase
      exact sendMissed_ok h.log hphase.1 hphase.2.1 hphase.2.2 delivered
    · exact h
  | tick =>
    unfold step
    dsimp only
    split
    · rename_i hp
      rw [hp] at hphase
      split
      · exact h
      · exact tick_ok h.log hphase.1 hphase.2
    · exact h
  | send result endedAt =>
    unfold step
    dsimp only
    split
    · rename_i job rest results hp
      rw [hp] at hphase
      exact send_ok h.log hphase result he.1 he.2
    · exact h
  | merge =>
    unfold step
    dsimp only
    split
    · rename_i results hp
      rw [hp] at hphase
      exact merge_ok h.log hphase
    · exact h
  | save =>
    unfold step
    dsimp only
    split
    · rename_i hp
      rw [hp] at hphase
      exact save_ok h.log hphase.1 hphase.2.1
    · rename_i hp
      rw [hp] at hphase
      exact save_ok h.log hphase.1 hphase.2
    · exact h
  | crash =>
    have hsaved : s.unsaved = false := he
    exact ⟨⟨h.log.now, h.log.nodup, h.log.past, h.log.file, fun _ => h.log.fresh hsaved⟩, rfl⟩

/-- **No occurrence is sent twice**, in every run in which the process stops only when nothing was sent since
the store was last saved and the clock does not go back, from a file with distinct identifiers and times
far from the end of the `i64`. -/
theorem occurrences_nodup (cal : Calendar) {now : ℤ} {file : CronStore} (hnow : SmallTime now) (hfile : StoreOk file)
    {events : List CronEvent} (hmeet : StepsMeet (step cal) Careful { now, file } events) :
    (sent (runSteps (step cal) { now, file } events).bus).Nodup := by
  have hstart : SystemOk { now, file } := by
    refine ⟨⟨hnow, List.nodup_nil, ?_, hfile, ?_⟩, rfl⟩
    · intro id n hmem
      cases hmem
    · intro _ job _ _ n _ hmem
      cases hmem
  have hstep : ∀ s e, SystemOk s → Careful s e → SystemOk (step cal s e) := fun _ _ hs he => step_ok hs he
  exact (run_invariant hstep events _ hstart hmeet).log.nodup

/-- A process that is started, sends a missed job, saves and stops, and is started again. -/
def restarted : List CronEvent := [.start .runOnce, .sendMissed true, .save, .crash, .start .runOnce, .save]

theorem occurrences_nodup_restarted : (sent (runSteps (step noCalendar) { now := 1000, file := pollStore } restarted).bus).Nodup ∧
    sent (runSteps (step noCalendar) { now := 1000, file := pollStore } restarted).bus = [("a".toList, some 1000)] := by
  have hnow : SmallTime 1000 := by constructor <;> decide
  have hfile : StoreOk pollStore := by
    refine ⟨List.nodup_singleton _, ?_⟩
    intro job hjob
    rw [pollStore, List.mem_singleton] at hjob
    subst hjob
    constructor <;> decide
  have hmeet : StepsMeet (step noCalendar) Careful { now := 1000, file := pollStore } restarted :=
    ⟨trivial, trivial, trivial, rfl, trivial, trivial, trivial⟩
  exact ⟨occurrences_nodup noCalendar hnow hfile hmeet, by decide +kernel⟩

/-- A process that stops between the message and the save sends it again. -/
theorem occurrence_repeated : ¬ (sent (runSteps (step noCalendar) { now := 1000, file := pollStore }
    [.start .runOnce, .sendMissed true, .crash, .start .runOnce, .sendMissed true]).bus).Nodup := by
  decide +kernel

end CronSystem

end Zeptoclaw

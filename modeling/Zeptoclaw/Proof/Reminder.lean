import Zeptoclaw.Lib.Run
import Zeptoclaw.Proof.Cron
import Zeptoclaw.Spec.Reminder

/-!
# Reminders and their cron jobs

`reminder_inSync_iff`: in every state of a run every reminder that is not done and has a due time has
one job, at that time, and the other reminders have none, exactly if every `snooze` of the run names
a reminder that is not done and already has the new due time, or none at all, and no action cancels
the job of another reminder. A `snooze` changes the due time and leaves the job as it is.
-/

namespace Zeptoclaw

open Text

/-! ## The store and the jobs -/

namespace ReminderStore

theorem reminderId_injective {n m : ℕ} (h : reminderId n = reminderId m) : n = m :=
  toString_injective (List.cons.inj h).2

theorem lookup_update (store : ReminderStore) (id : Str) (f : ReminderEntry → ReminderEntry) (k : Str) :
    (store.update id f).2.entries.lookup k =
      if k = id then (store.entries.lookup id).map f else store.entries.lookup k := by
  unfold update
  cases hid : store.entries.lookup id with
  | none =>
    dsimp only
    by_cases hk : k = id
    · rw [if_pos hk, hk, hid, Option.map_none]
    · rw [if_neg hk]
  | some entry => exact Assoc.lookup_insert store.entries id k (f entry)

theorem nextId_update (store : ReminderStore) (id : Str) (f : ReminderEntry → ReminderEntry) :
    (store.update id f).2.nextId = store.nextId := by
  unfold update
  split
  · rfl
  · rfl

end ReminderStore

namespace ReminderTool

open ReminderStore

variable {cal : Calendar} {dates : IsoDates} {t t' : ReminderTool} {id : Str}

/-- The reminder with an identifier. -/
def reminder (t : ReminderTool) (id : Str) : Option ReminderEntry := t.store.entries.lookup id

/-- The identifier of the job that a reminder notes. -/
def notedJob (t : ReminderTool) (id : Str) : Option Str := (t.reminder id).bind ReminderEntry.cronJobId

theorem jobsOf_cancelJob (t : ReminderTool) (id k : Str) :
    (t.cancelJob id).jobsOf k = (t.jobsOf k).filter fun job => t.notedJob id ≠ some job.id := by
  unfold cancelJob jobsOf notedJob reminder
  cases hcron : t.cron with
  | none => simp [hcron]
  | some jobs =>
    cases hjob : (t.store.entries.lookup id).bind ReminderEntry.cronJobId with
    | none => simp [hcron]
    | some jobId =>
      simp only [removeJob, Option.getD_some, List.filter_map, List.filter_filter]
      congr 1
      refine List.filter_congr fun e _ => ?_
      simp [Bool.and_comm, eq_comm]

theorem store_cancelJob (t : ReminderTool) (id : Str) : (t.cancelJob id).store = t.store := by
  unfold cancelJob
  split
  · rfl
  · rfl

theorem cron_cancelJob (t : ReminderTool) (id : Str) : (t.cancelJob id).cron.isSome = t.cron.isSome := by
  unfold cancelJob
  split
  · next h _ => rw [h]; rfl
  · rfl

/-! ## What is in sync -/

/-- A reminder that is not done and has a due time has one job, at this time; one that is done or not
there has none. -/
structure InSync (t : ReminderTool) : Prop where
  active : ∀ id e, t.reminder id = some e → e.status ≠ .done → ∀ due : ℕ, e.dueAt = some due →
    ∃ job, t.jobsOf id = [job] ∧ job.schedule = .at (due * 1000)
  inactive : ∀ id, (∀ e, t.reminder id = some e → e.status = .done) → t.jobsOf id = []

/-- What holds in every state: a job that was added for a reminder is noted by it, and the reminder is
not done and has a due time. -/
structure Linked (t : ReminderTool) : Prop where
  cron : t.cron.isSome = true
  ids : ∀ id e, t.reminder id = some e → ∃ n < t.store.nextId, id = reminderId n
  noted : ∀ id, ∀ job ∈ t.jobsOf id, ∃ e, t.reminder id = some e ∧ e.cronJobId = some job.id ∧ e.status ≠ .done ∧
    e.dueAt.isSome = true

/-- No other reminder has a job with the identifier that the reminder notes. -/
def OwnJob (t : ReminderTool) (id : Str) : Prop :=
  ∀ other, ∀ job ∈ t.jobsOf other, t.notedJob id = some job.id → other = id

/-- The action leaves the jobs with the reminders they belong to: a `snooze` changes neither whether the
reminder is active nor its due time, and no job of another reminder is cancelled. -/
def KeepsJobs (dates : IsoDates) (t : ReminderTool) : ReminderAction → Prop
  | .add _ _ _ _ _ => True
  | .complete args _ => ∀ id, args.strField "id".toList = some id → t.OwnJob id
  | .snooze args _ => ∀ id due, snoozeFields dates args = .ok (id, due) → ∀ e, t.reminder id = some e →
      e.status ≠ .done ∧ e.dueAt = some due
  | .remove args => ∀ id, args.strField "id".toList = some id → t.OwnJob id

theorem Linked.inactive (hl : t.Linked) (id : Str) (h : ∀ e, t.reminder id = some e → e.status = .done) : t.jobsOf id = [] := by
  refine List.eq_nil_iff_forall_not_mem.mpr fun job hjob => ?_
  obtain ⟨e, he, -, hstatus, -⟩ := hl.noted id job hjob
  exact hstatus (h e he)

/-- The identifier of a new reminder is not in use. -/
theorem Linked.fresh (hl : t.Linked) : t.reminder (reminderId t.store.nextId) = none := by
  rw [Option.eq_none_iff_forall_not_mem]
  intro e he
  obtain ⟨n, hn, heq⟩ := hl.ids _ e he
  have hsame := reminderId_injective heq
  omega

/-! ## A reminder is completed or removed -/

/-- The job that a reminder notes is cancelled, and the reminder is done or gone. -/
structure Ends (t t' : ReminderTool) (id : Str) : Prop where
  cron : t'.cron.isSome = t.cron.isSome
  nextId : t'.store.nextId = t.store.nextId
  other : ∀ k, k ≠ id → t'.reminder k = t.reminder k
  self : ∀ e, t'.reminder id = some e → e.status = .done ∧ ∃ e', t.reminder id = some e'
  jobsOf : ∀ k, t'.jobsOf k = (t.jobsOf k).filter fun job => t.notedJob id ≠ some job.id

namespace Ends

variable (h : Ends t t' id)

include h

/-- The reminder has no job any more. -/
theorem jobsOf_self (hl : t.Linked) : t'.jobsOf id = [] := by
  rw [h.jobsOf, List.filter_eq_nil_iff]
  intro job hjob
  obtain ⟨e, he, hnoted, -⟩ := hl.noted id job hjob
  rw [notedJob, he, Option.bind_some, hnoted]
  simp

theorem linked (hl : t.Linked) : t'.Linked := by
  refine ⟨h.cron.trans hl.cron, ?_, ?_⟩
  · intro k e he
    rw [h.nextId]
    by_cases hk : k = id
    · subst hk
      obtain ⟨-, e', he'⟩ := h.self e he
      exact hl.ids k e' he'
    · rw [h.other k hk] at he
      exact hl.ids k e he
  · intro k job hjob
    by_cases hk : k = id
    · rw [hk, h.jobsOf_self hl] at hjob
      cases hjob
    · rw [h.other k hk]
      rw [h.jobsOf] at hjob
      exact hl.noted k job (List.mem_of_mem_filter hjob)

theorem inSync (hl : t.Linked) (hs : t.InSync) (hown : t.OwnJob id) : t'.InSync := by
  refine ⟨?_, (h.linked hl).inactive⟩
  intro k e he hstatus due hdue
  have hk : k ≠ id := fun heq => hstatus (h.self e (heq ▸ he)).1
  rw [h.other k hk] at he
  have hsame : t'.jobsOf k = t.jobsOf k := by
    rw [h.jobsOf, List.filter_eq_self]
    intro job hjob
    rw [decide_eq_true_eq]
    exact fun hnoted => hk (hown k job hjob hnoted)
  rw [hsame]
  exact hs.active k e he hstatus due hdue

/-- A job of another reminder that was cancelled is missing. -/
theorem ownJob (hl : t.Linked) (hs : t.InSync) (hs' : t'.InSync) : t.OwnJob id := by
  intro other job hjob hnoted
  by_contra hne
  obtain ⟨e, he, -, hstatus, hdue⟩ := hl.noted other job hjob
  obtain ⟨due, hdue⟩ := Option.isSome_iff_exists.mp hdue
  -- it was the only one
  obtain ⟨only, honly, -⟩ := hs.active other e he hstatus due hdue
  rw [honly, List.mem_singleton] at hjob
  obtain ⟨left, hleft, -⟩ := hs'.active other e ((h.other other hne).trans he) hstatus due hdue
  rw [h.jobsOf, honly, ← hjob, List.filter_singleton] at hleft
  simp [hnoted] at hleft

end Ends

theorem ends_complete (t : ReminderTool) (id : Str) (now : ℕ) :
    Ends t { t.cancelJob id with store := ((t.cancelJob id).store.complete id now).2 } id := by
  rw [store_cancelJob]
  constructor
  · exact cron_cancelJob t id
  · exact nextId_update t.store id _
  · intro k hk
    exact (lookup_update t.store id _ k).trans (if_neg hk)
  · intro e he
    rw [reminder, complete, lookup_update, if_pos rfl] at he
    obtain ⟨e', he', rfl⟩ := Option.map_eq_some_iff.mp he
    exact ⟨rfl, e', he'⟩
  · exact jobsOf_cancelJob t id

theorem ends_remove (t : ReminderTool) (id : Str) :
    Ends t { t.cancelJob id with store := ((t.cancelJob id).store.remove id).2 } id := by
  rw [store_cancelJob]
  constructor
  · exact cron_cancelJob t id
  · rfl
  · intro k hk
    exact (Assoc.lookup_erase t.store.entries id k).trans (if_neg hk)
  · intro e he
    rw [reminder, remove, Assoc.lookup_erase, if_pos rfl] at he
    cases he
  · exact jobsOf_cancelJob t id

/-! ## A reminder is snoozed -/

/-- The due time is changed and the jobs are not. -/
structure Snoozes (t t' : ReminderTool) (id : Str) (due : ℕ) : Prop where
  cron : t'.cron = t.cron
  nextId : t'.store.nextId = t.store.nextId
  other : ∀ k, k ≠ id → t'.reminder k = t.reminder k
  self : ∀ e', t'.reminder id = some e' → ∃ e, t.reminder id = some e ∧ e'.cronJobId = e.cronJobId
  snoozed : ∀ e, t.reminder id = some e →
    ∃ e', t'.reminder id = some e' ∧ e'.cronJobId = e.cronJobId ∧ e'.status = .snoozed ∧ e'.dueAt = some due

theorem snoozes_snooze (t : ReminderTool) (id : Str) (due now : ℕ) :
    Snoozes t { t with store := (t.store.snooze id due now).2 } id due := by
  have hself : ({ t with store := (t.store.snooze id due now).2 } : ReminderTool).reminder id =
      (t.reminder id).map fun e => { e with status := .snoozed, dueAt := some due, updatedAt := now } :=
    (lookup_update t.store id _ id).trans (if_pos rfl)
  constructor
  · rfl
  · exact nextId_update t.store id _
  · intro k hk
    exact (lookup_update t.store id _ k).trans (if_neg hk)
  · intro e' he'
    rw [hself] at he'
    obtain ⟨e, he, rfl⟩ := Option.map_eq_some_iff.mp he'
    exact ⟨e, he, rfl⟩
  · intro e he
    rw [hself, he]
    exact ⟨_, rfl, rfl, rfl, rfl⟩

namespace Snoozes

variable {due : ℕ} (h : Snoozes t t' id due)

include h

theorem jobsOf (k : Str) : t'.jobsOf k = t.jobsOf k := by
  unfold ReminderTool.jobsOf
  rw [h.cron]

theorem linked (hl : t.Linked) : t'.Linked := by
  refine ⟨h.cron ▸ hl.cron, ?_, ?_⟩
  · intro k e he
    rw [h.nextId]
    by_cases hk : k = id
    · subst hk
      obtain ⟨e', he', -⟩ := h.self e he
      exact hl.ids k e' he'
    · rw [h.other k hk] at he
      exact hl.ids k e he
  · intro k job hjob
    rw [h.jobsOf] at hjob
    obtain ⟨e, he, hnoted, hstatus, hdue⟩ := hl.noted k job hjob
    by_cases hk : k = id
    · subst hk
      obtain ⟨e', he', hsame, hsnoozed, hnew⟩ := h.snoozed e he
      refine ⟨e', he', hsame.trans hnoted, ?_, ?_⟩
      · rw [hsnoozed]
        decide
      · rw [hnew]
        rfl
    · exact ⟨e, (h.other k hk).trans he, hnoted, hstatus, hdue⟩

/-- A reminder that is not done and already has this due time keeps its job. -/
theorem inSync (hl : t.Linked) (hs : t.InSync)
    (hsame : ∀ e, t.reminder id = some e → e.status ≠ .done ∧ e.dueAt = some due) : t'.InSync := by
  refine ⟨?_, (h.linked hl).inactive⟩
  intro k e he hstatus due' hdue'
  rw [h.jobsOf]
  by_cases hk : k = id
  · subst hk
    obtain ⟨old, hold, -⟩ := h.self e he
    obtain ⟨e', he', -, -, hnew⟩ := h.snoozed old hold
    rw [he] at he'
    cases he'
    rw [hnew] at hdue'
    cases hdue'
    exact hs.active k old hold (hsame old hold).1 due (hsame old hold).2
  · rw [h.other k hk] at he
    exact hs.active k e he hstatus due' hdue'

/-- The job is still the old one. -/
theorem same_of_inSync (hl : t.Linked) (hs : t.InSync) (hs' : t'.InSync) (e : ReminderEntry) (he : t.reminder id = some e) :
    e.status ≠ .done ∧ e.dueAt = some due := by
  obtain ⟨e', he', -, hsnoozed, hnew⟩ := h.snoozed e he
  obtain ⟨job, hjob, hschedule⟩ := hs'.active id e' he' (by rw [hsnoozed]; decide) due hnew
  rw [h.jobsOf] at hjob
  obtain ⟨old, hold, -, hstatus, hdue⟩ := hl.noted id job (hjob ▸ List.mem_cons_self)
  rw [he] at hold
  cases hold
  refine ⟨hstatus, ?_⟩
  obtain ⟨due', hdue'⟩ := Option.isSome_iff_exists.mp hdue
  obtain ⟨job', hjob', hschedule'⟩ := hs.active id e he hstatus due' hdue'
  rw [hjob] at hjob'
  cases hjob'
  rw [hschedule] at hschedule'
  have heq : (due : ℤ) * 1000 = due' * 1000 := CronSchedule.at.inj hschedule'
  have hsame : due' = due := by omega
  rw [hdue', hsame]

end Snoozes

/-! ## A reminder is added -/

theorem parseIsoToEpoch_millis {s : Str} {due : ℕ} (h : parseIsoToEpoch dates s = .ok due) : (due : ℤ) * 1000 < 2 ^ 63 := by
  have hseconds : ∀ ts : ℤ, epochSeconds s ts = .ok due → ts * 1000 < 2 ^ 63 → (due : ℤ) * 1000 < 2 ^ 63 := by
    intro ts hts hsmall
    unfold epochSeconds at hts
    split at hts
    · cases hts
    · cases hts
      omega
  unfold parseIsoToEpoch at h
  split at h
  · next ts hts => exact hseconds ts h (dates.rfc3339_millis s ts hts)
  · split at h
    · next ts hts => exact hseconds ts h (dates.date_millis s ts hts)
    · cases h

/-- A due time that `add` reads fits into an `i64` in milliseconds. -/
theorem addFields_millis {args : Json} {fields : ReminderFields} (h : addFields dates args = .ok fields) {due : ℕ}
    (hdue : fields.dueAt = some due) : (due : ℤ) * 1000 < 2 ^ 63 := by
  unfold addFields at h
  cases htitle : textArg args "title".toList with
  | none =>
    rw [htitle] at h
    cases h
  | some title =>
    rw [htitle] at h
    cases harg : args.strField "due_at".toList with
    | none =>
      rw [harg] at h
      cases h
      cases hdue
    | some dueStr =>
      rw [harg] at h
      cases hparse : parseIsoToEpoch dates dueStr with
      | error e =>
        simp only [hparse] at h
        cases h
      | ok n =>
        simp only [hparse] at h
        cases h
        cases hdue
        exact parseIsoToEpoch_millis hparse

/-- A reminder is added, with a job if it has a due time. -/
structure Adds (t t' : ReminderTool) (e : ReminderEntry) : Prop where
  cron : t'.cron.isSome = true
  nextId : t'.store.nextId = t.store.nextId + 1
  reminder : ∀ k, t'.reminder k = if k = reminderId t.store.nextId then some e else t.reminder k
  status : e.status ≠ .done
  jobs : (e.dueAt = none ∧ ∀ k, t'.jobsOf k = t.jobsOf k) ∨
    ∃ due : ℕ, ∃ job : CronJob, e.dueAt = some due ∧ e.cronJobId = some job.id ∧ job.schedule = .at (due * 1000) ∧
      ∀ k, t'.jobsOf k = if k = reminderId t.store.nextId then t.jobsOf k ++ [job] else t.jobsOf k

/-- The jobs of a reminder when one is added. -/
theorem jobsOf_concat {store : ReminderStore} {jobs : List (Option Str × CronJob)} (hjobs : t.cron = some jobs) (owner : Str)
    (job : CronJob) (k : Str) : ({ store, cron := some (jobs ++ [(some owner, job)]) } : ReminderTool).jobsOf k =
      if k = owner then t.jobsOf k ++ [job] else t.jobsOf k := by
  unfold jobsOf
  rw [hjobs]
  simp only [Option.getD_some, List.filter_append, List.map_append]
  by_cases hk : k = owner
  · rw [if_pos hk, hk]
    simp
  · rw [if_neg hk]
    simp [Ne.symm hk]

/-- Without a due time the reminder is stored. -/
theorem adds_store (hjobs : t.cron.isSome = true) (fields : ReminderFields) (now : ℕ) (hdue : fields.dueAt = none) :
    Adds t { t with store := (t.store.add fields now).2 } (t.store.add fields now).1 where
  cron := hjobs
  nextId := rfl
  reminder := fun k => Assoc.lookup_insert t.store.entries _ k _
  status := fun h => nomatch h
  jobs := .inl ⟨hdue, fun _ => rfl⟩

/-- With a due time it is stored, its job is added and noted. -/
theorem adds_schedule {jobs : List (Option Str × CronJob)} (hjobs : t.cron = some jobs) (fields : ReminderFields) (now linked : ℕ)
    {due : ℕ} (hdue : fields.dueAt = some due) {job : CronJob} (hschedule : job.schedule = .at (due * 1000)) :
    Adds t
      { store := ((t.store.add fields now).2.setCronJobId (t.store.add fields now).1.id job.id linked).2,
        cron := some (jobs ++ [(some (t.store.add fields now).1.id, job)]) }
      { (t.store.add fields now).1 with cronJobId := some job.id, updatedAt := linked } where
  cron := rfl
  nextId := nextId_update _ _ _
  reminder := by
    intro k
    have hid : (t.store.add fields now).1.id = reminderId t.store.nextId := rfl
    have hadd : ∀ k, (t.store.add fields now).2.entries.lookup k =
        if k = reminderId t.store.nextId then some (t.store.add fields now).1 else t.store.entries.lookup k :=
      fun k => Assoc.lookup_insert t.store.entries _ k _
    rw [ReminderTool.reminder, setCronJobId, lookup_update, hid, hadd, hadd]
    split
    · rw [if_pos rfl]
      rfl
    · rfl
  status := fun h => nomatch h
  jobs := .inr ⟨due, job, hdue, rfl, hschedule, jobsOf_concat hjobs _ job⟩

theorem adds_executeAdd (cal : Calendar) (dates : IsoDates) (hcron : t.cron.isSome = true) (args : Json)
    (channel chatId jobId : Str) (times : AddTimes) :
    (t.executeAdd cal dates args ⟨some channel, some chatId⟩ jobId times).2 = t ∨
      ∃ e, Adds t (t.executeAdd cal dates args ⟨some channel, some chatId⟩ jobId times).2 e := by
  obtain ⟨jobs, hjobs⟩ := Option.isSome_iff_exists.mp hcron
  unfold executeAdd
  cases hfields : addFields dates args with
  | error e => exact .inl rfl
  | ok fields =>
    dsimp only
    cases hdue : fields.dueAt with
    | none =>
      have hstore := adds_store hcron fields times.created hdue
      rw [hjobs] at hstore ⊢
      exact .inr ⟨_, hstore⟩
    | some due =>
      have hsmall := addFields_millis hfields hdue
      have hat : wrapI64 (wrapI64 due * 1000) = due * 1000 := by
        have hfits : wrapI64 due = due := wrapI64_of_lt (by omega) (by omega)
        rw [hfits, wrapI64_of_lt (by omega) hsmall]
      rw [hjobs]
      exact .inr ⟨_, adds_schedule hjobs fields times.created times.linked hdue (congrArg CronSchedule.at hat)⟩

namespace Adds

variable {e : ReminderEntry} (h : Adds t t' e)

include h

theorem linked (hl : t.Linked) : t'.Linked := by
  refine ⟨h.cron, ?_, ?_⟩
  · intro k e' he'
    rw [h.nextId]
    rw [h.reminder] at he'
    split at he'
    · next hk => exact ⟨t.store.nextId, Nat.lt_succ_self _, hk⟩
    · obtain ⟨n, hn, hk⟩ := hl.ids k e' he'
      exact ⟨n, Nat.lt_succ_of_lt hn, hk⟩
  · intro k job hjob
    have hold : job ∈ t.jobsOf k → ∃ e', t'.reminder k = some e' ∧ e'.cronJobId = some job.id ∧ e'.status ≠ .done ∧
        e'.dueAt.isSome = true := by
      intro hmem
      obtain ⟨e', he', hrest⟩ := hl.noted k job hmem
      have hk : k ≠ reminderId t.store.nextId := by
        intro heq
        rw [heq, hl.fresh] at he'
        cases he'
      exact ⟨e', by rw [h.reminder, if_neg hk, he'], hrest⟩
    rcases h.jobs with ⟨-, hsame⟩ | ⟨due, new, hdue, hnoted, -, hjobs⟩
    · exact hold (hsame k ▸ hjob)
    · rw [hjobs] at hjob
      split at hjob
      · next hk =>
        rcases List.mem_append.mp hjob with hmem | hmem
        · exact hold hmem
        · rw [List.mem_singleton.mp hmem]
          refine ⟨e, ?_, hnoted, h.status, ?_⟩
          · rw [h.reminder, if_pos hk]
          · rw [hdue]
            rfl
      · exact hold hjob

theorem inSync (hl : t.Linked) (hs : t.InSync) : t'.InSync := by
  refine ⟨?_, (h.linked hl).inactive⟩
  intro k e' he' hstatus due hdue
  have hnone : t.jobsOf (reminderId t.store.nextId) = [] :=
    hl.inactive _ fun e'' he'' => by rw [hl.fresh] at he''; cases he''
  rw [h.reminder] at he'
  split at he'
  · next hk =>
    cases he'
    rcases h.jobs with ⟨hno, -⟩ | ⟨due', job, hdue', -, hschedule, hjobs⟩
    · rw [hno] at hdue
      cases hdue
    · rw [hdue'] at hdue
      cases hdue
      exact ⟨job, by rw [hjobs, if_pos hk, hk, hnone]; rfl, hschedule⟩
  · next hk =>
    have hsame : t'.jobsOf k = t.jobsOf k := by
      rcases h.jobs with ⟨-, hsame⟩ | ⟨_, _, -, -, -, hjobs⟩
      · exact hsame k
      · rw [hjobs, if_neg hk]
    rw [hsame]
    exact hs.active k e' he' hstatus due hdue

end Adds

/-! ## Runs -/

theorem executeComplete_cases (t : ReminderTool) (args : Json) (now : ℕ) :
    (args.strField "id".toList = none ∧ (t.executeComplete args now).2 = t) ∨
      ∃ id, args.strField "id".toList = some id ∧ Ends t (t.executeComplete args now).2 id := by
  unfold executeComplete
  cases hid : args.strField "id".toList with
  | none => exact .inl ⟨rfl, rfl⟩
  | some id => exact .inr ⟨id, rfl, ends_complete t id now⟩

theorem executeRemove_cases (t : ReminderTool) (args : Json) :
    (args.strField "id".toList = none ∧ (t.executeRemove args).2 = t) ∨
      ∃ id, args.strField "id".toList = some id ∧ Ends t (t.executeRemove args).2 id := by
  unfold executeRemove
  cases hid : args.strField "id".toList with
  | none => exact .inl ⟨rfl, rfl⟩
  | some id => exact .inr ⟨id, rfl, ends_remove t id⟩

theorem executeSnooze_cases (dates : IsoDates) (t : ReminderTool) (args : Json) (now : ℕ) :
    (∃ e, snoozeFields dates args = .error e ∧ (t.executeSnooze dates args now).2 = t) ∨
      ∃ id due, snoozeFields dates args = .ok (id, due) ∧ Snoozes t (t.executeSnooze dates args now).2 id due := by
  unfold executeSnooze
  cases hfields : snoozeFields dates args with
  | error e => exact .inl ⟨e, rfl, rfl⟩
  | ok fields => exact .inr ⟨fields.1, fields.2, rfl, snoozes_snooze t fields.1 fields.2 now⟩

theorem step_linked (t : ReminderTool) (action : ReminderAction) (hl : t.Linked) : (t.step cal dates action).Linked := by
  cases action with
  | add args channel chatId jobId times =>
    rcases adds_executeAdd cal dates hl.cron args channel chatId jobId times with heq | ⟨e, h⟩
    · rw [step, heq]
      exact hl
    · exact h.linked hl
  | complete args now =>
    rcases executeComplete_cases t args now with ⟨-, heq⟩ | ⟨id, -, h⟩
    · rw [step, heq]
      exact hl
    · exact h.linked hl
  | snooze args now =>
    rcases executeSnooze_cases dates t args now with ⟨_, -, heq⟩ | ⟨id, due, -, h⟩
    · rw [step, heq]
      exact hl
    · exact h.linked hl
  | remove args =>
    rcases executeRemove_cases t args with ⟨-, heq⟩ | ⟨id, -, h⟩
    · rw [step, heq]
      exact hl
    · exact h.linked hl

/-- The condition on an action that ends a reminder. -/
theorem Ends.ownJob_iff {args : Json} (h : Ends t t' id) (hid : args.strField "id".toList = some id) (hl : t.Linked)
    (hs : t.InSync) : (∀ id', args.strField "id".toList = some id' → t.OwnJob id') ↔ t'.InSync := by
  constructor
  · exact fun hown => h.inSync hl hs (hown id hid)
  · intro hs' id' hid'
    rw [hid] at hid'
    cases hid'
    exact h.ownJob hl hs hs'

/-- **Exactly the actions that leave the jobs with their reminders keep the two stores in sync.** -/
theorem keepsJobs_iff_step (t : ReminderTool) (action : ReminderAction) (hs : t.InSync) (hl : t.Linked) :
    t.KeepsJobs dates action ↔ (t.step cal dates action).InSync := by
  cases action with
  | add args channel chatId jobId times =>
    refine ⟨fun _ => ?_, fun _ => trivial⟩
    rcases adds_executeAdd cal dates hl.cron args channel chatId jobId times with heq | ⟨e, h⟩
    · rw [step, heq]
      exact hs
    · exact h.inSync hl hs
  | complete args now =>
    rcases executeComplete_cases t args now with ⟨hnone, heq⟩ | ⟨id, hid, h⟩
    · rw [step, heq]
      refine ⟨fun _ => hs, fun _ id hid => ?_⟩
      rw [hnone] at hid
      cases hid
    · exact h.ownJob_iff hid hl hs
  | snooze args now =>
    rcases executeSnooze_cases dates t args now with ⟨e, herror, heq⟩ | ⟨id, due, hfields, h⟩
    · rw [step, heq]
      refine ⟨fun _ => hs, fun _ id due hok => ?_⟩
      rw [herror] at hok
      cases hok
    · refine ⟨fun hkeeps => h.inSync hl hs (hkeeps id due hfields), fun hs' id' due' hfields' => ?_⟩
      rw [hfields] at hfields'
      cases hfields'
      exact h.same_of_inSync hl hs hs'
  | remove args =>
    rcases executeRemove_cases t args with ⟨hnone, heq⟩ | ⟨id, hid, h⟩
    · rw [step, heq]
      refine ⟨fun _ => hs, fun _ id hid => ?_⟩
      rw [hnone] at hid
      cases hid
    · exact h.ownJob_iff hid hl hs

theorem jobsOf_withCron (jobs : List CronJob) (id : Str) : (withCron jobs).jobsOf id = [] := by
  unfold withCron jobsOf
  simp [List.filter_eq_nil_iff]

theorem linked_withCron (jobs : List CronJob) : (withCron jobs).Linked := by
  refine ⟨rfl, fun _ _ h => (nomatch h), fun id job hjob => ?_⟩
  rw [jobsOf_withCron] at hjob
  cases hjob

end ReminderTool

/-- **In every state of a run the reminders and their jobs are in sync, exactly if every `snooze` of the
run names no reminder or one that is not done and already has the new due time, and every `complete`
or `remove` cancels no job of another reminder.** -/
theorem reminder_inSync_iff (cal : Calendar) (dates : IsoDates) (jobs : List CronJob) (actions : List ReminderAction) :
    (∀ before after, actions = before ++ after → (runSteps (ReminderTool.step cal dates) (.withCron jobs) before).InSync) ↔
      StepsMeet (ReminderTool.step cal dates) (ReminderTool.KeepsJobs dates) (.withCron jobs) actions := by
  have hstart : (ReminderTool.withCron jobs).InSync :=
    ⟨fun _ _ h => (nomatch h), fun id _ => ReminderTool.jobsOf_withCron jobs id⟩
  have hlinked : StepsMeet (ReminderTool.step cal dates) (fun t _ => t.Linked) (.withCron jobs) actions :=
    stepsMeet_iff.mpr fun before _ _ _ =>
      run_preserves ReminderTool.step_linked before _ (ReminderTool.linked_withCron jobs)
  exact (stepsMeet_iff_invariant_of ReminderTool.keepsJobs_iff_step hstart hlinked).symm

/-! ## A reminder that is snoozed -/

/-- `chrono` on the first two days of March 2026. -/
def marchDates : IsoDates where
  rfc3339 _ := none
  date s := if s = "2026-03-01".toList then some 1772323200 else if s = "2026-03-02".toList then some 1772409600 else none
  rfc3339_millis _ _ h := nomatch h
  date_millis := by
    intro s ts h
    split at h
    · cases h
      decide
    · split at h
      · cases h
        decide
      · cases h

/-- A reminder is added for the first of March and snoozed to the second. -/
def snoozedReminder : ReminderTool :=
  runSteps (ReminderTool.step ⟨fun _ => false, fun _ => 0, fun _ => 0, fun _ => 0, fun _ => 0, fun _ => 0⟩ marchDates) (.withCron [])
    [.add (.object [("title".toList, .string "taxes".toList), ("due_at".toList, .string "2026-03-01".toList)])
        "telegram".toList "42".toList "1f3c9a70".toList ⟨1772000000, 1772000000000, 1772000000⟩,
      .snooze (.object [("id".toList, .string "r1".toList), ("due_at".toList, .string "2026-03-02".toList)]) 1772000100]

/-- Its job is still the one for the first of March. -/
theorem reminder_snoozed_late : ¬ snoozedReminder.InSync := by
  intro h
  have hentry : (snoozedReminder.reminder "r1".toList).map (fun e => (e.status, e.dueAt)) =
      some (.snoozed, some 1772409600) := by decide +kernel
  have hjobs : (snoozedReminder.jobsOf "r1".toList).map CronJob.schedule = [.at 1772323200000] := by decide +kernel
  obtain ⟨e, he, hpair⟩ := Option.map_eq_some_iff.mp hentry
  obtain ⟨hstatus, hdue⟩ := Prod.mk.inj hpair
  obtain ⟨job, hjob, hschedule⟩ := h.active _ e he (by rw [hstatus]; decide) _ hdue
  rw [hjob, List.map_singleton, hschedule] at hjobs
  cases hjobs

end Zeptoclaw

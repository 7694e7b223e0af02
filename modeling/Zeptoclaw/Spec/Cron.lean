import Zeptoclaw.Lib.TextLines
import Mathlib.Algebra.Group.Int.Defs
import Mathlib.Data.Int.DivMod

/-!
# Scheduled jobs

`cron/mod.rs`: the jobs with their schedules and states, when a job runs next, what a tick and
the start of the service do to the store. Times are milliseconds in an `i64`; the release build
wraps them. The calendar is that of a library and is a parameter.

`searchYear` is the search of `next_run_from_cron_expr` with the additions of the library, which panic when the sum has no
date; its outer `none` is a panic. That takes a clock in the last year of the library's calendar, and the store is not
followed there: the job has no next run.
-/

namespace Zeptoclaw

inductive CronSchedule where
  | at (atMs : ℤ)
  | every (everyMs : ℤ)
  | cron (expr : Str)
  deriving DecidableEq, Repr

structure CronPayload where
  message : Str
  channel : Str
  chatId : Str
  deriving DecidableEq, Repr

structure CronJobState where
  nextRunAtMs : Option ℤ
  lastRunAtMs : Option ℤ := none
  lastStatus : Option Str := none
  lastError : Option Str := none
  consecutiveErrors : ℕ := 0
  lastDurationMs : Option ℤ := none
  deriving DecidableEq, Repr

structure CronJob where
  id : Str
  name : Str
  enabled : Bool
  schedule : CronSchedule
  payload : CronPayload
  state : CronJobState
  createdAtMs : ℤ
  updatedAtMs : ℤ
  deleteAfterRun : Bool
  timeoutSecs : Option ℕ
  deriving DecidableEq, Repr

structure CronStore where
  version : ℕ := 1
  jobs : List CronJob := []
  deriving DecidableEq, Repr

/-- The policy for jobs that were due while the process was down. -/
inductive OnMiss where
  | skip
  | runOnce
  deriving DecidableEq, Repr

def dedupWindowMs : ℤ := 60000

def errorBackoffScheduleMs : List ℤ := [30000, 60000, 5 * 60000, 15 * 60000, 60 * 60000]

/-- The value of a sum in an `i64`. -/
def wrapI64 (x : ℤ) : ℤ := Int.bmod x (2 ^ 64)

def u32Max : ℕ := 2 ^ 32 - 1

/-! ## When a job runs next -/

/-- The library's view of a time in milliseconds: whether it has a date, and the parts of it. -/
structure Calendar where
  inRange : ℤ → Bool
  minute : ℤ → ℕ
  hour : ℤ → ℕ
  day : ℤ → ℕ
  month : ℤ → ℕ
  weekday : ℤ → ℕ

def shouldSkipMissedDispatch (job : CronJob) (nextRunAtMs : ℤ) : Bool :=
  match job.state.lastRunAtMs with
  | none => false
  | some lastRunAtMs =>
    if job.state.lastStatus ≠ some "ok".toList then false
    else
      let deltaMs := lastRunAtMs - nextRunAtMs
      decide (0 ≤ deltaMs) && decide (deltaMs < dedupWindowMs)

def errorBackoffMs (consecutiveErrors : ℕ) : ℤ :=
  if consecutiveErrors = 0 then 0
  else errorBackoffScheduleMs.getD (min (consecutiveErrors - 1) (errorBackoffScheduleMs.length - 1)) 0

def parseU32 (s : Str) : Option ℕ := Text.parseUnsigned (2 ^ 32) s

def parseCronField (field : Str) (lo hi : ℕ) : Option (List ℕ) :=
  if field = "*".toList then some (List.range' lo (hi + 1 - lo))
  else
    match field with
    | '*' :: '/' :: stepStr =>
      match parseU32 stepStr with
      | none => none
      | some step => if step = 0 then none else some (List.range' lo ((hi - lo) / step + 1) step)
    | _ =>
      (field.splitOn ',').mapM fun part =>
        match parseU32 part with
        | none => none
        | some value => if lo ≤ value ∧ value ≤ hi then some value else none

/-! ## The search for the next run -/

namespace Calendar

variable (cal : Calendar)

/-- `DateTime + Duration`. -/
def add (t millis : ℤ) : Option ℤ := if cal.inRange (t + millis) then some (t + millis) else none

def minuteMs : ℤ := 60000

def dayMs : ℤ := 86400000

/-- The candidates from a time on up to the limit; the fuel is never used up. -/
def searchFrom (hit : ℤ → Bool) (limit : ℤ) : ℕ → ℤ → Option (Option ℤ)
  | 0, _ => none
  | fuel + 1, candidate =>
    if candidate ≤ limit then
      if hit candidate then some (some candidate)
      else
        match cal.add candidate minuteMs with
        | none => none
        | some candidate => searchFrom hit limit fuel candidate
    else some none

/-- The parts of the date are in the sets of the fields. -/
def isHit (minutes hours dom month dow : List ℕ) (candidate : ℤ) : Bool :=
  minutes.contains (cal.minute candidate) && hours.contains (cal.hour candidate) && dom.contains (cal.day candidate) &&
    month.contains (cal.month candidate) && dow.contains (cal.weekday candidate)

/-- The search from the next minute on, over 366 days. -/
def searchYear (hit : ℤ → Bool) (now : ℤ) : Option (Option ℤ) :=
  -- `from_timestamp_millis(now)?`, then `with_second(0)?` and `with_nanosecond(0)?`
  if cal.inRange now ∧ cal.inRange (now - now % minuteMs) then do
    let candidate ← cal.add (now - now % minuteMs) minuteMs
    let limit ← cal.add candidate (366 * dayMs)
    cal.searchFrom hit limit (366 * 24 * 60 + 2) candidate
  else some none

/-- `next_run_from_cron_expr`. -/
def nextRunFromCronExpr (expr : Str) (now : ℤ) : Option (Option ℤ) :=
  match Text.splitWhitespace expr with
  | [f0, f1, f2, f3, f4] =>
    match parseCronField f0 0 59, parseCronField f1 0 23, parseCronField f2 1 31, parseCronField f3 1 12,
      parseCronField f4 0 6 with
    | some minutes, some hours, some dom, some month, some dow =>
      cal.searchYear (cal.isHit minutes hours dom month dow) now
    | _, _, _, _, _ => some none
  | _ => some none

/-- `is_valid_cron_expr` at a time of the clock. -/
def isValidCronExpr (expr : Str) (nowMs : ℤ) : Option Bool := (cal.nextRunFromCronExpr expr nowMs).map Option.isSome

/-- `next_run_at`. -/
def nextRunAt (schedule : CronSchedule) (now : ℤ) : Option (Option ℤ) :=
  match schedule with
  | .at atMs => some (if now < atMs then some atMs else none)
  | .every everyMs => some (if 0 < everyMs then some (wrapI64 (now + everyMs)) else none)
  | .cron expr => cal.nextRunFromCronExpr expr now

end Calendar

section Calendar

variable (cal : Calendar)

/-- When a job of the store runs next; never, where the search panics. -/
def nextRunAt (schedule : CronSchedule) (now : ℤ) : Option ℤ := (cal.nextRunAt schedule now).getD none

/-! ## Changes of the store -/

/-- The job of `add_job_with_timeout`, with the identifier that was drawn for it. -/
def newJob (id name : Str) (schedule : CronSchedule) (payload : CronPayload) (deleteAfterRun : Bool)
    (timeoutSecs : Option ℕ) (now : ℤ) : CronJob :=
  { id, name, enabled := true, schedule, payload, state := { nextRunAtMs := nextRunAt cal schedule now },
    createdAtMs := now, updatedAtMs := now, deleteAfterRun, timeoutSecs }

def CronStore.push (store : CronStore) (job : CronJob) : CronStore := { store with jobs := store.jobs ++ [job] }

def CronStore.remove (store : CronStore) (jobId : Str) : CronStore :=
  { store with jobs := store.jobs.filter fun job => job.id ≠ jobId }

/-- A job at the start of the service. -/
def catchUpJob (now : ℤ) (job : CronJob) : CronJob :=
  let reschedule := { job with state := { job.state with nextRunAtMs := nextRunAt cal job.schedule now } }
  if job.enabled then
    match job.state.nextRunAtMs with
    | some next => if next ≤ now then reschedule else job
    | none => reschedule
  else job

/-- The job was missed, and is to be run once. -/
def isMissed (onMiss : OnMiss) (now : ℤ) (job : CronJob) : Bool :=
  job.enabled &&
    match job.state.nextRunAtMs with
    | some next => decide (next ≤ now) && decide (onMiss = .runOnce) && !shouldSkipMissedDispatch job next
    | none => false

def CronStore.catchUp (store : CronStore) (now : ℤ) : CronStore :=
  { store with jobs := store.jobs.map (catchUpJob cal now) }

def missedJobs (onMiss : OnMiss) (now : ℤ) (store : CronStore) : List CronJob := store.jobs.filter (isMissed onMiss now)

/-! ## The tick -/

def isDue (now : ℤ) (job : CronJob) : Bool :=
  job.enabled && (job.state.nextRunAtMs.map fun n => decide (n ≤ now)).getD false

def dueJobs (now : ℤ) (store : CronStore) : List CronJob := store.jobs.filter (isDue now)

/-- What became of a message: put on the bus, refused, or given up after the timeout. -/
inductive SendResult where
  | delivered
  | failed (e : Str)
  | timedOut
  deriving DecidableEq, Repr

structure DispatchResult where
  jobId : Str
  ok : Bool
  err : Option Str
  startedAt : ℤ
  endedAt : ℤ
  deriving DecidableEq, Repr

def dispatchResult (job : CronJob) (result : SendResult) (startedAt endedAt : ℤ) : DispatchResult :=
  match result with
  | .delivered => ⟨job.id, true, none, startedAt, endedAt⟩
  | .failed e => ⟨job.id, false, some e, startedAt, endedAt⟩
  | .timedOut => ⟨job.id, false, some "cron dispatch timed out".toList, startedAt, endedAt⟩

/-- The time of the next run after a dispatch that failed. -/
def nextAfterError (schedule : CronSchedule) (consecutiveErrors : ℕ) (endedAt : ℤ) : ℤ :=
  let backoffNext := wrapI64 (endedAt + errorBackoffMs consecutiveErrors)
  let baseNext := (nextRunAt cal schedule endedAt).getD backoffNext
  max baseNext backoffNext

/-- A job with the result of its dispatch. -/
def finishJob (r : DispatchResult) (job : CronJob) : CronJob :=
  let errors := if r.ok then 0 else min (job.state.consecutiveErrors + 1) u32Max
  let state := { job.state with
    lastRunAtMs := some r.startedAt
    lastDurationMs := some (max (wrapI64 (r.endedAt - r.startedAt)) 0)
    lastStatus := some (if r.ok then "ok".toList else "error".toList)
    lastError := r.err
    consecutiveErrors := errors }
  match job.schedule with
  | .at _ => { job with enabled := false, updatedAtMs := r.endedAt, state := { state with nextRunAtMs := none } }
  | schedule =>
    let next := if r.ok then nextRunAt cal schedule r.endedAt else some (nextAfterError cal schedule errors r.endedAt)
    { job with updatedAtMs := r.endedAt, state := { state with nextRunAtMs := next } }

/-- The first job with an identifier changed. -/
def updateFirst (jobId : Str) (f : CronJob → CronJob) : List CronJob → List CronJob
  | [] => []
  | job :: jobs => if job.id = jobId then f job :: jobs else job :: updateFirst jobId f jobs

def CronStore.applyResult (store : CronStore) (r : DispatchResult) : CronStore :=
  { store with jobs := updateFirst r.jobId (finishJob cal r) store.jobs }

/-- A one-shot job that is deleted after a run that went well. -/
def isFinishedOneShot (job : CronJob) : Bool :=
  match job.schedule with
  | .at _ => job.deleteAfterRun && !job.enabled && decide (job.state.lastStatus = some "ok".toList)
  | _ => false

/-- The results of a tick merged into the store as it is then. -/
def CronStore.merge (store : CronStore) (results : List DispatchResult) : CronStore :=
  let merged := results.foldl (CronStore.applyResult cal) store
  { merged with jobs := merged.jobs.filter fun job => !isFinishedOneShot job }

end Calendar

/-! ## The calendar of the library -/

namespace Gregorian

/-- A day since 1970-01-01, as the day of an era of 400 years that begin in March. -/
def dayOfEra (day : ℤ) : ℕ := ((day + 719468) % 146097).toNat

/-- The day of a year that begins in March. -/
def dayOfYear (doe : ℕ) : ℕ :=
  let yoe := (doe - doe / 1460 + doe / 36524 - doe / 146096) / 365
  doe - (365 * yoe + yoe / 4 - yoe / 100)

/-- The month of such a year, from zero on. -/
def monthOfYear (doy : ℕ) : ℕ := (5 * doy + 2) / 153

def dayOfMonth (day : ℤ) : ℕ :=
  let doy := dayOfYear (dayOfEra day)
  doy - (153 * monthOfYear doy + 2) / 5 + 1

def monthOf (day : ℤ) : ℕ :=
  let mp := monthOfYear (dayOfYear (dayOfEra day))
  if mp < 10 then mp + 3 else mp - 9

end Gregorian

open Gregorian in
/-- The Gregorian calendar: times in milliseconds since 1970-01-01, from the year -262143 to the year 262142. -/
def gregorian : Calendar where
  inRange t := decide (-8334601228800000 ≤ t) && decide (t ≤ 8210266876799999)
  minute t := (t / 60000 % 60).toNat
  hour t := (t / 3600000 % 24).toNat
  day t := dayOfMonth (t / 86400000)
  month t := monthOf (t / 86400000)
  -- 1970-01-01 was a Thursday
  weekday t := ((t / 86400000 + 4) % 7).toNat

/-- 2024-02-29 12:34, a Thursday. -/
example : (gregorian.minute 1709210040000, gregorian.hour 1709210040000, gregorian.day 1709210040000,
    gregorian.month 1709210040000, gregorian.weekday 1709210040000) = (34, 12, 29, 2, 4) := by decide

end Zeptoclaw

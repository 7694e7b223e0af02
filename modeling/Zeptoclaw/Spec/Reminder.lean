import Zeptoclaw.Lib.Assoc
import Zeptoclaw.Spec.Cron
import Zeptoclaw.Spec.Error
import Zeptoclaw.Spec.Gate

/-!
# Reminders

`tools/reminder.rs`: the store of reminders, and the actions of the tool that change it or the
cron service. All writes of the two files succeed. A job is noted with the reminder it was added
for, which the program does not have.
-/

namespace Zeptoclaw

open Text

inductive ReminderStatus where
  | pending
  | done
  | snoozed
  deriving DecidableEq, Repr

structure ReminderEntry where
  id : Str
  title : Str
  description : Option Str
  category : Str
  status : ReminderStatus
  dueAt : Option ℕ
  recurrence : Option Str
  cronJobId : Option Str
  createdAt : ℕ
  updatedAt : ℕ
  deriving DecidableEq, Repr

/-- `chrono` on dates: the timestamp of a text in either format, in seconds. In milliseconds it
fits into an `i64`. -/
structure IsoDates where
  rfc3339 : Str → Option ℤ
  -- midnight of the date
  date : Str → Option ℤ
  rfc3339_millis : ∀ s ts, rfc3339 s = some ts → ts * 1000 < 2 ^ 63
  date_millis : ∀ s ts, date s = some ts → ts * 1000 < 2 ^ 63

/-- A timestamp as seconds since the epoch. -/
def epochSeconds (s : Str) (ts : ℤ) : Except ZeptoError ℕ :=
  if ts < 0 then .error (.tool ("Date '".toList ++ s ++ "' is before Unix epoch".toList)) else .ok ts.toNat

def parseIsoToEpoch (dates : IsoDates) (s : Str) : Except ZeptoError ℕ :=
  match dates.rfc3339 s with
  | some ts => epochSeconds s ts
  | none =>
    match dates.date s with
    | some ts => epochSeconds s ts
    | none => .error (.tool ("Cannot parse '".toList ++ s ++ "' as ISO 8601 datetime".toList))

/-- The arguments of `ReminderStore::add`. -/
structure ReminderFields where
  title : Str
  description : Option Str
  category : Str
  dueAt : Option ℕ
  recurrence : Option Str
  deriving DecidableEq, Repr

def defaultCategory : Str := "general".toList

structure ReminderStore where
  entries : Assoc Str ReminderEntry := ∅
  nextId : ℕ := 1

namespace ReminderStore

/-- The id of the `n`-th reminder. -/
def reminderId (n : ℕ) : Str := 'r' :: (toString n).toList

def add (store : ReminderStore) (fields : ReminderFields) (now : ℕ) : ReminderEntry × ReminderStore :=
  let id := reminderId store.nextId
  let entry : ReminderEntry :=
    { id
      title := fields.title
      description := fields.description
      category := if fields.category.isEmpty then defaultCategory else fields.category
      status := .pending
      dueAt := fields.dueAt
      recurrence := fields.recurrence
      cronJobId := none
      createdAt := now
      updatedAt := now }
  (entry, { entries := store.entries.insert id entry, nextId := store.nextId + 1 })

/-- The entry is changed, if it is there. -/
def update (store : ReminderStore) (id : Str) (f : ReminderEntry → ReminderEntry) : Bool × ReminderStore :=
  match store.entries.lookup id with
  | some entry => (true, { store with entries := store.entries.insert id (f entry) })
  | none => (false, store)

def complete (store : ReminderStore) (id : Str) (now : ℕ) : Bool × ReminderStore :=
  store.update id fun entry => { entry with status := .done, updatedAt := now }

def snooze (store : ReminderStore) (id : Str) (newDueAt now : ℕ) : Bool × ReminderStore :=
  store.update id fun entry => { entry with status := .snoozed, dueAt := some newDueAt, updatedAt := now }

def remove (store : ReminderStore) (id : Str) : Bool × ReminderStore :=
  ((store.entries.lookup id).isSome, { store with entries := store.entries.erase id })

def setCronJobId (store : ReminderStore) (id cronJobId : Str) (now : ℕ) : Bool × ReminderStore :=
  store.update id fun entry => { entry with cronJobId := some cronJobId, updatedAt := now }

end ReminderStore

/-! ## The tool -/

/-- What the tool reads of its context. -/
structure ToolContext where
  channel : Option Str
  chatId : Option Str
  deriving DecidableEq, Repr

structure ReminderTool where
  store : ReminderStore := {}
  -- the jobs of the cron service, if there is one
  cron : Option (List (Option Str × CronJob)) := none

/-- When the steps of `execute_add` read the clock. -/
structure AddTimes where
  created : ℕ
  -- in milliseconds
  scheduled : ℤ
  linked : ℕ
  deriving DecidableEq, Repr

namespace ReminderTool

variable (cal : Calendar) (dates : IsoDates)

/-- A text of the arguments, trimmed, if it is not empty then. -/
def textArg (args : Json) (name : Str) : Option Str := ((args.strField name).map trim).filter fun s => !s.isEmpty

/-- The arguments of `add`, or the error. -/
def addFields (args : Json) : Except ZeptoError ReminderFields := do
  let title ← match textArg args "title".toList with
    | some title => .ok title
    | none => .error (.tool "Missing 'title' for reminder add".toList)
  let dueAt ← match args.strField "due_at".toList with
    | some dueStr => (parseIsoToEpoch dates dueStr).map some
    | none => .ok none
  return {
    title
    description := textArg args "description".toList
    category := (textArg args "category".toList).getD "general".toList
    dueAt
    recurrence := textArg args "recurrence".toList }

/-- The one-shot job that delivers a reminder. -/
def reminderJob (entry : ReminderEntry) (due : ℕ) (channel chatId jobId : Str) (now : ℤ) : CronJob :=
  newJob cal jobId entry.title (.at (wrapI64 (wrapI64 due * 1000)))
    ⟨"Reminder: ".toList ++ entry.title, channel, chatId⟩ true none now

/-- `cron.remove_job`. -/
def removeJob (jobId : Str) (jobs : List (Option Str × CronJob)) : List (Option Str × CronJob) :=
  jobs.filter fun e => e.2.id ≠ jobId

/-- The text of `execute_add`. -/
def createdText (entry : ReminderEntry) : Str :=
  "Created reminder '".toList ++ entry.title ++ "' [".toList ++ entry.id ++ "]".toList ++
    match entry.dueAt with
    | some d => " (due at ".toList ++ (toString d).toList ++ ")".toList
    | none => []

def executeAdd (t : ReminderTool) (args : Json) (ctx : ToolContext) (jobId : Str) (times : AddTimes) :
    Except ZeptoError Str × ReminderTool :=
  match addFields dates args with
  | .error e => (.error e, t)
  | .ok fields =>
    let (entry, store) := t.store.add fields times.created
    let t := { t with store }
    let t := match t.cron, fields.dueAt, ctx.channel, ctx.chatId with
      | some jobs, some due, some channel, some chatId =>
        let job := reminderJob cal entry due channel chatId jobId times.scheduled
        { store := (t.store.setCronJobId entry.id job.id times.linked).2, cron := some (jobs ++ [(some entry.id, job)]) }
      | _, _, _, _ => t
    (.ok (createdText entry), t)

/-- The job of the reminder is cancelled, if it has one. -/
def cancelJob (t : ReminderTool) (id : Str) : ReminderTool :=
  match t.cron, (t.store.entries.lookup id).bind ReminderEntry.cronJobId with
  | some jobs, some jobId => { t with cron := some (removeJob jobId jobs) }
  | _, _ => t

def notFoundText (id : Str) : Str := "Reminder ".toList ++ id ++ " not found".toList

def executeComplete (t : ReminderTool) (args : Json) (now : ℕ) : Except ZeptoError Str × ReminderTool :=
  match args.strField "id".toList with
  | none => (.error (.tool "Missing 'id' for reminder complete".toList), t)
  | some id =>
    let t := t.cancelJob id
    let (found, store) := t.store.complete id now
    (.ok (if found then "Completed reminder ".toList ++ id else notFoundText id), { t with store })

/-- The arguments of `snooze`, or the error. -/
def snoozeFields (args : Json) : Except ZeptoError (Str × ℕ) :=
  match args.strField "id".toList with
  | none => .error (.tool "Missing 'id' for reminder snooze".toList)
  | some id =>
    match args.strField "due_at".toList with
    | none => .error (.tool "Missing 'due_at' for reminder snooze".toList)
    | some dueStr => (parseIsoToEpoch dates dueStr).map fun due => (id, due)

def executeSnooze (t : ReminderTool) (args : Json) (now : ℕ) : Except ZeptoError Str × ReminderTool :=
  match snoozeFields dates args with
  | .error e => (.error e, t)
  | .ok (id, newDueAt) =>
    let (found, store) := t.store.snooze id newDueAt now
    (.ok (if found then "Snoozed reminder ".toList ++ id ++ " until ".toList ++ (toString newDueAt).toList else notFoundText id),
      { t with store })

def executeRemove (t : ReminderTool) (args : Json) : Except ZeptoError Str × ReminderTool :=
  match args.strField "id".toList with
  | none => (.error (.tool "Missing 'id' for reminder remove".toList), t)
  | some id =>
    let t := t.cancelJob id
    let (found, store) := t.store.remove id
    (.ok (if found then "Removed reminder ".toList ++ id else notFoundText id), { t with store })

end ReminderTool

/-! ## Runs -/

/-- An action in a chat; the cron service draws the identifier of a job. -/
inductive ReminderAction where
  | add (args : Json) (channel chatId jobId : Str) (times : AddTimes)
  | complete (args : Json) (now : ℕ)
  | snooze (args : Json) (now : ℕ)
  | remove (args : Json)

namespace ReminderTool

/-- The tool with no reminders, and a cron service that has jobs of others. -/
def withCron (jobs : List CronJob) : ReminderTool := { cron := some (jobs.map fun job => (none, job)) }

def step (cal : Calendar) (dates : IsoDates) (t : ReminderTool) : ReminderAction → ReminderTool
  | .add args channel chatId jobId times => (t.executeAdd cal dates args ⟨some channel, some chatId⟩ jobId times).2
  | .complete args now => (t.executeComplete args now).2
  | .snooze args now => (t.executeSnooze dates args now).2
  | .remove args => (t.executeRemove args).2

/-- The jobs that were added for a reminder. -/
def jobsOf (t : ReminderTool) (id : Str) : List CronJob :=
  ((t.cron.getD []).filter fun e => e.1 = some id).map Prod.snd

end ReminderTool

end Zeptoclaw

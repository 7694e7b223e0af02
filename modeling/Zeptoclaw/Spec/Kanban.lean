import Mathlib.Data.Char
import Mathlib.Data.List.Lex
import Zeptoclaw.Lib.Assoc
import Zeptoclaw.Lib.ReplacedFile
import Zeptoclaw.Lib.Run
import Zeptoclaw.Lib.Utf8
import Zeptoclaw.Spec.Encryption
import Zeptoclaw.Spec.Gate

/-!
# The kanban board

`TaskStore` (`api/tasks.rs`). The map is behind a lock, the file is not: a call changes the map, lets go of
the lock, and then saves, which reads the map again and replaces the file. Each call is cut where
other calls can come in between.
-/

namespace Zeptoclaw

/-- `COLUMNS`. -/
def columns : List Str := ["backlog".toList, "in_progress".toList, "review".toList, "done".toList]

structure KanbanTask where
  id : Str
  title : Str
  description : Str
  column : Str
  assignee : Option Str
  priority : Option Str
  labels : List Str
  createdAt : Str
  updatedAt : Str
  deriving DecidableEq, Repr

/-- The tasks by their ids. -/
abbrev TaskMap : Type := Assoc Str KanbanTask

namespace TaskMap

/-- `map.values()`. -/
def values (tasks : TaskMap) : List KanbanTask := tasks.pairs.map Prod.snd

end TaskMap

/-- `sort_by(|a, b| a.created_at.cmp(&b.created_at))`, which is stable. -/
def sortCreated (tasks : List KanbanTask) : List KanbanTask :=
  tasks.mergeSort fun a b => decide (a.createdAt ≤ b.createdAt)

/-! ## Calls -/

/-- A call that changes the board, with the id and the time it is given. -/
inductive TaskCall where
  | create (title column : Str) (assignee : Option Str) (id now : Str)
  | update (id : Str) (updates : Json) (now : Str)
  | moveTask (id column : Str) (now : Str)
  | delete (id : Str)

def invalidColumn (column : Str) : Str :=
  "Invalid column '".toList ++ column ++
    "'. Valid columns: [\"backlog\", \"in_progress\", \"review\", \"done\"]".toList

def taskNotFound (id : Str) : Str := "Task not found: ".toList ++ id

/-- The fields that `update` knows; the others are ignored. -/
def KanbanTask.patch (task : KanbanTask) (updates : Json) (now : Str) : KanbanTask :=
  { task with
    title := (updates.strField "title".toList).getD task.title
    description := (updates.strField "description".toList).getD task.description
    assignee := (updates.strField "assignee".toList).or task.assignee
    priority := (updates.strField "priority".toList).or task.priority
    updatedAt := now }

/-- What a call does to the map while it holds the lock. -/
def TaskCall.apply (tasks : TaskMap) : TaskCall → Except Str TaskMap
  | .create title column assignee id now =>
    if column ∉ columns then .error (invalidColumn column)
    else .ok (tasks.insert id ⟨id, title, [], column, assignee, none, [], now, now⟩)
  | .update id updates now =>
    match tasks.lookup id with
    | none => .error (taskNotFound id)
    | some task => .ok (tasks.insert id (task.patch updates now))
  | .moveTask id column now =>
    if column ∉ columns then .error (invalidColumn column)
    else
      match tasks.lookup id with
      | none => .error (taskNotFound id)
      | some task => .ok (tasks.insert id { task with column, updatedAt := now })
  | .delete id =>
    match tasks.lookup id with
    | none => .error (taskNotFound id)
    | some _ => .ok (tasks.erase id)

/-! ## Saving -/

/-- What `save` and `load` take from `serde_json`. -/
structure TaskFormat where
  toStringPretty : List KanbanTask → Str
  fromStr : Str → Option (List KanbanTask)

/-- Where a call that changed the map stands. -/
inductive SavePhase where
  -- the map is changed, and its lock is free
  | changed
  -- `save` has the text of the map, and the lock is free again
  | rendered (data : Bytes)
  -- the temporary file is open, and written up to the offset
  | writing (data : Bytes) (fd offset : ℕ)
  -- the call has returned
  | saved
  | failed
  deriving DecidableEq, Repr

structure Board where
  tasks : TaskMap
  calls : List SavePhase
  disk : ReplacedFile

/-- A board without a file. -/
def Board.new : Board := ⟨∅, [], .absent⟩

/-- A step of one call, or a restart of the process. -/
inductive BoardInput where
  | call (c : TaskCall)
  -- `save` reads the map, in the order of its iteration
  | render (i : ℕ) (order : List KanbanTask)
  | openTmp (i : ℕ)
  -- `n` more bytes are written
  | write (i n : ℕ)
  | rename (i : ℕ)
  -- an error of the file system, after which `save` gives up
  | fail (i : ℕ)
  | restart

/-- `load` on an empty map; what cannot be read leaves it empty. -/
def loadTasks (format : TaskFormat) (disk : Option Bytes) : TaskMap :=
  match (disk.bind fromUtf8).bind format.fromStr with
  | none => ∅
  | some tasks => tasks.foldl (fun map t => map.insert t.id t) ∅

section

variable (format : TaskFormat)

def boardStep (b : Board) : BoardInput → Board
  | .call c =>
    match c.apply b.tasks with
    | .error _ => b
    | .ok tasks => { b with tasks, calls := b.calls ++ [.changed] }
  | .render i order =>
    if b.calls[i]? = some .changed ∧ order.isPerm b.tasks.values then
      { b with calls := b.calls.set i (.rendered (Utf8.encode (format.toStringPretty (sortCreated order)))) }
    else b
  | .openTmp i =>
    match b.calls[i]? with
    | some (.rendered data) =>
      { b with calls := b.calls.set i (.writing data b.disk.openTmp.2 0), disk := b.disk.openTmp.1 }
    | _ => b
  | .write i n =>
    match b.calls[i]? with
    | some (.writing data fd offset) =>
      let chunk := (data.drop offset).take n
      { b with
        calls := b.calls.set i (.writing data fd (offset + chunk.length))
        disk := b.disk.write fd offset chunk }
    | _ => b
  | .rename i =>
    match b.calls[i]? with
    | some (.writing data _ offset) =>
      if offset = data.length then
        match b.disk.rename with
        | none => { b with calls := b.calls.set i .failed }
        | some disk => { b with calls := b.calls.set i .saved, disk }
      else b
    | _ => b
  | .fail i =>
    match b.calls[i]? with
    | some .changed | some (.rendered _) | some (.writing ..) => { b with calls := b.calls.set i .failed }
    | _ => b
  | .restart => { b with tasks := loadTasks format b.disk.read, calls := [] }

end

end Zeptoclaw

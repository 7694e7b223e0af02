import Zeptoclaw.Lib.Run
import Zeptoclaw.Spec.Repair
import Mathlib.Logic.Function.Basic

/-!
# The session manager

`SessionManager::get`, `get_or_create`, `save` and `delete` (`session/mod.rs`) on one key.
Each call is cut where other calls can come in between: its step on the cache, its step
on the disk, and, for a look-up that missed the cache, the insertion of what it found.
-/

namespace Zeptoclaw

structure Session where
  key : Str
  messages : List Message
  summary : Option Str
  createdAt : ℕ
  updatedAt : ℕ
  deriving DecidableEq, Repr

/-- `Session::new`. -/
def Session.new (key : Str) (now : ℕ) : Session := ⟨key, [], none, now, now⟩

structure StoreConfig where
  key : Str
  -- `storage_path` is set
  persistent : Bool
  autoRepair : Bool

/-- `maybe_repair_loaded_session`. -/
def StoreConfig.maybeRepair (cfg : StoreConfig) (session : Session) : Session :=
  if cfg.autoRepair then { session with messages := (repairMessages session.messages).1 } else session

/-- A call on the key. -/
inductive StoreCall where
  | get
  | getOrCreate
  | save (session : Session)
  | delete
  deriving DecidableEq, Repr

/-- Where a call stands. -/
inductive StorePhase where
  | idle
  -- a look-up that missed the cache, with the saves and deletes that had begun and that had
  -- completed by then
  | missed (create : Bool) (begun completed : ℕ)
  -- it has a session to put into the cache
  | loaded (session : Session) (begun completed : ℕ)
  -- `result` is what the look-up returned, `owed` the session whose save was the last save or
  -- delete to complete, if that was before the look-up started
  | returned (owed result : Option Session)
  -- a save between the cache and the disk
  | saving (session : Session)
  | deleting
  | done
  deriving DecidableEq, Repr

structure StoreState (ι : Type*) where
  cache : Option Session
  disk : Option Session
  calls : ι → StorePhase
  -- saves and deletes that have begun, and that have completed
  begun : ℕ
  completed : ℕ
  -- the session of the save that completed last, if no delete completed after it
  kept : Option Session

/-- A step of one call. -/
inductive StoreInput (ι : Type*) where
  -- the call is made, and does its step on the cache
  | start (call : ι) (kind : StoreCall)
  | disk (call : ι) (now : ℕ)
  -- a look-up puts what it found into the cache, and returns it
  | insert (call : ι)

section StoreStep

variable {ι : Type*} [DecidableEq ι]

def StoreState.init (cache disk : Option Session) : StoreState ι :=
  ⟨cache, disk, fun _ => .idle, 0, 0, none⟩

def StoreState.setCall (st : StoreState ι) (i : ι) (phase : StorePhase) : StoreState ι :=
  { st with calls := Function.update st.calls i phase }

/-- What a look-up that started after `completed` saves and deletes owes. -/
def StoreState.owed (st : StoreState ι) (completed : ℕ) : Option Session :=
  if completed = st.completed then st.kept else none

/-- The look-up in the cache. -/
def StoreState.lookUp (st : StoreState ι) (i : ι) (create : Bool) : StoreState ι :=
  match st.cache with
  | some session => st.setCall i (.returned st.kept (some session))
  | none => st.setCall i (.missed create st.begun st.completed)

/-- The first step of a call. -/
def StoreState.start (st : StoreState ι) (i : ι) : StoreCall → StoreState ι
  | .get => st.lookUp i false
  | .getOrCreate => st.lookUp i true
  | .save session => { st.setCall i (.saving session) with cache := some session, begun := st.begun + 1 }
  | .delete => { st.setCall i .deleting with cache := none, begun := st.begun + 1 }

/-- The step of a call on the disk; without persistence there is no file to read, write or
remove. -/
def StoreState.onDisk (cfg : StoreConfig) (st : StoreState ι) (i : ι) (now : ℕ) : StoreState ι :=
  match st.calls i with
  | .missed create begun completed =>
    match (if cfg.persistent then st.disk else none) with
    | some session => st.setCall i (.loaded (cfg.maybeRepair session) begun completed)
    | none =>
      if create then st.setCall i (.loaded (.new cfg.key now) begun completed)
      else st.setCall i (.returned (st.owed completed) none)
  | .saving session =>
    { st.setCall i .done with
      disk := if cfg.persistent then some session else st.disk
      completed := st.completed + 1
      kept := some session }
  | .deleting =>
    { st.setCall i .done with
      disk := if cfg.persistent then none else st.disk
      completed := st.completed + 1
      kept := none }
  | _ => st

/-- One step of the calls on a key. -/
def storeStep (cfg : StoreConfig) (st : StoreState ι) : StoreInput ι → StoreState ι
  | .start i kind => if st.calls i = .idle then st.start i kind else st
  | .disk i now => st.onDisk cfg i now
  | .insert i =>
    match st.calls i with
    | .loaded session _ completed =>
      { st.setCall i (.returned (st.owed completed) (some session)) with cache := some session }
    | _ => st

end StoreStep

end Zeptoclaw

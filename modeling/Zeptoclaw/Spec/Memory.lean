import Zeptoclaw.Lib.Assoc
import Zeptoclaw.Lib.Run
import Zeptoclaw.Spec.Error
import Mathlib.Algebra.Order.Field.Rat

/-!
# Long-term memory

`LongTermMemory` (`memory/longterm.rs`) and its hygiene cycle (`memory/hygiene.rs`). A
handle has the map it loaded when it was opened; every write of a handle rewrites the file
from that map. The gateway opens one handle for the agent and another for the hygiene
scheduler, on the same path.

`MemoryStore` has the calls that change the map with what may fail in them: each changes it, saves
it, and tells the searcher, if it does at all. What the file system, the serializer and the
searcher answer is input; `received` has the calls that the searcher got.

A snapshot (`memory/snapshot.rs`) has the entries without their times and counts.
-/

namespace Zeptoclaw

structure MemoryEntry where
  key : Str
  value : Str
  category : Str
  createdAt : ℕ
  lastAccessed : ℕ
  accessCount : ℕ
  tags : List Str
  importance : ℚ
  deriving DecidableEq, Repr

/-- What a `set` records. -/
structure MemoryContent where
  value : Str
  category : Str
  tags : List Str
  importance : ℚ
  deriving DecidableEq, Repr

def MemoryEntry.content (e : MemoryEntry) : MemoryContent := ⟨e.value, e.category, e.tags, e.importance⟩

/-- The floating-point and pattern code that the store relies on: the decay of an importance
with the age in seconds, the warnings of `check_injection`, and how a float is shown. -/
structure MemoryLib where
  decay : ℚ → ℕ → ℚ
  checkInjection : Str → List Str
  showFloat : ℚ → Str

/-- `MemoryEntry::decay_score`. -/
def MemoryEntry.decayScore (lib : MemoryLib) (now : ℕ) (e : MemoryEntry) : ℚ :=
  if e.category.map Char.toLower = "pinned".toList then 1 else lib.decay e.importance (now - e.lastAccessed)

abbrev Entries : Type := Assoc Str MemoryEntry

namespace LongTermMemory

/-- The entry of a key after a `set`. -/
def upsert (entries : Entries) (key : Str) (content : MemoryContent) (now : ℕ) : MemoryEntry :=
  match entries.lookup key with
  | some existing =>
    { existing with
      value := content.value
      category := content.category
      tags := content.tags
      importance := content.importance
      lastAccessed := now }
  | none => ⟨key, content.value, content.category, now, now, 0, content.tags, content.importance⟩

/-- `LongTermMemory::set`, up to the save. -/
def set (lib : MemoryLib) (entries : Entries) (key : Str) (content : MemoryContent) (now : ℕ) :
    Except ZeptoError Entries :=
  let warnings := lib.checkInjection content.value
  if warnings ≠ [] then
    .error (.tool ("Memory write rejected: value contains prompt injection pattern (".toList ++
      List.intercalate "; ".toList warnings ++ ")".toList))
  else .ok (entries.insert key (upsert entries key content now))

/-- `LongTermMemory::get`: the access is counted, but not saved. -/
def get (entries : Entries) (key : Str) (now : ℕ) : Entries :=
  match entries.lookup key with
  | some e => entries.insert key { e with lastAccessed := now, accessCount := e.accessCount + 1 }
  | none => entries

/-- `LongTermMemory::delete`, with whether the key existed. -/
def delete (entries : Entries) (key : Str) : Entries × Bool := (entries.erase key, (entries.lookup key).isSome)

/-- The keys that `cleanup_least_used` removes: those of the lowest scores. -/
def leastUsed (lib : MemoryLib) (entries : Entries) (keepCount now : ℕ) : List Str :=
  let scored := entries.entries.map fun e => (e.1, e.2.decayScore lib now)
  ((scored.mergeSort fun a b => decide (a.2 ≤ b.2)).take (scored.length - keepCount)).map Prod.fst

/-- `LongTermMemory::cleanup_least_used`, with the number of removed entries. -/
def cleanupLeastUsed (lib : MemoryLib) (entries : Entries) (keepCount now : ℕ) : Entries × ℕ :=
  if entries.entries.length ≤ keepCount then (entries, 0)
  else
    (entries.retain fun k _ => !(leastUsed lib entries keepCount now).contains k,
      entries.entries.length - keepCount)

/-- `LongTermMemory::cleanup_expired`, with the number of removed entries. -/
def cleanupExpired (lib : MemoryLib) (entries : Entries) (threshold : ℚ) (now : ℕ) :
    Except ZeptoError (Entries × ℕ) :=
  if threshold < 0 ∨ 1 < threshold then
    .error (.config ("cleanup_expired threshold must be 0.0..=1.0, got ".toList ++ lib.showFloat threshold))
  else
    let kept := entries.retain fun _ e => decide (threshold ≤ e.decayScore lib now)
    .ok (kept, entries.entries.length - kept.entries.length)

end LongTermMemory

/-- A call on a handle. -/
inductive MemoryOp where
  | set (key : Str) (content : MemoryContent) (now : ℕ)
  | get (key : Str) (now : ℕ)
  | delete (key : Str)
  | cleanupLeastUsed (keepCount now : ℕ)
  | cleanupExpired (threshold : ℚ) (now : ℕ)
  | save

/-- The map of the handle after a call, and whether the call writes the file. -/
def MemoryOp.apply (lib : MemoryLib) (entries : Entries) : MemoryOp → Entries × Bool
  | .set key content now =>
    match LongTermMemory.set lib entries key content now with
    | .ok entries => (entries, true)
    | .error _ => (entries, false)
  | .get key now => (LongTermMemory.get entries key now, false)
  | .delete key =>
    let (entries, existed) := LongTermMemory.delete entries key
    (entries, existed)
  | .cleanupLeastUsed keepCount now =>
    ((LongTermMemory.cleanupLeastUsed lib entries keepCount now).1, decide (keepCount < entries.entries.length))
  | .cleanupExpired threshold now =>
    match LongTermMemory.cleanupExpired lib entries threshold now with
    | .ok (kept, count) => (kept, decide (0 < count))
    | .error _ => (entries, false)
  | .save => (entries, true)

/-! ## Several handles on one file -/

structure MemoryWorld (ι : Type*) where
  file : Entries
  handles : ι → Option Entries
  -- what was set and not deleted, overwritten or expired since
  live : Str → Option MemoryContent

inductive MemoryInput (ι : Type*) where
  -- `LongTermMemory::new`: the handle loads the file
  | open (handle : ι)
  | call (handle : ι) (op : MemoryOp)

/-- What is live after a call that takes the map of its handle from `before` to `after`. An
entry expires when a cleanup removes it as it was set. -/
def liveAfter (lib : MemoryLib) (before after : Entries) (live : Str → Option MemoryContent) :
    MemoryOp → Str → Option MemoryContent
  | .set key content _ => fun k => if k = key ∧ lib.checkInjection content.value = [] then some content else live k
  | .delete key => fun k => if k = key ∧ (before.lookup key).isSome then none else live k
  | .cleanupLeastUsed _ _ | .cleanupExpired _ _ => fun k =>
    if (before.lookup k).map MemoryEntry.content = live k ∧ after.lookup k = none then none else live k
  | .get _ _ | .save => live

section MemoryStep

variable {ι : Type*} [DecidableEq ι]

/-- The file is there from earlier runs; no handle is open. -/
def MemoryWorld.init (file : Entries) : MemoryWorld ι :=
  ⟨file, fun _ => none, fun k => (file.lookup k).map MemoryEntry.content⟩

/-- One step of the handles. -/
def memoryStep (lib : MemoryLib) (w : MemoryWorld ι) : MemoryInput ι → MemoryWorld ι
  | .open h => { w with handles := Function.update w.handles h (some w.file) }
  | .call h op =>
    match w.handles h with
    | none => w
    | some entries =>
      let applied := op.apply lib entries
      { file := if applied.2 then applied.1 else w.file
        handles := Function.update w.handles h (some applied.1)
        live := liveAfter lib entries applied.1 w.live op }

end MemoryStep

/-! ## The hygiene cycle -/

structure HygieneConfig where
  expiredThreshold : ℚ
  maxEntries : ℕ

def lastHygieneKey : Str := "system:last_hygiene_at".toList

/-- The calls of `run_hygiene_cycle_memory_only` on its handle. That the count exceeds
`max_entries` is tested by `cleanup_least_used` as well. -/
def hygieneCycle {ι : Type*} (config : HygieneConfig) (h : ι) (now : ℕ) : List (MemoryInput ι) :=
  [.call h (.cleanupExpired config.expiredThreshold now), .call h (.cleanupLeastUsed config.maxEntries now),
    .call h (.set lastHygieneKey ⟨(toString now).toList, "system".toList, [], 1 / 10⟩ now)]

/-! ## Writes that may fail -/

/-- A call of the injected `MemorySearcher`. -/
inductive SearcherCall where
  | index (key text : Str)
  | remove (key : Str)
  deriving DecidableEq, Repr

/-- The errors that the steps of a call meet, if it gets to them. -/
structure MemoryIo where
  createDirAll : Option Str := none
  serialize : Option Str := none
  write : Option Str := none
  searcher : Option ZeptoError := none
  deriving DecidableEq, Repr

structure MemoryStore where
  entries : Entries
  storagePath : Str
  -- `storage_path.parent()`
  parent : Option Str
  received : List SearcherCall := []

/-- A threshold of `f32`: a number, or how a value that is none is shown. -/
inductive Threshold where
  | finite (value : ℚ)
  | notFinite (shown : Str)
  deriving DecidableEq, Repr

/-- A call that changes the map. -/
inductive MemoryWrite where
  | set (key : Str) (content : MemoryContent) (now : ℕ)
  | delete (key : Str)
  | cleanupLeastUsed (keepCount now : ℕ)
  | cleanupExpired (threshold : Threshold) (now : ℕ)

/-- What a call returns if it succeeds. -/
inductive MemoryReply where
  | done
  | existed (existed : Bool)
  | removed (count : ℕ)
  deriving DecidableEq, Repr

namespace MemoryStore

/-- A step that fails with an error of `ZeptoError::Config`. -/
def failing (text : Str) : Option Str → Except ZeptoError Unit
  | none => .ok ()
  | some e => .error (.config (text ++ e))

/-- The directory of the file is created, if the path has one. -/
def createParent (io : MemoryIo) (m : MemoryStore) : Except ZeptoError Unit :=
  match m.parent with
  | some parent => failing ("Failed to create memory directory ".toList ++ parent ++ ": ".toList) io.createDirAll
  | none => .ok ()

def save (io : MemoryIo) (m : MemoryStore) : Except ZeptoError Unit := do
  createParent io m
  failing "Failed to serialize long-term memory: ".toList io.serialize
  failing ("Failed to write long-term memory to ".toList ++ m.storagePath ++ ": ".toList) io.write

/-- The text of an entry for the searcher. -/
def searchable (key : Str) (content : MemoryContent) : Str :=
  key ++ ' ' :: content.value ++ ' ' :: content.category ++ ' ' :: List.intercalate [' '] content.tags

/-- The searcher gets the call, whatever it answers. -/
def tell (io : MemoryIo) (call : SearcherCall) (reply : MemoryReply) (m : MemoryStore) : Except ZeptoError MemoryReply × MemoryStore :=
  (match io.searcher with
    | none => .ok reply
    | some e => .error e,
    { m with received := m.received ++ [call] })

/-- The map is saved, and the rest of the call is made if that succeeds. -/
def saveThen (io : MemoryIo) (rest : MemoryStore → Except ZeptoError MemoryReply × MemoryStore) (m : MemoryStore) :
    Except ZeptoError MemoryReply × MemoryStore :=
  match m.save io with
  | .ok () => rest m
  | .error e => (.error e, m)

/-- The result of a call, and the store after it. -/
def apply (lib : MemoryLib) (io : MemoryIo) (m : MemoryStore) : MemoryWrite → Except ZeptoError MemoryReply × MemoryStore
  | .set key content now =>
    match LongTermMemory.set lib m.entries key content now with
    | .error e => (.error e, m)
    | .ok entries => saveThen io (tell io (.index key (searchable key content)) .done) { m with entries }
  | .delete key =>
    let (entries, existed) := LongTermMemory.delete m.entries key
    let m := { m with entries }
    if existed then saveThen io (tell io (.remove key) (.existed true)) m else (.ok (.existed false), m)
  | .cleanupLeastUsed keepCount now =>
    if m.entries.entries.length ≤ keepCount then (.ok (.removed 0), m)
    else
      let (entries, count) := LongTermMemory.cleanupLeastUsed lib m.entries keepCount now
      saveThen io (fun m => (.ok (.removed count), m)) { m with entries }
  | .cleanupExpired (.notFinite shown) _ =>
    (.error (.config ("cleanup_expired threshold must be 0.0..=1.0, got ".toList ++ shown)), m)
  | .cleanupExpired (.finite threshold) now =>
    match LongTermMemory.cleanupExpired lib m.entries threshold now with
    | .error e => (.error e, m)
    | .ok (entries, count) =>
      let m := { m with entries }
      if 0 < count then saveThen io (fun m => (.ok (.removed count), m)) m else (.ok (.removed count), m)

end MemoryStore

/-- A call, with what its steps meet. -/
structure MemoryCall where
  write : MemoryWrite
  io : MemoryIo

/-- The store after a call. -/
def MemoryStore.step (lib : MemoryLib) (m : MemoryStore) (call : MemoryCall) : MemoryStore :=
  (m.apply lib call.io call.write).2

/-- The searcher has got the key, and no removal of it since. -/
def Indexed (received : List SearcherCall) (key : Str) : Prop :=
  ∃ before text after, received = before ++ .index key text :: after ∧ SearcherCall.remove key ∉ after

/-! ## Snapshots -/

/-- `LongTermMemory::list_all`. -/
def LongTermMemory.listAll (entries : Entries) : List MemoryEntry :=
  (entries.pairs.map Prod.snd).mergeSort fun a b => decide (b.lastAccessed ≤ a.lastAccessed)

structure SnapshotEntry where
  key : Str
  value : Str
  category : Str
  tags : List Str
  importance : ℚ
  deriving DecidableEq, Repr

def SnapshotEntry.content (e : SnapshotEntry) : MemoryContent := ⟨e.value, e.category, e.tags, e.importance⟩

def MemoryEntry.snapshot (e : MemoryEntry) : SnapshotEntry := ⟨e.key, e.value, e.category, e.tags, e.importance⟩

/-- `serde_json` for the entries of a snapshot. -/
structure SnapshotFormat where
  toStringPretty : List SnapshotEntry → Str
  fromStr : Str → Except Str (List SnapshotEntry)

/-- `ZeptoError::Io`, `ZeptoError::Json`, and the errors of a `set`. -/
inductive SnapshotError where
  | io (e : Str)
  | json (e : Str)
  | memory (e : ZeptoError)
  deriving DecidableEq, Repr

/-- A step of an export that may fail. -/
def exportStep (error : Str → SnapshotError) : Option Str → Except SnapshotError Unit
  | none => .ok ()
  | some e => .error (error e)

/-- `export_snapshot`: the number of entries, and the text of the file. -/
def exportSnapshot (format : SnapshotFormat) (io : MemoryIo) (parent : Option Str) (entries : Entries) :
    Except SnapshotError (ℕ × Str) := do
  let snapshot := (LongTermMemory.listAll entries).map MemoryEntry.snapshot
  exportStep .json io.serialize
  exportStep .io (parent.bind fun _ => io.createDirAll)
  exportStep .io io.write
  return (snapshot.length, format.toStringPretty snapshot)

/-- What one `set` of an import meets. -/
structure ImportStep where
  now : ℕ
  io : MemoryIo := {}

/-- The loop of an import; `n` counts its entries. -/
def importEntries (lib : MemoryLib) (overwrite : Bool) (steps : ℕ → ImportStep) :
    ℕ → ℕ → ℕ → List SnapshotEntry → MemoryStore → Except SnapshotError (ℕ × ℕ) × MemoryStore
  | _, imported, skipped, [], m => (.ok (imported, skipped), m)
  | n, imported, skipped, e :: es, m =>
    if !overwrite && (m.entries.lookup e.key).isSome then importEntries lib overwrite steps (n + 1) imported (skipped + 1) es m
    else
      match m.apply lib (steps n).io (.set e.key e.content (steps n).now) with
      | (.ok _, m) => importEntries lib overwrite steps (n + 1) (imported + 1) skipped es m
      | (.error err, m) => (.error (.memory err), m)

/-- `import_snapshot`; `file` is what reading the file gives. -/
def importSnapshot (lib : MemoryLib) (format : SnapshotFormat) (overwrite : Bool) (steps : ℕ → ImportStep)
    (file : Except Str Str) (m : MemoryStore) : Except SnapshotError (ℕ × ℕ) × MemoryStore :=
  match file with
  | .error e => (.error (.io e), m)
  | .ok content =>
    match format.fromStr content with
    | .error e => (.error (.json e), m)
    | .ok entries => importEntries lib overwrite steps 0 0 0 entries m

end Zeptoclaw

import Zeptoclaw.Lib.Run
import Zeptoclaw.Proof.Encryption
import Zeptoclaw.Spec.Kanban
import Mathlib.Data.Countable.Basic
import Mathlib.Logic.Equiv.List

/-!
# What the file of the board holds

The lock guards the map, not the file, so the results are about interleavings of the saves.

* `board_atomic`: if no temporary file is opened while another one is written, a crash at any moment
  brings back a board that the store had at some moment.
* `board_saved`: if a save does not even read the map before the last save is through, a restart after
  the calls have returned brings back the board itself.
* `board_overlap`: the first condition is not enough for that.
-/

namespace Zeptoclaw

variable {format : TaskFormat}

/-! ## The map -/

namespace TaskMap

/-- Every task is under its id, and in one of the columns. -/
def Valid (tasks : TaskMap) : Prop := ∀ id t, tasks.lookup id = some t → t.id = id ∧ t.column ∈ columns

theorem valid_empty : Valid ∅ := by
  intro id t h
  rw [AList.lookup_empty] at h
  cases h

theorem Valid.insert {tasks : TaskMap} (h : Valid tasks) {t : KanbanTask} (ht : t.column ∈ columns) :
    Valid (AList.insert t.id t tasks) := by
  intro id t' hlookup
  rw [Assoc.lookup_insert] at hlookup
  split at hlookup
  · next heq =>
    cases hlookup
    exact ⟨heq.symm, ht⟩
  · exact h id t' hlookup

theorem Valid.apply {tasks tasks' : TaskMap} (h : Valid tasks) {c : TaskCall} (hc : c.apply tasks = .ok tasks') :
    Valid tasks' := by
  cases c with
  | create title column assignee id now =>
    simp only [TaskCall.apply] at hc
    split at hc
    · cases hc
    · next hcol =>
      cases hc
      exact h.insert (t := ⟨id, title, [], column, assignee, none, [], now, now⟩) (not_not.mp hcol)
  | update id updates now =>
    simp only [TaskCall.apply] at hc
    split at hc
    · cases hc
    · next task htask =>
      cases hc
      obtain ⟨rfl, hcol⟩ := h id task htask
      exact h.insert (t := task.patch updates now) hcol
  | moveTask id column now =>
    simp only [TaskCall.apply] at hc
    split at hc
    · cases hc
    · next hcol =>
      split at hc
      · cases hc
      · next task htask =>
        cases hc
        obtain ⟨rfl, -⟩ := h id task htask
        exact h.insert (t := { task with column, updatedAt := now }) (not_not.mp hcol)
  | delete id =>
    simp only [TaskCall.apply] at hc
    split at hc
    · cases hc
    · cases hc
      intro id' t hlookup
      rw [Assoc.lookup_erase] at hlookup
      split at hlookup
      · cases hlookup
      · exact h id' t hlookup

theorem mem_values {tasks : TaskMap} {t : KanbanTask} : t ∈ tasks.values ↔ ∃ id, tasks.lookup id = some t := by
  unfold values
  rw [List.mem_map]
  constructor
  · rintro ⟨⟨id, t⟩, hmem, rfl⟩
    exact ⟨id, Assoc.mem_pairs.mp hmem⟩
  · rintro ⟨id, h⟩
    exact ⟨(id, t), Assoc.mem_pairs.mpr h, rfl⟩

theorem Valid.ids {tasks : TaskMap} (h : Valid tasks) : tasks.values.map KanbanTask.id = tasks.keys := by
  unfold values
  rw [← Assoc.pairs_fst, List.map_map]
  exact List.map_congr_left fun e he => (h e.1 e.2 (Assoc.mem_pairs.mp he)).1

end TaskMap

/-! ## The text of a map -/

/-- The text of a map, iterated in some order. -/
def SnapshotOf (format : TaskFormat) (tasks : TaskMap) (data : Bytes) : Prop :=
  ∃ order, order.Perm tasks.values ∧ data = Utf8.encode (format.toStringPretty (sortCreated order))

/-- What is read back from the text of a map is the map. -/
theorem SnapshotOf.load (hround : ∀ ts, format.fromStr (format.toStringPretty ts) = some ts) {tasks : TaskMap} {data : Bytes}
    (h : SnapshotOf format tasks data) (hvalid : tasks.Valid) : Assoc.Same tasks (loadTasks format (some data)) := by
  obtain ⟨order, horder, rfl⟩ := h
  have hperm : (sortCreated order).Perm tasks.values := (List.mergeSort_perm _ _).trans horder
  have hload : loadTasks format (some (Utf8.encode (format.toStringPretty (sortCreated order)))) =
      (sortCreated order).foldl (fun map t => map.insert t.id t) ∅ := by
    simp only [loadTasks, Option.bind_some, fromUtf8_encode, hround]
  rw [hload]
  have hids : ((sortCreated order).map KanbanTask.id).Nodup := by
    rw [(hperm.map _).nodup_iff, hvalid.ids]
    exact tasks.keys_nodup
  intro id
  cases hlookup : tasks.lookup id with
  | none =>
    rw [Assoc.lookup_foldl_insert_of_ne KanbanTask.id (fun t => t), AList.lookup_empty]
    rintro t ht rfl
    obtain ⟨id, hid⟩ := TaskMap.mem_values.mp (hperm.mem_iff.mp ht)
    rw [(hvalid id t hid).1, hid] at hlookup
    cases hlookup
  | some t =>
    obtain ⟨rfl, -⟩ := hvalid id t hlookup
    exact Assoc.lookup_foldl_insert_mem KanbanTask.id (fun t => t) _ hids (hperm.mem_iff.mpr (TaskMap.mem_values.mpr ⟨_, hlookup⟩))

/-! ## One step -/

namespace SavePhase

/-- The temporary file is open. -/
def Writes : SavePhase → Prop
  | .writing .. => True
  | _ => False

/-- The call has the text of the map. -/
def Holds (data : Bytes) : SavePhase → Prop
  | .rendered data' => data' = data
  | .writing data' _ _ => data' = data
  | _ => False

/-- Between reading the map and renaming the file. -/
def Saves (p : SavePhase) : Prop := ∃ data, p.Holds data

end SavePhase

/-- A call goes from one phase to the next. -/
inductive SaveMove (format : TaskFormat) (tasks : TaskMap) (disk : ReplacedFile) :
    BoardInput → SavePhase → SavePhase → ReplacedFile → Prop
  | render {i : ℕ} {order : List KanbanTask} {data : Bytes} (h : SnapshotOf format tasks data) :
    SaveMove format tasks disk (.render i order) .changed (.rendered data) disk
  | openTmp {i : ℕ} (data : Bytes) :
    SaveMove format tasks disk (.openTmp i) (.rendered data) (.writing data disk.openTmp.2 0) disk.openTmp.1
  | write {i n : ℕ} (data : Bytes) (fd offset : ℕ) :
    SaveMove format tasks disk (.write i n) (.writing data fd offset)
      (.writing data fd (offset + ((data.drop offset).take n).length)) (disk.write fd offset ((data.drop offset).take n))
  | rename {i : ℕ} (data : Bytes) (fd : ℕ) {disk' : ReplacedFile} (h : disk.rename = some disk') :
    SaveMove format tasks disk (.rename i) (.writing data fd data.length) .saved disk'
  | lost {i : ℕ} (data : Bytes) (fd : ℕ) (h : disk.rename = none) :
    SaveMove format tasks disk (.rename i) (.writing data fd data.length) .failed disk
  | fail {i : ℕ} (p : SavePhase) : SaveMove format tasks disk (.fail i) p .failed disk

/-- What a step can do. -/
theorem boardStep_cases (format : TaskFormat) (b : Board) (input : BoardInput) :
    boardStep format b input = b ∨
    (∃ (c : TaskCall) (tasks : TaskMap), input = .call c ∧ c.apply b.tasks = .ok tasks ∧
      boardStep format b input = { b with tasks, calls := b.calls ++ [.changed] }) ∨
    (input = .restart ∧ boardStep format b input = { b with tasks := loadTasks format b.disk.read, calls := [] }) ∨
    ∃ before p q after disk, b.calls = before ++ p :: after ∧ SaveMove format b.tasks b.disk input p q disk ∧
      boardStep format b input = { b with calls := before ++ q :: after, disk } := by
  cases input with
  | call c =>
    simp only [boardStep]
    split
    · exact Or.inl rfl
    · next tasks hc => exact Or.inr (Or.inl ⟨c, tasks, rfl, hc, rfl⟩)
  | render i order =>
    simp only [boardStep]
    split
    · next h =>
      obtain ⟨before, after, -, hcalls, hset⟩ := exists_split_of_getElem? h.1
      refine Or.inr (Or.inr (Or.inr ⟨before, _, _, after, _, hcalls, .render ⟨order, ?_, rfl⟩, by rw [hset]⟩))
      exact List.isPerm_iff.mp h.2
    · exact Or.inl rfl
  | openTmp i =>
    simp only [boardStep]
    split
    · next data h =>
      obtain ⟨before, after, -, hcalls, hset⟩ := exists_split_of_getElem? h
      exact Or.inr (Or.inr (Or.inr ⟨before, _, _, after, _, hcalls, .openTmp data, by rw [hset]⟩))
    · exact Or.inl rfl
  | write i n =>
    simp only [boardStep]
    split
    · next data fd offset h =>
      obtain ⟨before, after, -, hcalls, hset⟩ := exists_split_of_getElem? h
      exact Or.inr (Or.inr (Or.inr ⟨before, _, _, after, _, hcalls, .write data fd offset, by rw [hset]⟩))
    · exact Or.inl rfl
  | rename i =>
    simp only [boardStep]
    split
    · next data fd offset h =>
      obtain ⟨before, after, -, hcalls, hset⟩ := exists_split_of_getElem? h
      split
      · next hlen =>
        subst hlen
        split
        · next hdisk => exact Or.inr (Or.inr (Or.inr ⟨before, _, _, after, _, hcalls, .lost data fd hdisk, by rw [hset]⟩))
        · next disk hdisk =>
          exact Or.inr (Or.inr (Or.inr ⟨before, _, _, after, _, hcalls, .rename data fd hdisk, by rw [hset]⟩))
      · exact Or.inl rfl
    · exact Or.inl rfl
  | fail i =>
    simp only [boardStep]
    split
    · next h =>
      obtain ⟨before, after, -, hcalls, hset⟩ := exists_split_of_getElem? h
      exact Or.inr (Or.inr (Or.inr ⟨before, _, _, after, _, hcalls, .fail _, by rw [hset]⟩))
    · next data h =>
      obtain ⟨before, after, -, hcalls, hset⟩ := exists_split_of_getElem? h
      exact Or.inr (Or.inr (Or.inr ⟨before, _, _, after, _, hcalls, .fail _, by rw [hset]⟩))
    · next data fd offset h =>
      obtain ⟨before, after, -, hcalls, hset⟩ := exists_split_of_getElem? h
      exact Or.inr (Or.inr (Or.inr ⟨before, _, _, after, _, hcalls, .fail _, by rw [hset]⟩))
    · exact Or.inl rfl
  | restart => exact Or.inr (Or.inr (Or.inl ⟨rfl, rfl⟩))

/-- The text is that of a board of the past. -/
def PastText (format : TaskFormat) (past : Board → Prop) (data : Bytes) : Prop :=
  ∃ b, past b ∧ b.tasks.Valid ∧ SnapshotOf format b.tasks data

namespace Board

/-- The temporary file is only opened while no other call writes to it. -/
def OpensAlone (b : Board) (input : BoardInput) : Prop := ∀ i, input = .openTmp i → ∀ p ∈ b.calls, ¬ p.Writes

/-- The only call that writes has written the beginning of its text, and what is under the name is the text of a
board of the past. -/
structure Guarded (format : TaskFormat) (past : Board → Prop) (b : Board) : Prop where
  valid : b.tasks.Valid
  known : ∀ p ∈ b.calls, ∀ data, p.Holds data → PastText format past data
  alone : AtMostOne SavePhase.Writes b.calls
  writing : ∀ data fd offset, .writing data fd offset ∈ b.calls →
    offset ≤ data.length ∧ b.disk.Writing fd (data.take offset)
  file : ∀ data, b.disk.read = some data → PastText format past data

variable {past : Board → Prop} {b : Board}

/-- A call that has written its text can rename the file. -/
theorem Guarded.renames (hs : b.Guarded format past) {data : Bytes} {fd : ℕ}
    (hp : .writing data fd data.length ∈ b.calls) : ∃ disk, b.disk.rename = some disk ∧ disk.read = some data := by
  obtain ⟨-, hdisk⟩ := hs.writing data fd data.length hp
  rw [List.take_length] at hdisk
  exact hdisk.rename

theorem Guarded.move (hs : b.Guarded format past) (hpast : past b) {before after : List SavePhase} {p q : SavePhase}
    {disk : ReplacedFile} {input : BoardInput} (hcalls : b.calls = before ++ p :: after)
    (hmove : SaveMove format b.tasks b.disk input p q disk)
    (hopen : ∀ i, input = .openTmp i → ∀ x ∈ before ++ after, ¬ x.Writes) :
    Guarded format past { b with calls := before ++ q :: after, disk } := by
  have hp : p ∈ b.calls := hcalls ▸ mem_split.mpr (Or.inl rfl)
  have hrest : ∀ x ∈ before ++ after, x ∈ b.calls := fun x hx => hcalls ▸ mem_split.mpr (Or.inr hx)
  have halone := hs.alone
  rw [hcalls] at halone
  -- what is left to say about the call itself: its text, whether it writes, and the file
  have hbuild (hq : ∀ data, q.Holds data → PastText format past data) (hqalone : q.Writes → ∀ x ∈ before ++ after, ¬ x.Writes)
      (hqwriting : ∀ data fd offset, q = .writing data fd offset → offset ≤ data.length ∧ disk.Writing fd (data.take offset))
      (hwriting : ∀ data fd offset, .writing data fd offset ∈ before ++ after →
        offset ≤ data.length ∧ disk.Writing fd (data.take offset))
      (hfile : ∀ data, disk.read = some data → PastText format past data) :
      Guarded format past { b with calls := before ++ q :: after, disk } := by
    refine ⟨hs.valid, fun x hx data hdata => ?_, halone.replace hqalone, fun data fd offset hx => ?_, hfile⟩
    · rcases mem_split.mp hx with rfl | hx
      · exact hq data hdata
      · exact hs.known x (hrest x hx) data hdata
    · rcases mem_split.mp hx with heq | hx
      · exact hqwriting data fd offset heq.symm
      · exact hwriting data fd offset hx
  have hsame : ∀ data fd offset, .writing data fd offset ∈ before ++ after →
      offset ≤ data.length ∧ b.disk.Writing fd (data.take offset) := fun data fd offset hx => hs.writing data fd offset (hrest _ hx)
  cases hmove with
  | render h =>
    refine hbuild (fun data hdata => ?_) (fun h => h.elim) (fun _ _ _ h => by cases h) hsame hs.file
    cases hdata
    exact ⟨b, hpast, hs.valid, h⟩
  | openTmp data =>
    have hnone := hopen _ rfl
    refine hbuild (fun _ hdata => hs.known _ hp _ hdata) (fun _ => hnone) (fun _ _ _ h => ?_)
      (fun _ _ _ hx => absurd trivial (hnone _ hx)) (by rw [ReplacedFile.read_openTmp]; exact hs.file)
    cases h
    exact ⟨Nat.zero_le _, b.disk.openTmp_writing⟩
  | @write i n data fd offset =>
    obtain ⟨hle, hdisk⟩ := hs.writing data fd offset hp
    have hnone := halone.others trivial
    have hoffset : (data.take offset).length = offset := List.length_take_of_le hle
    refine hbuild (fun _ hdata => hs.known _ hp _ hdata) (fun _ => hnone) (fun _ _ _ h => ?_)
      (fun _ _ _ hx => absurd trivial (hnone _ hx)) (by rw [hdisk.read_write]; exact hs.file)
    cases h
    refine ⟨?_, ?_⟩
    · rw [List.length_take, List.length_drop]
      omega
    · have hnext := hdisk.write ((data.drop offset).take n)
      rw [hoffset] at hnext
      rwa [List.take_add, List.length_take, ← List.take_eq_take_min]
  | rename data fd h =>
    obtain ⟨disk', hrename, hread⟩ := hs.renames hp
    rw [h] at hrename
    cases hrename
    have hnone := halone.others trivial
    refine hbuild (fun _ h => h.elim) (fun h => h.elim) (fun _ _ _ h => by cases h)
      (fun _ _ _ hx => absurd trivial (hnone _ hx)) (fun data' hdata' => ?_)
    rw [hread] at hdata'
    cases hdata'
    exact hs.known _ hp _ rfl
  | lost data fd h =>
    obtain ⟨disk', hrename, -⟩ := hs.renames hp
    rw [h] at hrename
    cases hrename
  | fail => exact hbuild (fun _ h => h.elim) (fun h => h.elim) (fun _ _ _ h => by cases h) hsame hs.file

/-- What a restart brings back is a board of the past. -/
theorem Guarded.load (hround : ∀ ts, format.fromStr (format.toStringPretty ts) = some ts) (hs : b.Guarded format past) :
    Assoc.Same ∅ (loadTasks format b.disk.read) ∨
      ∃ b', past b' ∧ b'.tasks.Valid ∧ Assoc.Same b'.tasks (loadTasks format b.disk.read) := by
  cases hread : b.disk.read with
  | none => exact Or.inl fun _ => rfl
  | some data =>
    obtain ⟨b', hb', hvalid, htext⟩ := hs.file data hread
    exact Or.inr ⟨b', hb', hvalid, htext.load hround hvalid⟩

theorem Guarded.step (hround : ∀ ts, format.fromStr (format.toStringPretty ts) = some ts) (hs : b.Guarded format past)
    (hpast : past b) {input : BoardInput} (hopen : b.OpensAlone input) : (boardStep format b input).Guarded format past := by
  rcases boardStep_cases format b input with h | ⟨c, tasks, -, hc, h⟩ | ⟨-, h⟩ | ⟨before, p, q, after, disk, hcalls, hmove, h⟩ <;>
    rw [h]
  · exact hs
  · refine ⟨hs.valid.apply hc, fun p hp => ?_, hs.alone.concat fun h => h.elim, fun data fd offset hp => ?_, hs.file⟩
    · rcases List.mem_append.mp hp with hp | hp
      · exact hs.known p hp
      · rw [List.mem_singleton.mp hp]
        exact fun _ h => h.elim
    · rcases List.mem_append.mp hp with hp | hp
      · exact hs.writing data fd offset hp
      · cases List.mem_singleton.mp hp
  · refine ⟨?_, fun _ h => absurd h List.not_mem_nil, List.Pairwise.nil, fun _ _ _ h => absurd h List.not_mem_nil, hs.file⟩
    rcases hs.load hround with hsame | ⟨b', -, hvalid, hsame⟩
    · exact fun id t hlookup => TaskMap.valid_empty id t (by rw [← hsame]; exact hlookup)
    · exact fun id t hlookup => hvalid id t (by rw [← hsame]; exact hlookup)
  · refine hs.move hpast hcalls hmove fun i hi x hx => hopen i hi x ?_
    rw [hcalls]
    exact mem_split.mpr (Or.inr hx)

theorem Guarded.new : Guarded format past .new :=
  ⟨TaskMap.valid_empty, fun _ h => absurd h List.not_mem_nil, List.Pairwise.nil, fun _ _ _ h => absurd h List.not_mem_nil,
    fun _ h => by cases h⟩

/-! ## One save after the other -/

/-- A save reads the map only while no other save is at work, and no save fails. -/
def SavesAlone (b : Board) (input : BoardInput) : Prop :=
  (∀ i order, input = .render i order → ∀ p ∈ b.calls, ¬ p.Saves) ∧ ∀ i, input ≠ .fail i

/-- The board will be saved, is being saved, or is what the file holds. -/
structure Synced (format : TaskFormat) (b : Board) : Prop where
  alone : AtMostOne SavePhase.Saves b.calls
  unfailed : .failed ∉ b.calls
  current : .changed ∈ b.calls ∨ (∃ p ∈ b.calls, ∃ data, p.Holds data ∧ SnapshotOf format b.tasks data) ∨
    (∀ p ∈ b.calls, ¬ p.Saves) ∧ Assoc.Same b.tasks (loadTasks format b.disk.read)

theorem Synced.move (hround : ∀ ts, format.fromStr (format.toStringPretty ts) = some ts) (hs : b.Synced format)
    (hguard : b.Guarded format past) {before after : List SavePhase} {p q : SavePhase} {disk : ReplacedFile}
    {input : BoardInput} (hcalls : b.calls = before ++ p :: after) (hmove : SaveMove format b.tasks b.disk input p q disk)
    (halone : b.SavesAlone input) : Synced format { b with calls := before ++ q :: after, disk } := by
  have hp : p ∈ b.calls := hcalls ▸ mem_split.mpr (Or.inl rfl)
  have hrest : ∀ x ∈ before ++ after, x ∈ b.calls := fun x hx => hcalls ▸ mem_split.mpr (Or.inr hx)
  have hsole := hs.alone
  rw [hcalls] at hsole
  have hbuild (hq : q ≠ .failed) (hqalone : q.Saves → ∀ x ∈ before ++ after, ¬ x.Saves)
      (hcurrent : .changed ∈ before ++ q :: after ∨
        (∃ x ∈ before ++ q :: after, ∃ data, x.Holds data ∧ SnapshotOf format b.tasks data) ∨
        (∀ x ∈ before ++ q :: after, ¬ x.Saves) ∧ Assoc.Same b.tasks (loadTasks format disk.read)) :
      Synced format { b with calls := before ++ q :: after, disk } := by
    refine ⟨hsole.replace hqalone, fun hfailed => ?_, hcurrent⟩
    rcases mem_split.mp hfailed with heq | hfailed
    · exact hq heq.symm
    · exact hs.unfailed (hrest _ hfailed)
  -- a call that keeps its text, and stays the only one with a text
  have hkeep (hq : q ≠ .failed) (hsaves : p.Saves) (hp' : p ≠ .changed) (hdata : ∀ data, p.Holds data → q.Holds data) :
      Synced format { b with calls := before ++ q :: after, disk } := by
    refine hbuild hq (fun _ => hsole.others hsaves) ?_
    rcases hs.current with hchanged | ⟨x, hx, data, hxdata, htext⟩ | ⟨hnone, -⟩
    · rw [hcalls] at hchanged
      exact Or.inl (mem_split.mpr (Or.inr ((mem_split.mp hchanged).resolve_left (Ne.symm hp'))))
    · rw [hcalls] at hx
      rcases mem_split.mp hx with rfl | hx
      · exact Or.inr (Or.inl ⟨q, mem_split.mpr (Or.inl rfl), data, hdata data hxdata, htext⟩)
      · exact absurd ⟨data, hxdata⟩ (hsole.others hsaves x hx)
    · exact absurd hsaves (hnone p hp)
  cases hmove with
  | @render i order data h =>
    have hnone := halone.1 i order rfl
    exact hbuild (fun h => by cases h) (fun _ x hx => hnone x (hrest x hx))
      (Or.inr (Or.inl ⟨.rendered data, mem_split.mpr (Or.inl rfl), data, rfl, h⟩))
  | openTmp data => exact hkeep (fun h => by cases h) ⟨data, rfl⟩ (fun h => by cases h) fun _ h => h
  | write data fd offset => exact hkeep (fun h => by cases h) ⟨data, rfl⟩ (fun h => by cases h) fun _ h => h
  | rename data fd h =>
    obtain ⟨disk', hrename, hread⟩ := hguard.renames hp
    rw [h] at hrename
    cases hrename
    have hnone := hsole.others ⟨data, rfl⟩
    refine hbuild (fun h => by cases h) (fun ⟨_, h⟩ => h.elim) ?_
    rcases hs.current with hchanged | ⟨x, hx, data', hdata', htext⟩ | ⟨hidle, -⟩
    · rw [hcalls] at hchanged
      exact Or.inl (mem_split.mpr (Or.inr ((mem_split.mp hchanged).resolve_left fun h => by cases h)))
    · rw [hcalls] at hx
      rcases mem_split.mp hx with rfl | hx
      · cases hdata'
        refine Or.inr (Or.inr ⟨fun x hx => ?_, hread ▸ htext.load hround hguard.valid⟩)
        rcases mem_split.mp hx with rfl | hx
        · exact fun ⟨_, h⟩ => h.elim
        · exact hnone x hx
      · exact absurd ⟨data', hdata'⟩ (hnone x hx)
    · exact absurd ⟨data, rfl⟩ (hidle _ hp)
  | lost data fd h =>
    obtain ⟨disk', hrename, -⟩ := hguard.renames hp
    rw [h] at hrename
    cases hrename
  | @fail i => exact absurd rfl (halone.2 i)

theorem Synced.step (hround : ∀ ts, format.fromStr (format.toStringPretty ts) = some ts) (hs : b.Synced format)
    (hguard : b.Guarded format past) {input : BoardInput} (halone : b.SavesAlone input) :
    (boardStep format b input).Synced format := by
  rcases boardStep_cases format b input with h | ⟨c, tasks, -, hc, h⟩ | ⟨-, h⟩ | ⟨before, p, q, after, disk, hcalls, hmove, h⟩ <;>
    rw [h]
  · exact hs
  · refine ⟨hs.alone.concat fun ⟨_, h⟩ => h.elim, fun hfailed => ?_, Or.inl (List.mem_append_right _ List.mem_cons_self)⟩
    rcases List.mem_append.mp hfailed with hfailed | hfailed
    · exact hs.unfailed hfailed
    · cases List.mem_singleton.mp hfailed
  · exact ⟨List.Pairwise.nil, List.not_mem_nil, Or.inr (Or.inr ⟨fun _ h => absurd h List.not_mem_nil, fun _ => rfl⟩)⟩
  · exact hs.move hround hguard hcalls hmove halone

theorem Synced.new : Synced format .new :=
  ⟨List.Pairwise.nil, List.not_mem_nil, Or.inr (Or.inr ⟨fun _ h => absurd h List.not_mem_nil, fun _ => rfl⟩)⟩

/-- A save that is alone opens its file alone. -/
theorem Guarded.step_alone (hround : ∀ ts, format.fromStr (format.toStringPretty ts) = some ts)
    (hguard : b.Guarded format past) (hs : b.Synced format) (hpast : past b) (input : BoardInput) :
    (boardStep format b input).Guarded format past := by
  by_cases hopens : b.OpensAlone input
  · exact hguard.step hround hpast hopens
  · rcases boardStep_cases format b input with h | ⟨c, tasks, hinput, -, -⟩ | ⟨hinput, -⟩ |
      ⟨before, p, q, after, disk, hcalls, hmove, h⟩
    · rw [h]
      exact hguard
    · exact absurd (fun i hi => by rw [hinput] at hi; cases hi) hopens
    · exact absurd (fun i hi => by rw [hinput] at hi; cases hi) hopens
    · rw [h]
      refine hguard.move hpast hcalls hmove fun i hi x hx hwrites => ?_
      subst hi
      have hsole := hs.alone
      rw [hcalls] at hsole
      cases hmove with
      | openTmp data =>
        refine hsole.others ⟨data, rfl⟩ x hx ?_
        cases x with
        | writing data' => exact ⟨data', rfl⟩
        | changed | rendered | saved | failed => exact hwrites.elim

end Board

/-! ## A save from end to end -/

section Save

variable {b : Board} {data : Bytes}

/-- The steps of a save that has the text of the map. -/
def saveInputs (i : ℕ) (data : Bytes) : List BoardInput := [.openTmp i, .write i data.length, .rename i]

variable (format) in
/-- A save that nothing comes between leaves its text in the file. -/
theorem runSteps_saveInputs {i : ℕ} (hcall : b.calls[i]? = some (.rendered data)) (hidle : ∀ p ∈ b.calls, ¬ p.Writes) :
    StepsMeet (boardStep format) Board.OpensAlone b (saveInputs i data) ∧
      ∃ disk, runSteps (boardStep format) b (saveInputs i data) = { b with calls := b.calls.set i .saved, disk } ∧
        disk.read = some data := by
  obtain ⟨hi, -⟩ := List.getElem?_eq_some_iff.mp hcall
  obtain ⟨disk, hrename, hread⟩ := (b.disk.openTmp_writing.write data).rename
  have hopen : boardStep format b (.openTmp i) =
      { b with calls := b.calls.set i (.writing data b.disk.openTmp.2 0), disk := b.disk.openTmp.1 } := by
    simp only [boardStep, hcall]
  have hwrite : boardStep format (boardStep format b (.openTmp i)) (.write i data.length) =
      { b with
        calls := b.calls.set i (.writing data b.disk.openTmp.2 data.length)
        disk := b.disk.openTmp.1.write b.disk.openTmp.2 0 data } := by
    rw [hopen]
    simp [boardStep, hi]
  have hdone : boardStep format (boardStep format (boardStep format b (.openTmp i)) (.write i data.length)) (.rename i) =
      { b with calls := b.calls.set i .saved, disk } := by
    rw [hwrite]
    simp only [boardStep, List.getElem?_set_self hi, if_true, List.length_nil ▸ hrename, List.set_set]
  refine ⟨⟨fun _ _ => hidle, fun _ h => (by cases h), fun _ h => (by cases h), trivial⟩, disk, hdone, hread⟩

end Save

/-! ## Runs -/

/-- **A crash at any moment brings back a board that the store had**, and the tasks are in the columns, if no
temporary file is opened while another call writes to it. -/
theorem board_atomic (hround : ∀ ts, format.fromStr (format.toStringPretty ts) = some ts) {inputs : List BoardInput}
    (halone : StepsMeet (boardStep format) Board.OpensAlone .new inputs) :
    (runSteps (boardStep format) .new inputs).tasks.Valid ∧
      ∃ before after, inputs = before ++ after ∧ Assoc.Same (runSteps (boardStep format) .new before).tasks
        (boardStep format (runSteps (boardStep format) .new inputs) .restart).tasks := by
  have hguard : Board.Guarded format (fun b => ∃ before after, inputs = before ++ after ∧
      b = runSteps (boardStep format) .new before) (runSteps (boardStep format) .new inputs) :=
    run_history (fun b input hpast hs hopen => hs.step hround hpast hopen) Board.Guarded.new
      (fun before after hcut => ⟨before, after, hcut, rfl⟩) halone
  refine ⟨hguard.valid, ?_⟩
  rcases hguard.load hround with hsame | ⟨b, ⟨before, after, hcut, rfl⟩, -, hsame⟩
  · exact ⟨[], inputs, rfl, hsame⟩
  · exact ⟨before, after, hcut, hsame⟩

/-- **A restart brings back the board**, once all calls have returned, if each save is through before the next
one reads the map and none fails. -/
theorem board_saved (hround : ∀ ts, format.fromStr (format.toStringPretty ts) = some ts) {inputs : List BoardInput}
    (halone : StepsMeet (boardStep format) Board.SavesAlone .new inputs)
    (hreturned : ∀ p ∈ (runSteps (boardStep format) .new inputs).calls, p = .saved ∨ p = .failed) :
    (∀ p ∈ (runSteps (boardStep format) .new inputs).calls, p = .saved) ∧
      Assoc.Same (runSteps (boardStep format) .new inputs).tasks
        (boardStep format (runSteps (boardStep format) .new inputs) .restart).tasks := by
  have hrun : Board.Guarded format (fun _ => True) (runSteps (boardStep format) .new inputs) ∧
      Board.Synced format (runSteps (boardStep format) .new inputs) := by
    have hstart : Board.Guarded format (fun _ => True) .new ∧ Board.Synced format .new := ⟨Board.Guarded.new, Board.Synced.new⟩
    have hstep : ∀ b input, Board.Guarded format (fun _ => True) b ∧ Board.Synced format b → b.SavesAlone input →
        Board.Guarded format (fun _ => True) (boardStep format b input) ∧ Board.Synced format (boardStep format b input) :=
      fun b input hs hmeet => ⟨hs.1.step_alone hround hs.2 trivial input, hs.2.step hround hs.1 hmeet⟩
    exact run_invariant hstep inputs _ hstart halone
  have hsaved : ∀ p ∈ (runSteps (boardStep format) .new inputs).calls, p = .saved := by
    intro p hp
    refine (hreturned p hp).resolve_right fun hfailed => ?_
    exact hrun.2.unfailed (hfailed ▸ hp)
  refine ⟨hsaved, ?_⟩
  rcases hrun.2.current with hchanged | ⟨p, hp, data, hdata, -⟩ | ⟨-, hsame⟩
  · cases hsaved _ hchanged
  · rw [hsaved p hp] at hdata
    exact hdata.elim
  · exact hsame

/-! ## Two tasks -/

def exampleTask (id : Str) : KanbanTask :=
  ⟨id, ['t'], [], "backlog".toList, none, none, [], "2025-01-01T00:00:00+00:00".toList, "2025-01-01T00:00:00+00:00".toList⟩

def exampleCall (id : Str) : BoardInput :=
  .call (.create ['t'] "backlog".toList none id "2025-01-01T00:00:00+00:00".toList)

/-- The text that a call has of tasks that are iterated in an order. -/
def dataOf (format : TaskFormat) (order : List KanbanTask) : Bytes :=
  Utf8.encode (format.toStringPretty (sortCreated order))

/-- A task is created and saved. -/
def createInputs (format : TaskFormat) : List BoardInput :=
  [exampleCall ['a'], .render 0 [exampleTask ['a']]] ++ saveInputs 0 (dataOf format [exampleTask ['a']])

/-- A second task is created and saved between the reading of the map and the writing of the file for the first one. -/
def overlapInputs (format : TaskFormat) : List BoardInput :=
  [exampleCall ['a'], .render 0 [exampleTask ['a']], exampleCall ['b'], .render 1 [exampleTask ['b'], exampleTask ['a']]] ++
    (saveInputs 1 (dataOf format [exampleTask ['b'], exampleTask ['a']]) ++ saveInputs 0 (dataOf format [exampleTask ['a']]))

theorem runSteps_create (format : TaskFormat) :
    runSteps (boardStep format) .new [exampleCall ['a'], .render 0 [exampleTask ['a']]] =
      ⟨AList.insert ['a'] (exampleTask ['a']) ∅, [.rendered (dataOf format [exampleTask ['a']])], .absent⟩ := by
  rfl

theorem runSteps_overlap (format : TaskFormat) :
    runSteps (boardStep format) .new
        [exampleCall ['a'], .render 0 [exampleTask ['a']], exampleCall ['b'], .render 1 [exampleTask ['b'], exampleTask ['a']]] =
      ⟨AList.insert ['b'] (exampleTask ['b']) (AList.insert ['a'] (exampleTask ['a']) ∅),
        [.rendered (dataOf format [exampleTask ['a']]), .rendered (dataOf format [exampleTask ['b'], exampleTask ['a']])],
        .absent⟩ := by
  rfl

/-- The text of the first task alone. -/
theorem snapshotOf_create (format : TaskFormat) :
    SnapshotOf format (AList.insert ['a'] (exampleTask ['a']) ∅) (dataOf format [exampleTask ['a']]) :=
  ⟨[exampleTask ['a']], List.Perm.refl _, rfl⟩

theorem valid_create : TaskMap.Valid (AList.insert ['a'] (exampleTask ['a']) ∅) :=
  TaskMap.valid_empty.insert (t := exampleTask ['a']) List.mem_cons_self

/-- **Saves that overlap can forget a task**: both calls return without an error, no file is written by two calls at
once, and a restart brings back the first task only. -/
theorem board_overlap (hround : ∀ ts, format.fromStr (format.toStringPretty ts) = some ts) :
    StepsMeet (boardStep format) Board.OpensAlone .new (overlapInputs format) ∧
      (∀ p ∈ (runSteps (boardStep format) .new (overlapInputs format)).calls, p = .saved) ∧
      (runSteps (boardStep format) .new (overlapInputs format)).tasks.lookup ['b'] = some (exampleTask ['b']) ∧
      (boardStep format (runSteps (boardStep format) .new (overlapInputs format)) .restart).tasks.lookup ['b'] = none := by
  have hrun := runSteps_overlap format
  set dataA := dataOf format [exampleTask ['a']]
  set dataB := dataOf format [exampleTask ['b'], exampleTask ['a']]
  set tasks : TaskMap := AList.insert ['b'] (exampleTask ['b']) (AList.insert ['a'] (exampleTask ['a']) ∅)
  let both : Board := ⟨tasks, [.rendered dataA, .rendered dataB], .absent⟩
  have hidle : ∀ p ∈ both.calls, ¬ p.Writes := by
    intro p hp
    rcases List.mem_pair.mp hp with rfl | rfl <;> exact not_false
  obtain ⟨hmeet, disk, hsave, -⟩ := runSteps_saveInputs format (b := both) (i := 1) rfl hidle
  let one : Board := ⟨tasks, [.rendered dataA, .saved], disk⟩
  have hidle' : ∀ p ∈ one.calls, ¬ p.Writes := by
    intro p hp
    rcases List.mem_pair.mp hp with rfl | rfl <;> exact not_false
  obtain ⟨hmeet', disk', hsave', hread⟩ := runSteps_saveInputs format (b := one) (i := 0) rfl hidle'
  have hend : runSteps (boardStep format) .new (overlapInputs format) = ⟨tasks, [.saved, .saved], disk'⟩ := by
    rw [overlapInputs, runSteps_append, hrun, runSteps_append]
    exact (congrArg (runSteps (boardStep format) · (saveInputs 0 dataA)) hsave).trans hsave'
  refine ⟨stepsMeet_append.mpr ⟨?_, ?_⟩, ?_⟩
  · refine ⟨?_, ?_, ?_, ?_, trivial⟩ <;> exact fun _ h => by cases h
  · rw [hrun]
    refine stepsMeet_append.mpr ⟨hmeet, ?_⟩
    rw [show runSteps (boardStep format) both (saveInputs 1 dataB) = one from hsave]
    exact hmeet'
  · rw [hend]
    refine ⟨fun p hp => ?_, rfl, ?_⟩
    · rcases List.mem_pair.mp hp with rfl | rfl <;> rfl
    · change (loadTasks format disk'.read).lookup ['b'] = none
      rw [hread, (snapshotOf_create format).load hround valid_create]
      rfl

/-- The first task as `serde_json` writes it. -/
def exampleText : Str :=
  '[' :: ("\n  \x7b\n    \"id\": \"a\",\n    \"title\": \"t\",\n    \"description\": \"\",\n    \"column\": \"backlog\",\n" ++
    "    \"assignee\": null,\n    \"priority\": null,\n    \"labels\": [],\n" ++
    "    \"created_at\": \"2025-01-01T00:00:00+00:00\",\n    \"updated_at\": \"2025-01-01T00:00:00+00:00\"\n  \x7d\n]").toList

theorem countable_kanbanTask : Countable KanbanTask := by
  have : Countable Char := Function.Injective.countable (f := Char.toNat) fun _ _ h => Char.ext (UInt32.toNat_inj.mp h)
  refine Function.Injective.countable
    (f := fun t => (t.id, t.title, t.description, t.column, t.assignee, t.priority, t.labels, t.createdAt, t.updatedAt)) ?_
  intro t u h
  cases t
  cases u
  simp only [Prod.mk.injEq] at h
  simp only [KanbanTask.mk.injEq]
  exact h

/-- A number for each list of tasks. -/
theorem exists_taskCode : ∃ code : List KanbanTask → ℕ, Function.Injective code :=
  have := countable_kanbanTask
  Countable.exists_injective_nat _

open Classical in
/-- The text of the example as it is, and some other text for every other list. -/
noncomputable def writeTasks (ts : List KanbanTask) : Str :=
  if ts = [exampleTask ['a']] then exampleText else List.replicate (exists_taskCode.choose ts) '#'

theorem writeTasks_injective : Function.Injective writeTasks := by
  have hne : ∀ n, exampleText ≠ List.replicate n '#' := by
    intro n h
    have hmem : '[' ∈ List.replicate n '#' := by
      rw [← h]
      exact List.mem_cons_self
    exact absurd (List.eq_of_mem_replicate hmem) (by decide)
  intro ts ts' h
  unfold writeTasks at h
  split at h
  · next heq =>
    split at h
    · next heq' => rw [heq, heq']
    · exact absurd h (hne _)
  · split at h
    · exact absurd h.symm (hne _)
    · exact exists_taskCode.choose_spec (by simpa using congrArg List.length h)

noncomputable def exampleFormat : TaskFormat := ⟨writeTasks, Function.partialInv writeTasks⟩

theorem exampleFormat_round (ts : List KanbanTask) : exampleFormat.fromStr (exampleFormat.toStringPretty ts) = some ts :=
  Function.partialInv_left writeTasks_injective ts

/-- A task is created and saved. -/
theorem createInputs_spec (format : TaskFormat) :
    StepsMeet (boardStep format) Board.OpensAlone .new (createInputs format) ∧
      StepsMeet (boardStep format) Board.SavesAlone .new (createInputs format) ∧
      (runSteps (boardStep format) .new (createInputs format)).calls = [.saved] := by
  have hrun := runSteps_create format
  let one : Board :=
    ⟨AList.insert ['a'] (exampleTask ['a']) ∅, [.rendered (dataOf format [exampleTask ['a']])], .absent⟩
  have hidle : ∀ p ∈ one.calls, ¬ p.Writes := by
    intro p hp
    rw [List.mem_singleton.mp hp]
    exact not_false
  obtain ⟨hmeet, disk, hsave, -⟩ := runSteps_saveInputs format (b := one) (i := 0) rfl hidle
  refine ⟨stepsMeet_append.mpr ⟨⟨?_, ?_, trivial⟩, hrun ▸ hmeet⟩, stepsMeet_append.mpr ⟨⟨?_, ?_, trivial⟩, ?_⟩, ?_⟩
  · exact fun _ h => by cases h
  · exact fun _ h => by cases h
  · exact ⟨fun _ _ h => (by cases h), fun _ h => (by cases h)⟩
  · refine ⟨fun _ _ _ p hp => ?_, fun _ h => (by cases h)⟩
    rw [show p = .changed from List.mem_singleton.mp hp]
    exact fun ⟨_, h⟩ => h.elim
  · refine ⟨?_, ?_, ?_, trivial⟩ <;> exact ⟨fun _ _ h => (by cases h), fun _ h => (by cases h)⟩
  · rw [createInputs, runSteps_append, hrun]
    exact congrArg Board.calls hsave

theorem board_atomic_example :
    (runSteps (boardStep exampleFormat) .new (createInputs exampleFormat)).tasks.Valid ∧
      ∃ before after, createInputs exampleFormat = before ++ after ∧
        Assoc.Same (runSteps (boardStep exampleFormat) .new before).tasks
          (boardStep exampleFormat (runSteps (boardStep exampleFormat) .new (createInputs exampleFormat)) .restart).tasks :=
  board_atomic exampleFormat_round (createInputs_spec _).1

theorem board_saved_example :
    (∀ p ∈ (runSteps (boardStep exampleFormat) .new (createInputs exampleFormat)).calls, p = .saved) ∧
      Assoc.Same (runSteps (boardStep exampleFormat) .new (createInputs exampleFormat)).tasks
        (boardStep exampleFormat (runSteps (boardStep exampleFormat) .new (createInputs exampleFormat)) .restart).tasks :=
  board_saved exampleFormat_round (createInputs_spec _).2.1 fun p hp => by
    rw [(createInputs_spec exampleFormat).2.2] at hp
    exact Or.inl (List.mem_singleton.mp hp)

end Zeptoclaw

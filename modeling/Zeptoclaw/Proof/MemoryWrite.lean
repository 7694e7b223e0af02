import Zeptoclaw.Lib.History
import Zeptoclaw.Proof.Memory
import Zeptoclaw.Spec.Memory

/-!
# Failed writes of the memory, and the searcher's index

`memoryWrite_error_iff`: exactly when a call that returns an error leaves the map as it was. A call
that gets as far as the save has changed the map already. `searcher_inSync_iff`: the searcher has
the keys of the map in every state of a run of successful calls exactly if no cleanup of the run
removes an entry; the cleanups do not tell the searcher.
-/

namespace Zeptoclaw

open LongTermMemory

/-! ## One call -/

/-- A cleanup that has too many entries removes one. -/
theorem not_same_cleanupLeastUsed (lib : MemoryLib) {entries : Entries} {keepCount : ℕ} (now : ℕ)
    (h : ¬ entries.entries.length ≤ keepCount) :
    ¬ Assoc.Same entries (cleanupLeastUsed lib entries keepCount now).1 := by
  rw [cleanupLeastUsed, if_neg h, Assoc.same_retain_iff]
  intro hkept
  have hlen : 0 < (leastUsed lib entries keepCount now).length := by
    unfold leastUsed
    rw [List.length_map, List.length_take, List.length_mergeSort, List.length_map]
    omega
  obtain ⟨k, hk⟩ := List.exists_mem_of_length_pos hlen
  have hscored := hk
  unfold leastUsed at hscored
  obtain ⟨scored, hmem, rfl⟩ := List.mem_map.mp hscored
  obtain ⟨e, he, rfl⟩ := List.mem_map.mp (List.mem_mergeSort.mp (List.mem_of_mem_take hmem))
  have hkeep := hkept e.1 e.2 (AList.mem_lookup_iff.mpr he)
  rw [List.contains_iff_mem.mpr hk] at hkeep
  cases hkeep

namespace MemoryStore

variable {lib : MemoryLib} {io : MemoryIo} {m : MemoryStore}

/-- Every step of the save succeeds. -/
structure Saves (io : MemoryIo) (m : MemoryStore) : Prop where
  createDirAll : m.parent.isSome = true → io.createDirAll = none
  serialize : io.serialize = none
  write : io.write = none

theorem failing_ok_iff (text : Str) (e : Option Str) : failing text e = .ok () ↔ e = none := by
  cases e with
  | none => simp [failing]
  | some e => simp [failing]

theorem createParent_ok_iff : m.createParent io = .ok () ↔ (m.parent.isSome = true → io.createDirAll = none) := by
  unfold createParent
  cases m.parent with
  | none => simp
  | some parent => simpa using failing_ok_iff _ io.createDirAll

theorem andThen_ok_iff {x y : Except ZeptoError Unit} : (x >>= fun _ => y) = .ok () ↔ x = .ok () ∧ y = .ok () := by
  cases x with
  | error e => simp [bind, Except.bind]
  | ok u => simp [bind, Except.bind]

theorem save_ok_iff : m.save io = .ok () ↔ m.Saves io := by
  unfold save
  rw [andThen_ok_iff, andThen_ok_iff, createParent_ok_iff, failing_ok_iff, failing_ok_iff]
  exact ⟨fun h => ⟨h.1, h.2.1, h.2.2⟩, fun h => ⟨h.createDirAll, h.serialize, h.write⟩⟩

/-! What the rest of a call makes of a map that was changed. -/

theorem saveThen_tell_ok_iff {call : SearcherCall} {reply : MemoryReply} :
    (∃ r, (saveThen io (tell io call reply) m).1 = .ok r) ↔ m.Saves io ∧ io.searcher = none := by
  rw [← save_ok_iff]
  unfold saveThen
  cases m.save io with
  | error e => simp
  | ok u =>
    unfold tell
    cases io.searcher with
    | none => simp
    | some e => simp

theorem saveThen_done_ok_iff {reply : MemoryReply} :
    (∃ r, (saveThen io (fun m => (.ok reply, m)) m).1 = .ok r) ↔ m.Saves io := by
  rw [← save_ok_iff]
  unfold saveThen
  cases m.save io with
  | error e => simp
  | ok u => simp

theorem saveThen_tell_entries {call : SearcherCall} {reply : MemoryReply} :
    (saveThen io (tell io call reply) m).2.entries = m.entries := by
  unfold saveThen
  cases m.save io with
  | error e => rfl
  | ok u => rfl

theorem saveThen_done_entries {reply : MemoryReply} :
    (saveThen io (fun m => (.ok reply, m)) m).2.entries = m.entries := by
  unfold saveThen
  cases m.save io with
  | error e => rfl
  | ok u => rfl

/-- A call that returns an error leaves the map as it was. -/
def ErrorKeeps (m : MemoryStore) (r : Except ZeptoError MemoryReply × MemoryStore) : Prop :=
  ∀ e, r.1 = .error e → Assoc.Same m.entries r.2.entries

theorem errorKeeps_iff {r : Except ZeptoError MemoryReply × MemoryStore} :
    m.ErrorKeeps r ↔ (∃ reply, r.1 = .ok reply) ∨ Assoc.Same m.entries r.2.entries := by
  constructor
  · intro h
    cases hr : r.1 with
    | ok reply => exact .inl ⟨reply, rfl⟩
    | error e => exact .inr (h e hr)
  · rintro (⟨reply, hok⟩ | hsame) e he
    · rw [hok] at he
      cases he
    · exact hsame

/-- The condition under which a call that fails has not changed the map: it stops before the change,
or has nothing to change, or gets through. -/
def Harmless (lib : MemoryLib) (io : MemoryIo) (m : MemoryStore) : MemoryWrite → Prop
  | .set key content now =>
    lib.checkInjection content.value ≠ [] ∨ (m.Saves io ∧ io.searcher = none) ∨
      m.entries.lookup key = some (upsert m.entries key content now)
  | .delete key => m.entries.lookup key = none ∨ (m.Saves io ∧ io.searcher = none)
  | .cleanupLeastUsed keepCount _ => m.entries.entries.length ≤ keepCount ∨ m.Saves io
  | .cleanupExpired (.notFinite _) _ => True
  | .cleanupExpired (.finite threshold) now =>
    (threshold < 0 ∨ 1 < threshold) ∨
      (∀ k e, m.entries.lookup k = some e → threshold ≤ e.decayScore lib now) ∨ m.Saves io

theorem saves_entries {entries : Entries} : Saves io { m with entries } ↔ m.Saves io :=
  ⟨fun h => ⟨h.createDirAll, h.serialize, h.write⟩, fun h => ⟨h.createDirAll, h.serialize, h.write⟩⟩

/-! The calls, case by case. -/

theorem apply_set (key : Str) (content : MemoryContent) (now : ℕ) :
    m.apply lib io (.set key content now) =
      match LongTermMemory.set lib m.entries key content now with
      | .error e => (.error e, m)
      | .ok entries => saveThen io (tell io (.index key (searchable key content)) .done) { m with entries } := rfl

theorem apply_delete (key : Str) :
    m.apply lib io (.delete key) =
      if (LongTermMemory.delete m.entries key).2 then
        saveThen io (tell io (.remove key) (.existed true)) { m with entries := (LongTermMemory.delete m.entries key).1 }
      else (.ok (.existed false), { m with entries := (LongTermMemory.delete m.entries key).1 }) := rfl

theorem apply_cleanupLeastUsed (keepCount now : ℕ) :
    m.apply lib io (.cleanupLeastUsed keepCount now) =
      if m.entries.entries.length ≤ keepCount then (.ok (.removed 0), m)
      else saveThen io (fun s => (.ok (.removed (LongTermMemory.cleanupLeastUsed lib m.entries keepCount now).2), s))
        { m with entries := (LongTermMemory.cleanupLeastUsed lib m.entries keepCount now).1 } := rfl

theorem apply_cleanupExpired (threshold : ℚ) (now : ℕ) :
    m.apply lib io (.cleanupExpired (.finite threshold) now) =
      match LongTermMemory.cleanupExpired lib m.entries threshold now with
      | .error e => (.error e, m)
      | .ok (entries, count) =>
        if 0 < count then saveThen io (fun s => (.ok (.removed count), s)) { m with entries }
        else (.ok (.removed count), { m with entries }) := rfl

theorem apply_set_clean {key : Str} {content : MemoryContent} {now : ℕ} (h : lib.checkInjection content.value = []) :
    m.apply lib io (.set key content now) = saveThen io (tell io (.index key (searchable key content)) .done)
      { m with entries := m.entries.insert key (upsert m.entries key content now) } := by
  rw [apply_set]
  simp [LongTermMemory.set, h]

theorem apply_set_rejected (io : MemoryIo) (m : MemoryStore) (key : Str) {content : MemoryContent} (now : ℕ)
    (h : lib.checkInjection content.value ≠ []) :
    ∃ e, m.apply lib io (.set key content now) = (.error e, m) := by
  rw [apply_set]
  simp [LongTermMemory.set, h]

theorem apply_delete_some {key : Str} {e : MemoryEntry} (h : m.entries.lookup key = some e) :
    m.apply lib io (.delete key) =
      saveThen io (tell io (.remove key) (.existed true)) { m with entries := m.entries.erase key } := by
  rw [apply_delete]
  simp [LongTermMemory.delete, h]

theorem apply_delete_none {key : Str} (h : m.entries.lookup key = none) :
    m.apply lib io (.delete key) = (.ok (.existed false), { m with entries := m.entries.erase key }) := by
  rw [apply_delete]
  simp [LongTermMemory.delete, h]

theorem apply_cleanupLeastUsed_few {keepCount now : ℕ} (h : m.entries.entries.length ≤ keepCount) :
    m.apply lib io (.cleanupLeastUsed keepCount now) = (.ok (.removed 0), m) := by
  rw [apply_cleanupLeastUsed, if_pos h]

theorem apply_cleanupLeastUsed_many (lib : MemoryLib) (io : MemoryIo) {keepCount : ℕ} (now : ℕ)
    (h : ¬ m.entries.entries.length ≤ keepCount) :
    ∃ count, m.apply lib io (.cleanupLeastUsed keepCount now) = saveThen io (fun m => (.ok (.removed count), m))
      { m with entries := (cleanupLeastUsed lib m.entries keepCount now).1 } := by
  rw [apply_cleanupLeastUsed, if_neg h]
  exact ⟨_, rfl⟩

theorem apply_cleanupExpired_range (lib : MemoryLib) (io : MemoryIo) (m : MemoryStore) {threshold : ℚ} (now : ℕ)
    (h : threshold < 0 ∨ 1 < threshold) :
    ∃ e, m.apply lib io (.cleanupExpired (.finite threshold) now) = (.error e, m) := by
  rw [apply_cleanupExpired]
  simp [LongTermMemory.cleanupExpired, h]

/-- What `cleanup_expired` keeps. -/
def unexpired (lib : MemoryLib) (threshold : ℚ) (now : ℕ) (entries : Entries) : Entries :=
  entries.retain fun _ e => decide (threshold ≤ e.decayScore lib now)

theorem apply_cleanupExpired_none {threshold : ℚ} {now : ℕ} (h : ¬ (threshold < 0 ∨ 1 < threshold))
    (hall : ∀ k e, m.entries.lookup k = some e → threshold ≤ e.decayScore lib now) :
    m.apply lib io (.cleanupExpired (.finite threshold) now) =
      (.ok (.removed 0), { m with entries := unexpired lib threshold now m.entries }) := by
  have hkept : ¬ 0 < m.entries.entries.length - (unexpired lib threshold now m.entries).entries.length := by
    unfold unexpired
    rw [Assoc.length_retain_lt_iff, not_not]
    exact fun k e hk => decide_eq_true (hall k e hk)
  have hzero : m.entries.entries.length - (unexpired lib threshold now m.entries).entries.length = 0 := by omega
  unfold unexpired at hkept hzero ⊢
  rw [apply_cleanupExpired]
  simp only [LongTermMemory.cleanupExpired, if_neg h, hzero, Nat.lt_irrefl, if_false]

theorem apply_cleanupExpired_some (io : MemoryIo) {threshold : ℚ} {now : ℕ} (h : ¬ (threshold < 0 ∨ 1 < threshold))
    (hsome : ¬ ∀ k e, m.entries.lookup k = some e → threshold ≤ e.decayScore lib now) :
    ∃ count, m.apply lib io (.cleanupExpired (.finite threshold) now) = saveThen io (fun m => (.ok (.removed count), m))
      { m with entries := unexpired lib threshold now m.entries } := by
  have hdropped : 0 < m.entries.entries.length - (unexpired lib threshold now m.entries).entries.length := by
    unfold unexpired
    rw [Assoc.length_retain_lt_iff]
    exact fun hall => hsome fun k e hk => of_decide_eq_true (hall k e hk)
  unfold unexpired at hdropped ⊢
  rw [apply_cleanupExpired]
  simp only [LongTermMemory.cleanupExpired, if_neg h, if_pos hdropped]
  exact ⟨_, rfl⟩

theorem not_same_unexpired {threshold : ℚ} {now : ℕ} {entries : Entries}
    (h : ¬ ∀ k e, entries.lookup k = some e → threshold ≤ e.decayScore lib now) :
    ¬ Assoc.Same entries (unexpired lib threshold now entries) := by
  unfold unexpired
  rw [Assoc.same_retain_iff]
  exact fun hall => h fun k e hk => of_decide_eq_true (hall k e hk)

theorem errorKeeps_set (key : Str) (content : MemoryContent) (now : ℕ) :
    m.ErrorKeeps (m.apply lib io (.set key content now)) ↔ m.Harmless lib io (.set key content now) := by
  rw [errorKeeps_iff, Harmless]
  by_cases hclean : lib.checkInjection content.value = []
  · rw [apply_set_clean hclean, saveThen_tell_ok_iff, saveThen_tell_entries, saves_entries, Assoc.same_insert_iff]
    tauto
  · obtain ⟨e, heq⟩ := apply_set_rejected io m key now hclean
    rw [heq]
    exact ⟨fun _ => .inl hclean, fun _ => .inr fun _ => rfl⟩

theorem errorKeeps_delete (key : Str) :
    m.ErrorKeeps (m.apply lib io (.delete key)) ↔ m.Harmless lib io (.delete key) := by
  rw [errorKeeps_iff, Harmless]
  cases hold : m.entries.lookup key with
  | none =>
    rw [apply_delete_none hold]
    exact ⟨fun _ => .inl rfl, fun _ => .inl ⟨_, rfl⟩⟩
  | some e =>
    rw [apply_delete_some hold, saveThen_tell_ok_iff, saveThen_tell_entries, saves_entries, Assoc.same_erase_iff, hold]
    tauto

theorem errorKeeps_cleanupLeastUsed (keepCount now : ℕ) :
    m.ErrorKeeps (m.apply lib io (.cleanupLeastUsed keepCount now)) ↔ m.Harmless lib io (.cleanupLeastUsed keepCount now) := by
  rw [errorKeeps_iff, Harmless]
  by_cases hlen : m.entries.entries.length ≤ keepCount
  · rw [apply_cleanupLeastUsed_few hlen]
    exact ⟨fun _ => .inl hlen, fun _ => .inl ⟨_, rfl⟩⟩
  · obtain ⟨count, heq⟩ := apply_cleanupLeastUsed_many lib io now hlen
    rw [heq, saveThen_done_ok_iff, saveThen_done_entries, saves_entries]
    have hsame := not_same_cleanupLeastUsed lib now hlen
    tauto

theorem errorKeeps_cleanupExpired (threshold : ℚ) (now : ℕ) :
    m.ErrorKeeps (m.apply lib io (.cleanupExpired (.finite threshold) now)) ↔
      m.Harmless lib io (.cleanupExpired (.finite threshold) now) := by
  rw [errorKeeps_iff, Harmless]
  by_cases hrange : threshold < 0 ∨ 1 < threshold
  · obtain ⟨e, heq⟩ := apply_cleanupExpired_range lib io m now hrange
    rw [heq]
    exact ⟨fun _ => .inl hrange, fun _ => .inr fun _ => rfl⟩
  · by_cases hall : ∀ k e, m.entries.lookup k = some e → threshold ≤ e.decayScore lib now
    · rw [apply_cleanupExpired_none hrange hall]
      exact ⟨fun _ => .inr (.inl hall), fun _ => .inl ⟨_, rfl⟩⟩
    · obtain ⟨count, heq⟩ := apply_cleanupExpired_some io hrange hall
      rw [heq, saveThen_done_ok_iff, saveThen_done_entries, saves_entries]
      have hsame := not_same_unexpired hall
      tauto

end MemoryStore

/-- **A call that returns an error leaves the map as it was exactly if it is harmless.** -/
theorem memoryWrite_error_iff (lib : MemoryLib) (io : MemoryIo) (m : MemoryStore) (write : MemoryWrite) :
    (∀ e, (m.apply lib io write).1 = .error e → ∀ k, (m.apply lib io write).2.entries.lookup k = m.entries.lookup k) ↔
      m.Harmless lib io write := by
  cases write with
  | set key content now => exact MemoryStore.errorKeeps_set key content now
  | delete key => exact MemoryStore.errorKeeps_delete key
  | cleanupLeastUsed keepCount now => exact MemoryStore.errorKeeps_cleanupLeastUsed keepCount now
  | cleanupExpired threshold now =>
    cases threshold with
    | finite threshold => exact MemoryStore.errorKeeps_cleanupExpired threshold now
    | notFinite shown => exact ⟨fun _ => trivial, fun _ _ _ _ => rfl⟩

/-- A disk without space. -/
def fullDisk : MemoryIo := { write := some "No space left on device (os error 28)".toList }

/-- An empty memory. -/
def emptyMemory : MemoryStore := { entries := ∅, storagePath := "m/longterm.json".toList, parent := some "m".toList }

def rememberAnn : MemoryWrite := .set "user:name".toList ⟨"Ann".toList, "fact".toList, [], 1⟩ 5

/-- A `set` that fails on a full disk has put its entry into the map. -/
theorem memoryWrite_error_changes :
    ¬ ∃ lib : MemoryLib, lib.checkInjection "Ann".toList = [] ∧
      ∀ (io : MemoryIo) (m : MemoryStore) (write : MemoryWrite) (e : ZeptoError), (m.apply lib io write).1 = .error e →
        ∀ k, (m.apply lib io write).2.entries.lookup k = m.entries.lookup k := by
  rintro ⟨lib, hclean, h⟩
  have hset : emptyMemory.apply lib fullDisk rememberAnn = _ := MemoryStore.apply_set_clean hclean
  have hkept := h fullDisk emptyMemory rememberAnn
    (.config "Failed to write long-term memory to m/longterm.json: No space left on device (os error 28)".toList)
    (by rw [hset]; rfl) "user:name".toList
  rw [hset] at hkept
  cases hkept

/-! ## The searcher's index -/

section Index

variable {lib : MemoryLib} {m : MemoryStore} {received : List SearcherCall} {key k : Str}

theorem not_indexed_nil : ¬ Indexed [] k := by
  rintro ⟨before, text, after, h, -⟩
  cases before with
  | nil => cases h
  | cons c before => cases h

theorem indexed_index_iff {text : Str} : Indexed (received ++ [.index key text]) k ↔ k = key ∨ Indexed received k := by
  constructor
  · rintro ⟨before, text', after, h, hafter⟩
    rcases append_eq_cut h with ⟨rest, hl, hrest⟩ | ⟨front, -, hlast⟩
    · refine .inr ⟨before, text', rest, hl, fun hmem => hafter ?_⟩
      rw [hrest]
      exact List.mem_append_left _ hmem
    · left
      cases front with
      | nil =>
        cases hlast
        rfl
      | cons c front =>
        rw [List.cons_append, List.cons.injEq] at hlast
        exact absurd hlast.2.symm (List.append_ne_nil_of_right_ne_nil _ (List.cons_ne_nil _ _))
  · rintro (rfl | ⟨before, text', after, rfl, hafter⟩)
    · exact ⟨received, text, [], rfl, List.not_mem_nil⟩
    · refine ⟨before, text', after ++ [.index key text], by rw [List.append_assoc]; rfl, ?_⟩
      rw [List.mem_append, List.mem_singleton]
      rintro (hmem | hmem)
      · exact hafter hmem
      · cases hmem

theorem indexed_remove_iff : Indexed (received ++ [.remove key]) k ↔ k ≠ key ∧ Indexed received k := by
  constructor
  · rintro ⟨before, text', after, h, hafter⟩
    rcases append_eq_cut h with ⟨rest, hl, hrest⟩ | ⟨front, -, hlast⟩
    · rw [hrest, List.mem_append, List.mem_singleton, not_or] at hafter
      refine ⟨?_, before, text', rest, hl, hafter.1⟩
      rintro rfl
      exact hafter.2 rfl
    · cases front with
      | nil => cases hlast
      | cons c front =>
        rw [List.cons_append, List.cons.injEq] at hlast
        exact absurd hlast.2.symm (List.append_ne_nil_of_right_ne_nil _ (List.cons_ne_nil _ _))
  · rintro ⟨hne, before, text', after, rfl, hafter⟩
    refine ⟨before, text', after ++ [.remove key], by rw [List.append_assoc]; rfl, ?_⟩
    rw [List.mem_append, List.mem_singleton]
    rintro (hmem | hmem)
    · exact hafter hmem
    · cases hmem
      exact hne rfl

namespace MemoryStore

/-- The searcher has the keys of the map. -/
def InSync (m : MemoryStore) : Prop := ∀ k, Indexed m.received k ↔ (m.entries.lookup k).isSome = true

/-- The call succeeds. -/
def Succeeds (lib : MemoryLib) (m : MemoryStore) (call : MemoryCall) : Prop :=
  ∃ reply, (m.apply lib call.io call.write).1 = .ok reply

/-- The call is no cleanup that removes an entry. -/
def KeepsIndexed (lib : MemoryLib) (m : MemoryStore) (call : MemoryCall) : Prop :=
  match call.write with
  | .set _ _ _ | .delete _ => True
  | .cleanupLeastUsed keepCount _ => m.entries.entries.length ≤ keepCount
  | .cleanupExpired (.notFinite _) _ => True
  | .cleanupExpired (.finite threshold) now => ∀ k e, m.entries.lookup k = some e → threshold ≤ e.decayScore lib now

theorem saveThen_tell_received {io : MemoryIo} {call : SearcherCall} {reply : MemoryReply}
    (h : ∃ r, (saveThen io (tell io call reply) m).1 = .ok r) :
    (saveThen io (tell io call reply) m).2.received = m.received ++ [call] := by
  have hsave := save_ok_iff.mpr (saveThen_tell_ok_iff.mp h).1
  unfold saveThen
  rw [hsave]
  rfl

theorem saveThen_done_received {io : MemoryIo} {reply : MemoryReply} :
    (saveThen io (fun m => (.ok reply, m)) m).2.received = m.received := by
  unfold saveThen
  cases m.save io with
  | error e => rfl
  | ok u => rfl

/-- A map that is filtered behind the searcher's back. -/
theorem inSync_saveThen_retain_iff {io : MemoryIo} {reply : MemoryReply} {p : Str → MemoryEntry → Bool} (h : m.InSync) :
    (saveThen io (fun m => (.ok reply, m)) { m with entries := m.entries.retain p }).2.InSync ↔
      Assoc.Same m.entries (m.entries.retain p) := by
  unfold InSync
  rw [saveThen_done_received, saveThen_done_entries]
  constructor
  · intro h'
    rw [Assoc.same_retain_iff]
    intro k e hk
    have hindexed : Indexed m.received k := by
      rw [h k, hk, Option.isSome_some]
    have hkept := (h' k).mp hindexed
    rw [Assoc.lookup_retain, hk] at hkept
    obtain ⟨e', he'⟩ := Option.isSome_iff_exists.mp hkept
    rw [Option.filter_eq_some_iff] at he'
    cases he'.1
    exact he'.2
  · intro hsame k
    rw [hsame k]
    exact h k

theorem inSync_of_same {m' : MemoryStore} (h : m.InSync) (hreceived : m'.received = m.received)
    (hsame : Assoc.Same m.entries m'.entries) : m'.InSync := by
  intro k
  rw [hreceived, hsame k]
  exact h k

theorem inSync_set {io : MemoryIo} {content : MemoryContent} {now : ℕ} (h : m.InSync)
    (hok : ∃ reply, (m.apply lib io (.set key content now)).1 = .ok reply) : (m.apply lib io (.set key content now)).2.InSync := by
  by_cases hclean : lib.checkInjection content.value = []
  · rw [apply_set_clean hclean] at hok ⊢
    intro k
    rw [saveThen_tell_received hok, saveThen_tell_entries, indexed_index_iff, h k, Assoc.lookup_insert]
    split
    · next heq => simp [heq]
    · next hne => simp [hne]
  · obtain ⟨e, heq⟩ := apply_set_rejected io m key now hclean
    rw [heq]
    exact h

theorem inSync_delete {io : MemoryIo} (h : m.InSync) (hok : ∃ reply, (m.apply lib io (.delete key)).1 = .ok reply) :
    (m.apply lib io (.delete key)).2.InSync := by
  cases hold : m.entries.lookup key with
  | none =>
    rw [apply_delete_none hold]
    exact inSync_of_same h rfl (Assoc.same_erase_iff.mpr hold)
  | some e =>
    rw [apply_delete_some hold] at hok ⊢
    intro k
    rw [saveThen_tell_received hok, saveThen_tell_entries, indexed_remove_iff, h k, Assoc.lookup_erase]
    split
    · next heq => simp [heq]
    · next hne => simp [hne]

theorem inSync_cleanupLeastUsed_iff {io : MemoryIo} {keepCount now : ℕ} (h : m.InSync) :
    m.entries.entries.length ≤ keepCount ↔ (m.apply lib io (.cleanupLeastUsed keepCount now)).2.InSync := by
  by_cases hlen : m.entries.entries.length ≤ keepCount
  · rw [apply_cleanupLeastUsed_few hlen]
    exact ⟨fun _ => h, fun _ => hlen⟩
  · obtain ⟨count, heq⟩ := apply_cleanupLeastUsed_many lib io now hlen
    have hretain : (cleanupLeastUsed lib m.entries keepCount now).1 =
        m.entries.retain fun k _ => !(leastUsed lib m.entries keepCount now).contains k := by
      rw [cleanupLeastUsed, if_neg hlen]
    rw [heq, hretain, inSync_saveThen_retain_iff h, ← hretain]
    exact ⟨fun hle => absurd hle hlen, fun hsame => absurd hsame (not_same_cleanupLeastUsed lib now hlen)⟩

theorem inSync_cleanupExpired_iff {io : MemoryIo} {threshold : ℚ} {now : ℕ} (h : m.InSync)
    (hok : ∃ reply, (m.apply lib io (.cleanupExpired (.finite threshold) now)).1 = .ok reply) :
    (∀ k e, m.entries.lookup k = some e → threshold ≤ e.decayScore lib now) ↔
      (m.apply lib io (.cleanupExpired (.finite threshold) now)).2.InSync := by
  by_cases hrange : threshold < 0 ∨ 1 < threshold
  · obtain ⟨e, heq⟩ := apply_cleanupExpired_range lib io m now hrange
    obtain ⟨reply, hok⟩ := hok
    rw [heq] at hok
    cases hok
  · by_cases hall : ∀ k e, m.entries.lookup k = some e → threshold ≤ e.decayScore lib now
    · rw [apply_cleanupExpired_none hrange hall]
      have hsame : Assoc.Same m.entries (unexpired lib threshold now m.entries) :=
        Assoc.same_retain_iff.mpr fun k e hk => decide_eq_true (hall k e hk)
      exact ⟨fun _ => inSync_of_same h rfl hsame, fun _ => hall⟩
    · obtain ⟨count, heq⟩ := apply_cleanupExpired_some io hrange hall
      rw [heq]
      constructor
      · exact fun hyes => absurd hyes hall
      · exact fun hsync => absurd ((inSync_saveThen_retain_iff h).mp hsync) (not_same_unexpired hall)

/-- A successful call leaves the searcher in step exactly if it is no cleanup that removes an entry. -/
theorem keepsIndexed_iff_step (m : MemoryStore) (call : MemoryCall) (h : m.InSync) (hok : m.Succeeds lib call) :
    m.KeepsIndexed lib call ↔ (m.step lib call).InSync := by
  obtain ⟨write, io⟩ := call
  cases write with
  | set key content now => exact ⟨fun _ => inSync_set h hok, fun _ => trivial⟩
  | delete key => exact ⟨fun _ => inSync_delete h hok, fun _ => trivial⟩
  | cleanupLeastUsed keepCount now => exact inSync_cleanupLeastUsed_iff h
  | cleanupExpired threshold now =>
    cases threshold with
    | finite threshold => exact inSync_cleanupExpired_iff h hok
    | notFinite shown => exact ⟨fun _ => h, fun _ => trivial⟩

end MemoryStore

end Index

/-- **The searcher has exactly the keys of the map in every state of a run of successful calls
exactly if no cleanup of the run removes an entry.** -/
theorem searcher_inSync_iff (lib : MemoryLib) (storagePath : Str) (parent : Option Str) (calls : List MemoryCall)
    (hok : StepsMeet (MemoryStore.step lib) (MemoryStore.Succeeds lib) { entries := ∅, storagePath, parent } calls) :
    (∀ before after, calls = before ++ after →
      (runSteps (MemoryStore.step lib) { entries := ∅, storagePath, parent } before).InSync) ↔
    StepsMeet (MemoryStore.step lib) (MemoryStore.KeepsIndexed lib) { entries := ∅, storagePath, parent } calls := by
  have hempty : MemoryStore.InSync { entries := ∅, storagePath, parent } := by
    intro k
    exact ⟨fun h => absurd h not_indexed_nil, fun h => nomatch h⟩
  exact (stepsMeet_iff_invariant_of MemoryStore.keepsIndexed_iff_step hempty hok).symm

/-- A name is remembered and forgotten. -/
def rememberForget : List MemoryCall := [⟨rememberAnn, {}⟩, ⟨.delete "user:name".toList, {}⟩]

theorem searcher_inSync_remembered :
    (runSteps (MemoryStore.step plainLib) emptyMemory rememberForget).InSync :=
  (searcher_inSync_iff plainLib "m/longterm.json".toList (some "m".toList) rememberForget
    ⟨⟨_, rfl⟩, ⟨_, rfl⟩, trivial⟩).mpr ⟨trivial, trivial, trivial⟩ rememberForget [] rfl

/-- A name is remembered and cleaned up. -/
def rememberCleanUp : List MemoryCall := [⟨rememberAnn, {}⟩, ⟨.cleanupLeastUsed 0 9, {}⟩]

/-- The searcher still has the key of the entry that was cleaned up. -/
theorem searcher_keeps_cleaned :
    StepsMeet (MemoryStore.step plainLib) (MemoryStore.Succeeds plainLib) emptyMemory rememberCleanUp ∧
      ¬ (runSteps (MemoryStore.step plainLib) emptyMemory rememberCleanUp).InSync := by
  refine ⟨⟨⟨_, rfl⟩, ⟨_, rfl⟩, trivial⟩, fun h => ?_⟩
  have hstale : Indexed (runSteps (MemoryStore.step plainLib) emptyMemory rememberCleanUp).received "user:name".toList :=
    ⟨[], _, [], rfl, List.not_mem_nil⟩
  have hkept := (h _).mp hstale
  exact absurd hkept (by decide +kernel)

end Zeptoclaw

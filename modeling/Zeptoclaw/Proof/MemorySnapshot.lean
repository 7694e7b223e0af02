import Zeptoclaw.Proof.MemoryWrite

/-!
# What a snapshot restores

An import takes the entries of the file one after the other, and the keys of an exported file are those of the map, each
once. `snapshot_restores`: an import into any store gets through exactly if no value it has to set is refused, and the
store then has the values of both; if a value is refused, it has those of the entries before that one.
-/

namespace Zeptoclaw

open LongTermMemory

/-! ## What is exported -/

theorem listAll_perm (entries : Entries) : (listAll entries).Perm (entries.pairs.map Prod.snd) := List.mergeSort_perm _ _

theorem mem_listAll {entries : Entries} {e : MemoryEntry} : e ∈ listAll entries ↔ ∃ k, entries.lookup k = some e := by
  rw [(listAll_perm entries).mem_iff, List.mem_map]
  constructor
  · rintro ⟨⟨k, e⟩, hmem, rfl⟩
    exact ⟨k, Assoc.mem_pairs.mp hmem⟩
  · rintro ⟨k, hk⟩
    exact ⟨(k, e), Assoc.mem_pairs.mpr hk, rfl⟩

/-- The entries of a snapshot. -/
def snapshotOf (entries : Entries) : List SnapshotEntry := (listAll entries).map MemoryEntry.snapshot

section Snapshot

variable {entries : Entries} {k : Str}

theorem keys_snapshotOf (h : Keyed entries) : ((snapshotOf entries).map SnapshotEntry.key).Perm entries.keys := by
  have hkeys : (entries.pairs.map Prod.snd).map MemoryEntry.key = entries.keys := by
    rw [← Assoc.pairs_fst, List.map_map]
    refine List.map_congr_left fun p hp => ?_
    exact h p.1 p.2 (Assoc.mem_pairs.mp hp)
  rw [← hkeys, snapshotOf, List.map_map]
  exact (listAll_perm entries).map MemoryEntry.key

theorem nodup_snapshotOf (h : Keyed entries) : ((snapshotOf entries).map SnapshotEntry.key).Nodup :=
  (keys_snapshotOf h).nodup_iff.mpr entries.keys_nodup

/-- The content of a key in the entries of a file. -/
def fileContent (es : List SnapshotEntry) (k : Str) : Option MemoryContent :=
  (es.find? fun e => e.key = k).map SnapshotEntry.content

/-- The content of a key in a map. -/
def contentAt (entries : Entries) (k : Str) : Option MemoryContent := (entries.lookup k).map MemoryEntry.content

theorem fileContent_eq_none_iff {es : List SnapshotEntry} : fileContent es k = none ↔ k ∉ es.map SnapshotEntry.key := by
  rw [fileContent, Option.map_eq_none_iff, List.find?_eq_none, List.mem_map]
  simp only [decide_eq_true_eq, not_exists, not_and]

theorem fileContent_cons (e : SnapshotEntry) (es : List SnapshotEntry) :
    fileContent (e :: es) k = if e.key = k then some e.content else fileContent es k := by
  unfold fileContent
  rw [List.find?_cons]
  by_cases hk : e.key = k
  · rw [decide_eq_true hk, if_pos hk]
    rfl
  · rw [decide_eq_false hk, if_neg hk]

/-- The file has what the map has. -/
theorem fileContent_snapshotOf (h : Keyed entries) : fileContent (snapshotOf entries) k = contentAt entries k := by
  cases hfind : (snapshotOf entries).find? fun e => e.key = k with
  | none =>
    have hmem : k ∉ entries.keys := by
      rw [← (keys_snapshotOf h).mem_iff]
      exact fileContent_eq_none_iff.mp (by rw [fileContent, hfind, Option.map_none])
    have hnone : entries.lookup k = none := AList.lookup_eq_none.mpr (mt AList.mem_keys.mp hmem)
    rw [fileContent, hfind, contentAt, hnone, Option.map_none, Option.map_none]
  | some e =>
    have hkey : e.key = k := by simpa using List.find?_some hfind
    obtain ⟨e', hmem, rfl⟩ := List.mem_map.mp (List.mem_of_find?_eq_some hfind)
    obtain ⟨k', hk'⟩ := mem_listAll.mp hmem
    obtain rfl : k' = k := (h k' e' hk').symm.trans hkey
    rw [fileContent, hfind, contentAt, hk']
    rfl

end Snapshot

/-! ## One entry of an import -/

section Import

variable {lib : MemoryLib} {overwrite : Bool} {steps : ℕ → ImportStep} {m : MemoryStore} {known : Str → Bool}
  {e : SnapshotEntry} {es : List SnapshotEntry} {n imported skipped : ℕ} {k : Str}

/-- The content of a key once there is one in the file: the new one, or the old one if there is one and it is not
overwritten. -/
def merged (overwrite : Bool) (old new : Option MemoryContent) : Option MemoryContent :=
  if overwrite then new.or old else old.or new

/-- The entry is not skipped. -/
def taken (overwrite : Bool) (known : Str → Bool) (e : SnapshotEntry) : Bool := overwrite || !known e.key

/-- The value of the entry is set, and is refused. -/
def refused (lib : MemoryLib) (overwrite : Bool) (known : Str → Bool) (e : SnapshotEntry) : Bool :=
  taken overwrite known e && !(lib.checkInjection e.value).isEmpty

theorem merged_none (overwrite : Bool) (old : Option MemoryContent) : merged overwrite old none = old := by
  cases overwrite with
  | false => exact Option.or_none
  | true => rfl

/-- What is set replaces what was there, if anything was. -/
theorem merged_of_taken {old : Option MemoryContent} (htaken : taken overwrite known e = true)
    (hold : old.isSome = known e.key) (content : MemoryContent) : merged overwrite old (some content) = some content := by
  cases overwrite with
  | true => rfl
  | false =>
    have hnew : known e.key = false := by simpa [taken] using htaken
    rw [hnew, Option.isSome_eq_false_iff, Option.isNone_iff_eq_none] at hold
    rw [hold]
    rfl

theorem merged_of_not_taken {old : Option MemoryContent} (htaken : taken overwrite known e = false)
    (hold : old.isSome = known e.key) (new : Option MemoryContent) : merged overwrite old new = old := by
  obtain ⟨rfl, hknown⟩ : overwrite = false ∧ known e.key = true := by simpa [taken] using htaken
  obtain ⟨content, rfl⟩ := Option.isSome_iff_exists.mp (hold.trans hknown)
  rfl

theorem isSome_contentAt (entries : Entries) (k : Str) : (contentAt entries k).isSome = (entries.lookup k).isSome :=
  Option.isSome_map

theorem contentAt_insert (k : Str) (e : MemoryEntry) (entries : Entries) (k' : Str) :
    contentAt (AList.insert k e entries) k' = if k = k' then some e.content else contentAt entries k' := by
  unfold contentAt
  rw [Assoc.lookup_insert]
  by_cases hk : k = k'
  · rw [if_pos hk, if_pos hk.symm, Option.map_some]
  · rw [if_neg hk, if_neg (Ne.symm hk)]

/-- Nothing fails while an entry is set. -/
theorem apply_set_works (m : MemoryStore) (hvalue : lib.checkInjection e.value = []) (now : ℕ) :
    ∃ reply m', m.apply lib {} (.set e.key e.content now) = (.ok reply, m') ∧
      m'.entries = AList.insert e.key (upsert m.entries e.key e.content now) m.entries := by
  have hworks : ∀ m : MemoryStore, m.Saves {} ∧ ({} : MemoryIo).searcher = none :=
    fun _ => ⟨⟨fun _ => rfl, rfl, rfl⟩, rfl⟩
  have hclean : lib.checkInjection e.content.value = [] := hvalue
  have happly : m.apply lib {} (.set e.key e.content now) = _ := MemoryStore.apply_set_clean hclean
  obtain ⟨reply, hreply⟩ := MemoryStore.saveThen_tell_ok_iff.mpr (hworks _)
  refine ⟨reply, _, Prod.ext (happly ▸ hreply) rfl, ?_⟩
  rw [happly]
  exact MemoryStore.saveThen_tell_entries

/-! ## All entries -/

/-- The entries of a file are imported up to the first whose value is refused. -/
structure Imports (lib : MemoryLib) (overwrite : Bool) (known : Str → Bool) (imported skipped : ℕ)
    (es : List SnapshotEntry) (m : MemoryStore) (r : Except SnapshotError (ℕ × ℕ) × MemoryStore) : Prop where
  contents : ∀ k, contentAt r.2.entries k =
    merged overwrite (contentAt m.entries k) (fileContent (es.takeWhile fun e => !refused lib overwrite known e) k)
  through : (∀ e ∈ es, refused lib overwrite known e = false) →
    r.1 = .ok (imported + es.countP (taken overwrite known), skipped + es.countP fun e => !taken overwrite known e)
  stopped : (∃ e ∈ es, refused lib overwrite known e = true) → ∃ err, r.1 = .error (.memory err)

namespace Imports

variable {r : Except SnapshotError (ℕ × ℕ) × MemoryStore}

theorem skip (h : Imports lib overwrite known imported (skipped + 1) es m r) (htaken : taken overwrite known e = false)
    (hold : (m.entries.lookup e.key).isSome = known e.key) : Imports lib overwrite known imported skipped (e :: es) m r := by
  have hok : refused lib overwrite known e = false := by rw [refused, htaken, Bool.false_and]
  refine ⟨fun k => ?_, fun hall => ?_, fun ⟨e', hmem, hrefused⟩ => ?_⟩
  · rw [h.contents, List.takeWhile_cons, hok, Bool.not_false, if_pos rfl, fileContent_cons]
    by_cases hk : e.key = k
    · subst hk
      have hsome := (isSome_contentAt m.entries e.key).trans hold
      rw [merged_of_not_taken htaken hsome, merged_of_not_taken htaken hsome]
    · rw [if_neg hk]
  · rw [h.through fun e' he' => hall e' (List.mem_cons_of_mem _ he'), List.countP_cons_of_neg (by rw [htaken]; decide),
      List.countP_cons_of_pos (by rw [htaken]; rfl), Nat.add_right_comm, Nat.add_assoc]
  · rcases List.mem_cons.mp hmem with rfl | hmem
    · rw [hok] at hrefused
      cases hrefused
    · exact h.stopped ⟨e', hmem, hrefused⟩

theorem set {m' : MemoryStore} {now : ℕ} (h : Imports lib overwrite known (imported + 1) skipped es m' r)
    (htaken : taken overwrite known e = true) (hvalue : lib.checkInjection e.value = [])
    (hold : (m.entries.lookup e.key).isSome = known e.key) (hnew : e.key ∉ es.map SnapshotEntry.key)
    (hentries : m'.entries = AList.insert e.key (upsert m.entries e.key e.content now) m.entries) :
    Imports lib overwrite known imported skipped (e :: es) m r := by
  have hok : refused lib overwrite known e = false := by
    rw [refused, hvalue, List.isEmpty_nil, Bool.not_true, Bool.and_false]
  refine ⟨fun k => ?_, fun hall => ?_, fun ⟨e', hmem, hrefused⟩ => ?_⟩
  · rw [h.contents, hentries, contentAt_insert, upsert_content, List.takeWhile_cons, hok, Bool.not_false, if_pos rfl,
      fileContent_cons]
    by_cases hk : e.key = k
    · subst hk
      have hnone : fileContent (es.takeWhile fun e => !refused lib overwrite known e) e.key = none :=
        fileContent_eq_none_iff.mpr fun hmem => hnew (List.map_subset _ (List.takeWhile_prefix _).subset hmem)
      rw [if_pos rfl, if_pos rfl, hnone, merged_none,
        merged_of_taken htaken ((isSome_contentAt m.entries e.key).trans hold)]
    · rw [if_neg hk, if_neg hk]
  · rw [h.through fun e' he' => hall e' (List.mem_cons_of_mem _ he'), List.countP_cons_of_pos htaken,
      List.countP_cons_of_neg (by rw [htaken]; decide), Nat.add_right_comm, Nat.add_assoc]
  · rcases List.mem_cons.mp hmem with rfl | hmem
    · rw [hok] at hrefused
      cases hrefused
    · exact h.stopped ⟨e', hmem, hrefused⟩

theorem refuse (htaken : taken overwrite known e = true) (hvalue : lib.checkInjection e.value ≠ []) (err : ZeptoError) :
    Imports lib overwrite known imported skipped (e :: es) m (.error (.memory err), m) := by
  have hrefused : refused lib overwrite known e = true := by simpa [refused, htaken] using hvalue
  refine ⟨fun k => ?_, fun hall => ?_, fun _ => ⟨err, rfl⟩⟩
  · rw [List.takeWhile_cons, hrefused, Bool.not_true, if_neg Bool.false_ne_true]
    exact (merged_none _ _).symm
  · rw [hall e List.mem_cons_self] at hrefused
    cases hrefused

end Imports

theorem imports_importEntries (hsteps : ∀ n, (steps n).io = {}) : ∀ (es : List SnapshotEntry) (n imported skipped : ℕ)
    (m : MemoryStore), (es.map SnapshotEntry.key).Nodup → (∀ e ∈ es, (m.entries.lookup e.key).isSome = known e.key) →
      Imports lib overwrite known imported skipped es m (importEntries lib overwrite steps n imported skipped es m) := by
  intro es
  induction es with
  | nil =>
    intro n imported skipped m _ _
    exact ⟨fun k => (merged_none _ _).symm, fun _ => rfl, fun ⟨_, hmem, _⟩ => absurd hmem List.not_mem_nil⟩
  | cons e es ih =>
    intro n imported skipped m hnodup hknown
    rw [List.map_cons, List.nodup_cons] at hnodup
    have hold := hknown e List.mem_cons_self
    have htaken : (!overwrite && known e.key) = !taken overwrite known e := by rw [taken, Bool.not_or, Bool.not_not]
    unfold importEntries
    rw [hold, htaken]
    cases h : taken overwrite known e with
    | false =>
      exact (ih _ _ _ m hnodup.2 fun e' he' => hknown e' (List.mem_cons_of_mem _ he')).skip h hold
    | true =>
      rw [Bool.not_true, if_neg Bool.false_ne_true, hsteps]
      by_cases hvalue : lib.checkInjection e.value = []
      · obtain ⟨reply, m', happly, hentries⟩ := apply_set_works m hvalue (steps n).now
        rw [happly]
        refine (ih _ _ _ m' hnodup.2 fun e' he' => ?_).set h hvalue hold hnodup.1 hentries
        -- the key of a later entry is another one
        have hne : e'.key ≠ e.key := fun heq => hnodup.1 (heq ▸ List.mem_map_of_mem he')
        rw [hentries, AList.lookup_insert_ne hne, hknown e' (List.mem_cons_of_mem _ he')]
      · have hcontent : lib.checkInjection e.content.value ≠ [] := hvalue
        obtain ⟨err, happly⟩ := MemoryStore.apply_set_rejected {} m e.key (steps n).now hcontent
        rw [happly]
        exact .refuse h hvalue err

end Import

/-! ## From one store to another -/

section Restore

variable {lib : MemoryLib} {format : SnapshotFormat} {overwrite : Bool} {steps : ℕ → ImportStep} {io : MemoryIo}
  {parent : Option Str} {saved : Entries} {count : ℕ} {file : Str} {m : MemoryStore}

/-- An export that gets through is one of the entries. -/
theorem exportSnapshot_ok (h : exportSnapshot format io parent saved = .ok (count, file)) :
    count = (snapshotOf saved).length ∧ file = format.toStringPretty (snapshotOf saved) := by
  have hrest : ∀ {x : Except SnapshotError Unit} {r : Except SnapshotError (ℕ × Str)},
      (x >>= fun _ => r) = .ok (count, file) → r = .ok (count, file) := by
    intro x r h
    cases x with
    | error e => cases h
    | ok _ => exact h
  have hreturn := hrest (hrest (hrest h))
  cases hreturn
  exact ⟨rfl, rfl⟩

/-- The keys that a store has. -/
def MemoryStore.known (m : MemoryStore) (k : Str) : Bool := (m.entries.lookup k).isSome

theorem importSnapshot_ok {es : List SnapshotEntry} (h : format.fromStr file = .ok es) :
    importSnapshot lib format overwrite steps (.ok file) m = importEntries lib overwrite steps 0 0 0 es m := by
  simp only [importSnapshot, h]

/-- **What comes back from a snapshot**: everything, if no value that has to be set is refused, and else the entries
before the first that is. -/
theorem snapshot_restores (hkeyed : Keyed saved)
    (hround : format.fromStr (format.toStringPretty (snapshotOf saved)) = .ok (snapshotOf saved))
    (hexport : exportSnapshot format io parent saved = .ok (count, file)) (hsteps : ∀ n, (steps n).io = {}) :
    count = saved.keys.length ∧
      ((∀ e ∈ snapshotOf saved, refused lib overwrite m.known e = false) →
        (importSnapshot lib format overwrite steps (.ok file) m).1 =
          .ok (saved.keys.countP fun k => overwrite || !m.known k, saved.keys.countP fun k => !overwrite && m.known k) ∧
        ∀ k, contentAt (importSnapshot lib format overwrite steps (.ok file) m).2.entries k =
          merged overwrite (contentAt m.entries k) (contentAt saved k)) ∧
      ∀ before e after, snapshotOf saved = before ++ e :: after →
        (∀ e' ∈ before, refused lib overwrite m.known e' = false) → refused lib overwrite m.known e = true →
        (∃ err, (importSnapshot lib format overwrite steps (.ok file) m).1 = .error (.memory err)) ∧
        ∀ k, contentAt (importSnapshot lib format overwrite steps (.ok file) m).2.entries k =
          merged overwrite (contentAt m.entries k) (fileContent before k) := by
  obtain ⟨rfl, rfl⟩ := exportSnapshot_ok hexport
  have himports : Imports lib overwrite m.known 0 0 (snapshotOf saved) m _ :=
    imports_importEntries hsteps _ 0 0 0 m (nodup_snapshotOf hkeyed) fun _ _ => rfl
  have hcount : ∀ p : Str → Bool, (snapshotOf saved).countP (fun e => p e.key) = saved.keys.countP p := by
    intro p
    rw [← (keys_snapshotOf hkeyed).countP_eq, List.countP_map]
    rfl
  rw [importSnapshot_ok hround]
  refine ⟨?_, fun hall => ⟨?_, fun k => ?_⟩, fun before e after hsplit hbefore hrefused => ⟨?_, fun k => ?_⟩⟩
  · rw [← (keys_snapshotOf hkeyed).length_eq, List.length_map]
  · have hskipped : ∀ e, (!taken overwrite m.known e) = (!overwrite && m.known e.key) := fun e => by
      rw [taken, Bool.not_or, Bool.not_not]
    simp only [himports.through hall, Nat.zero_add, hskipped, ← hcount]
    rfl
  · rw [himports.contents, List.takeWhile_eq_self_iff.mpr fun e he => by rw [hall e he]; rfl, fileContent_snapshotOf hkeyed]
  · exact himports.stopped ⟨e, hsplit ▸ List.mem_append_right _ List.mem_cons_self, hrefused⟩
  · have hkept : ∀ e' ∈ before, (!refused lib overwrite m.known e') = true := fun e' he' => by rw [hbefore e' he']; rfl
    rw [himports.contents, hsplit, List.takeWhile_append_of_pos hkept, List.takeWhile_cons, hrefused, Bool.not_true,
      if_neg Bool.false_ne_true, List.append_nil]

/-- A memory with one entry. -/
def rememberedName : Entries :=
  AList.insert "user:name".toList ⟨"user:name".toList, "Ada".toList, "user".toList, 5, 5, 0, [], 1⟩ ∅

/-- The file of that memory. -/
def nameFile : Str :=
  '[' :: ("\n  \x7b\n    \"key\": \"user:name\",\n    \"value\": \"Ada\",\n    \"category\": \"user\",\n" ++
    "    \"tags\": [],\n    \"importance\": 1.0\n  \x7d\n]").toList

def nameFormat : SnapshotFormat where
  toStringPretty _ := nameFile
  fromStr s := if s = nameFile then .ok (snapshotOf rememberedName) else .error "expected value at line 1 column 1".toList

theorem keyed_rememberedName : Keyed rememberedName := by
  intro k e h
  unfold rememberedName at h
  rw [Assoc.lookup_insert] at h
  split at h
  · next hk =>
    cases h
    exact hk.symm
  · cases h

/-- The file is imported into an empty store. -/
def importName : Except SnapshotError (ℕ × ℕ) × MemoryStore :=
  importSnapshot plainLib nameFormat false (fun _ => ⟨7, {}⟩) (.ok nameFile) ⟨∅, [], none, []⟩

theorem snapshot_restores_example :
    importName.1 = .ok (1, 0) ∧ ∀ k, contentAt importName.2.entries k = contentAt rememberedName k := by
  have hexport : exportSnapshot nameFormat {} none rememberedName = .ok ((snapshotOf rememberedName).length, nameFile) := rfl
  have hround : nameFormat.fromStr (nameFormat.toStringPretty (snapshotOf rememberedName)) =
      .ok (snapshotOf rememberedName) := by
    simp only [nameFormat, if_true]
  have hrestores := @snapshot_restores plainLib nameFormat false (fun _ => ⟨7, {}⟩) {} none rememberedName _ nameFile
    ⟨∅, [], none, []⟩ keyed_rememberedName hround hexport fun _ => rfl
  obtain ⟨hcounts, hcontents⟩ := hrestores.2.1 fun e _ => Bool.and_false _
  unfold importName
  exact ⟨hcounts.trans (by decide), fun k => (hcontents k).trans Option.none_or⟩

end Restore

end Zeptoclaw

import Mathlib.Data.List.AList

/-!
# Maps with finitely many keys

Mathlib's `AList` with one type of values, and the filters it lacks: `retain` drops keys,
`retainMap` changes or drops the value of each key.
-/

namespace Zeptoclaw

variable {κ ν : Type*}

/-- A map from keys to values; the order of the entries is that of an iteration. -/
abbrev Assoc (κ ν : Type*) : Type _ := AList fun _ : κ => ν

namespace Assoc

/-- What `f` makes of an entry. -/
def retainEntry (f : κ → ν → Option ν) (e : Σ _ : κ, ν) : Option (Σ _ : κ, ν) :=
  (f e.1 e.2).map fun v => ⟨e.1, v⟩

theorem nodupKeys_filterMap (f : κ → ν → Option ν) {l : List (Σ _ : κ, ν)} (h : l.NodupKeys) :
    (l.filterMap (retainEntry f)).NodupKeys := by
  rw [List.nodupKeys_iff_pairwise] at h ⊢
  rw [List.pairwise_filterMap]
  refine h.imp ?_
  intro e e' hne a ha a' ha'
  obtain ⟨v, -, rfl⟩ := Option.map_eq_some_iff.mp ha
  obtain ⟨v', -, rfl⟩ := Option.map_eq_some_iff.mp ha'
  exact hne

/-- Every value goes through `f`; a key whose value becomes `none` is dropped. -/
def retainMap (f : κ → ν → Option ν) (m : Assoc κ ν) : Assoc κ ν :=
  ⟨m.entries.filterMap (retainEntry f), nodupKeys_filterMap f m.nodupKeys⟩

/-- The keys and values that satisfy `p`. -/
def retain (p : κ → ν → Bool) (m : Assoc κ ν) : Assoc κ ν :=
  ⟨m.entries.filter fun e => p e.1 e.2, m.nodupKeys.sublist List.filter_sublist⟩

/-- A filter that keeps all entries changes nothing. -/
theorem retain_eq_self {p : κ → ν → Bool} {m : Assoc κ ν}
    (h : m.entries.length ≤ (m.retain p).entries.length) : m.retain p = m :=
  AList.ext (List.filter_sublist.eq_of_length_le h)

/-- The keys with their values. -/
def pairs (m : Assoc κ ν) : List (κ × ν) := m.entries.map fun e => (e.1, e.2)

theorem pairs_fst (m : Assoc κ ν) : m.pairs.map Prod.fst = m.keys := by
  unfold pairs
  rw [List.map_map]
  rfl

theorem nodup_pairs (m : Assoc κ ν) : m.pairs.Nodup := by
  refine List.Nodup.of_map Prod.fst ?_
  rw [pairs_fst]
  exact m.keys_nodup

theorem length_pairs (m : Assoc κ ν) : m.pairs.length = m.entries.length := List.length_map _

theorem length_keys (m : Assoc κ ν) : m.keys.length = m.entries.length := List.length_map _

variable [DecidableEq κ]

@[simp] theorem lookup_retainMap (f : κ → ν → Option ν) (m : Assoc κ ν) (k : κ) :
    (m.retainMap f).lookup k = (m.lookup k).bind (f k) := by
  ext v
  rw [← Option.mem_def, AList.mem_lookup_iff, Option.bind_eq_some_iff, retainMap]
  simp only [List.mem_filterMap, retainEntry, Option.map_eq_some_iff]
  constructor
  · rintro ⟨e, he, v', hf, heq⟩
    cases heq
    exact ⟨e.2, AList.mem_lookup_iff.mpr he, hf⟩
  · rintro ⟨v', hv', hf⟩
    exact ⟨⟨k, v'⟩, AList.mem_lookup_iff.mp hv', v, hf, rfl⟩

theorem lookup_retain (p : κ → ν → Bool) (m : Assoc κ ν) (k : κ) :
    (m.retain p).lookup k = (m.lookup k).filter (p k) := by
  ext v
  rw [← Option.mem_def, AList.mem_lookup_iff, Option.filter_eq_some_iff, retain, List.mem_filter,
    ← Option.mem_def, AList.mem_lookup_iff]

theorem lookup_insert (m : Assoc κ ν) (k k' : κ) (v : ν) :
    AList.lookup k' (AList.insert k v m) = if k' = k then some v else m.lookup k' := by
  by_cases h : k' = k
  · rw [if_pos h, h]
    exact AList.lookup_insert m
  · rw [if_neg h]
    exact AList.lookup_insert_ne h

theorem lookup_erase (m : Assoc κ ν) (k k' : κ) :
    AList.lookup k' (AList.erase k m) = if k' = k then none else m.lookup k' := by
  by_cases h : k' = k
  · rw [if_pos h, h]
    exact AList.lookup_erase k m
  · rw [if_neg h]
    exact AList.lookup_erase_ne h

theorem mem_pairs {m : Assoc κ ν} {k : κ} {v : ν} : (k, v) ∈ m.pairs ↔ m.lookup k = some v := by
  unfold pairs
  rw [← Option.mem_def, AList.mem_lookup_iff, List.mem_map]
  constructor
  · rintro ⟨⟨k, v⟩, he, heq⟩
    cases heq
    exact he
  · exact fun he => ⟨⟨k, v⟩, he, rfl⟩

theorem length_erase {m : Assoc κ ν} {k : κ} (h : k ∈ m) :
    (AList.erase k m).entries.length = m.entries.length - 1 := by
  rw [← length_keys, AList.keys_erase, List.length_erase_of_mem (AList.mem_keys.mp h), length_keys]

theorem length_insert {m : Assoc κ ν} {k : κ} (h : k ∉ m) (v : ν) :
    (AList.insert k v m).entries.length = m.entries.length + 1 := by
  rw [AList.entries_insert_of_notMem h, List.length_cons]

theorem mem_retain {p : κ → ν → Bool} {m : Assoc κ ν} {k : κ} (h : k ∈ m.retain p) : ∃ v, m.lookup k = some v ∧ p k v = true := by
  obtain ⟨v, hv⟩ := Option.isSome_iff_exists.mp (AList.lookup_isSome.mpr h)
  rw [lookup_retain, Option.filter_eq_some_iff] at hv
  exact ⟨v, hv⟩

/-- Two maps have the same values. -/
def Same (m m' : Assoc κ ν) : Prop := ∀ k, m'.lookup k = m.lookup k

theorem same_insert_iff {m : Assoc κ ν} {k : κ} {v : ν} : Same m (AList.insert k v m) ↔ m.lookup k = some v := by
  constructor
  · intro h
    rw [← h k, lookup_insert, if_pos rfl]
  · intro h k'
    rw [lookup_insert]
    split
    · next heq => rw [heq, h]
    · rfl

theorem same_erase_iff {m : Assoc κ ν} {k : κ} : Same m (AList.erase k m) ↔ m.lookup k = none := by
  constructor
  · intro h
    rw [← h k, lookup_erase, if_pos rfl]
  · intro h k'
    rw [lookup_erase]
    split
    · next heq => rw [heq, h]
    · rfl

theorem same_retain_iff {m : Assoc κ ν} {p : κ → ν → Bool} : Same m (m.retain p) ↔ ∀ k v, m.lookup k = some v → p k v = true := by
  constructor
  · intro h k v hv
    have hk := h k
    rw [lookup_retain, hv, Option.filter_eq_some_iff] at hk
    exact hk.2
  · intro h k
    rw [lookup_retain]
    cases hv : m.lookup k with
    | none => rfl
    | some v => rw [Option.filter_some, if_pos (h k v hv)]

/-- A filter drops an entry or changes nothing. -/
theorem length_retain_lt_iff {m : Assoc κ ν} {p : κ → ν → Bool} :
    0 < m.entries.length - (m.retain p).entries.length ↔ ¬ ∀ k v, m.lookup k = some v → p k v = true := by
  rw [← same_retain_iff]
  constructor
  · intro hlt hsame
    have hall : ∀ e ∈ m.entries, p e.1 e.2 = true := fun e he =>
      same_retain_iff.mp hsame e.1 e.2 (AList.mem_lookup_iff.mpr he)
    have hlen : (m.retain p).entries.length = m.entries.length := List.length_filter_eq_length_iff.mpr hall
    omega
  · intro hsame
    by_contra hle
    have heq : m.retain p = m := retain_eq_self (by omega)
    exact hsame fun k => by rw [heq]

/-- A list of entries inserted, of which none has the key. -/
theorem lookup_foldl_insert_of_ne {β : Type*} (key : β → κ) (val : β → ν) (l : List β) : ∀ (m : Assoc κ ν) (k : κ),
    (∀ b ∈ l, key b ≠ k) → (l.foldl (fun m b => AList.insert (key b) (val b) m) m).lookup k = m.lookup k := by
  induction l with
  | nil => exact fun _ _ _ => rfl
  | cons b l ih =>
    intro m k h
    obtain ⟨hb, hl⟩ := List.forall_mem_cons.mp h
    rw [List.foldl_cons, ih _ k hl, lookup_insert, if_neg (Ne.symm hb)]

/-- A list of entries with different keys inserted, of which one has the key. -/
theorem lookup_foldl_insert_mem {β : Type*} (key : β → κ) (val : β → ν) {b : β} : ∀ {l : List β} (m : Assoc κ ν),
    (l.map key).Nodup → b ∈ l → (l.foldl (fun m b => AList.insert (key b) (val b) m) m).lookup (key b) = some (val b) := by
  intro l
  induction l with
  | nil => exact fun _ _ h => absurd h List.not_mem_nil
  | cons c l ih =>
    intro m hkeys hb
    rw [List.map_cons, List.nodup_cons] at hkeys
    rw [List.foldl_cons]
    rcases List.mem_cons.mp hb with rfl | hb
    · rw [lookup_foldl_insert_of_ne, lookup_insert, if_pos rfl]
      intro c hc heq
      exact hkeys.1 (heq ▸ List.mem_map_of_mem hc)
    · exact ih _ hkeys.2 hb

end Assoc

end Zeptoclaw

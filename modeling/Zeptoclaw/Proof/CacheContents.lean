import Zeptoclaw.Proof.Cache

/-!
# What the response cache holds

`responseCache_contents`: a `put` leaves at most `max_entries` entries, its own among them, and
a hit is the response of the latest `put` for the key, at most `ttl` seconds old.
-/

namespace Zeptoclaw

open Text

namespace ResponseCache

variable {ι : Type*} {cfg : CacheConfig}

/-! ## The eviction loop ends -/

theorem length_remove_lt {slots : List (CacheSlot ι)} {s : CacheSlot ι} (h : s ∈ slots) :
    (remove s.key slots).length < slots.length := by
  unfold remove
  have hle := List.length_filter_le (fun t : CacheSlot ι => decide (t.key ≠ s.key)) slots
  have hne : (slots.filter fun t => decide (t.key ≠ s.key)).length ≠ slots.length := by
    intro heq
    have hall := List.length_filter_eq_length_iff.mp heq s h
    simp at hall
  omega

/-- The least recently used slot goes. -/
theorem length_evictLru_lt {slots : List (CacheSlot ι)} (h : slots ≠ []) : (evictLru slots).length < slots.length := by
  unfold evictLru
  cases hmin : slots.argmin fun s => s.entry.accessedAt with
  | none => exact absurd (List.argmin_eq_none.mp hmin) h
  | some s => exact length_remove_lt (List.argmin_mem hmin)

/-- As many rounds as there are slots make room. -/
theorem length_evictWhileFull_lt {max : ℕ} (hmax : 0 < max) : ∀ (fuel : ℕ) (slots : List (CacheSlot ι)),
    slots.length ≤ fuel → (evictWhileFull max fuel slots).length < max := by
  intro fuel
  induction fuel with
  | zero =>
    intro slots hfuel
    have hnil : slots.length = 0 := by omega
    unfold evictWhileFull
    omega
  | succ fuel ih =>
    intro slots hfuel
    unfold evictWhileFull
    by_cases hfull : max ≤ slots.length
    · rw [if_pos hfull]
      have hne : slots ≠ [] := by
        rintro rfl
        rw [List.length_nil] at hfull
        omega
      have hlt := length_evictLru_lt hne
      exact ih (evictLru slots) (by omega)
    · rw [if_neg hfull]
      omega

/-! ## What a `put` stores -/

theorem length_insert_le (slot : CacheSlot ι) (slots : List (CacheSlot ι)) : (insert slot slots).length ≤ slots.length + 1 := by
  unfold insert
  split
  · rw [List.length_map]
    omega
  · rw [List.length_append, List.length_singleton]

theorem mem_insert_self (slot : CacheSlot ι) (slots : List (CacheSlot ι)) : slot ∈ insert slot slots := by
  unfold insert
  split
  · next hany =>
    obtain ⟨s, hs, hkey⟩ := List.any_eq_true.mp hany
    exact List.mem_map.mpr ⟨s, hs, if_pos (by simpa using hkey)⟩
  · exact List.mem_append_right _ (List.mem_singleton.mpr rfl)

/-- The key of a new slot has no other slot. -/
theorem eq_of_mem_insert {slot s : CacheSlot ι} {slots : List (CacheSlot ι)} (h : s ∈ insert slot slots)
    (hkey : s.key = slot.key) : s = slot := by
  unfold insert at h
  split at h
  · obtain ⟨s', -, heq⟩ := List.mem_map.mp h
    split at heq
    · exact heq.symm
    · next hne => exact absurd (heq ▸ hkey) hne
  · next hany =>
    rcases List.mem_append.mp h with hmem | hmem
    · exact absurd (List.any_eq_true.mpr ⟨s, hmem, by simpa using hkey⟩) hany
    · exact List.mem_singleton.mp hmem

theorem length_put_le (now : ℕ) (key response : Str) (tokenCount : ℕ) (call : ι) (slots : List (CacheSlot ι)) :
    (put cfg now key response tokenCount call slots).length ≤ max 1 cfg.maxEntries := by
  have hpos : 0 < max cfg.maxEntries 1 := by omega
  have hroom := length_evictWhileFull_lt hpos _ (evictExpired cfg now slots) le_rfl
  refine le_trans (length_insert_le _ _) ?_
  omega

/-- A slot under the key of a `put` is the one it has stored; the others were there. -/
theorem mem_put_cases {now : ℕ} {key response : Str} {tokenCount : ℕ} {call : ι} {slots : List (CacheSlot ι)}
    {s : CacheSlot ι} (h : s ∈ put cfg now key response tokenCount call slots) :
    s = ⟨key, ⟨response, tokenCount, now, now, 0⟩, some call⟩ ∨ (s.key ≠ key ∧ s ∈ slots) := by
  by_cases hkey : s.key = key
  · exact .inl (eq_of_mem_insert h hkey)
  · rcases mem_put h with rfl | hmem
    · exact absurd rfl hkey
    · exact .inr ⟨hkey, hmem⟩

/-! ## What a `get` leaves and returns -/

/-- A look-up changes neither the response of a slot nor its age. -/
theorem mem_get_entry {now : ℕ} {key : Str} {slots : List (CacheSlot ι)} {s : CacheSlot ι} (h : s ∈ (get cfg now key slots).1) :
    ∃ s' ∈ slots, s.key = s'.key ∧ s.entry.createdAt = s'.entry.createdAt ∧ s.entry.response = s'.entry.response := by
  unfold get at h
  split at h
  · exact ⟨s, h, rfl, rfl, rfl⟩
  · split at h
    · exact ⟨s, List.mem_of_mem_filter h, rfl, rfl, rfl⟩
    · obtain ⟨s', hs', heq⟩ := List.mem_map.mp h
      refine ⟨s', hs', ?_⟩
      split at heq
      · exact heq ▸ ⟨rfl, rfl, rfl⟩
      · exact heq ▸ ⟨rfl, rfl, rfl⟩

theorem get_hit_fresh {now : ℕ} {key : Str} {slots : List (CacheSlot ι)} {s : CacheSlot ι}
    (h : (get cfg now key slots).2 = some s) : now - s.entry.createdAt ≤ cfg.ttlSecs := by
  unfold get at h
  split at h
  · cases h
  · split at h
    · cases h
    · next slot _ hexpired =>
      have hs : slot = s := Option.some.inj h
      subst hs
      simp only [expired, decide_eq_true_eq] at hexpired
      omega

end ResponseCache

/-! ## Runs -/

namespace CacheAccess

variable {cfg : CacheConfig} {file : Assoc Str CacheEntry}

theorem latestPut_concat (accesses : List CacheAccess) (access : CacheAccess) (key : Str) :
    latestPut file (accesses ++ [access]) key = (stored key access).or (latestPut file accesses key) := by
  unfold latestPut
  rw [List.filterMap_append]
  cases hstored : stored key access with
  | none => rw [List.filterMap_cons_none hstored, List.filterMap_nil, List.append_nil, Option.none_or]
  | some p => rw [List.filterMap_cons_some hstored, List.filterMap_nil, List.getLast?_concat, Option.some_or, Option.some_or]

/-- Every slot has the time and the response of the latest `put` for its key. -/
def Current (file : Assoc Str CacheEntry) (accesses : List CacheAccess) (slots : List (CacheSlot Unit)) : Prop :=
  ∀ s ∈ slots, latestPut file accesses s.key = some (s.entry.createdAt, s.entry.response)

theorem current_withPath : Current file [] (ResponseCache.withPath file) := by
  intro s hs
  obtain ⟨⟨key, entry⟩, he, rfl⟩ := List.mem_map.mp hs
  simp only [latestPut, List.filterMap_nil, List.getLast?_nil, Option.none_or]
  rw [Assoc.mem_pairs.mp he, Option.map_some]

theorem current_apply {accesses : List CacheAccess} {slots : List (CacheSlot Unit)} (h : Current file accesses slots)
    (access : CacheAccess) : Current file (accesses ++ [access]) (apply cfg slots access) := by
  intro s hs
  rw [latestPut_concat]
  cases access with
  | put now key response tokenCount iter =>
    rcases ResponseCache.mem_put_cases hs with rfl | ⟨hkey, hmem⟩
    · rw [stored, if_pos rfl, Option.some_or]
    · rw [stored, if_neg (Ne.symm hkey), Option.none_or]
      exact h s ((iter.perm slots).mem_iff.mp hmem)
  | get now key =>
    obtain ⟨s', hs', hkey, hcreated, hresponse⟩ := ResponseCache.mem_get_entry hs
    rw [stored, Option.none_or, hkey, hcreated, hresponse]
    exact h s' hs'
  | clear now => cases hs

theorem current_run (cfg : CacheConfig) (file : Assoc Str CacheEntry) (accesses : List CacheAccess) :
    Current file accesses (runSteps (apply cfg) (ResponseCache.withPath file) accesses) := by
  induction accesses using List.reverseRecOn with
  | nil => exact current_withPath
  | append_singleton accesses access ih =>
    rw [runSteps_concat]
    exact current_apply ih access

end CacheAccess

/-- **After any calls, a `put` leaves at most `max_entries` entries (at least one) with its own among
them, and a `get` that hits returns the response of the latest `put` for its key, at most `ttl`
seconds old.** -/
theorem responseCache_contents (cfg : CacheConfig) (file : Assoc Str CacheEntry) (before : List CacheAccess) :
    (∀ now key response tokenCount iter,
      let slots := runSteps (CacheAccess.apply cfg) (ResponseCache.withPath file)
        (before ++ [.put now key response tokenCount iter])
      slots.length ≤ max 1 cfg.maxEntries ∧ ⟨key, ⟨response, tokenCount, now, now, 0⟩, some ()⟩ ∈ slots) ∧
    ∀ now key hit,
      (ResponseCache.get cfg now key (runSteps (CacheAccess.apply cfg) (ResponseCache.withPath file) before)).2 = some hit →
      ∃ putAt, CacheAccess.latestPut file before key = some (putAt, hit.entry.response) ∧ now ≤ putAt + cfg.ttlSecs := by
  constructor
  · intro now key response tokenCount iter slots
    have hrun : slots = ResponseCache.put cfg now key response tokenCount ()
        (iter.order (runSteps (CacheAccess.apply cfg) (ResponseCache.withPath file) before)) := runSteps_concat _ _ _
    rw [hrun]
    exact ⟨ResponseCache.length_put_le _ _ _ _ _ _, ResponseCache.mem_insert_self _ _⟩
  · intro now key hit hhit
    obtain ⟨hmem, hkey⟩ := ResponseCache.get_hit hhit
    have hcurrent := CacheAccess.current_run cfg file before hit hmem
    have hfresh := ResponseCache.get_hit_fresh hhit
    rw [hkey] at hcurrent
    exact ⟨hit.entry.createdAt, hcurrent, by omega⟩

/-- The slots in the order they have. -/
def SlotOrder.same : SlotOrder := ⟨id, List.Perm.refl⟩

/-- Two entries in a cache for one, the first of them asked for again. -/
def crowdedAccesses : List CacheAccess :=
  [.put 10 "a".toList "one".toList 3 .same, .get 15 "a".toList, .put 20 "b".toList "two".toList 3 .same]

theorem responseCache_contents_crowded :
    ∃ putAt, CacheAccess.latestPut ∅ crowdedAccesses "b".toList = some (putAt, "two".toList) ∧ 30 ≤ putAt + 60 :=
  (responseCache_contents ⟨60, 0⟩ ∅ crowdedAccesses).2 30 "b".toList ⟨"b".toList, ⟨"two".toList, 3, 20, 20, 0⟩, some ()⟩
    (by decide)

end Zeptoclaw

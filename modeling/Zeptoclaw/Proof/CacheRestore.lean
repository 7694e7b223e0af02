import Zeptoclaw.Proof.CacheContents

/-!
# Storing a key again

`put` makes room before it looks at the key. A key that is stored again needs none, and yet the least recently used
entry goes where the cache is full: the other entries stay exactly if there is room left, or there is none and the entry
that goes is the one that is stored again (`put_keeps_iff`).
-/

namespace Zeptoclaw

namespace ResponseCache

variable {ι : Type*} {cfg : CacheConfig} {slots : List (CacheSlot ι)} {key : Str}

/-! ## The least recently used slot -/

section Argmin

variable {α : Type*} {f : α → ℕ} {m : α}

theorem argmin_append {back : List α} (hback : ∀ a ∈ back, f m ≤ f a) : ∀ {front : List α},
    (∀ a ∈ front, f m < f a) → (front ++ m :: back).argmin f = some m
  | [], _ => by
    rw [List.nil_append, List.argmin_cons]
    cases hmin : back.argmin f with
    | none => rfl
    | some c => exact if_neg (Nat.not_lt.mpr (hback c (List.argmin_mem hmin)))
  | a :: front, hfront => by
    rw [List.forall_mem_cons] at hfront
    rw [List.cons_append, List.argmin_cons, argmin_append hback hfront.2]
    exact if_pos hfront.1

theorem argmin_split : ∀ {l : List α}, l.argmin f = some m →
    ∃ front back, l = front ++ m :: back ∧ (∀ a ∈ front, f m < f a) ∧ ∀ a ∈ back, f m ≤ f a
  | [], h => by cases h
  | a :: l, h => by
    rw [List.argmin_cons] at h
    cases hmin : l.argmin f with
    | none =>
      obtain rfl := List.argmin_eq_none.mp hmin
      rw [hmin] at h
      obtain rfl := Option.some.inj h
      exact ⟨[], [], rfl, by simp, by simp⟩
    | some c =>
      rw [hmin] at h
      dsimp only at h
      by_cases hlt : f c < f a
      · rw [if_pos hlt] at h
        rw [Option.some.inj h] at hmin hlt
        obtain ⟨front, back, rfl, hfront, hback⟩ := argmin_split hmin
        exact ⟨a :: front, back, rfl, List.forall_mem_cons.mpr ⟨hlt, hfront⟩, hback⟩
      · rw [if_neg hlt] at h
        obtain rfl := Option.some.inj h
        refine ⟨[], l, rfl, by simp, fun b hb => ?_⟩
        have hle := List.le_of_mem_argmin hb hmin
        omega

end Argmin

/-- The slot of the key is the first of those that were used least recently. -/
def IsLru (key : Str) (slots : List (CacheSlot ι)) : Prop :=
  ∃ front own back, slots = front ++ own :: back ∧ own.key = key ∧
    (∀ s ∈ front, own.entry.accessedAt < s.entry.accessedAt) ∧
    ∀ s ∈ back, own.entry.accessedAt ≤ s.entry.accessedAt

theorem isLru_iff : IsLru key slots ↔
    ∃ lru, (slots.argmin fun s => s.entry.accessedAt) = some lru ∧ lru.key = key := by
  constructor
  · rintro ⟨front, own, back, rfl, hkey, hfront, hback⟩
    exact ⟨own, argmin_append hback hfront, hkey⟩
  · rintro ⟨own, hmin, hkey⟩
    obtain ⟨front, back, heq, hfront, hback⟩ := argmin_split hmin
    exact ⟨front, own, back, heq, hkey, hfront, hback⟩

/-! ## Room for the slot -/

theorem evictWhileFull_of_room {max fuel : ℕ} (h : slots.length < max) : evictWhileFull max fuel slots = slots := by
  cases fuel with
  | zero => rfl
  | succ fuel =>
    unfold evictWhileFull
    exact if_neg (Nat.not_le.mpr h)

/-- In a cache that is just full one slot goes. -/
theorem evictWhileFull_of_full (h : slots ≠ []) : evictWhileFull slots.length slots.length slots = evictLru slots := by
  obtain ⟨n, hn⟩ := Nat.exists_eq_succ_of_ne_zero (List.length_pos_iff.mpr h).ne'
  have hlt := length_evictLru_lt h
  rw [hn] at hlt ⊢
  rw [evictWhileFull, if_pos (by omega)]
  exact evictWhileFull_of_room hlt

theorem mem_insert_of_ne {slot s : CacheSlot ι} (h : s.key ≠ slot.key) : s ∈ insert slot slots ↔ s ∈ slots := by
  constructor
  · intro hs
    rcases mem_insert hs with rfl | hs
    · exact absurd rfl h
    · exact hs
  · intro hs
    unfold insert
    split
    · exact List.mem_map.mpr ⟨s, hs, if_neg h⟩
    · exact List.mem_append_left _ hs

/-- A key has one slot. -/
theorem length_le_remove (h : (slots.map CacheSlot.key).Nodup) (key : Str) :
    slots.length ≤ (remove key slots).length + 1 := by
  have hcount := List.nodup_iff_count_le_one.mp h key
  rw [List.count, List.countP_map] at hcount
  have hsplit := List.length_eq_countP_add_countP (fun s : CacheSlot ι => decide (s.key ≠ key)) (l := slots)
  have hown : slots.countP (fun s => ¬ decide (s.key ≠ key) = true) = slots.countP ((· == key) ∘ CacheSlot.key) :=
    List.countP_congr (by simp)
  unfold remove
  rw [← List.countP_eq_length_filter]
  omega

/-- The unexpired slots. -/
abbrev live (cfg : CacheConfig) (now : ℕ) (slots : List (CacheSlot ι)) : List (CacheSlot ι) :=
  slots.filter fun s => !expired cfg now s

/-- The slots of other keys are still there, unless they had expired. -/
def KeepsOthers (cfg : CacheConfig) (now : ℕ) (key : Str) (slots after : List (CacheSlot ι)) : Prop :=
  ∀ s ∈ slots, s.key ≠ key → expired cfg now s = false → s ∈ after

theorem keepsOthers_put_iff (cfg : CacheConfig) (now : ℕ) (key response : Str) (tokenCount : ℕ) (call : ι)
    (slots : List (CacheSlot ι)) : KeepsOthers cfg now key slots (put cfg now key response tokenCount call slots) ↔
      remove key (live cfg now slots) ⊆
        evictWhileFull (max cfg.maxEntries 1) (live cfg now slots).length (live cfg now slots) := by
  constructor
  · intro h s hs
    obtain ⟨hlive, hne⟩ := List.mem_filter.mp hs
    obtain ⟨hmem, hfresh⟩ := List.mem_filter.mp hlive
    have hput := h s hmem (by simpa using hne) (by simpa using hfresh)
    exact (mem_insert_of_ne (by simpa using hne)).mp hput
  · intro h s hmem hne hfresh
    refine (mem_insert_of_ne hne).mpr (h (List.mem_filter.mpr ⟨?_, by simpa using hne⟩))
    exact List.mem_filter.mpr ⟨hmem, by simp [hfresh]⟩

/-- A cache that is more than full loses two slots. -/
theorem not_subset_of_overfull {max : ℕ} (hmax : 0 < max) (hkeys : (slots.map CacheSlot.key).Nodup) (h : max < slots.length) :
    ¬ remove key slots ⊆ evictWhileFull max slots.length slots := by
  intro hsubset
  have hnodup : (remove key slots).Nodup := hkeys.of_map.filter _
  have hle := (List.subperm_of_subset hnodup hsubset).length_le
  have hlt := length_evictWhileFull_lt hmax slots.length slots le_rfl
  have hone := length_le_remove hkeys key
  omega

/-- **A `put` keeps the slots of the other keys exactly if there is room, or just none and its own key is the least
recently used.** -/
theorem put_keeps_iff (cfg : CacheConfig) (now : ℕ) (key response : Str) (tokenCount : ℕ) (call : ι)
    {slots : List (CacheSlot ι)} (hkeys : (slots.map CacheSlot.key).Nodup) :
    KeepsOthers cfg now key slots (put cfg now key response tokenCount call slots) ↔
      (live cfg now slots).length < max cfg.maxEntries 1 ∨
        (live cfg now slots).length = max cfg.maxEntries 1 ∧ IsLru key (live cfg now slots) := by
  have hnodup : ((live cfg now slots).map CacheSlot.key).Nodup := hkeys.sublist (List.filter_sublist.map _)
  have hmax : 0 < max cfg.maxEntries 1 := by omega
  rw [keepsOthers_put_iff]
  generalize live cfg now slots = kept at hnodup
  rcases Nat.lt_trichotomy kept.length (max cfg.maxEntries 1) with hlt | heq | hgt
  · rw [evictWhileFull_of_room hlt]
    exact ⟨fun _ => .inl hlt, fun _ => List.filter_subset_self kept⟩
  · have hne : kept ≠ [] := List.length_pos_iff.mp (by omega)
    rw [← heq, evictWhileFull_of_full hne, isLru_iff]
    obtain ⟨lru, hmin⟩ : ∃ lru, (kept.argmin fun s => s.entry.accessedAt) = some lru :=
      Option.ne_none_iff_exists'.mp (mt List.argmin_eq_none.mp hne)
    have hevict : evictLru kept = remove lru.key kept := by
      unfold evictLru
      rw [hmin]
    rw [hevict, hmin]
    constructor
    · intro hsubset
      refine .inr ⟨rfl, lru, rfl, ?_⟩
      by_contra hother
      have hmem := hsubset (List.mem_filter.mpr ⟨List.argmin_mem hmin, by simpa using hother⟩)
      simp [remove] at hmem
    · rintro (hlt | ⟨-, own, hown, hkey⟩)
      · exact absurd hlt (Nat.lt_irrefl _)
      · obtain rfl := Option.some.inj hown
        rw [hkey]
        exact fun s hs => hs
  · refine ⟨fun h => absurd h (not_subset_of_overfull hmax hnodup hgt), ?_⟩
    rintro (hlt | ⟨heq, -⟩)
    · omega
    · omega

/-- Two slots in a cache for two: the key that is stored again was used later. -/
def fullSlots : List (CacheSlot Unit) :=
  [⟨"a".toList, ⟨"x".toList, 1, 10, 10, 0⟩, none⟩, ⟨"b".toList, ⟨"y".toList, 1, 20, 20, 0⟩, none⟩]

theorem put_keeps_full : KeepsOthers ⟨60, 2⟩ 30 "a".toList fullSlots
    (put ⟨60, 2⟩ 30 "a".toList "z".toList 1 () fullSlots) ↔
      (live ⟨60, 2⟩ 30 fullSlots).length < max 2 1 ∨
        (live ⟨60, 2⟩ 30 fullSlots).length = max 2 1 ∧ IsLru "a".toList (live ⟨60, 2⟩ 30 fullSlots) :=
  put_keeps_iff ⟨60, 2⟩ 30 "a".toList "z".toList 1 () (by decide)

/-- The second of them is stored again, and the first goes. -/
theorem put_evicts : ¬ ∀ (cfg : CacheConfig) (now : ℕ) (key response : Str) (tokenCount : ℕ) (slots : List (CacheSlot Unit)),
    (slots.map CacheSlot.key).Nodup → (∃ s ∈ slots, s.key = key ∧ expired cfg now s = false) →
    KeepsOthers cfg now key slots (put cfg now key response tokenCount () slots) := by
  intro h
  have hkeeps := h ⟨60, 2⟩ 30 "b".toList "z".toList 1 fullSlots (by decide) ⟨_, List.mem_cons_of_mem _ List.mem_cons_self, by decide⟩
  exact absurd (hkeeps _ List.mem_cons_self (by decide) (by decide)) (by decide)

end ResponseCache

end Zeptoclaw

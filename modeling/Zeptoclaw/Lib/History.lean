import Mathlib.Data.Finset.Card
import Mathlib.Data.List.Basic

/-!
# Lists in the order of time

A list whose elements get no younger towards the front loses what is too old by a look at its
front alone. `otherKeys` counts the keys of a log besides a given one.
-/

namespace Zeptoclaw

variable {α : Type*}

/-- What is dropped from the front is all there is to drop, if the elements before one to be dropped
are to be dropped as well. -/
theorem dropWhile_eq_filter {p : α → Bool} {l : List α} (h : l.Pairwise fun a b => p b = true → p a = true) :
    l.dropWhile p = l.filter fun a => !p a := by
  induction l with
  | nil => rfl
  | cons a l ih =>
    obtain ⟨hfirst, hrest⟩ := List.pairwise_cons.mp h
    cases ha : p a with
    | true => rw [List.dropWhile_cons_of_pos ha, List.filter_cons_of_neg (by simp [ha]), ih hrest]
    | false =>
      have hkeep : ∀ b ∈ a :: l, (!p b) = true := by
        intro b hb
        rcases List.mem_cons.mp hb with rfl | hb
        · rw [ha]; rfl
        · cases hpb : p b with
          | true => rw [hfirst b hb hpb] at ha; cases ha
          | false => rfl
      rw [List.dropWhile_cons_of_neg (by simp [ha]), List.filter_eq_self.mpr hkeep]

/-- The last element of a list in order is the greatest. -/
theorem pairwise_concat {r : α → α → Prop} {l : List α} {a : α} :
    (l ++ [a]).Pairwise r ↔ l.Pairwise r ∧ ∀ b ∈ l, r b a := by
  rw [List.pairwise_append]
  constructor
  · rintro ⟨hl, -, hla⟩
    exact ⟨hl, fun b hb => hla b hb a (List.mem_singleton_self a)⟩
  · rintro ⟨hl, hla⟩
    refine ⟨hl, List.pairwise_singleton r a, ?_⟩
    intro b hb c hc
    rw [List.mem_singleton.mp hc]
    exact hla b hb

/-- An element of two lists behind each other is in one of them. -/
theorem append_eq_cut {l l' before since : List α} {a : α} (h : l ++ l' = before ++ a :: since) :
    (∃ rest, l = before ++ a :: rest ∧ since = rest ++ l') ∨ ∃ front, before = l ++ front ∧ l' = front ++ a :: since := by
  rcases List.append_eq_append_iff.mp h with ⟨front, hbefore, hl'⟩ | ⟨rest, hl, hrest⟩
  · exact .inr ⟨front, hbefore, hl'⟩
  · cases rest with
    | nil => exact .inr ⟨[], by rw [hl, List.append_nil, List.append_nil], hrest.symm⟩
    | cons b rest =>
      obtain ⟨rfl, hsince⟩ := List.cons.inj hrest
      exact .inl ⟨rest, hl, hsince⟩

/-- An element of a list with one more at its end is in the list, or is that one. -/
theorem concat_eq_cut {l before since : List α} {a b : α} (h : l ++ [b] = before ++ a :: since) :
    (∃ rest, l = before ++ a :: rest) ∨ (l = before ∧ b = a) := by
  rcases append_eq_cut h with ⟨rest, hl, -⟩ | ⟨front, hbefore, hlast⟩
  · exact .inl ⟨rest, hl⟩
  · right
    cases front with
    | nil =>
      rw [List.append_nil] at hbefore
      exact ⟨hbefore.symm, (List.cons.inj hlast).1⟩
    | cons c front => simp at hlast

/-- What holds of every element and those before it, with one more element at the end. -/
theorem forall_cut_concat {P : List α → α → Prop} {l : List α} {a : α}
    (h : ∀ before b since, l = before ++ b :: since → P before b) (ha : P l a) :
    ∀ before b since, l ++ [a] = before ++ b :: since → P before b := by
  intro before b since heq
  rcases concat_eq_cut heq with ⟨rest, hl⟩ | ⟨rfl, rfl⟩
  · exact h before b rest hl
  · exact ha

theorem exists_cut_concat {P : List α → α → Prop} {l : List α} {a : α} :
    (∃ before b since, l ++ [a] = before ++ b :: since ∧ P before b) ↔
      (∃ before b since, l = before ++ b :: since ∧ P before b) ∨ P l a := by
  constructor
  · rintro ⟨before, b, since, heq, hP⟩
    rcases concat_eq_cut heq with ⟨rest, hl⟩ | ⟨rfl, rfl⟩
    · exact .inl ⟨before, b, rest, hl, hP⟩
    · exact .inr hP
  · rintro (⟨before, b, since, rfl, hP⟩ | hP)
    · exact ⟨before, b, since ++ [a], by simp, hP⟩
    · exact ⟨l, a, [], rfl, hP⟩

/-- Of a list without repetitions only one element counts. -/
theorem filterMap_eq_singleton {β : Type*} {f : α → Option β} {l : List α} {a : α} {b : β} (hnodup : l.Nodup) (ha : a ∈ l)
    (hb : f a = some b) (honly : ∀ a' ∈ l, a' ≠ a → f a' = none) : l.filterMap f = [b] := by
  obtain ⟨before, since, rfl⟩ := List.append_of_mem ha
  rw [List.nodup_append, List.nodup_cons] at hnodup
  obtain ⟨-, ⟨hsince, -⟩, hbefore⟩ := hnodup
  have hfront : before.filterMap f = [] := by
    rw [List.filterMap_eq_nil_iff]
    intro a' ha'
    refine honly a' (List.mem_append_left _ ha') ?_
    rintro rfl
    exact hbefore a' ha' a' List.mem_cons_self rfl
  have hrest : since.filterMap f = [] := by
    rw [List.filterMap_eq_nil_iff]
    intro a' ha'
    refine honly a' (List.mem_append_right _ (List.mem_cons_of_mem _ ha')) ?_
    rintro rfl
    exact hsince ha'
  rw [List.filterMap_append, List.filterMap_cons_some hb, hfront, hrest, List.nil_append]

theorem map_filter_concat {β : Type*} (p : α → Bool) (f : α → β) (l : List α) (a : α) :
    ((l ++ [a]).filter p).map f = (l.filter p).map f ++ if p a = true then [f a] else [] := by
  rw [List.filter_append, List.map_append]
  congr 1
  by_cases h : p a = true
  · rw [if_pos h, List.filter_cons_of_pos h]
    rfl
  · rw [if_neg h, List.filter_cons_of_neg h]
    rfl

section Keys

variable {κ τ : Type*}

theorem nodup_keys_concat {log : List (κ × τ)} {e : κ × τ} (h : (log.map Prod.fst).Nodup) (hnew : e.1 ∉ log.map Prod.fst) :
    ((log ++ [e]).map Prod.fst).Nodup := by
  rw [List.map_append, List.nodup_append]
  refine ⟨h, List.nodup_singleton _, ?_⟩
  intro a ha b hb hab
  rw [List.mem_singleton.mp hb] at hab
  rw [hab] at ha
  exact hnew ha

variable [DecidableEq κ]

/-- The number of keys in a log besides the one given. -/
def otherKeys (key : κ) (log : List (κ × τ)) : ℕ := ((log.map Prod.fst).toFinset.erase key).card

theorem otherKeys_mono (key : κ) {log log' : List (κ × τ)} (h : log ⊆ log') : otherKeys key log ≤ otherKeys key log' := by
  refine Finset.card_le_card (Finset.erase_subset_erase key ?_)
  intro k hk
  rw [List.mem_toFinset] at hk ⊢
  exact List.map_subset Prod.fst h hk

theorem otherKeys_le_length (key : κ) (log : List (κ × τ)) : otherKeys key log ≤ log.length := by
  have hcard := List.toFinset_card_le (log.map Prod.fst)
  rw [List.length_map] at hcard
  exact le_trans (Finset.card_erase_le) hcard

/-- A log of as many keys as entries, none of which is the one given. -/
theorem otherKeys_eq_length {key : κ} {log : List (κ × τ)} (h : (log.map Prod.fst).Nodup)
    (hkey : key ∉ log.map Prod.fst) : otherKeys key log = log.length := by
  unfold otherKeys
  rw [Finset.erase_eq_of_notMem (by rwa [List.mem_toFinset]), List.toFinset_card_of_nodup h, List.length_map]

end Keys

end Zeptoclaw

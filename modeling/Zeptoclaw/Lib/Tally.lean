import Zeptoclaw.Lib.Assoc
import Mathlib.Data.List.Induction

/-!
# Counters

Counters that are kept beside a list: `bump` counts one more occurrence, `tally` counts a
whole list anew. Counters are numbers below a bound and wrap around at it.
-/

namespace Zeptoclaw

variable {κ : Type*} [DecidableEq κ]

/-- The counter of a key; a key that was never counted has none. -/
def countOf (counts : Assoc κ ℕ) (k : κ) : ℕ := (counts.lookup k).getD 0

/-- One more of a key. -/
def bump (bound : ℕ) (counts : Assoc κ ℕ) (k : κ) : Assoc κ ℕ := counts.insert k ((countOf counts k + 1) % bound)

/-- The list, counted from the start. -/
def tally (bound : ℕ) (l : List κ) : Assoc κ ℕ := l.foldl (bump bound) ∅

/-- The counters are the numbers of occurrences in the list. -/
def Tallies (counts : Assoc κ ℕ) (l : List κ) : Prop := ∀ k, countOf counts k = l.count k

theorem countOf_bump (bound : ℕ) (counts : Assoc κ ℕ) (k k' : κ) :
    countOf (bump bound counts k) k' = if k' = k then (countOf counts k + 1) % bound else countOf counts k' := by
  unfold countOf bump
  rw [Assoc.lookup_insert]
  by_cases h : k' = k
  · rw [if_pos h, if_pos h, Option.getD_some]
    rfl
  · rw [if_neg h, if_neg h]

theorem tallies_empty : Tallies (∅ : Assoc κ ℕ) [] := fun _ => rfl

theorem countOf_tally (bound : ℕ) (l : List κ) (k : κ) : countOf (tally bound l) k = l.count k % bound := by
  induction l using List.reverseRecOn with
  | nil => exact (Nat.zero_mod bound).symm
  | append_singleton l a ih =>
    have hlast : tally bound (l ++ [a]) = bump bound (tally bound l) a := List.foldl_concat _ _ _ _
    rw [hlast, countOf_bump, List.count_append]
    by_cases h : k = a
    · subst h
      rw [if_pos rfl, ih, List.count_singleton_self, Nat.mod_add_mod]
    · rw [if_neg h, ih, List.count_singleton, if_neg (by simpa using Ne.symm h), Nat.add_zero]

/-- A counter that goes along with its list is right as long as it does not wrap. -/
theorem tallies_bump_iff {bound : ℕ} {counts : Assoc κ ℕ} {l : List κ} (h : Tallies counts l) (k : κ) (hbound : 0 < bound) :
    Tallies (bump bound counts k) (l ++ [k]) ↔ countOf counts k + 1 < bound := by
  rw [h k]
  constructor
  · intro hnext
    have hk := hnext k
    rw [countOf_bump, if_pos rfl, h k, List.count_append, List.count_singleton_self] at hk
    have hlt := Nat.mod_lt (l.count k + 1) hbound
    omega
  · intro hlt k'
    rw [countOf_bump, List.count_append]
    by_cases hk : k' = k
    · subst hk
      rw [if_pos rfl, h k', List.count_singleton_self, Nat.mod_eq_of_lt hlt]
    · rw [if_neg hk, h k', List.count_singleton, if_neg (by simpa using Ne.symm hk), Nat.add_zero]

/-- A counter that was rebuilt from the list and goes up once more is wrong. -/
theorem not_tallies_bump_tally {bound : ℕ} (hbound : 1 < bound) (l : List κ) (k : κ) :
    ¬ Tallies (bump bound (tally bound l) k) l := by
  intro h
  have hk := h k
  rw [countOf_bump, if_pos rfl, countOf_tally, Nat.mod_add_mod] at hk
  have hlt := Nat.mod_lt (l.count k + 1) (by omega : 0 < bound)
  rw [hk] at hlt
  rcases Nat.lt_or_ge (l.count k + 1) bound with hsmall | hlarge
  · rw [Nat.mod_eq_of_lt hsmall] at hk
    omega
  · have heq : l.count k + 1 = bound := by omega
    rw [heq, Nat.mod_self] at hk
    omega

end Zeptoclaw

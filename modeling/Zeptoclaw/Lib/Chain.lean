import Mathlib.Data.List.Chain
import Mathlib.Tactic.Common

/-!
# The chain at the end of a history

A history is kept newest first. `chainLength` counts how far back it goes without a break between neighbours: a chain
of a given length stands at the end of the history exactly if it is no longer than that (`le_chainLength_iff`).
-/

namespace Zeptoclaw

section Chain

variable {α : Type*} (r : α → α → Prop) [DecidableRel r]

/-- The number of entries up to the first break. -/
def chainLength : List α → ℕ
  | [] => 0
  | [_] => 1
  | a :: b :: l => if r a b then chainLength (b :: l) + 1 else 1

theorem chainLength_pos (a : α) (l : List α) : 0 < chainLength r (a :: l) := by
  cases l with
  | nil => exact Nat.one_pos
  | cons b l =>
    rw [chainLength]
    split <;> omega

theorem chainLength_cons (a : α) (l : List α) :
    chainLength r (a :: l) = if ∀ b ∈ l.head?, r a b then chainLength r l + 1 else 1 := by
  cases l with
  | nil => rfl
  | cons b l =>
    rw [chainLength]
    simp

theorem take_chainLength : ∀ l : List α, chainLength r l ≤ l.length ∧ (l.take (chainLength r l)).IsChain r
  | [] => ⟨le_rfl, .nil⟩
  | [a] => ⟨le_rfl, .singleton a⟩
  | a :: b :: l => by
    obtain ⟨hle, hchain⟩ := take_chainLength (b :: l)
    rw [chainLength]
    by_cases hab : r a b
    · rw [if_pos hab]
      refine ⟨Nat.succ_le_succ hle, ?_⟩
      obtain ⟨n, hn⟩ : ∃ n, chainLength r (b :: l) = n + 1 := Nat.exists_eq_succ_of_ne_zero (chainLength_pos r b l).ne'
      rw [hn, List.take_succ_cons] at hchain ⊢
      exact List.isChain_cons_cons.mpr ⟨hab, hchain⟩
    · rw [if_neg hab]
      exact ⟨by simp, .singleton a⟩

theorem length_le_chainLength : ∀ {l p : List α}, p <+: l → p.IsChain r → p.length ≤ chainLength r l
  | l, [], _, _ => Nat.zero_le _
  | l, [a], h, _ => by
    obtain ⟨l, rfl⟩ := h
    exact chainLength_pos r a l
  | l, a :: b :: p, h, hchain => by
    obtain ⟨l, rfl⟩ := h
    obtain ⟨hab, hrest⟩ := List.isChain_cons_cons.mp hchain
    have ih := length_le_chainLength (List.prefix_append (b :: p) l) hrest
    rw [List.cons_append, List.cons_append, chainLength, if_pos hab]
    exact Nat.succ_le_succ ih

/-- **A chain of `n` entries stands at the new end of the history exactly if the count reaches `n`.** -/
theorem le_chainLength_iff {n : ℕ} {l : List α} :
    n ≤ chainLength r l ↔ ∃ p, p <+: l ∧ n ≤ p.length ∧ p.IsChain r := by
  constructor
  · intro h
    obtain ⟨hle, hchain⟩ := take_chainLength r l
    refine ⟨l.take (chainLength r l), List.take_prefix _ l, ?_, hchain⟩
    rwa [List.length_take, Nat.min_eq_left hle]
  · rintro ⟨p, hp, hlen, hchain⟩
    exact hlen.trans (length_le_chainLength r hp hchain)

/-- The same for a history kept oldest first. -/
theorem le_chainLength_reverse_iff {n : ℕ} {l : List α} :
    n ≤ chainLength r l.reverse ↔ ∃ p, p <:+ l ∧ n ≤ p.length ∧ p.IsChain fun b a => r a b := by
  rw [le_chainLength_iff]
  constructor
  · rintro ⟨p, hp, hlen, hchain⟩
    refine ⟨p.reverse, ?_, by rwa [List.length_reverse], List.isChain_reverse.mpr hchain⟩
    rwa [← List.reverse_prefix, List.reverse_reverse]
  · rintro ⟨p, hp, hlen, hchain⟩
    exact ⟨p.reverse, List.reverse_prefix.mpr hp, by rwa [List.length_reverse], List.isChain_reverse.mpr hchain⟩

end Chain

end Zeptoclaw

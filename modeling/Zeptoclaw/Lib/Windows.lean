import Mathlib.Data.List.Chain
import Mathlib.Order.Interval.Finset.Nat

/-!
# Overlapping windows

A sequence of so many places is gone through in windows of one size that begin at one distance from each other, up to the
first that ends with the sequence. They cover it in order, and each goes further than the one before (`windows_cover`).
-/

namespace Zeptoclaw

/-- The windows from these beginnings on, up to the first that reaches the end. -/
def windowsFrom (size n : ℕ) : List ℕ → List (ℕ × ℕ)
  | [] => []
  | start :: starts =>
    let stop := min (start + size) n
    (start, stop) :: if stop = n then [] else windowsFrom size n starts

/-- The beginnings `0, step, 2 * step, ..` below a number. -/
def stepBy (step n : ℕ) : List ℕ := List.range' 0 ((n + step - 1) / step) step

/-- The windows cover so many places in order, two consecutive ones have `overlap` places in common, and none is
contained in another. -/
structure Covers (size overlap n : ℕ) (windows : List (ℕ × ℕ)) : Prop where
  covered : ∀ place < n, ∃ w ∈ windows, w.1 ≤ place ∧ place < w.2
  within : ∀ w ∈ windows, w.1 < w.2 ∧ w.2 ≤ n ∧ w.2 - w.1 ≤ size
  overlapping : windows.IsChain fun w w' => (Finset.Ico w.1 w.2 ∩ Finset.Ico w'.1 w'.2).card = overlap
  ordered : windows.Pairwise fun w w' => w.1 < w'.1 ∧ w.2 < w'.2

section Windows

variable {size step n : ℕ}

/-- What holds of a window and the next. -/
def Follows (size step : ℕ) (w w' : ℕ × ℕ) : Prop := w'.1 = w.1 + step ∧ w.2 = w.1 + size ∧ w.2 < w'.2

theorem windowsFrom_cons (start : ℕ) (starts : List ℕ) : windowsFrom size n (start :: starts) =
    (start, min (start + size) n) :: if min (start + size) n = n then [] else windowsFrom size n starts := rfl

theorem windowsFrom_spec (hstep : 0 < step) (hsize : step ≤ size) : ∀ {count start : ℕ}, start < n → n ≤ start + step * count →
    (∃ rest, windowsFrom size n (List.range' start count step) = (start, min (start + size) n) :: rest) ∧
      (∀ place, start ≤ place → place < n →
        ∃ w ∈ windowsFrom size n (List.range' start count step), w.1 ≤ place ∧ place < w.2) ∧
      (∀ w ∈ windowsFrom size n (List.range' start count step), w.1 < w.2 ∧ w.2 ≤ n ∧ w.2 - w.1 ≤ size) ∧
      (windowsFrom size n (List.range' start count step)).IsChain (Follows size step) := by
  intro count
  induction count with
  | zero =>
    intro start hlt hle
    omega
  | succ count ih =>
    intro start hlt hle
    rw [List.range'_succ, windowsFrom_cons]
    refine ⟨⟨_, rfl⟩, ?_⟩
    by_cases hend : min (start + size) n = n
    · -- the last window
      rw [if_pos hend]
      refine ⟨fun place hge hplace => ⟨_, List.mem_singleton_self _, hge, by omega⟩, fun w hw => ?_, List.isChain_singleton _⟩
      rw [List.mem_singleton.mp hw]
      dsimp only
      omega
    · rw [if_neg hend]
      obtain ⟨⟨rest, hrest⟩, hcovered, hwithin, hchain⟩ := @ih (start + step) (by omega)
        (by rw [Nat.mul_succ] at hle; omega)
      refine ⟨fun place hge hplace => ?_, fun w hw => ?_, ?_⟩
      · by_cases hfirst : place < start + size
        · exact ⟨_, List.mem_cons_self, hge, by dsimp only; omega⟩
        · obtain ⟨w, hw, hin⟩ := hcovered place (by omega) hplace
          exact ⟨w, List.mem_cons_of_mem _ hw, hin⟩
      · rcases List.mem_cons.mp hw with rfl | hw
        · dsimp only
          omega
        · exact hwithin w hw
      · rw [hrest] at hchain ⊢
        refine List.isChain_cons_cons.mpr ⟨⟨rfl, ?_, ?_⟩, hchain⟩
        · dsimp only
          omega
        · dsimp only
          omega

theorem Follows.card_inter {w w' : ℕ × ℕ} (h : Follows size step w w') :
    (Finset.Ico w.1 w.2 ∩ Finset.Ico w'.1 w'.2).card = size - step := by
  obtain ⟨hstart, hstop, hlt⟩ := h
  rw [Finset.Ico_inter_Ico, Nat.card_Ico]
  omega

/-- **The windows cover the sequence.** -/
theorem windows_cover (hstep : 0 < step) (hsize : step ≤ size) (n : ℕ) :
    Covers size (size - step) n (windowsFrom size n (stepBy step n)) := by
  rcases Nat.eq_zero_or_pos n with rfl | hn
  · have hnone : stepBy step 0 = [] := by
      unfold stepBy
      rw [Nat.div_eq_of_lt (by omega)]
      rfl
    rw [hnone]
    exact ⟨fun _ hlt => absurd hlt (Nat.not_lt_zero _), fun _ hw => (nomatch hw), List.isChain_nil, List.Pairwise.nil⟩
  · have hcount : n ≤ 0 + step * ((n + step - 1) / step) := by
      have hdiv := Nat.lt_mul_div_succ (n + step - 1) hstep
      rw [Nat.mul_add] at hdiv
      omega
    obtain ⟨-, hcovered, hwithin, hchain⟩ := windowsFrom_spec hstep hsize hn hcount
    refine ⟨fun place hlt => hcovered place (Nat.zero_le _) hlt, hwithin, hchain.imp fun _ _ h => h.card_inter, ?_⟩
    -- what each window does to the next carries over to all behind it
    let further := fun w w' : ℕ × ℕ => w.1 < w'.1 ∧ w.2 < w'.2
    have htrans : Trans further further further := ⟨fun h h' => ⟨h.1.trans h'.1, h.2.trans h'.2⟩⟩
    have hordered : (windowsFrom size n (stepBy step n)).IsChain further :=
      hchain.imp fun w w' ⟨hstart, _, hlt⟩ => ⟨by omega, hlt⟩
    exact List.isChain_iff_pairwise.mp hordered

end Windows

end Zeptoclaw

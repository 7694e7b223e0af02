import Mathlib.Data.List.Basic
import Mathlib.Order.Bounds.Basic
import Mathlib.Order.MinMax

/-!
# Edit distance

`Edits n xs ys`: `n` insertions, deletions and substitutions lead from `xs` to `ys`. The usual recursion computes
the least such `n` (`isLeast_editDistance`), so it does not matter from which end it is unfolded
(`editDistance_reverse`, `editDistance_concat`).
-/

namespace Zeptoclaw

variable {α : Type*}

/-- One edit. -/
inductive Edit : List α → List α → Prop
  | insert (before after : List α) (x : α) : Edit (before ++ after) (before ++ x :: after)
  | delete (before after : List α) (x : α) : Edit (before ++ x :: after) (before ++ after)
  | substitute (before after : List α) (x y : α) : Edit (before ++ x :: after) (before ++ y :: after)

/-- A number of edits, one after the other. -/
inductive Edits : ℕ → List α → List α → Prop
  | refl (xs : List α) : Edits 0 xs xs
  | step {n : ℕ} {xs ys zs : List α} (first : Edit xs ys) (rest : Edits n ys zs) : Edits (n + 1) xs zs

theorem Edit.cons {xs ys : List α} (x : α) (h : Edit xs ys) : Edit (x :: xs) (x :: ys) := by
  cases h with
  | insert before after y => exact .insert (x :: before) after y
  | delete before after y => exact .delete (x :: before) after y
  | substitute before after y z => exact .substitute (x :: before) after y z

theorem Edit.reverse {xs ys : List α} (h : Edit xs ys) : Edit xs.reverse ys.reverse := by
  cases h with
  | insert before after x =>
    simp only [List.reverse_append, List.reverse_cons, List.append_assoc]
    exact .insert after.reverse before.reverse x
  | delete before after x =>
    simp only [List.reverse_append, List.reverse_cons, List.append_assoc]
    exact .delete after.reverse before.reverse x
  | substitute before after x y =>
    simp only [List.reverse_append, List.reverse_cons, List.append_assoc]
    exact .substitute after.reverse before.reverse x y

theorem Edits.cons {n : ℕ} {xs ys : List α} (x : α) (h : Edits n xs ys) : Edits n (x :: xs) (x :: ys) := by
  induction h with
  | refl xs => exact .refl (x :: xs)
  | step first rest ih => exact .step (first.cons x) ih

theorem Edits.reverse {n : ℕ} {xs ys : List α} (h : Edits n xs ys) : Edits n xs.reverse ys.reverse := by
  induction h with
  | refl xs => exact .refl xs.reverse
  | step first rest ih => exact .step first.reverse ih

theorem edits_reverse {n : ℕ} {xs ys : List α} : Edits n xs.reverse ys.reverse ↔ Edits n xs ys := by
  refine ⟨fun h => ?_, Edits.reverse⟩
  have h' := h.reverse
  rwa [List.reverse_reverse, List.reverse_reverse] at h'

variable [DecidableEq α]

/-- The recursion over the first elements. -/
def editDistance : List α → List α → ℕ
  | [], ys => ys.length
  | x :: xs, [] => (x :: xs).length
  | x :: xs, y :: ys =>
    min (min (editDistance xs (y :: ys) + 1) (editDistance (x :: xs) ys + 1)) (editDistance xs ys + if x = y then 0 else 1)
  termination_by xs ys => xs.length + ys.length

@[simp] theorem editDistance_nil_left (ys : List α) : editDistance [] ys = ys.length := by rw [editDistance]

@[simp] theorem editDistance_nil_right (xs : List α) : editDistance xs [] = xs.length := by
  cases xs <;> rw [editDistance]

theorem editDistance_cons_cons (x y : α) (xs ys : List α) :
    editDistance (x :: xs) (y :: ys) =
      min (min (editDistance xs (y :: ys) + 1) (editDistance (x :: xs) ys + 1)) (editDistance xs ys + if x = y then 0 else 1) := by
  rw [editDistance]

/-- The distance is reached. -/
theorem edits_editDistance (xs ys : List α) : Edits (editDistance xs ys) xs ys := by
  fun_induction editDistance xs ys with
  | case1 ys =>
    induction ys with
    | nil => exact .refl []
    | cons y ys ih => exact .step (.insert [] [] y) (ih.cons y)
  | case2 x xs =>
    have hdelete : ∀ xs : List α, Edits xs.length xs [] := by
      intro xs
      induction xs with
      | nil => exact .refl []
      | cons x xs ih => exact .step (.delete [] xs x) ih
    exact hdelete (x :: xs)
  | case3 x xs y ys ihdelete ihinsert ihboth =>
    have hdelete : Edits (editDistance xs (y :: ys) + 1) (x :: xs) (y :: ys) := .step (.delete [] xs x) ihdelete
    have hinsert : Edits (editDistance (x :: xs) ys + 1) (x :: xs) (y :: ys) := .step (.insert [] (x :: xs) y) (ihinsert.cons y)
    have hboth : Edits (editDistance xs ys + if x = y then 0 else 1) (x :: xs) (y :: ys) := by
      split
      · next h => exact h ▸ ihboth.cons x
      · exact .step (.substitute [] xs x y) (ihboth.cons y)
    rcases min_choice (min (editDistance xs (y :: ys) + 1) (editDistance (x :: xs) ys + 1))
      (editDistance xs ys + if x = y then 0 else 1) with h | h
    · rw [h]
      rcases min_choice (editDistance xs (y :: ys) + 1) (editDistance (x :: xs) ys + 1) with h | h <;> rw [h] <;> assumption
    · rw [h]
      exact hboth

/-- What is added to both lists. -/
theorem editDistance_cons_le_insert (x : α) (xs ys : List α) : editDistance xs ys ≤ editDistance (x :: xs) ys + 1 := by
  induction ys with
  | nil => simp only [editDistance_nil_right, List.length_cons]; omega
  | cons y ys ih =>
    have hinsert : editDistance xs (y :: ys) ≤ editDistance xs ys + 1 := by
      cases xs with
      | nil => simp
      | cons x' xs => rw [editDistance_cons_cons]; omega
    rw [editDistance_cons_cons]
    split <;> omega

theorem editDistance_cons_le_delete (x : α) (xs ys : List α) : editDistance (x :: xs) ys ≤ editDistance xs ys + 1 := by
  cases ys with
  | nil => simp
  | cons y ys => rw [editDistance_cons_cons]; omega

theorem editDistance_cons_le_substitute (x x' : α) (xs ys : List α) :
    editDistance (x :: xs) ys ≤ editDistance (x' :: xs) ys + 1 := by
  induction ys with
  | nil => simp
  | cons y ys ih =>
    rw [editDistance_cons_cons, editDistance_cons_cons]
    split <;> split <;> omega

theorem editDistance_cons_le {xs xs' : List α} (h : ∀ ys, editDistance xs ys ≤ editDistance xs' ys + 1) (z : α) (ys : List α) :
    editDistance (z :: xs) ys ≤ editDistance (z :: xs') ys + 1 := by
  induction ys with
  | nil =>
    have hnil := h []
    simp only [editDistance_nil_right, List.length_cons] at hnil ⊢
    omega
  | cons y ys ih =>
    have hcons := h (y :: ys)
    have hrest := h ys
    rw [editDistance_cons_cons, editDistance_cons_cons]
    split <;> omega

/-- One edit changes a distance by at most one. -/
theorem editDistance_le_of_edit {xs xs' : List α} (h : Edit xs xs') : ∀ ys, editDistance xs ys ≤ editDistance xs' ys + 1 := by
  cases h with
  | insert before after x =>
    induction before with
    | nil => exact editDistance_cons_le_insert x after
    | cons z before ih => exact editDistance_cons_le ih z
  | delete before after x =>
    induction before with
    | nil => exact editDistance_cons_le_delete x after
    | cons z before ih => exact editDistance_cons_le ih z
  | substitute before after x y =>
    induction before with
    | nil => exact editDistance_cons_le_substitute x y after
    | cons z before ih => exact editDistance_cons_le ih z

theorem editDistance_self (xs : List α) : editDistance xs xs = 0 := by
  induction xs with
  | nil => simp
  | cons x xs ih =>
    rw [editDistance_cons_cons, if_pos rfl, ih]
    omega

theorem editDistance_le_of_edits {n : ℕ} {xs ys : List α} (h : Edits n xs ys) : editDistance xs ys ≤ n := by
  induction h with
  | refl xs => exact (editDistance_self xs).le
  | step first rest ih => exact (editDistance_le_of_edit first _).trans (Nat.succ_le_succ ih)

/-- **The distance is the least number of edits.** -/
theorem isLeast_editDistance (xs ys : List α) : IsLeast {n | Edits n xs ys} (editDistance xs ys) :=
  ⟨edits_editDistance xs ys, fun _ h => editDistance_le_of_edits h⟩

theorem editDistance_reverse (xs ys : List α) : editDistance xs.reverse ys.reverse = editDistance xs ys := by
  refine le_antisymm (editDistance_le_of_edits (edits_editDistance xs ys).reverse) (editDistance_le_of_edits ?_)
  exact edits_reverse.mp (edits_editDistance xs.reverse ys.reverse)

/-- The recursion over the last elements. -/
theorem editDistance_concat (xs ys : List α) (x y : α) :
    editDistance (xs ++ [x]) (ys ++ [y]) =
      min (min (editDistance xs (ys ++ [y]) + 1) (editDistance (xs ++ [x]) ys + 1))
        (editDistance xs ys + if x = y then 0 else 1) := by
  rw [← editDistance_reverse (xs ++ [x]), ← editDistance_reverse xs (ys ++ [y]), ← editDistance_reverse (xs ++ [x]) ys,
    ← editDistance_reverse xs ys, List.reverse_append, List.reverse_append]
  exact editDistance_cons_cons x y xs.reverse ys.reverse

end Zeptoclaw

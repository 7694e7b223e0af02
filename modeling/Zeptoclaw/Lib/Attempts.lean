import Mathlib.Data.List.Basic
import Mathlib.Tactic.Common

/-!
# A series of attempts

An attempt succeeds or fails; after some errors there is another attempt, and any other answer ends the series. What is
returned is the last answer, so that it is the first success, or the first error that ends the series, or the error of
the last attempt made.
-/

namespace Zeptoclaw

/-- The answers of a series, and what it returns; `again` tells after which errors the series goes on. -/
structure Attempts {ε α : Type*} (again : ε → Bool) (answers : List (Except ε α)) (result : Except ε α) : Prop where
  returned : answers.getLast? = some result
  retried : ∀ answer ∈ answers.dropLast, ∃ e, answer = .error e ∧ again e = true

namespace Attempts

variable {ε α : Type*} {again : ε → Bool} {answers : List (Except ε α)} {result : Except ε α}

theorem one (again : ε → Bool) (result : Except ε α) : Attempts again [result] result := ⟨rfl, by simp⟩

theorem ne_nil (h : Attempts again answers result) : answers ≠ [] := by
  rintro rfl
  cases h.returned

/-- Another attempt before the series. -/
theorem cons (h : Attempts again answers result) {e : ε} (he : again e = true) :
    Attempts again (.error e :: answers) result := by
  obtain ⟨answer, rest, rfl⟩ := List.exists_cons_of_ne_nil h.ne_nil
  refine ⟨?_, ?_⟩
  · rw [List.getLast?_cons_cons]
    exact h.returned
  · rw [List.dropLast_cons_cons, List.forall_mem_cons]
    exact ⟨⟨e, rfl, he⟩, h.retried⟩

end Attempts

end Zeptoclaw

import Mathlib.Data.List.Basic

/-!
# Fields between separators

A list that is split at a separator is the fields without the separator, and nothing else: which fields a list splits
into is decided by what the fields join to (`splitOn_eq_iff`).
-/

namespace Zeptoclaw.Fields

variable {α : Type*} [DecidableEq α] {sep : α} {s field : List α} {fields : List (List α)}

theorem not_mem_of_mem_splitOn : ∀ {s : List α}, field ∈ s.splitOn sep → sep ∉ field := by
  intro s
  induction s generalizing field with
  | nil =>
    intro h
    rw [List.splitOn_nil, List.mem_singleton] at h
    rw [h]
    exact List.not_mem_nil
  | cons c s ih =>
    intro h
    rw [List.splitOn_cons_eq_if_modifyHead] at h
    by_cases hc : c = sep
    · rw [if_pos (beq_iff_eq.mpr hc), List.mem_cons] at h
      rcases h with rfl | h
      · exact List.not_mem_nil
      · exact ih h
    · rw [if_neg (mt beq_iff_eq.mp hc)] at h
      obtain ⟨first, more, hsplit⟩ := List.exists_cons_of_ne_nil (List.splitOn_ne_nil sep s)
      rw [hsplit] at h ih
      rcases List.mem_cons.mp h with rfl | h
      · have hfirst : sep ∉ first := ih List.mem_cons_self
        simp [Ne.symm hc, hfirst]
      · exact ih (List.mem_cons_of_mem first h)

theorem splitOn_eq_iff (hne : fields ≠ []) :
    s.splitOn sep = fields ↔ s = [sep].intercalate fields ∧ ∀ field ∈ fields, sep ∉ field := by
  constructor
  · rintro rfl
    exact ⟨(List.intercalate_splitOn sep).symm, fun field h => not_mem_of_mem_splitOn h⟩
  · rintro ⟨rfl, h⟩
    exact List.splitOn_intercalate sep h hne

end Zeptoclaw.Fields

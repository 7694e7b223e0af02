import Zeptoclaw.Lib.Run
import Zeptoclaw.Spec.ChainAlert

/-!
# Which sequences of tool calls are alerted

* `record_alerts`: over the calls of a message, a pattern is alerted when the calls so far contain it for the
  first time, in any place, and never again.
* `record_no_shellExecute`: every pattern names `shell_execute`. The tool of the program that runs
  commands is called `shell`, so without a call by the other name nothing is alerted.
-/

namespace Zeptoclaw

namespace ChainTracker

/-- The loop finds the names exactly if they are a subsequence. -/
theorem containsSubsequence_iff {haystack needle : List Str} :
    containsSubsequence haystack needle = true ↔ needle.Sublist haystack := by
  have hloop : ∀ (haystack : List Str) (i : ℕ), i ≤ needle.length →
      (haystack.foldl (fun needleIdx item => if needle[needleIdx]? = some item then needleIdx + 1 else needleIdx) i =
        needle.length ↔ (needle.drop i).Sublist haystack) := by
    intro haystack
    induction haystack with
    | nil =>
      intro i hi
      rw [List.foldl_nil, List.sublist_nil, List.drop_eq_nil_iff]
      omega
    | cons item haystack ih =>
      intro i hi
      rw [List.foldl_cons]
      rcases Nat.lt_or_ge i needle.length with hlt | hge
      · rw [List.getElem?_eq_getElem hlt, ← List.getElem_cons_drop hlt]
        by_cases heq : needle[i] = item
        · rw [heq, if_pos rfl, ih (i + 1) hlt, List.cons_sublist_cons]
        · rw [if_neg fun h => heq (Option.some.inj h), ih i hi, ← List.getElem_cons_drop hlt]
          refine ⟨fun h => h.cons item, fun h => ?_⟩
          cases h with
          | cons _ h => exact h
          | cons_cons _ h => exact absurd rfl heq
      · have hend : i = needle.length := Nat.le_antisymm hi hge
        subst hend
        rw [List.getElem?_eq_none (le_refl _), if_neg (by simp), ih _ (le_refl _), List.drop_length]
        exact ⟨fun _ => List.nil_sublist _, fun _ => List.nil_sublist _⟩
  rw [containsSubsequence, decide_eq_true_iff, hloop haystack 0 (Nat.zero_le _), List.drop_zero]

theorem containsSubsequence_append {haystack needle : List Str} (h : containsSubsequence haystack needle = true)
    (more : List Str) : containsSubsequence (haystack ++ more) needle = true :=
  containsSubsequence_iff.mpr ((containsSubsequence_iff.mp h).trans (List.sublist_append_left haystack more))

/-- Which of the patterns a history contains. -/
def found (history : List Str) (chains : List (List Str × Str)) : List Bool :=
  chains.map fun chain => containsSubsequence history chain.1

/-- The patterns that the history contains only with its last calls. -/
def newChains (history toolNames : List Str) (chains : List (List Str × Str)) : List (List Str × Str) :=
  chains.filter fun chain => containsSubsequence (history ++ toolNames) chain.1 && !containsSubsequence history chain.1

/-- The loop over the patterns, from one of them on. -/
theorem foldl_checkPattern (history toolNames : List Str) : ∀ (chains : List (List Str × Str)) (done : List Bool)
    (alerts : List ChainAlert),
    (chains.zipIdx done.length).foldl checkPattern (⟨history ++ toolNames, done ++ found history chains⟩, alerts) =
      (⟨history ++ toolNames, done ++ found (history ++ toolNames) chains⟩,
        alerts ++ (newChains history toolNames chains).map fun chain => ⟨chain.2, history ++ toolNames⟩) := by
  intro chains
  induction chains with
  | nil => intro done alerts; simp [found, newChains]
  | cons chain chains ih =>
    intro done alerts
    have hget : (done ++ found history (chain :: chains)).getD done.length false = containsSubsequence history chain.1 := by
      simp [found]
    have hset : (done ++ found history (chain :: chains)).set done.length true = done ++ [true] ++ found history chains := by
      simp [found]
    have hnext : ∀ b : Bool, (done ++ [b]).length = done.length + 1 := fun b => by simp
    rw [List.zipIdx_cons, List.foldl_cons, checkPattern, hget]
    by_cases hold : containsSubsequence history chain.1 = true
    · have hnew := containsSubsequence_append hold toolNames
      have hih := ih (done ++ [true]) alerts
      rw [hnext] at hih
      rw [if_pos hold]
      simpa [found, newChains, hold, hnew] using hih
    · rw [if_neg hold]
      by_cases hnew : containsSubsequence (history ++ toolNames) chain.1 = true
      · have hih := ih (done ++ [true]) (alerts ++ [⟨chain.2, history ++ toolNames⟩])
        rw [hnext] at hih
        rw [if_pos hnew]
        dsimp only
        rw [hset, hih]
        simp [found, newChains, hold, hnew]
      · have hih := ih (done ++ [false]) alerts
        rw [hnext] at hih
        rw [if_neg hnew]
        simpa [found, newChains, hold, hnew] using hih

/-- The tracker of a message, after some iterations. -/
def afterCalls (batches : List (List Str)) : ChainTracker := runSteps (fun t toolNames => (record t toolNames).1) {} batches

theorem record_eq (history toolNames : List Str) :
    record ⟨history, found history dangerousChains⟩ toolNames =
      (⟨history ++ toolNames, found (history ++ toolNames) dangerousChains⟩,
        (newChains history toolNames dangerousChains).map fun chain => ⟨chain.2, history ++ toolNames⟩) :=
  foldl_checkPattern history toolNames dangerousChains [] []

theorem afterCalls_eq (batches : List (List Str)) :
    afterCalls batches = ⟨batches.flatten, found batches.flatten dangerousChains⟩ := by
  induction batches using List.reverseRecOn with
  | nil => rfl
  | append_singleton batches toolNames ih =>
    have hstep : afterCalls (batches ++ [toolNames]) = (record (afterCalls batches) toolNames).1 := runSteps_concat _ _ _
    rw [hstep, ih, record_eq, List.flatten_append, List.flatten_singleton]

/-- **What is alerted after an iteration are the patterns that the calls contain for the first time**, in the
order of the table and with all calls so far; no pattern is alerted twice. -/
theorem record_alerts (batches : List (List Str)) (toolNames : List Str) :
    (record (afterCalls batches) toolNames).2 =
      (dangerousChains.filter fun chain => decide (chain.1.Sublist (batches.flatten ++ toolNames)) &&
        !decide (chain.1.Sublist batches.flatten)).map fun chain => ⟨chain.2, batches.flatten ++ toolNames⟩ := by
  have hdecide : ∀ history needle : List Str, containsSubsequence history needle = decide (needle.Sublist history) := by
    intro history needle
    rw [Bool.eq_iff_iff, containsSubsequence_iff, decide_eq_true_iff]
  rw [afterCalls_eq, record_eq]
  simp only [newChains, hdecide]

/-- **Without a call of `shell_execute` nothing is alerted.** -/
theorem record_no_shellExecute {batches : List (List Str)} {toolNames : List Str}
    (h : "shell_execute".toList ∉ batches.flatten ++ toolNames) : (record (afterCalls batches) toolNames).2 = [] := by
  have hmem : ∀ chain ∈ dangerousChains, "shell_execute".toList ∈ chain.1 := by decide
  rw [afterCalls_eq, record_eq, List.map_eq_nil_iff, newChains, List.filter_eq_nil_iff]
  intro chain hchain hfound
  rw [Bool.and_eq_true] at hfound
  exact h ((containsSubsequence_iff.mp hfound.1).subset (hmem chain hchain))

end ChainTracker

end Zeptoclaw

import Mathlib.Data.List.Basic
import Mathlib.Data.List.Induction
import Mathlib.Order.Defs.PartialOrder

/-!
# Runs of a transition function

A run folds a step function over its inputs. `StepsMeet` says that every step of the
run is taken in a state and with an input that meet a condition; `run_invariant` is the
induction over such a run, `run_preserves` the one over any run, `run_ordered` the one over
a run whose inputs have times that do not go back. `run_project` cuts out a part of the state.

Where a state is a list of parties that take their steps one by one, a step replaces one element of the list
(`exists_split_of_getElem?`). `AtMostOne` says that at most one of them is in its critical part.
-/

namespace Zeptoclaw

section Run

variable {σ α : Type*} (step : σ → α → σ)

/-- The state after the inputs. -/
def runSteps (s : σ) (inputs : List α) : σ := inputs.foldl step s

/-- Every step of the run meets the condition. -/
def StepsMeet (cond : σ → α → Prop) : σ → List α → Prop
  | _, [] => True
  | s, a :: inputs => cond s a ∧ StepsMeet cond (step s a) inputs

variable {step}

/-- **What a step that meets the condition preserves, a run of such steps preserves.** -/
theorem run_invariant {cond : σ → α → Prop} {inv : σ → Prop}
    (hstep : ∀ s a, inv s → cond s a → inv (step s a)) :
    ∀ (inputs : List α) (s : σ), inv s → StepsMeet step cond s inputs → inv (runSteps step s inputs) := by
  intro inputs
  induction inputs with
  | nil => intro s hs _; exact hs
  | cons a inputs ih =>
    intro s hs hmeet
    obtain ⟨hcond, hrest⟩ := hmeet
    exact ih (step s a) (hstep s a hs hcond) hrest

/-- What every step preserves, every run preserves. -/
theorem run_preserves {inv : σ → Prop} (hstep : ∀ s a, inv s → inv (step s a)) :
    ∀ (inputs : List α) (s : σ), inv s → inv (runSteps step s inputs) := by
  intro inputs
  induction inputs with
  | nil => intro s hs; exact hs
  | cons a inputs ih => intro s hs; exact ih (step s a) (hstep s a hs)

/-- The condition is one on every input and the state that is reached before it. -/
theorem stepsMeet_iff {cond : σ → α → Prop} : ∀ {inputs : List α} {s : σ}, StepsMeet step cond s inputs ↔
    ∀ before a after, inputs = before ++ a :: after → cond (runSteps step s before) a := by
  intro inputs
  induction inputs with
  | nil =>
    intro s
    refine ⟨fun _ before a after h => ?_, fun _ => trivial⟩
    exact absurd h.symm (List.append_ne_nil_of_right_ne_nil _ (List.cons_ne_nil a after))
  | cons b inputs ih =>
    intro s
    constructor
    · rintro ⟨hb, hrest⟩ before a after h
      cases before with
      | nil =>
        obtain ⟨rfl, -⟩ := List.cons.inj h
        exact hb
      | cons c before =>
        obtain ⟨rfl, hcut⟩ := List.cons.inj h
        exact ih.mp hrest before a after hcut
    · intro h
      refine ⟨h [] b inputs rfl, ih.mpr fun before a after hcut => ?_⟩
      exact h (b :: before) a after (by rw [hcut]; rfl)

theorem runSteps_concat (s : σ) (inputs : List α) (a : α) :
    runSteps step s (inputs ++ [a]) = step (runSteps step s inputs) a := by
  unfold runSteps
  rw [List.foldl_append]
  rfl

theorem runSteps_append (s : σ) (xs ys : List α) :
    runSteps step s (xs ++ ys) = runSteps step (runSteps step s xs) ys := by
  unfold runSteps
  rw [List.foldl_append]

theorem stepsMeet_append {cond : σ → α → Prop} : ∀ {xs ys : List α} {s : σ},
    StepsMeet step cond s (xs ++ ys) ↔ StepsMeet step cond s xs ∧ StepsMeet step cond (runSteps step s xs) ys := by
  intro xs ys
  induction xs with
  | nil => exact fun {s} => ⟨fun h => ⟨trivial, h⟩, fun h => h.2⟩
  | cons a xs ih =>
    intro s
    rw [List.cons_append, StepsMeet, StepsMeet, ih, and_assoc]
    rfl

/-- **If the condition is exactly what a step needs to keep the invariant, a run meets it exactly if
the invariant holds in every state of the run.** The steps may have a precondition that the run meets. -/
theorem stepsMeet_iff_invariant_of {pre cond : σ → α → Prop} {inv : σ → Prop}
    (hstep : ∀ s a, inv s → pre s a → (cond s a ↔ inv (step s a))) {s : σ} (hs : inv s) {inputs : List α}
    (hpre : StepsMeet step pre s inputs) :
    StepsMeet step cond s inputs ↔ ∀ before after, inputs = before ++ after → inv (runSteps step s before) := by
  rw [stepsMeet_iff] at hpre ⊢
  constructor
  · intro h before
    induction before using List.reverseRecOn with
    | nil => exact fun _ _ => hs
    | append_singleton before a ih =>
      intro after hcut
      rw [List.append_assoc, List.singleton_append] at hcut
      rw [runSteps_concat]
      exact (hstep _ a (ih _ hcut) (hpre before a after hcut)).mp (h before a after hcut)
  · intro h before a after hcut
    have hnext := h (before ++ [a]) after (by rw [hcut, List.append_assoc]; rfl)
    rw [runSteps_concat] at hnext
    exact (hstep _ a (h before _ hcut) (hpre before a after hcut)).mpr hnext

/-- The same for steps without a precondition. -/
theorem stepsMeet_iff_invariant {cond : σ → α → Prop} {inv : σ → Prop}
    (hstep : ∀ s a, inv s → (cond s a ↔ inv (step s a))) {s : σ} (hs : inv s) (inputs : List α) :
    StepsMeet step cond s inputs ↔ ∀ before after, inputs = before ++ after → inv (runSteps step s before) :=
  stepsMeet_iff_invariant_of (fun s a hinv (_ : True) => hstep s a hinv) hs (stepsMeet_iff.mpr fun _ _ _ _ => trivial)

/-- What steps preserve that may speak of the states before them: `past` holds of all states of the run. -/
theorem run_history {cond : σ → α → Prop} {inv past : σ → Prop}
    (hstep : ∀ s a, past s → inv s → cond s a → inv (step s a)) {s : σ} (hs : inv s) {inputs : List α}
    (hpast : ∀ before after, inputs = before ++ after → past (runSteps step s before))
    (hmeet : StepsMeet step cond s inputs) : inv (runSteps step s inputs) := by
  rw [stepsMeet_iff] at hmeet
  have hprefix : ∀ before after, inputs = before ++ after → inv (runSteps step s before) := by
    intro before
    induction before using List.reverseRecOn with
    | nil => exact fun _ _ => hs
    | append_singleton before a ih =>
      intro after hcut
      rw [List.append_assoc, List.singleton_append] at hcut
      rw [runSteps_concat]
      exact hstep _ a (hpast before _ hcut) (ih _ hcut) (hmeet before a after hcut)
  exact hprefix inputs [] (List.append_nil inputs).symm

/-- A part of the state that runs on its own: some inputs are inputs of it, and the others leave it as it is. -/
theorem run_project {τ β : Type*} {step' : τ → β → τ} {proj : σ → τ} {f : α → Option β}
    (hstep : ∀ s a, proj (step s a) = (f a).elim (proj s) (step' (proj s))) :
    ∀ (inputs : List α) (s : σ), proj (runSteps step s inputs) = runSteps step' (proj s) (inputs.filterMap f) := by
  intro inputs
  induction inputs with
  | nil => exact fun _ => rfl
  | cons a inputs ih =>
    intro s
    have hrest : proj (runSteps step s (a :: inputs)) = runSteps step' (proj (step s a)) (inputs.filterMap f) := ih (step s a)
    rw [hrest, hstep]
    cases hf : f a with
    | none => rw [List.filterMap_cons_none hf, Option.elim_none]
    | some b => rw [List.filterMap_cons_some hf, Option.elim_some]; rfl

/-- Inputs with times that do not go back: the invariant speaks of the time of the last one. -/
theorem run_ordered {τ : Type*} [Preorder τ] {time : α → τ} {inv : τ → σ → Prop}
    (hstep : ∀ t s a, inv t s → t ≤ time a → inv (time a) (step s a)) :
    ∀ (inputs : List α) (t : τ) (s : σ), inv t s → (∀ a ∈ inputs, t ≤ time a) →
      (inputs.map time).Pairwise (· ≤ ·) → ∃ u, inv u (runSteps step s inputs) := by
  intro inputs
  induction inputs with
  | nil => exact fun t s hs _ _ => ⟨t, hs⟩
  | cons a inputs ih =>
    intro t s hs hle hord
    rw [List.map_cons, List.pairwise_cons] at hord
    have hlater : ∀ b ∈ inputs, time a ≤ time b := fun b hb => hord.1 _ (List.mem_map_of_mem hb)
    exact ih (time a) (step s a) (hstep t s a hs (hle a List.mem_cons_self)) hlater hord.2

/-- The same from a state that meets the invariant at any time. -/
theorem run_ordered_start {τ : Type*} [Preorder τ] [Nonempty τ] {time : α → τ} {inv : τ → σ → Prop} {s : σ}
    (hstart : ∀ t, inv t s) (hstep : ∀ t s a, inv t s → t ≤ time a → inv (time a) (step s a)) (inputs : List α)
    (hord : (inputs.map time).Pairwise (· ≤ ·)) : ∃ u, inv u (runSteps step s inputs) := by
  cases inputs with
  | nil => exact ⟨Classical.arbitrary τ, hstart _⟩
  | cons a inputs =>
    refine run_ordered hstep (a :: inputs) (time a) s (hstart _) ?_ hord
    intro b hb
    rw [List.map_cons, List.pairwise_cons] at hord
    rcases List.mem_cons.mp hb with rfl | hb
    · exact le_refl _
    · exact hord.1 _ (List.mem_map_of_mem hb)

end Run

/-! ## Parties of which at most one is at work -/

section Parties

variable {α : Type*} {W : α → Prop} {l l₁ l₂ : List α} {a b : α}

/-- The step of a party: the others stay where they are. -/
theorem exists_split_of_getElem? {i : ℕ} (h : l[i]? = some a) :
    ∃ l₁ l₂, l₁.length = i ∧ l = l₁ ++ a :: l₂ ∧ ∀ b, l.set i b = l₁ ++ b :: l₂ := by
  obtain ⟨hi, rfl⟩ := List.getElem?_eq_some_iff.mp h
  refine ⟨l.take i, l.drop (i + 1), List.length_take_of_le (Nat.le_of_lt hi), ?_, fun b => ?_⟩
  · rw [List.getElem_cons_drop, List.take_append_drop]
  · rw [List.set_eq_take_append_cons_drop, if_pos hi]

theorem getElem?_middle (l₁ : List α) (a : α) (l₂ : List α) : (l₁ ++ a :: l₂)[l₁.length]? = some a := by
  rw [List.getElem?_append_right (Nat.le_refl _), Nat.sub_self, List.getElem?_cons_zero]

/-- The other parties are where they were. -/
theorem getElem?_split (l₁ l₂ : List α) (a b : α) (i : ℕ) :
    (l₁ ++ b :: l₂)[i]? = if i = l₁.length then some b else (l₁ ++ a :: l₂)[i]? := by
  rcases Nat.lt_trichotomy i l₁.length with h | rfl | h
  · rw [if_neg (Nat.ne_of_lt h), List.getElem?_append_left h, List.getElem?_append_left h]
  · rw [if_pos rfl, getElem?_middle]
  · obtain ⟨k, rfl⟩ := Nat.exists_eq_add_of_lt h
    have hle := Nat.le_of_lt h
    rw [if_neg (Nat.ne_of_gt h), List.getElem?_append_right hle, List.getElem?_append_right hle, Nat.add_assoc,
      Nat.add_sub_cancel_left, List.getElem?_cons_succ, List.getElem?_cons_succ]

theorem mem_split : b ∈ l₁ ++ a :: l₂ ↔ b = a ∨ b ∈ l₁ ++ l₂ := by
  rw [List.mem_append, List.mem_cons, List.mem_append]
  tauto

/-- No two parties are both at work. -/
def AtMostOne (W : α → Prop) (l : List α) : Prop := l.Pairwise fun x y => ¬ W x ∨ ¬ W y

namespace AtMostOne

/-- Around a party at work, no other one is. -/
theorem others (h : AtMostOne W (l₁ ++ a :: l₂)) (ha : W a) : ∀ x ∈ l₁ ++ l₂, ¬ W x := by
  rw [AtMostOne, List.pairwise_append, List.pairwise_cons] at h
  intro x hx
  rcases List.mem_append.mp hx with hx | hx
  · exact (h.2.2 x hx a List.mem_cons_self).resolve_right (not_not_intro ha)
  · exact (h.2.1.1 x hx).resolve_left (not_not_intro ha)

/-- A party may start its work while no other one is at work. -/
theorem replace (h : AtMostOne W (l₁ ++ a :: l₂)) (hb : W b → ∀ x ∈ l₁ ++ l₂, ¬ W x) : AtMostOne W (l₁ ++ b :: l₂) := by
  rw [AtMostOne, List.pairwise_append, List.pairwise_cons] at h ⊢
  have hpair : ∀ x ∈ l₁ ++ l₂, ¬ W x ∨ ¬ W b := by
    intro x hx
    by_cases hwork : W b
    · exact Or.inl (hb hwork x hx)
    · exact Or.inr hwork
  refine ⟨h.1, ⟨fun x hx => (hpair x (List.mem_append_right _ hx)).symm, h.2.1.2⟩, fun x hx y hy => ?_⟩
  rcases List.mem_cons.mp hy with rfl | hy
  · exact hpair x (List.mem_append_left _ hx)
  · exact h.2.2 x hx y (List.mem_cons_of_mem a hy)

theorem concat (h : AtMostOne W l) (hb : W b → ∀ x ∈ l, ¬ W x) : AtMostOne W (l ++ [b]) := by
  refine List.pairwise_append.mpr ⟨h, List.pairwise_singleton _ _, fun x hx y hy => ?_⟩
  rw [List.mem_singleton] at hy
  subst hy
  by_cases hwork : W y
  · exact Or.inl (hb hwork x hx)
  · exact Or.inr hwork

end AtMostOne

end Parties

end Zeptoclaw

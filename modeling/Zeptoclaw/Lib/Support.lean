import Mathlib.Data.List.Basic

/-!
# Elements preceded by what supports them

In a list read from left to right, every element with property `P` has to be
preceded by one that supports it (`R p a`: `p` supports `a`). `ctx` holds the
elements that came before the list.
-/

namespace Zeptoclaw

variable {α β : Type*} {P : α → Prop} {R : α → α → Prop} {ctx ctx' l l' : List α} {a : α}

/-- Every element of `l` with property `P` is supported by an element of `ctx` or by
an earlier element of `l`. -/
def Supported (P : α → Prop) (R : α → α → Prop) (ctx l : List α) : Prop :=
  ∀ pre a post, l = pre ++ a :: post → P a → ∃ p ∈ ctx ++ pre, R p a

theorem supported_nil : Supported P R ctx [] := by
  intro pre a post h; simp at h

theorem supported_cons :
    Supported P R ctx (a :: l) ↔ (P a → ∃ p ∈ ctx, R p a) ∧ Supported P R (ctx ++ [a]) l := by
  constructor
  · intro h
    refine ⟨fun ha => by simpa using h [] a l rfl ha, fun pre b post hl hb => ?_⟩
    obtain ⟨p, hp, hr⟩ := h (a :: pre) b post (by rw [hl]; rfl) hb
    exact ⟨p, by simpa using hp, hr⟩
  · rintro ⟨h1, h2⟩ pre b post hl hb
    cases pre with
    | nil =>
      obtain ⟨rfl, -⟩ := List.cons.inj hl
      simpa using h1 hb
    | cons x pre =>
      obtain ⟨rfl, hl'⟩ := List.cons.inj hl
      obtain ⟨p, hp, hr⟩ := h2 pre b post hl' hb
      exact ⟨p, by simpa using hp, hr⟩

/-- A context that supports at least as much may replace another. -/
theorem Supported.mono (h : Supported P R ctx l)
    (hctx : ∀ a, P a → (∃ p ∈ ctx, R p a) → ∃ p ∈ ctx', R p a) : Supported P R ctx' l := by
  intro pre a post hl ha
  obtain ⟨p, hp, hr⟩ := h pre a post hl ha
  rcases List.mem_append.1 hp with hp | hp
  · obtain ⟨q, hq, hqr⟩ := hctx a ha ⟨p, hp, hr⟩
    exact ⟨q, List.mem_append_left _ hq, hqr⟩
  · exact ⟨p, List.mem_append_right _ hp, hr⟩

/-- Elements that support nothing may be dropped. -/
theorem Supported.filter {keep : α → Bool} (h : Supported P R ctx l)
    (hdrop : ∀ p ∈ l, keep p = false → ∀ a, ¬ R p a) : Supported P R ctx (l.filter keep) := by
  induction l generalizing ctx with
  | nil => exact supported_nil
  | cons x l ih =>
    obtain ⟨hx, hl⟩ := supported_cons.1 h
    have hdrop' : ∀ p ∈ l, keep p = false → ∀ a, ¬ R p a := fun p hp =>
      hdrop p (List.mem_cons_of_mem _ hp)
    cases hk : keep x with
    | true =>
      rw [List.filter_cons_of_pos hk]
      exact supported_cons.2 ⟨hx, ih hl hdrop'⟩
    | false =>
      rw [List.filter_cons_of_neg (by simp [hk])]
      refine ih (hl.mono ?_) hdrop'
      rintro a - ⟨p, hp, hr⟩
      rcases List.mem_append.1 hp with hp | hp
      · exact ⟨p, hp, hr⟩
      · rw [List.mem_singleton] at hp; subst hp
        exact absurd hr (hdrop p List.mem_cons_self hk a)

/-- Support of an image is support under the pulled-back relations. -/
theorem supported_map_iff (P : α → Prop) (R : α → α → Prop) (f : β → α) (ctx l : List β) :
    Supported P R (ctx.map f) (l.map f) ↔
      Supported (fun b => P (f b)) (fun p b => R (f p) (f b)) ctx l := by
  induction l generalizing ctx with
  | nil => simp [supported_nil]
  | cons x l ih =>
    have hctx : ctx.map f ++ [f x] = (ctx ++ [x]).map f := by simp
    rw [List.map_cons, supported_cons, supported_cons, hctx, ih]
    simp

/-- An element without the property that supports nothing may be put in front. -/
theorem supported_cons_inert (hP : ¬ P a) (hR : ∀ b, P b → ¬ R a b) :
    Supported P R ctx (a :: l) ↔ Supported P R ctx l := by
  rw [supported_cons]
  constructor
  · rintro ⟨-, h⟩
    refine h.mono ?_
    rintro b hb ⟨p, hp, hr⟩
    rcases List.mem_append.1 hp with hp | hp
    · exact ⟨p, hp, hr⟩
    · rw [List.mem_singleton] at hp; subst hp
      exact absurd hr (hR b hb)
  · intro h
    refine ⟨fun ha => absurd ha hP, h.mono ?_⟩
    rintro b - ⟨p, hp, hr⟩
    exact ⟨p, List.mem_append_left _ hp, hr⟩

end Zeptoclaw

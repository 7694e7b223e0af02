import Zeptoclaw.Lib.Offset

/-!
# Occurrences of a pattern in a text

The first occurrence of a pattern, and the occurrences that a search from left to right
meets when it goes on behind each one it has found.
-/

namespace Zeptoclaw

namespace Text

/-- The text before the first occurrence of a pattern and the text behind it. -/
def cutFirst (pat : Str) : Str → Option (Str × Str)
  | [] => if pat = [] then some ([], []) else none
  | c :: s =>
    if pat <+: c :: s then some ([], (c :: s).drop pat.length)
    else (cutFirst pat s).map fun cut => (c :: cut.1, cut.2)

/-- The text before the last occurrence of a pattern and the text behind it. -/
def cutLast (pat : Str) : Str → Option (Str × Str)
  | [] => if pat = [] then some ([], []) else none
  | c :: s =>
    match cutLast pat s with
    | some cut => some (c :: cut.1, cut.2)
    | none => if pat <+: c :: s then some ([], (c :: s).drop pat.length) else none

/-- The two texts and the pattern between them are the text. -/
theorem cutLast_split {pat : Str} : ∀ {s pre post : Str}, cutLast pat s = some (pre, post) → s = pre ++ (pat ++ post) := by
  intro s
  induction s with
  | nil =>
    intro pre post h
    rw [cutLast] at h
    split at h
    · rename_i hpat
      cases h
      rw [hpat]
      rfl
    · cases h
  | cons c s ih =>
    intro pre post h
    rw [cutLast] at h
    split at h
    · rename_i cut hcut
      cases h
      rw [ih hcut, List.cons_append]
    · split at h
      · rename_i hpre
        cases h
        obtain ⟨rest, hrest⟩ := hpre
        rw [← hrest, List.drop_left, List.nil_append]
      · cases h

/-- The pattern stands at a byte offset. -/
def OccursAt (s pat : Str) (p : ℕ) : Prop := ∃ pre post, s = pre ++ pat ++ post ∧ byteLen pre = p

/-- The cut of a text at the first occurrence of a pattern. -/
structure FirstCut (pat s pre post : Str) : Prop where
  text : s = pre ++ pat ++ post
  first : ∀ pre' post', s = pre' ++ pat ++ post' → byteLen pre ≤ byteLen pre'

theorem FirstCut.cons {pat s pre post : Str} (h : FirstCut pat s pre post) {c : Char} (hc : ¬ pat <+: c :: s) :
    FirstCut pat (c :: s) (c :: pre) post := by
  refine ⟨by rw [h.text]; rfl, ?_⟩
  intro pre' post' heq
  cases pre' with
  | nil => exact absurd ⟨post', heq.symm⟩ hc
  | cons c' pre' =>
    obtain ⟨rfl, htail⟩ := List.cons.inj heq
    have := h.first pre' post' htail
    rw [byteLen_cons, byteLen_cons]
    omega

theorem cutFirst_some {pat : Str} : ∀ {s pre post : Str}, cutFirst pat s = some (pre, post) →
    FirstCut pat s pre post := by
  intro s
  induction s with
  | nil =>
    intro pre post h
    rw [cutFirst] at h
    split at h
    · rename_i hpat
      cases h
      exact ⟨by rw [hpat]; rfl, fun _ _ _ => Nat.zero_le _⟩
    · cases h
  | cons c s ih =>
    intro pre post h
    rw [cutFirst] at h
    split at h
    · rename_i hpre
      cases h
      obtain ⟨post, hpost⟩ := hpre
      refine ⟨?_, fun _ _ _ => Nat.zero_le _⟩
      rw [← hpost, List.drop_left, List.nil_append]
    · rename_i hpre
      obtain ⟨⟨pre', post'⟩, hcut, heq⟩ := Option.map_eq_some_iff.mp h
      cases heq
      exact (ih hcut).cons hpre

theorem cutFirst_none {pat : Str} : ∀ {s : Str}, cutFirst pat s = none → ∀ p, ¬ OccursAt s pat p := by
  intro s
  induction s with
  | nil =>
    rintro h p ⟨pre, post, heq, -⟩
    have hpat : pat = [] := by
      obtain ⟨hleft, -⟩ := List.append_eq_nil_iff.mp heq.symm
      exact (List.append_eq_nil_iff.mp hleft).2
    rw [cutFirst, if_pos hpat] at h
    cases h
  | cons c s ih =>
    rintro h p ⟨pre, post, heq, -⟩
    rw [cutFirst] at h
    split at h
    · cases h
    · rename_i hpre
      cases pre with
      | nil => exact hpre ⟨post, heq.symm⟩
      | cons c' pre =>
        obtain ⟨rfl, htail⟩ := List.cons.inj heq
        exact ih (Option.map_eq_none_iff.mp h) (byteLen pre) ⟨pre, post, htail, rfl⟩

theorem FirstCut.occursAt {pat s pre post : Str} (h : FirstCut pat s pre post) : OccursAt s pat (byteLen pre) :=
  ⟨pre, post, h.text, rfl⟩

theorem FirstCut.le {pat s pre post : Str} (h : FirstCut pat s pre post) {p : ℕ} (hp : OccursAt s pat p) :
    byteLen pre ≤ p := by
  obtain ⟨pre', post', heq, rfl⟩ := hp
  exact h.first pre' post' heq

theorem FirstCut.unique {pat s pre post pre' post' : Str} (h : FirstCut pat s pre post) (h' : FirstCut pat s pre' post') :
    pre = pre' ∧ post = post' := by
  have hle := h.le h'.occursAt
  have hge := h'.le h.occursAt
  have hsame : pre = pre' ∧ pat ++ post = pat ++ post' := by
    apply eq_of_byteLen_eq
    · rw [← List.append_assoc, ← List.append_assoc, ← h.text, ← h'.text]
    · omega
  exact ⟨hsame.1, List.append_cancel_left hsame.2⟩

/-- The search finds the first cut. -/
theorem FirstCut.cutFirst_eq_some {pat s pre post : Str} (h : FirstCut pat s pre post) : cutFirst pat s = some (pre, post) := by
  cases hcut : cutFirst pat s with
  | none => exact absurd h.occursAt (cutFirst_none hcut _)
  | some cut =>
    obtain ⟨pre', post'⟩ := cut
    obtain ⟨rfl, rfl⟩ := h.unique (cutFirst_some hcut)
    rfl

/-- A character that a front does not have is first met behind it. -/
theorem cutFirst_singleton_append {c : Char} (t : Str) : ∀ {front : Str}, c ∉ front →
    cutFirst [c] (front ++ t) = (cutFirst [c] t).map fun cut => (front ++ cut.1, cut.2) := by
  intro front
  induction front with
  | nil =>
    intro _
    exact (Option.map_id_apply).symm
  | cons d front ih =>
    intro hc
    simp only [List.mem_cons, not_or] at hc
    obtain ⟨hd, hfront⟩ := hc
    have hpre : ¬ [c] <+: d :: (front ++ t) := fun h => hd (List.cons_prefix_cons.mp h).1
    rw [List.cons_append, cutFirst, if_neg hpre, ih hfront, Option.map_map]
    rfl

/-- An occurrence in the text behind a front is one of the whole text. -/
theorem OccursAt.behind {s pat : Str} {p : ℕ} (h : OccursAt s pat p) (front : Str) :
    OccursAt (front ++ s) pat (byteLen front + p) := by
  obtain ⟨pre, post, rfl, rfl⟩ := h
  exact ⟨front ++ pre, post, by simp, byteLen_append front pre⟩

/-- An occurrence that does not begin in a front is one of the text behind it. -/
theorem OccursAt.of_le {front s pat : Str} {p : ℕ} (h : OccursAt (front ++ s) pat p) (hle : byteLen front ≤ p) :
    OccursAt s pat (p - byteLen front) := by
  obtain ⟨pre, post, heq, rfl⟩ := h
  rw [List.append_assoc] at heq
  rcases List.append_eq_append_iff.mp heq with ⟨mid, rfl, hs⟩ | ⟨mid, rfl, hs⟩
  · refine ⟨mid, post, by rw [hs, List.append_assoc], ?_⟩
    rw [byteLen_append]
    omega
  · -- the front is longer than what stands before the pattern only by nothing
    have hmid : mid = [] := by
      by_contra hne
      have := byteLen_pos hne
      rw [byteLen_append] at hle
      omega
    subst hmid
    refine ⟨[], post, ?_, ?_⟩
    · rw [List.nil_append, hs, List.nil_append]
    · rw [List.append_nil, Nat.sub_self, byteLen_nil]

/-! ## Cuts of a pattern that is not empty -/

section Cuts

variable {d : Char} {p : Str}

/-- The first occurrence is the one before which, and across whose beginning, there is none. -/
theorem cutFirst_eq {pre post : Str} (h : ¬ (d :: p) <:+: (pre ++ d :: p).dropLast) :
    cutFirst (d :: p) (pre ++ (d :: p) ++ post) = some (pre, post) := by
  induction pre with
  | nil => rw [List.nil_append, List.cons_append, cutFirst, if_pos ⟨post, rfl⟩, ← List.cons_append, List.drop_left]
  | cons c pre ih =>
    have hlast : (c :: pre ++ d :: p).dropLast = c :: (pre ++ d :: p).dropLast := by
      rw [List.cons_append, List.dropLast_cons_of_ne_nil (List.append_ne_nil_of_right_ne_nil _ (List.cons_ne_nil d p))]
    rw [hlast] at h
    have hpre : ¬ (d :: p) <+: c :: (pre ++ (d :: p) ++ post) := by
      intro hpre
      have hpre' : (c :: (pre ++ d :: p).dropLast) <+: c :: (pre ++ (d :: p) ++ post) :=
        List.cons_prefix_cons.mpr ⟨rfl, (List.dropLast_prefix _).trans (List.prefix_append _ _)⟩
      exact h (List.prefix_of_prefix_length_le hpre hpre' (by simp)).isInfix
    rw [List.cons_append, List.cons_append, cutFirst, if_neg hpre,
      ih fun hin => h (List.infix_cons hin)]
    rfl

/-- The first occurrence in a text is the first one in any longer text. -/
theorem cutFirst_append {s pre post : Str} (h : cutFirst (d :: p) s = some (pre, post)) (t : Str) :
    cutFirst (d :: p) (s ++ t) = some (pre, post ++ t) := by
  induction s generalizing pre with
  | nil => cases h
  | cons c s ih =>
    have hcut := (cutFirst_some h).text
    rw [cutFirst] at h
    rw [List.cons_append, cutFirst]
    split at h
    · next hpre =>
      cases h
      have hlong : (d :: p) <+: c :: (s ++ t) := hpre.trans (List.prefix_append (c :: s) t)
      rw [if_pos hlong, ← List.cons_append, List.drop_append_of_le_length hpre.length_le]
    · next hpre =>
      obtain ⟨⟨pre', post'⟩, hrest, heq⟩ := Option.map_eq_some_iff.mp h
      cases heq
      have hlen : (d :: p).length ≤ (c :: s).length := by
        rw [hcut, List.length_append, List.length_append]
        omega
      have hpre' : ¬ (d :: p) <+: c :: (s ++ t) := fun hlong =>
        hpre (List.prefix_of_prefix_length_le hlong (List.prefix_append (c :: s) t) hlen)
      rw [if_neg hpre', ih hrest]
      rfl

/-- What stands behind the first occurrence does not matter. -/
theorem cutFirst_change {s pre post : Str} (h : cutFirst (d :: p) s = some (pre, post)) (t : Str) :
    cutFirst (d :: p) (pre ++ (d :: p) ++ t) = some (pre, t) := by
  induction s generalizing pre with
  | nil => cases h
  | cons c s ih =>
    have hcut := (cutFirst_some h).text
    rw [cutFirst] at h
    split at h
    · cases h
      rw [List.nil_append, List.cons_append, cutFirst, if_pos ⟨t, rfl⟩, ← List.cons_append, List.drop_left]
    · next hpre =>
      obtain ⟨⟨pre', post'⟩, hrest, heq⟩ := Option.map_eq_some_iff.mp h
      cases heq
      -- an occurrence here would end before the changed part
      have hpre' : ¬ (d :: p) <+: c :: (pre' ++ (d :: p) ++ t) := by
        intro hlong
        have hsame : c :: pre' ++ d :: p <+: c :: (pre' ++ (d :: p) ++ t) := ⟨t, by simp⟩
        have hfront : d :: p <+: c :: pre' ++ d :: p := List.prefix_of_prefix_length_le hlong hsame (by simp; omega)
        exact hpre (hfront.trans ⟨post', hcut.symm⟩)
      rw [List.cons_append, List.cons_append, cutFirst, if_neg hpre', ih hrest]
      rfl

theorem cutLast_eq_none {s : Str} (h : ¬ (d :: p) <:+: s) : cutLast (d :: p) s = none := by
  induction s with
  | nil => rfl
  | cons c s ih =>
    rw [List.infix_cons_iff, not_or] at h
    rw [cutLast, ih h.2]
    exact if_neg h.1

/-- The last occurrence is the one behind which, and across whose end, there is none. -/
theorem cutLast_eq {pre post : Str} (h : ¬ (d :: p) <:+: p ++ post) :
    cutLast (d :: p) (pre ++ (d :: p) ++ post) = some (pre, post) := by
  induction pre with
  | nil =>
    rw [List.nil_append, List.cons_append, cutLast, cutLast_eq_none h]
    dsimp only
    rw [if_pos ⟨post, rfl⟩, ← List.cons_append, List.drop_left]
  | cons c pre ih => rw [List.cons_append, List.cons_append, cutLast, ih]

/-- An occurrence, and the last one. -/
theorem cutLast_exists {s : Str} (h : (d :: p) <:+: s) : ∃ pre post, s = pre ++ (d :: p) ++ post ∧ ¬ (d :: p) <:+: p ++ post := by
  induction s with
  | nil => exact absurd (List.infix_nil.mp h) (List.cons_ne_nil d p)
  | cons c s ih =>
    by_cases hrest : (d :: p) <:+: s
    · obtain ⟨pre, post, rfl, hlast⟩ := ih hrest
      exact ⟨c :: pre, post, rfl, hlast⟩
    · obtain ⟨post, hpost⟩ := (List.infix_cons_iff.mp h).resolve_right hrest
      obtain ⟨rfl, rfl⟩ := List.cons.inj hpost
      exact ⟨[], post, rfl, hrest⟩

end Cuts

end Text

end Zeptoclaw

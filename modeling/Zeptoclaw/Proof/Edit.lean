import Zeptoclaw.Spec.Edit

/-!
# What an edit finds

The search for the text to replace, tier by tier: the occurrences it meets, and when the one
it reports is the only one.
-/

namespace Zeptoclaw

open Text

variable {nfc : Str → Str} {content oldText haystack needle : Str} {m : UniqueMatch}

/-! ## The occurrences that are found -/

theorem findAllFrom_succ_none {start rounds : ℕ} {rest : Str} (h : cutFirst needle rest = none) :
    findAllFrom needle start (rounds + 1) rest = [] := by
  rw [findAllFrom, h]

theorem findAllFrom_succ_some {start rounds : ℕ} {rest pre post : Str}
    (h : cutFirst needle rest = some (pre, post)) : findAllFrom needle start (rounds + 1) rest =
      (start + byteLen pre) :: findAllFrom needle (start + byteLen pre + byteLen needle) rounds post := by
  rw [findAllFrom, h]

/-- With enough rounds, nothing is found only where nothing occurs. -/
theorem findAllFrom_eq_nil (hneedle : needle ≠ []) {start rounds : ℕ} {rest : Str} (hrounds : rest.length ≤ rounds) :
    findAllFrom needle start rounds rest = [] ↔ ∀ p, ¬ OccursAt rest needle p := by
  cases rounds with
  | zero =>
    have hrest : rest = [] := List.eq_nil_of_length_eq_zero (by omega)
    subst hrest
    refine ⟨fun _ => ?_, fun _ => rfl⟩
    apply cutFirst_none
    rw [cutFirst, if_neg hneedle]
  | succ rounds =>
    cases hcut : cutFirst needle rest with
    | none =>
      rw [findAllFrom_succ_none hcut]
      exact ⟨fun _ => cutFirst_none hcut, fun _ => rfl⟩
    | some cut =>
      obtain ⟨pre, post⟩ := cut
      rw [findAllFrom_succ_some hcut]
      refine ⟨fun h => absurd h (List.cons_ne_nil _ _), fun h => ?_⟩
      exact absurd (cutFirst_some hcut).occursAt (h _)

/-- One hit is the first occurrence, with none behind its end. -/
theorem findAllOccurrences_eq_singleton (hneedle : needle ≠ []) {p : ℕ} : findAllOccurrences haystack needle = [p] ↔
    ∃ pre post, FirstCut needle haystack pre post ∧ byteLen pre = p ∧ ∀ q, ¬ OccursAt post needle q := by
  unfold findAllOccurrences
  rw [if_neg hneedle]
  cases hlen : haystack.length with
  | zero =>
    have hnil : haystack = [] := List.eq_nil_of_length_eq_zero hlen
    subst hnil
    constructor
    · intro h
      cases h
    · rintro ⟨pre, post, hcut, -, -⟩
      have := hcut.text
      simp [hneedle] at this
  | succ rounds =>
    cases hcut : cutFirst needle haystack with
    | none =>
      rw [findAllFrom_succ_none hcut]
      constructor
      · intro h
        cases h
      · rintro ⟨pre, post, hfirst, -, -⟩
        exact absurd hfirst.occursAt (cutFirst_none hcut _)
    | some cut =>
      obtain ⟨pre, post⟩ := cut
      have hfirst := cutFirst_some hcut
      have hrounds : post.length ≤ rounds := by
        have htext := congrArg List.length hfirst.text
        have hpos := List.length_pos_iff.mpr hneedle
        rw [List.length_append, List.length_append] at htext
        omega
      rw [findAllFrom_succ_some hcut, List.cons_eq_cons, findAllFrom_eq_nil hneedle hrounds, Nat.zero_add]
      constructor
      · rintro ⟨hp, hpost⟩
        exact ⟨pre, post, hfirst, hp, hpost⟩
      · rintro ⟨pre', post', hfirst', rfl, hpost'⟩
        obtain ⟨rfl, rfl⟩ := hfirst.unique hfirst'
        exact ⟨rfl, hpost'⟩

/-! ## The tiers -/

/-- The white-space tier reports its own kind of match. -/
theorem findWhitespace_tier (h : findWhitespace content oldText = .ok m) : m.tier = .whitespaceNormalized := by
  unfold findWhitespace at h
  dsimp only at h
  split at h
  · cases h
  · cases h
    rfl
  · cases h

/-- The lower tiers do not report an exact match. -/
theorem findNfc_tier (h : findNfc nfc content oldText = .ok m) : m.tier ≠ .exact := by
  unfold findNfc at h
  dsimp only at h
  split at h
  · split at h
    · rw [findWhitespace_tier h]
      decide
    · cases h
      exact MatchTier.noConfusion
    · cases h
  · rw [findWhitespace_tier h]
    decide

/-- An exact match is the one hit of the first search. -/
theorem findUniqueMatch_exact_iff : findUniqueMatch nfc content oldText = .ok m ∧ m.tier = .exact ↔
    ∃ p, findAllOccurrences content oldText = [p] ∧ m = ⟨p, p + byteLen oldText, .exact⟩ := by
  unfold findUniqueMatch
  constructor
  · rintro ⟨h, htier⟩
    split at h
    · exact absurd htier (findNfc_tier h)
    · rename_i p hp
      cases h
      exact ⟨p, hp, rfl⟩
    · cases h
  · rintro ⟨p, hp, rfl⟩
    rw [hp]
    exact ⟨rfl, rfl⟩

/-- A white-space match is the range of the one hit among the normal forms. -/
theorem findUniqueMatch_whitespace (h : findUniqueMatch nfc content oldText = .ok m)
    (htier : m.tier = .whitespaceNormalized) : normalizeWhitespace oldText ≠ [] ∧
      ∃ pre post, FirstCut (normalizeWhitespace oldText) (normalizeWhitespace content) pre post ∧
        (m.start, m.stop) = mapWsRangeToOriginal content (normalizeWhitespace content) (byteLen pre)
          (byteLen pre + byteLen (normalizeWhitespace oldText)) := by
  have hfind : findWhitespace content oldText = .ok m := by
    unfold findUniqueMatch findNfc at h
    dsimp only at h
    split at h
    · split at h
      · split at h
        · exact h
        · cases h
          cases htier
        · cases h
      · exact h
    · cases h
      cases htier
    · cases h
  unfold findWhitespace at hfind
  dsimp only at hfind
  split at hfind
  · cases hfind
  · rename_i p hp
    have hne : normalizeWhitespace oldText ≠ [] := by
      intro hnil
      rw [hnil] at hp
      cases hp
    obtain ⟨pre, post, hfirst, rfl, -⟩ := (findAllOccurrences_eq_singleton hne).mp hp
    cases hfind
    exact ⟨hne, pre, post, hfirst, rfl⟩
  · cases hfind

/-! ## Exact matches -/

/-- **When an exact match is the only occurrence.** Every exact match that is reported stands
at the one position where the text occurs if and only if the text, when it occurs at two
positions, also occurs at two positions that do not overlap. -/
theorem exact_match_unique_iff (nfc : Str → Str) {content oldText : Str} (hold : oldText ≠ []) :
    (∀ m, findUniqueMatch nfc content oldText = .ok m → m.tier = .exact → ∃! p, OccursAt content oldText p) ↔
      ((∃ p q, p ≠ q ∧ OccursAt content oldText p ∧ OccursAt content oldText q) →
        ∃ p q, p + byteLen oldText ≤ q ∧ OccursAt content oldText p ∧ OccursAt content oldText q) := by
  constructor
  · rintro hunique ⟨p, q, hne, hp, hq⟩
    by_contra hoverlap
    cases hcut : cutFirst oldText content with
    | none => exact cutFirst_none hcut p hp
    | some cut =>
      obtain ⟨pre, post⟩ := cut
      have hfirst := cutFirst_some hcut
      -- an occurrence behind the first one would not overlap it
      have hnone : ∀ r, ¬ OccursAt post oldText r := by
        intro r hr
        have hr' := hr.behind (pre ++ oldText)
        rw [← hfirst.text, byteLen_append] at hr'
        apply hoverlap
        exact ⟨byteLen pre, _, by omega, hfirst.occursAt, hr'⟩
      have hhit := (findAllOccurrences_eq_singleton hold).mpr ⟨pre, post, hfirst, rfl, hnone⟩
      have hmatch : findUniqueMatch nfc content oldText = .ok ⟨byteLen pre, byteLen pre + byteLen oldText, .exact⟩ :=
        (findUniqueMatch_exact_iff.mpr ⟨_, hhit, rfl⟩).1
      obtain ⟨r, -, hr⟩ := hunique _ hmatch rfl
      exact hne ((hr p hp).trans (hr q hq).symm)
  · intro hapart m hok htier
    obtain ⟨p, hhit, -⟩ := findUniqueMatch_exact_iff.mp ⟨hok, htier⟩
    obtain ⟨pre, post, hfirst, rfl, hnone⟩ := (findAllOccurrences_eq_singleton hold).mp hhit
    refine ⟨byteLen pre, hfirst.occursAt, ?_⟩
    intro q hq
    by_contra hne
    obtain ⟨p', q', hle, hp', hq'⟩ := hapart ⟨q, byteLen pre, hne, hq, hfirst.occursAt⟩
    have hp0 := hfirst.le hp'
    rw [hfirst.text] at hq'
    have hbehind : byteLen (pre ++ oldText) ≤ q' := by
      rw [byteLen_append]
      omega
    exact hnone _ (hq'.of_le hbehind)

/-- Four letters hold two of them at two positions apart: no match is reported. -/
theorem exact_match_unique_iff_apart : "aa".toList ≠ [] ∧
    ∀ m, findUniqueMatch id "aaaa".toList "aa".toList = .ok m → m.tier = .exact →
      ∃! p, OccursAt "aaaa".toList "aa".toList p := by
  have hold : "aa".toList ≠ [] := by decide
  refine ⟨hold, ?_⟩
  apply (exact_match_unique_iff id hold).mpr
  exact fun _ => ⟨0, 2, by decide, ⟨[], "aa".toList, rfl, rfl⟩, ⟨"aa".toList, [], rfl, rfl⟩⟩

/-- Three letters hold two of them at two positions, and the second is not seen. -/
theorem exact_match_overlaps : ¬ ∀ m, findUniqueMatch id "aaa".toList "aa".toList = .ok m → m.tier = .exact →
    ∃! p, OccursAt "aaa".toList "aa".toList p := by
  intro h
  obtain ⟨p, -, hp⟩ := h ⟨0, 2, .exact⟩ (by decide) rfl
  have h0 := hp 0 ⟨[], "a".toList, rfl, rfl⟩
  have h1 := hp 1 ⟨"a".toList, [], rfl, rfl⟩
  omega

end Zeptoclaw

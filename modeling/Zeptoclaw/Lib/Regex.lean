import Zeptoclaw.Lib.Text

/-!
# Regular expressions

Patterns without anchors, over any alphabet: classes, sequences, alternatives and greedy
repetitions of a class. `rems` lists what a match at the beginning of a text can leave, in
the order in which a leftmost-first engine prefers them; `scan` cuts a text into the
matches that such an engine finds one after the other and what stands between them.
-/

namespace Zeptoclaw

inductive Regex (α : Type*) where
  | empty
  | cls (p : α → Bool)
  | seq (r r' : Regex α)
  | alt (r r' : Regex α)
  -- a class, at least `min` and at most `max` times, as often as possible
  | rep (p : α → Bool) (min : ℕ) (max : Option ℕ)

namespace Regex

variable {α : Type*}

/-- What a greedy repetition can leave, the longest match first. -/
def repRems (p : α → Bool) : ℕ → Option ℕ → List α → List (List α)
  | min, _, [] => if min = 0 then [[]] else []
  | min, max, c :: s =>
    (if p c ∧ max ≠ some 0 then repRems p (min - 1) (max.map (· - 1)) s else []) ++
      if min = 0 then [c :: s] else []

/-- What a match at the beginning of the text can leave, in the order of preference. -/
def rems : Regex α → List α → List (List α)
  | .empty, s => [s]
  | .cls _, [] => []
  | .cls p, c :: s => if p c then [s] else []
  | .seq r r', s => (r.rems s).flatMap r'.rems
  | .alt r r', s => r.rems s ++ r'.rems s
  | .rep p min max, s => repRems p min max s

/-- A fixed text. -/
def lit [DecidableEq α] : List α → Regex α
  | [] => .empty
  | c :: s => .seq (.cls fun d => d = c) (lit s)

/-- The pattern describes the text as a whole. -/
def Matches (r : Regex α) (w : List α) : Prop := [] ∈ r.rems w

instance [DecidableEq α] (r : Regex α) (w : List α) : Decidable (r.Matches w) :=
  inferInstanceAs (Decidable ([] ∈ r.rems w))

/-- The pattern occurs in the text. -/
def Occurs (r : Regex α) (s : List α) : Prop := ∃ w, w <:+: s ∧ r.Matches w

/-- The length of the match at the beginning of the text. -/
def first (r : Regex α) (s : List α) : Option ℕ := (r.rems s).head?.map fun u => s.length - u.length

/-- A part of a scanned text. -/
inductive Piece (α : Type*) where
  | keep (c : α)
  | hit (m : List α)

/-- The scan; the first `skip` characters belong to the match before. An empty match is
passed over. -/
def scanFrom (r : Regex α) : ℕ → List α → List (Piece α)
  | _, [] => []
  | skip + 1, _ :: s => scanFrom r skip s
  | 0, c :: s =>
    match r.first (c :: s) with
    | some (n + 1) => .hit ((c :: s).take (n + 1)) :: scanFrom r n s
    | _ => .keep c :: scanFrom r 0 s

def scan (r : Regex α) (s : List α) : List (Piece α) := scanFrom r 0 s

def Piece.hit? : Piece α → Option (List α)
  | .keep _ => none
  | .hit m => some m

/-- The matches, one after the other. -/
def findIter (r : Regex α) (s : List α) : List (List α) := (r.scan s).filterMap Piece.hit?

/-- Every match replaced. -/
def replaceAll (r : Regex α) (f : List α → List α) (s : List α) : List α :=
  (r.scan s).flatMap fun
    | .keep c => [c]
    | .hit m => f m

/-! ## Matches -/

theorem repRems_append {p : α → Bool} : ∀ {s u : List α} {min : ℕ} {max : Option ℕ} (t : List α),
    u ∈ repRems p min max s → u ++ t ∈ repRems p min max (s ++ t) := by
  intro s
  induction s with
  | nil =>
    intro u min max t hu
    simp only [repRems] at hu
    split at hu
    · rename_i hmin
      obtain rfl := List.mem_singleton.mp hu
      cases t <;> simp [repRems, hmin]
    · cases hu
  | cons c s ih =>
    intro u min max t hu
    simp only [repRems, List.mem_append, List.cons_append] at hu ⊢
    obtain hu | hu := hu
    · split at hu
      · rename_i hc
        rw [if_pos hc]
        exact .inl (ih t hu)
      · cases hu
    · split at hu
      · rename_i hmin
        obtain rfl := List.mem_singleton.mp hu
        rw [if_pos hmin]
        exact .inr (List.mem_singleton_self _)
      · cases hu

/-- A match stays one if text is added behind. -/
theorem rems_append : ∀ {r : Regex α} {s u : List α} (t : List α), u ∈ r.rems s → u ++ t ∈ r.rems (s ++ t) := by
  intro r
  induction r with
  | empty =>
    intro s u t hu
    obtain rfl := List.mem_singleton.mp hu
    exact List.mem_singleton_self _
  | cls p =>
    intro s u t hu
    cases s with
    | nil => cases hu
    | cons c s =>
      simp only [rems, List.cons_append] at hu ⊢
      split at hu
      · rename_i hc
        obtain rfl := List.mem_singleton.mp hu
        rw [if_pos hc]
        exact List.mem_singleton_self _
      · cases hu
  | seq r r' ih ih' =>
    intro s u t hu
    obtain ⟨v, hv, hu⟩ := List.mem_flatMap.mp hu
    exact List.mem_flatMap.mpr ⟨v ++ t, ih t hv, ih' t hu⟩
  | alt r r' ih ih' =>
    intro s u t hu
    exact List.mem_append.mpr ((List.mem_append.mp hu).imp (ih t) (ih' t))
  | rep p min max => intro s u t hu; exact repRems_append t hu

theorem repRems_split {p : α → Bool} : ∀ {s u : List α} {min : ℕ} {max : Option ℕ}, u ∈ repRems p min max s →
    ∃ w, s = w ++ u ∧ [] ∈ repRems p min max w := by
  intro s
  induction s with
  | nil =>
    intro u min max hu
    have hu' := hu
    simp only [repRems] at hu'
    split at hu'
    · obtain rfl := List.mem_singleton.mp hu'
      exact ⟨[], rfl, hu⟩
    · cases hu'
  | cons c s ih =>
    intro u min max hu
    simp only [repRems, List.mem_append] at hu
    obtain hu | hu := hu
    · split at hu
      · rename_i hc
        obtain ⟨w, rfl, hw⟩ := ih hu
        refine ⟨c :: w, rfl, ?_⟩
        simp only [repRems, List.mem_append]
        rw [if_pos hc]
        exact .inl hw
      · cases hu
    · split at hu
      · rename_i hmin
        obtain rfl := List.mem_singleton.mp hu
        exact ⟨[], rfl, by simp [repRems, hmin]⟩
      · cases hu

/-- What is left stands behind a text that the pattern describes. -/
theorem rems_split : ∀ {r : Regex α} {s u : List α}, u ∈ r.rems s → ∃ w, s = w ++ u ∧ r.Matches w := by
  intro r
  induction r with
  | empty =>
    intro s u hu
    obtain rfl := List.mem_singleton.mp hu
    exact ⟨[], rfl, List.mem_singleton_self _⟩
  | cls p =>
    intro s u hu
    cases s with
    | nil => cases hu
    | cons c s =>
      simp only [rems] at hu
      split at hu
      · rename_i hc
        obtain rfl := List.mem_singleton.mp hu
        exact ⟨[c], rfl, by simp [Matches, rems, hc]⟩
      · cases hu
  | seq r r' ih ih' =>
    intro s u hu
    obtain ⟨v, hv, hu'⟩ := List.mem_flatMap.mp hu
    obtain ⟨w, rfl, hw⟩ := ih hv
    obtain ⟨w', rfl, hw'⟩ := ih' hu'
    refine ⟨w ++ w', (List.append_assoc w w' u).symm, ?_⟩
    exact List.mem_flatMap.mpr ⟨w', rems_append w' hw, hw'⟩
  | alt r r' ih ih' =>
    intro s u hu
    obtain hu | hu := List.mem_append.mp hu
    · obtain ⟨w, hs, hw⟩ := ih hu
      exact ⟨w, hs, List.mem_append_left _ hw⟩
    · obtain ⟨w, hs, hw⟩ := ih' hu
      exact ⟨w, hs, List.mem_append_right _ hw⟩
  | rep p min max => intro s u hu; exact repRems_split hu

theorem matches_cls {p : α → Bool} {w : List α} : (cls p).Matches w ↔ ∃ c, p c = true ∧ w = [c] := by
  unfold Matches
  cases w with
  | nil => simp [rems]
  | cons c w =>
    rw [rems]
    split
    · rename_i hc
      constructor
      · intro h
        obtain rfl := List.mem_singleton.mp h
        exact ⟨c, hc, rfl⟩
      · rintro ⟨d, -, h⟩
        obtain ⟨-, rfl⟩ := List.cons.inj h
        exact List.mem_singleton_self _
    · rename_i hc
      simp only [List.not_mem_nil, List.cons.injEq, false_iff]
      rintro ⟨d, hd, rfl, -⟩
      exact hc hd

theorem matches_seq {r r' : Regex α} {w : List α} :
    (seq r r').Matches w ↔ ∃ u v, w = u ++ v ∧ r.Matches u ∧ r'.Matches v := by
  unfold Matches
  rw [rems, List.mem_flatMap]
  constructor
  · rintro ⟨v, hv, hrest⟩
    obtain ⟨u, hsplit, hu⟩ := rems_split hv
    exact ⟨u, v, hsplit, hu, hrest⟩
  · rintro ⟨u, v, rfl, hu, hv⟩
    exact ⟨v, rems_append v hu, hv⟩

theorem matches_alt {r r' : Regex α} {w : List α} : (alt r r').Matches w ↔ r.Matches w ∨ r'.Matches w := List.mem_append

theorem first_eq_some {r : Regex α} {s : List α} {n : ℕ} (h : r.first s = some n) :
    n ≤ s.length ∧ r.Matches (s.take n) := by
  obtain ⟨u, hu, rfl⟩ := Option.map_eq_some_iff.mp h
  obtain ⟨w, rfl, hw⟩ := rems_split (List.mem_of_mem_head? hu)
  have hlen : (w ++ u).length - u.length = w.length := by
    rw [List.length_append]
    omega
  rw [hlen, List.take_left]
  exact ⟨by simp, hw⟩

/-- There is a match at the beginning exactly if a text that the pattern describes stands there. -/
theorem first_isSome {r : Regex α} {s : List α} : (r.first s).isSome ↔ ∃ w, w <+: s ∧ r.Matches w := by
  constructor
  · intro h
    obtain ⟨n, hn⟩ := Option.isSome_iff_exists.mp h
    exact ⟨s.take n, List.take_prefix n s, (first_eq_some hn).2⟩
  · rintro ⟨w, ⟨t, rfl⟩, hw⟩
    have hmem : [] ++ t ∈ r.rems (w ++ t) := rems_append t hw
    have hne : r.rems (w ++ t) ≠ [] := List.ne_nil_of_mem hmem
    rw [first, Option.isSome_map]
    exact List.isSome_head?.mpr hne

/-! ## Scanning -/

theorem scanFrom_skip (r : Regex α) : ∀ (n : ℕ) (s : List α), scanFrom r n s = scan r (s.drop n) := by
  intro n
  induction n with
  | zero => intro s; rfl
  | succ n ih =>
    intro s
    cases s with
    | nil => rfl
    | cons c s => exact ih s

theorem scan_hit {r : Regex α} {s : List α} {n : ℕ} (h : r.first s = some (n + 1)) :
    scan r s = .hit (s.take (n + 1)) :: scan r (s.drop (n + 1)) := by
  cases s with
  | nil =>
    have := (first_eq_some h).1
    simp at this
  | cons c s =>
    rw [scan, scanFrom, h]
    exact congrArg _ (scanFrom_skip r n s)

theorem scan_keep {r : Regex α} {c : α} {s : List α} (h : ∀ n, r.first (c :: s) ≠ some (n + 1)) :
    scan r (c :: s) = .keep c :: scan r s := by
  rw [scan, scanFrom]
  split
  · rename_i n hn
    exact absurd hn (h n)
  · rfl

/-- Induction along a scan: a character is kept, or a match is found. -/
theorem scan_induction (r : Regex α) {motive : List α → Prop} (nil : motive [])
    (keep : ∀ c s, (∀ n, r.first (c :: s) ≠ some (n + 1)) → motive s → motive (c :: s))
    (hit : ∀ s n, r.first s = some (n + 1) → motive (s.drop (n + 1)) → motive s) (s : List α) : motive s := by
  induction hlen : s.length using Nat.strong_induction_on generalizing s with
  | _ len ih =>
    cases s with
    | nil => exact nil
    | cons c s =>
      by_cases hfirst : ∃ n, r.first (c :: s) = some (n + 1)
      · obtain ⟨n, hn⟩ := hfirst
        refine hit (c :: s) n hn (ih _ ?_ _ rfl)
        rw [← hlen, List.length_drop, List.length_cons]
        omega
      · refine keep c s (fun n hn => hfirst ⟨n, hn⟩) (ih _ ?_ _ rfl)
        rw [← hlen, List.length_cons]
        omega

theorem replaceAll_hit {r : Regex α} {f : List α → List α} {s : List α} {n : ℕ} (h : r.first s = some (n + 1)) :
    r.replaceAll f s = f (s.take (n + 1)) ++ r.replaceAll f (s.drop (n + 1)) := by
  rw [replaceAll, scan_hit h, List.flatMap_cons]
  rfl

theorem replaceAll_keep {r : Regex α} {f : List α → List α} {c : α} {s : List α}
    (h : ∀ n, r.first (c :: s) ≠ some (n + 1)) : r.replaceAll f (c :: s) = c :: r.replaceAll f s := by
  rw [replaceAll, scan_keep h, List.flatMap_cons]
  rfl

/-- Where the pattern does not occur, nothing is replaced. -/
theorem replaceAll_eq_self {r : Regex α} (f : List α → List α) (s : List α) (h : ¬ r.Occurs s) :
    r.replaceAll f s = s := by
  induction s using scan_induction r with
  | nil => rfl
  | keep c s hfirst ih =>
    rw [replaceAll_keep hfirst, ih fun ⟨w, hw, hm⟩ => h ⟨w, List.infix_cons hw, hm⟩]
  | hit s n hn _ =>
    exact absurd ⟨s.take (n + 1), (List.take_prefix _ s).isInfix, (first_eq_some hn).2⟩ h

/-- A scan finds a match at the beginning, or keeps the first character. -/
theorem scan_cons (r : Regex α) (c : α) (s : List α) :
    (∃ n, r.first (c :: s) = some (n + 1) ∧
      r.scan (c :: s) = .hit ((c :: s).take (n + 1)) :: r.scan ((c :: s).drop (n + 1))) ∨
    r.scan (c :: s) = .keep c :: r.scan s := by
  by_cases hfirst : ∃ n, r.first (c :: s) = some (n + 1)
  · obtain ⟨n, hn⟩ := hfirst
    exact .inl ⟨n, hn, scan_hit hn⟩
  · exact .inr (scan_keep fun n hn => hfirst ⟨n, hn⟩)

/-- A scan that begins with a kept character. -/
theorem scan_eq_keep {r : Regex α} {s : List α} {c : α} {rest : List (Piece α)} (h : r.scan s = .keep c :: rest) :
    ∃ t, s = c :: t ∧ r.scan t = rest := by
  cases s with
  | nil => cases h
  | cons d s =>
    obtain ⟨n, -, hscan⟩ | hscan := scan_cons r d s
    · rw [hscan] at h
      cases h
    · rw [hscan] at h
      obtain ⟨hc, hrest⟩ := List.cons.inj h
      obtain rfl := Piece.keep.inj hc
      exact ⟨s, rfl, hrest⟩

/-- A scan that begins with a match. -/
theorem scan_eq_hit {r : Regex α} {s m : List α} {rest : List (Piece α)} (h : r.scan s = .hit m :: rest) :
    ∃ v, s = m ++ v ∧ r.first (m ++ v) = some m.length ∧ r.scan v = rest := by
  cases s with
  | nil => cases h
  | cons d s =>
    obtain ⟨n, hn, hscan⟩ | hscan := scan_cons r d s
    · rw [hscan] at h
      obtain ⟨hm, hrest⟩ := List.cons.inj h
      obtain rfl := Piece.hit.inj hm
      have hlen : ((d :: s).take (n + 1)).length = n + 1 := by
        rw [List.length_take]
        have := (first_eq_some hn).1
        omega
      refine ⟨(d :: s).drop (n + 1), (List.take_append_drop _ _).symm, ?_, hrest⟩
      rw [List.take_append_drop, hlen]
      exact hn
    · rw [hscan] at h
      cases h

/-- Characters that a scan keeps stand at the beginning of the text. -/
theorem scan_eq_keeps {r : Regex α} : ∀ {u s : List α} {rest : List (Piece α)}, r.scan s = u.map .keep ++ rest →
    ∃ t, s = u ++ t ∧ r.scan t = rest := by
  intro u
  induction u with
  | nil => intro s rest h; exact ⟨s, rfl, h⟩
  | cons c u ih =>
    intro s rest h
    obtain ⟨t, rfl, ht⟩ := scan_eq_keep h
    obtain ⟨t', rfl, ht'⟩ := ih ht
    exact ⟨t', rfl, ht'⟩

/-- The text of a scan that finds one match. -/
theorem scan_eq_single {r : Regex α} {s u m v : List α} (h : r.scan s = u.map .keep ++ .hit m :: v.map .keep) :
    s = u ++ (m ++ v) ∧ r.first (m ++ v) = some m.length := by
  obtain ⟨t, rfl, ht⟩ := scan_eq_keeps h
  obtain ⟨t', rfl, hm, ht'⟩ := scan_eq_hit ht
  rw [← List.append_nil (v.map Piece.keep)] at ht'
  obtain ⟨e, rfl, he⟩ := scan_eq_keeps ht'
  have hnil : e = [] := by
    cases e with
    | nil => rfl
    | cons c e =>
      obtain ⟨n, -, hscan⟩ | hscan := scan_cons r c e
      · rw [hscan] at he
        cases he
      · rw [hscan] at he
        cases he
  rw [hnil, List.append_nil] at hm ⊢
  exact ⟨rfl, hm⟩

/-! ## Masking -/

/-- Of a match only its ends are kept, at most `k` characters each, with marks between them. -/
structure Masks (mark : α) (k : ℕ) (f : List α → List α) : Prop where
  cut : ∀ m, ∃ front marks back, f m = front ++ mark :: (marks ++ back) ∧ (∀ c ∈ marks, c = mark) ∧
    front <+: m ∧ front.length ≤ k ∧ back <:+ m ∧ back.length ≤ k

variable {r r' : Regex α} {mark : α} {k : ℕ} {f : List α → List α}

/-- No text that the pattern describes has the mark. -/
def Avoids (r : Regex α) (mark : α) : Prop := ∀ w, r.Matches w → mark ∉ w

/-- Every text that the pattern describes is longer than `k`. -/
def LongerThan (r : Regex α) (k : ℕ) : Prop := ∀ w, r.Matches w → k < w.length

/-- No match begins within the last `k` characters of the match at any place. -/
def Separated (r : Regex α) (k : ℕ) (s : List α) : Prop :=
  ∀ t, t <:+ s → ∀ n, r.first t = some n → ∀ j, 0 < j → j ≤ k → r.first (t.drop (n - j)) = none

/-- The match at the beginning is decided by the text up to the character behind it. -/
def Local (r : Regex α) : Prop :=
  ∀ x v v' n, r.first (x ++ v) = some n → n < x.length → r.first (x ++ v') = some n

theorem infix_marks {w rest : List α} (hw : mark ∉ w) {marks : List α} (hmarks : ∀ c ∈ marks, c = mark)
    (h : w <:+: marks ++ rest) : w <:+: rest := by
  induction marks with
  | nil => exact h
  | cons c marks ih =>
    have hc : c = mark := hmarks c List.mem_cons_self
    rw [hc, List.cons_append] at h
    obtain hleft | hright := Text.infix_side (l := []) hw h
    · rw [List.infix_nil.mp hleft]
      exact List.nil_infix
    · exact ih (fun d hd => hmarks d (List.mem_cons_of_mem c hd)) hright

theorem infix_cut {w front marks back rest : List α} (hw : mark ∉ w) (hmarks : ∀ c ∈ marks, c = mark)
    (h : w <:+: front ++ mark :: (marks ++ back) ++ rest) : w <:+: front ∨ w <:+: back ++ rest := by
  rw [List.append_assoc, List.cons_append, List.append_assoc] at h
  exact (Text.infix_side hw h).imp_right (infix_marks hw hmarks)

/-- What of a masked text begins it without a mark began the text. -/
theorem prefix_replaceAll (hf : Masks mark k f) (s : List α) {w : List α} (hw : mark ∉ w)
    (h : w <+: r.replaceAll f s) : w <+: s := by
  induction s using scan_induction r generalizing w with
  | nil => exact h
  | keep c s hfirst ih =>
    rw [replaceAll_keep hfirst] at h
    cases w with
    | nil => exact List.nil_prefix
    | cons d w =>
      obtain ⟨rfl, h'⟩ := List.cons_prefix_cons.mp h
      exact List.cons_prefix_cons.mpr ⟨rfl, ih (fun hmem => hw (List.mem_cons_of_mem d hmem)) h'⟩
  | hit s n hn _ =>
    rw [replaceAll_hit hn] at h
    obtain ⟨front, marks, back, hcut, -, hfront, -, -, -⟩ := hf.cut (s.take (n + 1))
    rw [hcut, List.append_assoc] at h
    exact ((Text.prefix_side hw h).trans hfront).trans (List.take_prefix _ s)

theorem infix_keep_cases (hf : Masks mark k f) {c : α} {s w : List α} (hfirst : ∀ n, r.first (c :: s) ≠ some (n + 1))
    (hw : mark ∉ w) (h : w <:+: r.replaceAll f (c :: s)) : w <+: c :: s ∨ w <:+: r.replaceAll f s := by
  rw [replaceAll_keep hfirst] at h
  obtain hpre | hin := List.infix_cons_iff.mp h
  · rw [← replaceAll_keep hfirst] at hpre
    exact .inl (prefix_replaceAll hf _ hw hpre)
  · exact .inr hin

/-- What stands in a masked text that begins with a match: in an end of the match, in the
masked rest, or across the end of the match, where both sides are as they were. -/
theorem infix_hit_cases (hf : Masks mark k f) {s w : List α} {n : ℕ} (hn : r.first s = some (n + 1)) (hw : mark ∉ w)
    (h : w <:+: r.replaceAll f s) :
    (w <:+: s ∧ w.length ≤ k) ∨ w <:+: r.replaceAll f (s.drop (n + 1)) ∨
      ∃ t u, w = t ++ u ∧ t ≠ [] ∧ t.length ≤ k ∧ t <:+ s.take (n + 1) ∧ u <+: s.drop (n + 1) := by
  rw [replaceAll_hit hn] at h
  obtain ⟨front, marks, back, hcut, hmarks, hfront, hk, hback, hk'⟩ := hf.cut (s.take (n + 1))
  have hm : s.take (n + 1) <:+: s := (List.take_prefix _ s).isInfix
  rw [hcut] at h
  obtain h | h := infix_cut hw hmarks h
  · exact .inl ⟨(h.trans hfront.isInfix).trans hm, h.length_le.trans hk⟩
  obtain h | h | ⟨t, u, rfl, ht, hu⟩ := List.infix_append_iff.mp h
  · exact .inl ⟨(h.trans hback.isInfix).trans hm, h.length_le.trans hk'⟩
  · exact .inr (.inl h)
  · by_cases hnil : t = []
    · subst hnil
      exact .inr (.inl hu.isInfix)
    · have hu' : u <+: s.drop (n + 1) := prefix_replaceAll hf _ (fun hmem => hw (List.mem_append_right t hmem)) hu
      exact .inr (.inr ⟨t, u, rfl, hnil, ht.length_le.trans hk', ht.trans hback, hu'⟩)

/-- What stands in a masked text without a mark stood in the text. -/
theorem infix_replaceAll (hf : Masks mark k f) (s : List α) {w : List α} (hw : mark ∉ w)
    (h : w <:+: r.replaceAll f s) : w <:+: s := by
  induction s using scan_induction r with
  | nil => exact h
  | keep c s hfirst ih =>
    obtain hpre | hin := infix_keep_cases hf hfirst hw h
    · exact hpre.isInfix
    · exact List.infix_cons (ih hin)
  | hit s n hn ih =>
    obtain ⟨hin, -⟩ | hin | ⟨t, u, rfl, -, -, ⟨x, hx⟩, y, hy⟩ := infix_hit_cases hf hn hw h
    · exact hin
    · exact (ih hin).trans (List.drop_suffix _ s).isInfix
    · refine ⟨x, y, ?_⟩
      rw [← List.take_append_drop (n + 1) s, ← hx, ← hy]
      simp

/-- Masking makes no pattern occur. -/
theorem occurs_of_replaceAll (hf : Masks mark k f) (hr' : r'.Avoids mark) {s : List α}
    (h : r'.Occurs (r.replaceAll f s)) : r'.Occurs s := by
  obtain ⟨w, hw, hm⟩ := h
  exact ⟨w, infix_replaceAll hf s (hr' w hm) hw, hm⟩

theorem Separated.suffix {s t : List α} (h : r.Separated k s) (ht : t <:+ s) : r.Separated k t :=
  fun u hu => h u (hu.trans ht)

theorem drop_of_suffix {s t : List α} {n : ℕ} (hn : n ≤ s.length) (ht : t <:+ s.take n) :
    s.drop (n - t.length) = t ++ s.drop n := by
  obtain ⟨x, hx⟩ := ht
  have hlen : x.length + t.length = n := by
    rw [← List.length_append, hx, List.length_take]
    omega
  have hn' : n - t.length = x.length := by omega
  conv_lhs => rw [hn', ← List.take_append_drop n s, ← hx, List.append_assoc]
  exact List.drop_left

/-- **Masking removes a pattern whose occurrences are separated.** -/
theorem not_occurs_replaceAll (hf : Masks mark k f) (havoid : r.Avoids mark) (hlong : r.LongerThan k) (s : List α)
    (hs : r.Separated k s) : ¬ r.Occurs (r.replaceAll f s) := by
  rintro ⟨w, hw, hm⟩
  have hmark := havoid w hm
  have hlen := hlong w hm
  induction s using scan_induction r with
  | nil =>
    obtain rfl := List.infix_nil.mp hw
    simp at hlen
  | keep c s hfirst ih =>
    obtain hpre | hin := infix_keep_cases hf hfirst hmark hw
    · obtain ⟨n, hn⟩ := Option.isSome_iff_exists.mp (first_isSome.mpr ⟨w, hpre, hm⟩)
      cases n with
      | zero =>
        have := hlong _ (first_eq_some hn).2
        simp at this
      | succ n => exact hfirst n hn
    · exact ih (hs.suffix (List.suffix_cons c s)) hin
  | hit s n hn ih =>
    obtain ⟨-, hshort⟩ | hin | ⟨t, u, rfl, hnil, hk, ht, hu⟩ := infix_hit_cases hf hn hmark hw
    · omega
    · exact ih (hs.suffix (List.drop_suffix _ s)) hin
    · -- the match begins within what was kept of the end of the one before
      have hnone := hs s List.suffix_rfl (n + 1) hn t.length (List.length_pos_of_ne_nil hnil) hk
      have hsome : (r.first (s.drop (n + 1 - t.length))).isSome := by
        rw [drop_of_suffix (first_eq_some hn).1 ht]
        exact first_isSome.mpr ⟨t ++ u, (List.prefix_append_right_inj t).mpr hu, hm⟩
      rw [hnone] at hsome
      cases hsome

/-- **Masking keeps occurrences separated.** -/
theorem Separated.replaceAll (hf : Masks mark k f) (havoid : r'.Avoids mark) (hlong : r'.LongerThan k)
    (hlocal : r'.Local) {s : List α} (hs : r'.Separated k s) : r'.Separated k (r.replaceAll f s) := by
  intro t ht n hn j hj hjk
  by_contra hne
  obtain ⟨len, hlen⟩ := Option.ne_none_iff_exists'.mp hne
  obtain ⟨hnt, hm⟩ := first_eq_some hn
  obtain ⟨hlent, hm'⟩ := first_eq_some hlen
  have hn' := hlong _ hm
  have hlen' := hlong _ hm'
  rw [List.length_take] at hn' hlen'
  rw [List.length_drop] at hlent hlen'
  -- both matches together stand in the text before it was masked
  set x := t.take (n - j + len) with hx
  have hsplit : x = t.take (n - j) ++ (t.drop (n - j)).take len := List.take_add
  have hmark : mark ∉ x := by
    rw [hsplit, List.mem_append, not_or]
    refine ⟨fun hmem => havoid _ hm ?_, havoid _ hm'⟩
    exact List.take_subset_take_left t (Nat.sub_le n j) hmem
  have hxlen : x.length = n - j + len := by
    rw [hx, List.length_take]
    omega
  obtain ⟨u, v, huv⟩ := infix_replaceAll hf s hmark ((List.take_prefix _ t).isInfix.trans ht.isInfix)
  have hfirst : r'.first (x ++ v) = some n := by
    refine hlocal x (t.drop (n - j + len)) v n ?_ (by omega)
    rw [hx, List.take_append_drop]
    exact hn
  have hnone := hs (x ++ v) ⟨u, by rw [← huv, List.append_assoc]⟩ n hfirst j hj hjk
  have hsome : (r'.first ((x ++ v).drop (n - j))).isSome := by
    have hdrop : (x ++ v).drop (n - j) = (t.drop (n - j)).take len ++ v := by
      rw [hsplit, List.append_assoc]
      exact List.drop_left' (by rw [List.length_take]; omega)
    rw [hdrop]
    exact first_isSome.mpr ⟨_, List.prefix_append _ v, hm'⟩
  rw [hnone] at hsome
  cases hsome

/-! ## A fixed text and then a class -/

section Repetition

variable {p : α → Bool}

theorem repRems_whole {w : List α} : ∀ {min : ℕ} {max : Option ℕ}, [] ∈ repRems p min max w →
    min ≤ w.length ∧ ∀ c ∈ w, p c := by
  induction w with
  | nil =>
    intro min max h
    simp only [repRems] at h
    split at h
    · rename_i hmin
      exact ⟨by rw [hmin]; exact Nat.zero_le _, fun c hc => nomatch hc⟩
    · cases h
  | cons c w ih =>
    intro min max h
    simp only [repRems, List.mem_append] at h
    obtain h | h := h
    · split at h
      · rename_i hc
        obtain ⟨hlen, hall⟩ := ih h
        refine ⟨by rw [List.length_cons]; omega, ?_⟩
        intro d hd
        obtain rfl | hd := List.mem_cons.mp hd
        · exact hc.1
        · exact hall d hd
      · cases h
    · split at h
      · simp at h
      · cases h

theorem self_mem_repRems (max : Option ℕ) (s : List α) : s ∈ repRems p 0 max s := by
  cases s <;> simp [repRems]

/-- A repetition that can go on does. -/
theorem head_repRems_cons {c : α} {s u : List α} {min : ℕ} {max : Option ℕ} (hc : p c ∧ max ≠ some 0) :
    (repRems p min max (c :: s)).head? = some u ↔ (repRems p (min - 1) (max.map (· - 1)) s).head? = some u := by
  rw [repRems, if_pos hc, List.head?_append]
  cases hmore : (repRems p (min - 1) (max.map (· - 1)) s).head? with
  | some w => rw [Option.some_or]
  | none =>
    -- nothing is left only if more repetitions are needed, and then there is no match
    have hmin : min ≠ 0 := by
      rintro rfl
      have hself := self_mem_repRems (p := p) (max.map (· - 1)) s
      rw [List.head?_eq_none_iff.mp hmore] at hself
      cases hself
    rw [if_neg hmin]
    rfl

theorem head_repRems_stop {c : α} {s u : List α} {min : ℕ} {max : Option ℕ} (hc : ¬ (p c ∧ max ≠ some 0)) :
    (repRems p min max (c :: s)).head? = some u ↔ min = 0 ∧ c :: s = u := by
  rw [repRems, if_neg hc, List.nil_append]
  by_cases hmin : min = 0
  · rw [if_pos hmin, List.head?_cons, Option.some_inj]
    exact ⟨fun h => ⟨hmin, h⟩, fun h => h.2⟩
  · rw [if_neg hmin]
    exact ⟨fun h => (nomatch h), fun h => absurd h.1 hmin⟩

/-- Whether a greedy repetition stops inside a text does not depend on what follows. -/
theorem repRems_local (v v' : List α) : ∀ {x u : List α} {min : ℕ} {max : Option ℕ},
    (repRems p min max (x ++ v)).head? = some u → v.length < u.length →
    ∃ y, u = y ++ v ∧ (repRems p min max (x ++ v')).head? = some (y ++ v') := by
  intro x
  induction x with
  | nil =>
    intro u min max h hlen
    obtain ⟨w, hw, -⟩ := repRems_split (List.mem_of_mem_head? h)
    have hle := congrArg List.length hw
    simp only [List.nil_append, List.length_append] at hle
    omega
  | cons c x ih =>
    intro u min max h hlen
    rw [List.cons_append] at h ⊢
    by_cases hc : p c ∧ max ≠ some 0
    · obtain ⟨y, hy, hhead⟩ := ih ((head_repRems_cons hc).mp h) hlen
      exact ⟨y, hy, (head_repRems_cons hc).mpr hhead⟩
    · obtain ⟨hmin, rfl⟩ := (head_repRems_stop hc).mp h
      exact ⟨c :: x, rfl, (head_repRems_stop hc).mpr ⟨hmin, rfl⟩⟩

/-- A greedy repetition without a bound ends where the class does. -/
theorem repRems_maximal {s : List α} : ∀ {u : List α} {min : ℕ}, (repRems p min none s).head? = some u →
    ∀ c ∈ u.head?, p c = false := by
  induction s with
  | nil =>
    intro u min h c hc
    simp only [repRems] at h
    split at h
    · obtain rfl := Option.some.inj h
      cases hc
    · cases h
  | cons d s ih =>
    intro u min h c hc
    by_cases hd : p d ∧ (none : Option ℕ) ≠ some 0
    · exact ih ((head_repRems_cons hd).mp h) c hc
    · obtain ⟨-, rfl⟩ := (head_repRems_stop hd).mp h
      obtain rfl : d = c := Option.some.inj hc
      simpa using hd

end Repetition

section Prefixed

variable [DecidableEq α] {start : List α} {p : α → Bool} {min : ℕ} {max : Option ℕ}

/-- A fixed text and a greedy repetition behind it. -/
def prefixed (start : List α) (p : α → Bool) (min : ℕ) (max : Option ℕ) : Regex α := .seq (lit start) (.rep p min max)

theorem rems_lit : ∀ (start s : List α), (lit start).rems s = if start <+: s then [s.drop start.length] else [] := by
  intro start
  induction start with
  | nil => intro s; simp [lit, rems]
  | cons c start ih =>
    intro s
    cases s with
    | nil => simp [lit, rems]
    | cons d s =>
      by_cases hd : d = c
      · subst hd
        simp [lit, rems, ih]
      · simp [lit, rems, hd, Ne.symm hd]

theorem rems_prefixed (s : List α) : (prefixed start p min max).rems s =
    if start <+: s then repRems p min max (s.drop start.length) else [] := by
  show ((lit start).rems s).flatMap _ = _
  rw [rems_lit]
  split
  · exact List.flatMap_singleton _ _
  · rfl

theorem prefixed_whole {w : List α} (h : (prefixed start p min max).Matches w) :
    ∃ t, w = start ++ t ∧ min ≤ t.length ∧ ∀ c ∈ t, p c := by
  unfold Matches at h
  rw [rems_prefixed] at h
  split at h
  · rename_i hstart
    obtain ⟨t, rfl⟩ := hstart
    rw [List.drop_left] at h
    exact ⟨t, rfl, repRems_whole h⟩
  · cases h

theorem prefixed_avoids {mark : α} (hstart : mark ∉ start) (hp : p mark = false) :
    (prefixed start p min max).Avoids mark := by
  intro w hw hmem
  obtain ⟨t, rfl, -, hall⟩ := prefixed_whole hw
  obtain hmem | hmem := List.mem_append.mp hmem
  · exact hstart hmem
  · have := hall mark hmem
    rw [hp] at this
    cases this

theorem prefixed_longerThan {k : ℕ} (h : k < start.length + min) : (prefixed start p min max).LongerThan k := by
  intro w hw
  obtain ⟨t, rfl, hlen, -⟩ := prefixed_whole hw
  rw [List.length_append]
  omega

/-- The match is decided by the text up to the character behind it. -/
theorem prefixed_local : (prefixed start p min max).Local := by
  intro x v v' n hn hlt
  obtain ⟨u, hu, hlen⟩ := Option.map_eq_some_iff.mp hn
  rw [rems_prefixed] at hu
  split at hu
  · rename_i hstart
    obtain ⟨w, hw, -⟩ := repRems_split (List.mem_of_mem_head? hu)
    have hrest := congrArg List.length hw
    rw [List.length_append, List.length_drop, List.length_append] at hrest
    rw [List.length_append] at hlen
    have hle := hstart.length_le
    rw [List.length_append] at hle
    -- the fixed text stands in `x`
    obtain ⟨x', rfl⟩ := List.prefix_of_prefix_length_le hstart (List.prefix_append x v) (by omega)
    rw [List.append_assoc, List.drop_left] at hu
    obtain ⟨y, rfl, hhead⟩ := repRems_local v v' hu (by omega)
    rw [first, rems_prefixed, if_pos (List.append_assoc start x' v' ▸ List.prefix_append start _), List.append_assoc,
      List.drop_left, hhead, Option.map_some]
    simp only [List.length_append] at hlen ⊢
    congr 1
    omega
  · cases hu

/-- A pattern whose fixed text is of its class is always separated: its matches cannot be
followed by one that begins in them. -/
theorem prefixed_separated {k : ℕ} (hstart : ∀ c ∈ start, p c) (hlen : k < start.length + min) (s : List α) :
    (prefixed start p min none).Separated k s := by
  intro t _ n hn j _ hjk
  by_contra hne
  obtain ⟨len, hlen'⟩ := Option.ne_none_iff_exists'.mp hne
  obtain ⟨u, hu, hun⟩ := Option.map_eq_some_iff.mp hn
  obtain ⟨hlt, hm⟩ := first_eq_some hlen'
  have hlong := prefixed_longerThan hlen _ hm
  rw [List.length_take] at hlong
  rw [List.length_drop] at hlt hlong
  have hmax : ∀ c ∈ u.head?, p c = false := by
    rw [rems_prefixed] at hu
    split at hu
    · exact repRems_maximal hu
    · cases hu
  obtain ⟨w, rfl, hw⟩ := rems_split (List.mem_of_mem_head? hu)
  have hwlen := prefixed_longerThan hlen _ hw
  rw [List.length_append] at hun hlt hlong
  cases u with
  | nil =>
    rw [List.length_nil] at hun hlt
    omega
  | cons c u =>
    -- the character behind the first match is in the second one
    have hc : c ∈ ((w ++ c :: u).drop (n - j)).take len := by
      have hdrop : (w ++ c :: u).drop (n - j) = w.drop (n - j) ++ c :: u :=
        List.drop_append_of_le_length (by omega)
      rw [hdrop, List.take_append, List.mem_append]
      right
      obtain ⟨d, hd⟩ : ∃ d, len - (w.drop (n - j)).length = d + 1 := by
        rw [List.length_drop]
        exact ⟨len - (w.length - (n - j)) - 1, by omega⟩
      rw [hd, List.take_succ_cons]
      exact List.mem_cons_self
    obtain ⟨t, ht, -, hall⟩ := prefixed_whole hm
    rw [ht] at hc
    have htrue : p c = true := (List.mem_append.mp hc).elim (hstart c) (hall c)
    rw [hmax c rfl] at htrue
    cases htrue

end Prefixed

end Regex

end Zeptoclaw

import Zeptoclaw.Lib.Regex

/-!
# Marking the matches of patterns in turn

Each pattern is searched in the text that the patterns before it have left, and each of its matches is put between a
start and a stop mark. A mark inside an occurrence of a later pattern hides it. `occurs_markAll_iff` says which patterns
are still found: those with an occurrence in the original text into which no occurrence of an earlier pattern reaches
with one of its ends. The patterns have to be clear of the marks, and ordered such that an occurrence that is not
marked itself leaves its place to one that is (`Orderly`).
-/

namespace Zeptoclaw.Regex

variable {α : Type*} {r r' : Regex α} {s t w : List α} {a b c d n g : ℕ}

/-! ## Occurrences by place -/

/-- A text that the pattern describes stands from `a` to `b`. -/
def OccursAt (r : Regex α) (s : List α) (a b : ℕ) : Prop := ∃ w, r.Matches w ∧ w <+: s.drop a ∧ b = a + w.length

/-- The first stretch begins or ends inside the second. -/
def Cuts (c d a b : ℕ) : Prop := (a < c ∧ c < b) ∨ (a < d ∧ d < b)

theorem occurs_iff_occursAt : r.Occurs s ↔ ∃ a b, r.OccursAt s a b := by
  constructor
  · rintro ⟨w, ⟨front, back, rfl⟩, hw⟩
    refine ⟨front.length, front.length + w.length, w, hw, ?_, rfl⟩
    rw [List.append_assoc, List.drop_left]
    exact List.prefix_append w back
  · rintro ⟨a, b, w, hw, hpre, -⟩
    exact ⟨w, hpre.isInfix.trans (List.drop_suffix a s).isInfix, hw⟩

/-- Whether the pattern occurs in the text. -/
def isMatch (r : Regex α) (s : List α) : Bool := s.tails.any fun t => (r.first t).isSome

theorem isMatch_iff : r.isMatch s = true ↔ r.Occurs s := by
  unfold isMatch Occurs
  rw [List.any_eq_true]
  constructor
  · rintro ⟨t, ht, hfirst⟩
    obtain ⟨w, hpre, hw⟩ := first_isSome.mp hfirst
    exact ⟨w, hpre.isInfix.trans ((List.mem_tails t s).mp ht).isInfix, hw⟩
  · rintro ⟨w, hinfix, hw⟩
    obtain ⟨t, hpre, ht⟩ := List.infix_iff_prefix_suffix.mp hinfix
    exact ⟨t, (List.mem_tails t s).mpr ht, first_isSome.mpr ⟨w, hpre, hw⟩⟩

/-- The pattern does not describe the empty text. -/
def Proper (r : Regex α) : Prop := ¬ r.Matches []

theorem Proper.first_eq_none (hr : r.Proper) (h : ∀ n, r.first s ≠ some (n + 1)) : ∀ w, r.Matches w → ¬ w <+: s := by
  intro w hw hpre
  obtain ⟨n, hn⟩ := Option.isSome_iff_exists.mp (first_isSome.mpr ⟨w, hpre, hw⟩)
  cases n with
  | zero => exact hr (first_eq_some hn).2
  | succ n => exact h n hn

/-- Text in which no match begins is kept. -/
theorem scan_front : ∀ (u : List α), (∀ v, v ≠ [] → v <:+ u → ∀ w, r.Matches w → ¬ w <+: v ++ s) →
    r.scan (u ++ s) = u.map .keep ++ r.scan s := by
  intro u
  induction u with
  | nil => intro _; rfl
  | cons c u ih =>
    intro h
    have hfirst : ∀ n, r.first (c :: (u ++ s)) ≠ some (n + 1) := by
      intro n hn
      obtain ⟨w, hpre, hw⟩ := first_isSome.mp (Option.isSome_iff_exists.mpr ⟨n + 1, hn⟩)
      exact h (c :: u) (List.cons_ne_nil c u) List.suffix_rfl w hw hpre
    rw [List.cons_append, scan_keep hfirst, ih fun v hv hsuf => h v hv (hsuf.trans (List.suffix_cons c u))]
    rfl

theorem replaceAll_front {f : List α → List α} {u : List α} (h : r.scan (u ++ s) = u.map .keep ++ r.scan s) :
    r.replaceAll f (u ++ s) = u ++ r.replaceAll f s := by
  unfold replaceAll
  rw [h, List.flatMap_append, List.flatMap_map]
  simp

theorem findIter_front {u : List α} (h : r.scan (u ++ s) = u.map .keep ++ r.scan s) :
    r.findIter (u ++ s) = r.findIter s := by
  unfold findIter
  rw [h, List.filterMap_append, List.filterMap_map]
  simp [Function.comp_def, Piece.hit?]

theorem findIter_hit (h : r.first s = some (n + 1)) : r.findIter s = s.take (n + 1) :: r.findIter (s.drop (n + 1)) := by
  unfold findIter
  rw [scan_hit h]
  rfl

theorem findIter_keep {c : α} (h : ∀ n, r.first (c :: s) ≠ some (n + 1)) : r.findIter (c :: s) = r.findIter s := by
  unfold findIter
  rw [scan_keep h]
  rfl

theorem findIter_eq_nil (h : ¬ r.Occurs s) : r.findIter s = [] := by
  induction s using scan_induction r with
  | nil => rfl
  | keep c s hfirst ih => rw [findIter_keep hfirst, ih fun ⟨w, hw, hm⟩ => h ⟨w, List.infix_cons hw, hm⟩]
  | hit s n hn _ => exact absurd ⟨s.take (n + 1), (List.take_prefix _ s).isInfix, (first_eq_some hn).2⟩ h

theorem findIter_ne_nil_iff (hr : r.Proper) : r.findIter s ≠ [] ↔ r.Occurs s := by
  refine ⟨fun hne => by_contra fun h => hne (findIter_eq_nil h), ?_⟩
  rintro ⟨w, hinfix, hw⟩
  induction s using scan_induction r with
  | nil =>
    rw [List.infix_nil.mp hinfix] at hw
    exact absurd hw hr
  | keep c s hfirst ih =>
    rw [findIter_keep hfirst]
    rcases List.infix_cons_iff.mp hinfix with hpre | hinfix
    · exact absurd hpre (hr.first_eq_none hfirst w hw)
    · exact ih hinfix
  | hit s n hn _ =>
    rw [findIter_hit hn]
    exact List.cons_ne_nil _ _

/-! ## Marks -/

structure Marker (α : Type*) where
  first : α
  more : List α
  last : α

/-- A match between the marks. -/
def Marker.wrap (mk : Marker α) (m : List α) : List α := mk.first :: mk.more ++ m ++ [mk.last]

/-- A text with marks: its characters, and the marks between them. -/
inductive Cell (α : Type*) where
  | char (c : α)
  | start
  | stop

namespace Cell

def char? : Cell α → Option α
  | char c => some c
  | _ => none

def isStop : Cell α → Bool
  | stop => true
  | _ => false

theorem mark_or_char (m : Cell α) : m.char? = none ∨ ∃ c, m = char c := by
  cases m with
  | char c => exact .inr ⟨c, rfl⟩
  | start => exact .inl rfl
  | stop => exact .inl rfl

end Cell

def erase (cells : List (Cell α)) : List α := cells.filterMap Cell.char?

def renderCell (mk : Marker α) : Cell α → List α
  | .char c => [c]
  | .start => mk.first :: mk.more
  | .stop => [mk.last]

def render (mk : Marker α) (cells : List (Cell α)) : List α := cells.flatMap (renderCell mk)

/-- Where cells of a kind stand; the first cell stands at `n`. -/
def places (p : Cell α → Bool) : ℕ → List (Cell α) → List ℕ
  | _, [] => []
  | n, .char c :: cells => (if p (.char c) then [n] else []) ++ places p (n + 1) cells
  | n, m :: cells => (if p m then [n] else []) ++ places p n cells

/-- Where the marks stand. -/
def gaps (n : ℕ) (cells : List (Cell α)) : List ℕ := places (fun m => m.char?.isNone) n cells

/-- Where the stop marks stand. -/
def stops (n : ℕ) (cells : List (Cell α)) : List ℕ := places Cell.isStop n cells

section Cells

variable {mk : Marker α} {cells : List (Cell α)} {m : Cell α}

@[simp] theorem erase_nil : erase ([] : List (Cell α)) = [] := rfl

@[simp] theorem erase_char (c : α) (cells : List (Cell α)) : erase (.char c :: cells) = c :: erase cells := rfl

theorem erase_mark (hm : m.char? = none) : erase (m :: cells) = erase cells := List.filterMap_cons_none hm

theorem render_cons (m : Cell α) (cells : List (Cell α)) : render mk (m :: cells) = renderCell mk m ++ render mk cells :=
  List.flatMap_cons

theorem erase_run (w : List α) (cells : List (Cell α)) : erase (w.map .char ++ cells) = w ++ erase cells := by
  induction w with
  | nil => rfl
  | cons c w ih =>
    rw [List.map_cons, List.cons_append, erase_char, ih]
    rfl

theorem render_run (w : List α) (cells : List (Cell α)) : render mk (w.map .char ++ cells) = w ++ render mk cells := by
  induction w with
  | nil => rfl
  | cons c w ih =>
    rw [List.map_cons, List.cons_append, render, List.flatMap_cons]
    exact congrArg (c :: ·) ih

theorem places_mark (p : Cell α → Bool) (hm : m.char? = none) :
    places p n (m :: cells) = (if p m then [n] else []) ++ places p n cells := by
  cases m with
  | char c => cases hm
  | start => rfl
  | stop => rfl

@[simp] theorem gaps_char (c : α) : gaps n (.char c :: cells) = gaps (n + 1) cells := rfl

@[simp] theorem stops_char (c : α) : stops n (.char c :: cells) = stops (n + 1) cells := rfl

theorem gaps_mark (hm : m.char? = none) : gaps n (m :: cells) = n :: gaps n cells := by
  unfold gaps
  rw [places_mark _ hm, hm]
  rfl

theorem gaps_run (w : List α) (n : ℕ) : gaps n (w.map .char ++ cells) = gaps (n + w.length) cells := by
  induction w generalizing n with
  | nil => rfl
  | cons c w ih =>
    rw [List.map_cons, List.cons_append, gaps_char, ih, List.length_cons]
    congr 1
    omega

theorem stops_run (w : List α) (n : ℕ) : stops n (w.map .char ++ cells) = stops (n + w.length) cells := by
  induction w generalizing n with
  | nil => rfl
  | cons c w ih =>
    rw [List.map_cons, List.cons_append, stops_char, ih, List.length_cons]
    congr 1
    omega

theorem le_of_mem_places {p : Cell α → Bool} : ∀ {cells : List (Cell α)} {n : ℕ}, g ∈ places p n cells → n ≤ g := by
  intro cells
  induction cells with
  | nil => intro n h; cases h
  | cons m cells ih =>
    intro n h
    have hhere : ∀ {q : Bool}, g ∈ (if q then [n] else []) → g = n := by
      intro q hq
      cases q with
      | true => exact List.mem_singleton.mp hq
      | false => cases hq
    rcases m.mark_or_char with hm | ⟨c, rfl⟩
    · rw [places_mark p hm] at h
      rcases List.mem_append.mp h with h | h
      · exact (hhere h).ge
      · exact ih h
    · rcases List.mem_append.mp h with h | h
      · exact (hhere h).ge
      · have hle := ih h
        omega

/-- A text without a mark inside stands in the cells one character after the other. -/
theorem run_of_no_gap : ∀ {w : List α} {cells : List (Cell α)} {n : ℕ}, w <+: erase cells →
    (∀ g ∈ gaps n cells, n ≤ g → n + w.length ≤ g) → w.map .char <+: cells := by
  intro w
  induction w with
  | nil => intro cells n _ _; exact List.nil_prefix
  | cons c w ih =>
    intro cells n hpre hgap
    cases cells with
    | nil =>
      have hnil := List.prefix_nil.mp hpre
      cases hnil
    | cons m cells =>
      rcases m.mark_or_char with hm | ⟨d, rfl⟩
      · have hle := hgap n (by rw [gaps_mark hm]; exact List.mem_cons_self) le_rfl
        rw [List.length_cons] at hle
        omega
      · obtain ⟨rfl, htail⟩ := List.cons_prefix_cons.mp hpre
        refine List.cons_prefix_cons.mpr ⟨rfl, ih (n := n + 1) htail fun g hg hle => ?_⟩
        have hlen := hgap g hg (by omega)
        rw [List.length_cons] at hlen
        omega

end Cells

/-! ## Matches and marks -/

/-- No match reaches into a mark from behind, nor into one before it: of the first characters of the marks it has the
one only where it begins and the other only where it ends. -/
structure Marker.Clear (mk : Marker α) (r : Regex α) : Prop where
  proper : r.Proper
  start_free : ∀ v, v ≠ [] → v <:+ mk.first :: mk.more → ∀ w, r.Matches w → ∀ s, ¬ w <+: v ++ s
  stop_free : ∀ w, r.Matches w → ∀ s, ¬ w <+: mk.last :: s
  first_front : ∀ w, r.Matches w → mk.first ∉ w.tail
  last_back : ∀ w, r.Matches w → mk.last ∉ w.dropLast

/-- What a match of the first pattern has before the stop mark is no end of a match of the second. -/
def Marker.Apart (mk : Marker α) (r r' : Regex α) : Prop :=
  ∀ v x, v ≠ [] → r.Matches (v ++ [mk.last]) → ¬ r'.Matches (x ++ v)

/-- Every stop mark ends an occurrence of a pattern, and where that occurrence begins there is a mark. -/
def Closed (done : List (Regex α)) (s : List α) (n : ℕ) (cells : List (Cell α)) : Prop :=
  ∀ g ∈ stops n cells, ∃ h < g, (∃ r ∈ done, r.OccursAt s h g) ∧ (n < h → h ∈ gaps n cells)

section Match

variable {mk : Marker α} {done : List (Regex α)} {cells : List (Cell α)} {m : Cell α}

theorem Closed.mark (h : Closed done s n (m :: cells)) (hm : m.char? = none) : Closed done s n cells := by
  intro g hg
  have hmem : g ∈ stops n (m :: cells) := by
    unfold stops at hg ⊢
    rw [places_mark _ hm]
    exact List.mem_append_right _ hg
  obtain ⟨h', hlt, hoccurs, hgap⟩ := h g hmem
  refine ⟨h', hlt, hoccurs, fun hn => ?_⟩
  have hcase := hgap hn
  rw [gaps_mark hm] at hcase
  exact (List.mem_cons.mp hcase).resolve_left (by omega)

theorem Closed.run (h : Closed done s n (w.map .char ++ cells)) : Closed done s (n + w.length) cells := by
  intro g hg
  obtain ⟨h', hlt, hoccurs, hgap⟩ := h g (by rwa [stops_run])
  rw [gaps_run] at hgap
  exact ⟨h', hlt, hoccurs, fun hn => hgap (by omega)⟩

/-- The end of an occurrence that begins no later than a text that ends with it. -/
theorem OccursAt.eq_append {h : ℕ} {v : List α} (hoccurs : r.OccursAt s h (n + v.length)) (hle : h ≤ n)
    (hv : v <+: s.drop n) : ∃ x, r.Matches (x ++ v) := by
  obtain ⟨w, hw, hpre, hlen⟩ := hoccurs
  have hdrop : w.drop (n - h) <+: s.drop n := by
    have hcut := hpre.drop (n - h)
    rwa [List.drop_drop, show h + (n - h) = n by omega] at hcut
  have heq : w.drop (n - h) = v := by
    refine List.IsPrefix.eq_of_length (List.prefix_of_prefix_length_le hdrop hv ?_) ?_
    · rw [List.length_drop]
      omega
    · rw [List.length_drop]
      omega
  exact ⟨w.take (n - h), by rwa [← heq, List.take_append_drop]⟩

/-- **A match that begins at a character has no mark inside.** -/
theorem run_of_match (hclear : mk.Clear r) (hapart : ∀ r' ∈ done, mk.Apart r r') :
    ∀ (cells : List (Cell α)) (v u : List α), v ≠ [] → r.Matches (v ++ u) → u <+: render mk cells →
      s.drop n = v ++ erase cells → Closed done s n (v.map .char ++ cells) → u.map .char <+: cells := by
  intro cells
  induction cells with
  | nil =>
    intro v u _ _ hu _ _
    have hnil : u = [] := List.prefix_nil.mp hu
    rw [hnil]
    exact List.nil_prefix
  | cons m cells ih =>
    intro v u hv hmatch hu htext hclosed
    cases u with
    | nil => exact List.nil_prefix
    | cons d u =>
      cases m with
      | char c =>
        obtain ⟨rfl, hmore⟩ := List.cons_prefix_cons.mp hu
        refine List.cons_prefix_cons.mpr ⟨rfl, ih (v ++ [d]) u (by simp) (by simpa using hmatch) hmore ?_ ?_⟩
        · rw [htext, erase_char, List.append_assoc]
          rfl
        · simpa using hclosed
      | start =>
        obtain ⟨rfl, -⟩ := List.cons_prefix_cons.mp hu
        have hmem : mk.first ∈ (v ++ mk.first :: u).tail := by
          rw [List.tail_append_of_ne_nil hv]
          simp
        exact absurd hmem (hclear.first_front _ hmatch)
      | stop =>
        obtain ⟨rfl, -⟩ := List.cons_prefix_cons.mp hu
        have hlast := hclear.last_back _ hmatch
        have hnil : u = [] := by
          by_contra hne
          refine hlast ?_
          rw [List.dropLast_append_cons, List.dropLast_cons_of_ne_nil hne]
          simp
        subst hnil
        -- the stop mark ends an occurrence that began no later than the match
        have hmem : n + v.length ∈ stops n (v.map .char ++ .stop :: cells) := by
          rw [stops_run]
          exact List.mem_cons_self
        obtain ⟨h, hlt, ⟨r', hr', hoccurs⟩, hgap⟩ := hclosed _ hmem
        have hle : h ≤ n := by
          by_contra hlater
          have hin := hgap (by omega)
          rw [gaps_run] at hin
          have hge := le_of_mem_places hin
          omega
        obtain ⟨x, hx⟩ := hoccurs.eq_append hle (by rw [htext]; exact List.prefix_append _ _)
        exact absurd hx (hapart r' hr' v x hv hmatch)

end Match

/-! ## One pattern -/

/-- The cells, which stand from `n` on, when the matches of a pattern are marked; the matches by their places. -/
inductive Marks (mk : Marker α) (r : Regex α) : ℕ → List (Cell α) → List (Cell α) → List (ℕ × ℕ) → Prop
  | nil {n : ℕ} : Marks mk r n [] [] []
  | mark {n : ℕ} {m : Cell α} {cells cells' : List (Cell α)} {spans : List (ℕ × ℕ)} : m.char? = none →
    Marks mk r n cells cells' spans → Marks mk r n (m :: cells) (m :: cells') spans
  | keep {n : ℕ} {c : α} {cells cells' : List (Cell α)} {spans : List (ℕ × ℕ)} :
    (∀ w, r.Matches w → ¬ w <+: render mk (.char c :: cells)) → Marks mk r (n + 1) cells cells' spans →
    Marks mk r n (.char c :: cells) (.char c :: cells') spans
  | hit {n : ℕ} {w : List α} {cells cells' : List (Cell α)} {spans : List (ℕ × ℕ)} : r.Matches w → w ≠ [] →
    Marks mk r (n + w.length) cells cells' spans →
    Marks mk r n (w.map .char ++ cells) (.start :: (w.map .char ++ .stop :: cells')) ((n, n + w.length) :: spans)

section Scan

variable {mk : Marker α} {done : List (Regex α)} {cells cells' : List (Cell α)} {spans : List (ℕ × ℕ)}

theorem scan_mark (hclear : mk.Clear r) {m : Cell α} (hm : m.char? = none) (s : List α) :
    r.scan (renderCell mk m ++ s) = (renderCell mk m).map .keep ++ r.scan s := by
  refine scan_front _ fun v hv hsuf w hw => ?_
  cases m with
  | char c => cases hm
  | start => exact hclear.start_free v hv hsuf w hw s
  | stop =>
    obtain rfl : v = [mk.last] := by
      rcases List.suffix_cons_iff.mp hsuf with h | h
      · exact h
      · exact absurd (List.suffix_nil.mp h) hv
    exact hclear.stop_free w hw s

/-- The scan of a text with marks marks the matches in it, and finds as many. -/
def Marked (mk : Marker α) (r : Regex α) (n : ℕ) (cells : List (Cell α)) : Prop :=
  ∃ cells' spans, Marks mk r n cells cells' spans ∧ render mk cells' = r.replaceAll mk.wrap (render mk cells) ∧
    (r.findIter (render mk cells)).length = spans.length

theorem Marked.nil : Marked mk r n [] := ⟨[], [], .nil, rfl, rfl⟩

theorem Marked.mark (h : Marked mk r n cells) (hclear : mk.Clear r) {m : Cell α} (hm : m.char? = none) :
    Marked mk r n (m :: cells) := by
  obtain ⟨cells', spans, hmarks, hrender, hcount⟩ := h
  have hscan := scan_mark hclear hm (render mk cells)
  refine ⟨m :: cells', spans, .mark hm hmarks, ?_, ?_⟩
  · rw [render_cons, render_cons, hrender, replaceAll_front hscan]
  · rw [render_cons, findIter_front hscan, hcount]

theorem Marked.keep {c : α} (h : Marked mk r (n + 1) cells) (hclear : mk.Clear r)
    (hkeep : ∀ j, r.first (c :: render mk cells) ≠ some (j + 1)) : Marked mk r n (.char c :: cells) := by
  obtain ⟨cells', spans, hmarks, hrender, hcount⟩ := h
  have hcells : render mk (.char c :: cells) = c :: render mk cells := render_cons _ _
  refine ⟨.char c :: cells', spans, .keep ?_ hmarks, ?_, ?_⟩
  · rw [hcells]
    exact hclear.proper.first_eq_none hkeep
  · rw [hcells, replaceAll_keep hkeep, ← hrender, render_cons]
    rfl
  · rw [hcells, findIter_keep hkeep, hcount]

theorem Marked.hit {c : α} {u : List α} (h : Marked mk r (n + (c :: u).length) cells) (hmatch : r.Matches (c :: u))
    (hfirst : r.first (c :: (u ++ render mk cells)) = some (u.length + 1)) :
    Marked mk r n ((c :: u).map .char ++ cells) := by
  obtain ⟨cells', spans, hmarks, hrender, hcount⟩ := h
  have hfront : (c :: (u ++ render mk cells)).take (u.length + 1) = c :: u := by simp
  have hback : (c :: (u ++ render mk cells)).drop (u.length + 1) = render mk cells := by simp
  refine ⟨_, _, .hit hmatch (List.cons_ne_nil c u) hmarks, ?_, ?_⟩
  · rw [render_run, List.cons_append, replaceAll_hit hfirst, hfront, hback, ← hrender, render_cons, render_run, render_cons]
    simp [Marker.wrap, renderCell]
  · rw [render_run, List.cons_append, findIter_hit hfirst, hback, List.length_cons, hcount, List.length_cons]

theorem marked (hclear : mk.Clear r) (hapart : ∀ r' ∈ done, mk.Apart r r') (s : List α) :
    ∀ (k n : ℕ) (cells : List (Cell α)), cells.length ≤ k → s.drop n = erase cells → Closed done s n cells →
      Marked mk r n cells := by
  intro k
  induction k with
  | zero =>
    intro n cells hk _ _
    rw [List.length_eq_zero_iff.mp (Nat.le_zero.mp hk)]
    exact .nil
  | succ k ih =>
    intro n cells hk htext hclosed
    cases cells with
    | nil => exact .nil
    | cons m cells =>
      rw [List.length_cons] at hk
      rcases m.mark_or_char with hm | ⟨c, rfl⟩
      · rw [erase_mark hm] at htext
        exact (ih n cells (by omega) htext (hclosed.mark hm)).mark hclear hm
      by_cases hfirst : ∃ j, r.first (c :: render mk cells) = some (j + 1)
      · obtain ⟨j, hj⟩ := hfirst
        obtain ⟨hlen, hmatch⟩ := first_eq_some hj
        rw [List.take_succ_cons] at hmatch
        -- the match has no mark inside, so that it is a run of the text
        have hrun := run_of_match hclear hapart cells [c] ((render mk cells).take j) (List.cons_ne_nil c []) hmatch
          (List.take_prefix j _) htext hclosed
        obtain ⟨rest, hrest⟩ := hrun
        have hlenu : ((render mk cells).take j).length = j := by
          rw [List.length_cons] at hlen
          rw [List.length_take]
          omega
        generalize (render mk cells).take j = u at hmatch hrest hlenu
        subst hrest hlenu
        have htail : s.drop (n + (c :: u).length) = erase rest := by
          rw [← List.drop_drop, htext, erase_char, erase_run, ← List.cons_append, List.drop_left]
        have hshort : rest.length ≤ k := by
          rw [List.length_append] at hk
          omega
        rw [render_run] at hj
        exact (ih (n + (c :: u).length) rest hshort htail (Closed.run (w := c :: u) hclosed)).hit hmatch hj
      · have hkeep : ∀ j, r.first (c :: render mk cells) ≠ some (j + 1) := fun j hj => hfirst ⟨j, hj⟩
        have htail : s.drop (n + 1) = erase cells := by
          rw [← List.drop_drop, htext]
          rfl
        exact (ih (n + 1) cells (by omega) htail (Closed.run (w := [c]) hclosed)).keep hclear hkeep

end Scan

/-! ## What marking one pattern does -/

section Step

variable {mk : Marker α} {cells cells' : List (Cell α)} {spans : List (ℕ × ℕ)}

theorem Marks.erase_eq (h : Marks mk r n cells cells' spans) : erase cells' = erase cells := by
  induction h with
  | nil => rfl
  | mark hm _ ih => rw [erase_mark hm, erase_mark hm, ih]
  | keep _ _ ih => rw [erase_char, erase_char, ih]
  | hit _ _ _ ih => rw [erase_mark rfl, erase_run, erase_mark rfl, ih, erase_run]

theorem Marks.mem_gaps (h : Marks mk r n cells cells' spans) :
    g ∈ gaps n cells' ↔ g ∈ gaps n cells ∨ ∃ span ∈ spans, g = span.1 ∨ g = span.2 := by
  induction h with
  | nil => simp
  | mark hm _ ih => rw [gaps_mark hm, gaps_mark hm, List.mem_cons, List.mem_cons, ih, or_assoc]
  | keep _ _ ih => rw [gaps_char, gaps_char, ih]
  | hit _ _ _ ih =>
    rw [gaps_mark rfl, gaps_run, gaps_run, gaps_mark rfl, List.mem_cons, List.mem_cons, ih]
    simp only [List.mem_cons, exists_eq_or_imp]
    exact or_assoc.symm.trans or_left_comm

theorem Marks.of_mem_stops (h : Marks mk r n cells cells' spans) (hg : g ∈ stops n cells') :
    g ∈ stops n cells ∨ ∃ span ∈ spans, g = span.2 := by
  induction h with
  | nil => exact .inl hg
  | @mark n m cells cells' spans hm _ ih =>
    unfold stops at hg ⊢
    rw [places_mark _ hm, List.mem_append] at hg ⊢
    rcases hg with hg | hg
    · exact .inl (.inl hg)
    · exact (ih hg).imp .inr id
  | keep _ _ ih => exact ih hg
  | @hit n w cells cells' spans _ _ _ ih =>
    have hstop : g = n + w.length ∨ g ∈ stops (n + w.length) cells' := by
      have hrun : g ∈ stops n (w.map .char ++ .stop :: cells') := hg
      rw [stops_run] at hrun
      exact List.mem_cons.mp hrun
    rcases hstop with rfl | hg
    · exact .inr ⟨_, List.mem_cons_self, rfl⟩
    · rcases ih hg with hg | ⟨span, hspan, heq⟩
      · exact .inl (by rwa [stops_run])
      · exact .inr ⟨span, List.mem_cons_of_mem _ hspan, heq⟩

/-- A match has no mark inside that was there before. -/
theorem Marks.solid (h : Marks mk r n cells cells' spans) :
    (∀ span ∈ spans, n ≤ span.1) ∧ ∀ span ∈ spans, ∀ g ∈ gaps n cells, ¬ (span.1 < g ∧ g < span.2) := by
  induction h with
  | nil => exact ⟨fun _ hspan => absurd hspan List.not_mem_nil, fun _ hspan => absurd hspan List.not_mem_nil⟩
  | @mark n m cells cells' spans hm _ ih =>
    refine ⟨ih.1, fun span hspan g hg hin => ?_⟩
    rw [gaps_mark hm] at hg
    rcases List.mem_cons.mp hg with rfl | hg
    · have hle := ih.1 span hspan
      omega
    · exact ih.2 span hspan g hg hin
  | keep _ _ ih =>
    refine ⟨fun span hspan => ?_, ih.2⟩
    have hle := ih.1 span hspan
    omega
  | @hit n w cells cells' spans _ _ _ ih =>
    rw [gaps_run]
    refine ⟨fun span hspan => ?_, fun span hspan g hg hin => ?_⟩
    · rcases List.mem_cons.mp hspan with rfl | hspan
      · exact le_rfl
      · have hle := ih.1 span hspan
        omega
    · rcases List.mem_cons.mp hspan with rfl | hspan
      · have hge := le_of_mem_places hg
        dsimp only at hin
        omega
      · exact ih.2 span hspan g hg hin

/-- The matches are occurrences in the text without the marks. -/
theorem Marks.occursAt (h : Marks mk r n cells cells' spans) (htext : s.drop n = erase cells) :
    ∀ span ∈ spans, r.OccursAt s span.1 span.2 ∧ span.1 < span.2 := by
  induction h with
  | nil => exact fun _ hspan => absurd hspan List.not_mem_nil
  | mark hm _ ih => exact ih (by rw [htext, erase_mark hm])
  | keep _ _ ih =>
    refine ih ?_
    rw [← List.drop_drop, htext]
    rfl
  | @hit n w cells cells' spans hw hne _ ih =>
    rw [erase_run] at htext
    intro span hspan
    rcases List.mem_cons.mp hspan with rfl | hspan
    · have hpos := List.length_pos_iff.mpr hne
      exact ⟨⟨w, hw, by rw [htext]; exact List.prefix_append w _, rfl⟩, by simpa using hpos⟩
    · exact ih (by rw [← List.drop_drop, htext, List.drop_left]) span hspan

/-- **An occurrence without a mark inside begins within a match that is marked.** -/
theorem Marks.covers (h : Marks mk r n cells cells' spans) (hproper : r.Proper) (htext : s.drop n = erase cells)
    (hoccurs : r.OccursAt s c d) (hle : n ≤ c) (hgap : ∀ g ∈ gaps n cells, ¬ (c < g ∧ g < d)) :
    ∃ span ∈ spans, span.1 ≤ c ∧ c < span.2 := by
  induction h with
  | @nil n =>
    obtain ⟨w, hw, hpre, -⟩ := hoccurs
    rw [show c = n + (c - n) by omega, ← List.drop_drop, htext, erase_nil, List.drop_nil] at hpre
    rw [List.prefix_nil.mp hpre] at hw
    exact absurd hw hproper
  | mark hm _ ih =>
    rw [gaps_mark hm] at hgap
    exact ih (by rw [htext, erase_mark hm]) hle fun g hg => hgap g (List.mem_cons_of_mem _ hg)
  | @keep n c₀ cells cells' spans hnone _ ih =>
    by_cases hhere : n = c
    · subst hhere
      obtain ⟨w, hw, hpre, rfl⟩ := hoccurs
      rw [htext] at hpre
      have hrun : w.map .char <+: Cell.char c₀ :: cells := by
        cases w with
        | nil => exact absurd hw hproper
        | cons e w =>
          obtain ⟨rfl, hpre'⟩ := List.cons_prefix_cons.mp hpre
          refine List.cons_prefix_cons.mpr ⟨rfl, run_of_no_gap (n := n + 1) hpre' fun g hg hlt => ?_⟩
          have hout := hgap g hg
          rw [List.length_cons] at hout
          omega
      obtain ⟨rest, hrest⟩ := hrun
      refine absurd ?_ (hnone w hw)
      rw [← hrest, render_run]
      exact List.prefix_append w _
    · refine ih ?_ (by omega) hgap
      rw [← List.drop_drop, htext]
      rfl
  | @hit n w cells cells' spans hw hne _ ih =>
    rw [erase_run] at htext
    by_cases hin : c < n + w.length
    · exact ⟨_, List.mem_cons_self, hle, hin⟩
    · rw [gaps_run] at hgap
      obtain ⟨span, hspan, hcover⟩ := ih (by rw [← List.drop_drop, htext, List.drop_left]) (by omega) hgap
      exact ⟨span, List.mem_cons_of_mem _ hspan, hcover⟩

end Step

/-! ## All patterns -/

/-- The matches of every pattern marked, one pattern after the other. -/
def markAll (mk : Marker α) (rs : List (Regex α)) (s : List α) : List α :=
  rs.foldl (fun content r => r.replaceAll mk.wrap content) s

/-- A match is decided by where it begins. -/
def Determined (r : Regex α) : Prop := ∀ w w', r.Matches w → r.Matches w' → w <+: w' → w = w'

/-- What an occurrence that begins inside another one cuts, the other one cuts. -/
def Shadowed (r r' : Regex α) : Prop :=
  ∀ (s : List α) (h h' c d a b : ℕ), r.OccursAt s h h' → r.OccursAt s c d → h < c → c < h' → r'.OccursAt s a b →
    Cuts c d a b → Cuts h h' a b

/-- What an occurrence that is cut at a place cuts, is cut at that place. -/
def Carried (r₀ r r' : Regex α) : Prop :=
  ∀ (s : List α) (c₀ d₀ c d a b g : ℕ), r₀.OccursAt s c₀ d₀ → r.OccursAt s c d → r'.OccursAt s a b →
    g = c₀ ∨ g = d₀ → c < g → g < d → Cuts c d a b → a < g ∧ g < b

/-- The patterns can be marked in turn. -/
structure Orderly (mk : Marker α) (rs : List (Regex α)) : Prop where
  clear : ∀ r ∈ rs, mk.Clear r
  apart : ∀ r ∈ rs, ∀ r' ∈ rs, mk.Apart r r'
  order : ∀ pre r post, rs = pre ++ r :: post → ∀ r' ∈ post, r.Determined ∧ r.Shadowed r' ∧ ∀ r₀ ∈ pre, r₀.Carried r r'

/-- The text with the marks of the patterns so far: each mark is at an end of an occurrence, and an occurrence that
one of them cuts has a mark inside. -/
structure Reached (done rest : List (Regex α)) (s : List α) (cells : List (Cell α)) : Prop where
  text : erase cells = s
  sound : ∀ g ∈ gaps 0 cells, ∃ r ∈ done, ∃ c d, r.OccursAt s c d ∧ (g = c ∨ g = d)
  complete : ∀ r ∈ done, ∀ r' ∈ rest, ∀ c d a b, r.OccursAt s c d → r'.OccursAt s a b → Cuts c d a b →
    ∃ g ∈ gaps 0 cells, a < g ∧ g < b
  closed : Closed done s 0 cells

section Run

variable {mk : Marker α} {rs done rest : List (Regex α)} {cells cells' : List (Cell α)} {spans : List (ℕ × ℕ)}

theorem OccursAt.determined (hr : r.Determined) (h : r.OccursAt s c d) (h' : r.OccursAt s c n) : d = n := by
  obtain ⟨w, hw, hpre, rfl⟩ := h
  obtain ⟨w', hw', hpre', rfl⟩ := h'
  rcases List.prefix_or_prefix_of_prefix hpre hpre' with hle | hle
  · rw [hr w w' hw hw' hle]
  · rw [hr w' w hw' hw hle]

/-- A mark inside an occurrence that cuts another one is inside that one. -/
theorem Reached.carried (h : Reached done (r :: rest) s cells) (hcarried : ∀ r₀ ∈ done, r₀.Carried r r')
    (hoccurs : r.OccursAt s c d) (hoccurs' : r'.OccursAt s a b) (hcuts : Cuts c d a b)
    (hg : g ∈ gaps 0 cells) (hc : c < g) (hd : g < d) : a < g ∧ g < b := by
  obtain ⟨r₀, hr₀, c₀, d₀, hoccurs₀, hend⟩ := h.sound g hg
  exact hcarried r₀ hr₀ s c₀ d₀ c d a b g hoccurs₀ hoccurs hoccurs' hend hc hd hcuts

/-- **One pattern more.** Marking the next pattern keeps what holds of the marks of the patterns so far. -/
theorem Reached.step (h : Reached done (r :: rest) s cells) (hproper : r.Proper) (hmarks : Marks mk r 0 cells cells' spans)
    (horder : ∀ r' ∈ rest, r.Determined ∧ r.Shadowed r' ∧ ∀ r₀ ∈ done, r₀.Carried r r') :
    Reached (done ++ [r]) rest s cells' := by
  have htext : s.drop 0 = erase cells := by rw [h.text, List.drop_zero]
  have hspan := hmarks.occursAt htext
  refine ⟨by rw [hmarks.erase_eq, h.text], ?_, ?_, ?_⟩
  · intro g hg
    rcases hmarks.mem_gaps.mp hg with hg | ⟨span, hmem, hend⟩
    · obtain ⟨r₀, hr₀, hends⟩ := h.sound g hg
      exact ⟨r₀, List.mem_append_left _ hr₀, hends⟩
    · exact ⟨r, by simp, span.1, span.2, (hspan span hmem).1, hend⟩
  · intro r₀ hr₀ r' hr' c d a b hoccurs hoccurs' hcuts
    have hkeep : (∃ g ∈ gaps 0 cells, a < g ∧ g < b) → ∃ g ∈ gaps 0 cells', a < g ∧ g < b := by
      rintro ⟨g, hg, hin⟩
      exact ⟨g, hmarks.mem_gaps.mpr (.inl hg), hin⟩
    rcases List.mem_append.mp hr₀ with hr₀ | hr₀
    · exact hkeep (h.complete r₀ hr₀ r' (List.mem_cons_of_mem r hr') c d a b hoccurs hoccurs' hcuts)
    obtain rfl := List.mem_singleton.mp hr₀
    obtain ⟨hdetermined, hshadowed, hcarried⟩ := horder r' hr'
    by_cases hgap : ∃ g ∈ gaps 0 cells, c < g ∧ g < d
    · obtain ⟨g, hg, hc, hd⟩ := hgap
      exact hkeep ⟨g, hg, h.carried hcarried hoccurs hoccurs' hcuts hg hc hd⟩
    · -- the occurrence begins within a match that is marked
      obtain ⟨span, hmem, hle, hlt⟩ := hmarks.covers hproper htext hoccurs (Nat.zero_le c)
        fun g hg hin => hgap ⟨g, hg, hin⟩
      have hmatch := (hspan span hmem).1
      have hcut : Cuts span.1 span.2 a b := by
        rcases Nat.eq_or_lt_of_le hle with heq | hlt'
        · rw [heq] at hmatch ⊢
          rwa [← hoccurs.determined hdetermined hmatch]
        · exact hshadowed s span.1 span.2 c d a b hmatch hoccurs hlt' hlt hoccurs' hcuts
      rcases hcut with hin | hin
      · exact ⟨span.1, hmarks.mem_gaps.mpr (.inr ⟨span, hmem, .inl rfl⟩), hin⟩
      · exact ⟨span.2, hmarks.mem_gaps.mpr (.inr ⟨span, hmem, .inr rfl⟩), hin⟩
  · intro g hg
    rcases hmarks.of_mem_stops hg with hg | ⟨span, hmem, rfl⟩
    · obtain ⟨h', hlt, ⟨r₀, hr₀, hoccurs⟩, hgap⟩ := h.closed g hg
      exact ⟨h', hlt, ⟨r₀, List.mem_append_left _ hr₀, hoccurs⟩, fun hpos => hmarks.mem_gaps.mpr (.inl (hgap hpos))⟩
    · obtain ⟨hoccurs, hlt⟩ := hspan span hmem
      exact ⟨span.1, hlt, ⟨r, by simp, hoccurs⟩, fun _ => hmarks.mem_gaps.mpr (.inr ⟨span, hmem, .inl rfl⟩)⟩

theorem reached_nil (rest : List (Regex α)) (s : List α) : Reached [] rest s (s.map .char) := by
  have hcells : s.map Cell.char = s.map Cell.char ++ [] := (List.append_nil _).symm
  have hgaps : gaps 0 (s.map Cell.char) = [] := by
    rw [hcells, gaps_run]
    rfl
  have hstops : stops 0 (s.map Cell.char) = [] := by
    rw [hcells, stops_run]
    rfl
  refine ⟨?_, ?_, fun r hr => absurd hr List.not_mem_nil, ?_⟩
  · rw [hcells, erase_run, erase_nil, List.append_nil]
  · rw [hgaps]
    exact fun g hg => absurd hg List.not_mem_nil
  · intro g hg
    rw [hstops] at hg
    exact absurd hg List.not_mem_nil

/-- **The marks of any number of patterns.** -/
theorem exists_reached (horderly : Orderly mk rs) (s : List α) : ∀ (done rest : List (Regex α)), rs = done ++ rest →
    ∃ cells, Reached done rest s cells ∧ render mk cells = markAll mk done s := by
  intro done
  induction done using List.reverseRecOn with
  | nil =>
    intro rest _
    refine ⟨s.map .char, reached_nil rest s, ?_⟩
    rw [← List.append_nil (s.map Cell.char), render_run]
    exact List.append_nil s
  | append_singleton done r ih =>
    intro rest hrs
    rw [List.append_assoc, List.singleton_append] at hrs
    obtain ⟨cells, hreached, hrender⟩ := ih (r :: rest) hrs
    have hr : r ∈ rs := by simp [hrs]
    have hdone : ∀ r' ∈ done, mk.Apart r r' := fun r' hr' => horderly.apart r hr r' (by simp [hrs, hr'])
    obtain ⟨cells', spans, hmarks, hreplace, -⟩ := marked (horderly.clear r hr) hdone s cells.length 0 cells le_rfl
      (by rw [hreached.text, List.drop_zero]) hreached.closed
    refine ⟨cells', hreached.step (horderly.clear r hr).proper hmarks (horderly.order done r rest hrs), ?_⟩
    rw [hreplace, hrender, markAll, markAll, List.foldl_append]
    rfl

/-- **Which patterns are found:** those with an occurrence in the original text that no occurrence of an earlier pattern
cuts. -/
theorem occurs_markAll_iff (horderly : Orderly mk rs) (hrs : rs = done ++ r :: rest) :
    r.Occurs (markAll mk done s) ↔
      ∃ a b, r.OccursAt s a b ∧ ∀ r' ∈ done, ∀ c d, r'.OccursAt s c d → ¬ Cuts c d a b := by
  obtain ⟨cells, hreached, hrender⟩ := exists_reached horderly s done (r :: rest) hrs
  have hr : r ∈ rs := by simp [hrs]
  have hclear := horderly.clear r hr
  have htext : s.drop 0 = erase cells := by rw [hreached.text, List.drop_zero]
  have hdone : ∀ r' ∈ done, mk.Apart r r' := fun r' hr' => horderly.apart r hr r' (by simp [hrs, hr'])
  obtain ⟨cells', spans, hmarks, -, hcount⟩ :=
    marked hclear hdone s cells.length 0 cells le_rfl htext hreached.closed
  rw [← hrender, ← findIter_ne_nil_iff hclear.proper, ← List.length_pos_iff, hcount, List.length_pos_iff]
  constructor
  · intro hne
    obtain ⟨span, hmem⟩ := List.exists_mem_of_ne_nil spans hne
    refine ⟨span.1, span.2, (hmarks.occursAt htext span hmem).1, fun r' hr' c d hoccurs hcuts => ?_⟩
    obtain ⟨g, hg, hin⟩ := hreached.complete r' hr' r List.mem_cons_self c d _ _ hoccurs
      (hmarks.occursAt htext span hmem).1 hcuts
    exact hmarks.solid.2 span hmem g hg hin
  · rintro ⟨a, b, hoccurs, hfree⟩
    obtain ⟨span, hmem, -⟩ := hmarks.covers hclear.proper htext hoccurs (Nat.zero_le a) fun g hg hin => by
      obtain ⟨r', hr', c, d, hoccurs', hend⟩ := hreached.sound g hg
      refine hfree r' hr' c d hoccurs' ?_
      rcases hend with rfl | rfl
      · exact .inl hin
      · exact .inr hin
    exact List.ne_nil_of_mem hmem

/-- Marking only inserts. -/
theorem sublist_markAll (mk : Marker α) : ∀ (rs : List (Regex α)) (s : List α), s.Sublist (markAll mk rs s) := by
  intro rs
  induction rs with
  | nil => exact fun s => List.Sublist.refl s
  | cons r rs ih =>
    intro s
    refine List.Sublist.trans ?_ (ih (r.replaceAll mk.wrap s))
    induction s using scan_induction r with
    | nil => exact List.nil_sublist _
    | keep c s hfirst ihs =>
      rw [replaceAll_keep hfirst]
      exact ihs.cons_cons c
    | hit s n hn ihs =>
      rw [replaceAll_hit hn]
      have hwrap : (s.take (n + 1)).Sublist (mk.wrap (s.take (n + 1))) :=
        (List.sublist_append_right _ _).trans (List.sublist_append_left _ _)
      have hboth := hwrap.append ihs
      rwa [List.take_append_drop] at hboth

end Run

end Zeptoclaw.Regex

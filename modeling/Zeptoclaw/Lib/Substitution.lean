import Zeptoclaw.Lib.Text
import Mathlib.Data.List.Infix
import Mathlib.Data.List.Nodup

/-!
# Replacing several patterns at once, and one after the other

Patterns are replaced at once if the text is cut at their occurrences, and each is replaced by its value (`Simultaneous`).
Replaced one after the other in one order they come to the same on one text if each pattern, when its turn comes, stands at
its own holes only (`simultaneous_of_noCapture`); in whatever order and on every text exactly if no two occurrences overlap
and no value can become a part of an occurrence of another pattern (`alwaysSimultaneous_iff`).
-/

namespace Zeptoclaw.Text

/-- A pattern, and what it is replaced by. -/
structure Rule where
  pat : Str
  value : Str
  deriving DecidableEq

/-- The rules applied one after the other. -/
def replaceEach (rules : List Rule) (s : Str) : Str := rules.foldl (fun s r => replace s r.pat r.value) s

/-- A character, or the occurrence of a pattern. -/
inductive Seg where
  | keep (c : Char)
  | hole (r : Rule)

namespace Seg

def source : Seg → Str
  | keep c => [c]
  | hole r => r.pat

def value : Seg → Str
  | keep c => [c]
  | hole r => r.value

/-- The segment once some of the rules were applied. -/
def render (done : List Rule) : Seg → Str
  | keep c => [c]
  | hole r => if r ∈ done then r.value else r.pat

theorem render_nil (seg : Seg) : seg.render [] = seg.source := by
  cases seg with
  | keep c => rfl
  | hole r =>
    show (if r ∈ [] then r.value else r.pat) = r.pat
    rw [if_neg List.not_mem_nil]

theorem flatMap_keep {f : Seg → Str} (hf : ∀ c, f (.keep c) = [c]) (t : Str) : (t.map keep).flatMap f = t := by
  induction t with
  | nil => rfl
  | cons c t ih =>
    rw [List.map_cons, List.flatMap_cons, ih, hf]
    rfl

theorem hole_mem_around {r a : Rule} {x y : Str} : hole r ∈ x.map keep ++ hole a :: y.map keep ↔ r = a := by simp

/-- A segment is rendered by its value once its rule was applied. -/
theorem flatMap_render {done : List Rule} {segs : List Seg} (h : ∀ r, hole r ∈ segs → r ∈ done) :
    segs.flatMap (render done) = segs.flatMap value := by
  refine List.flatMap_congr fun seg hseg => ?_
  cases seg with
  | keep c => rfl
  | hole r => exact if_pos (h r hseg)

end Seg

/-- The segments of a text in which every occurrence of a pattern is a hole. -/
structure Segments (rules : List Rule) (s : Str) (segs : List Seg) : Prop where
  source : segs.flatMap Seg.source = s
  holes : ∀ r, Seg.hole r ∈ segs → r ∈ rules
  all : ∀ r ∈ rules, ∀ front back, s = front ++ r.pat ++ back →
    ∃ before after, segs = before ++ .hole r :: after ∧ before.flatMap Seg.source = front

/-- Every occurrence of a pattern in the text is replaced, and nothing else is. -/
def Simultaneous (rules : List Rule) (s t : Str) : Prop := ∃ segs, Segments rules s segs ∧ t = segs.flatMap Seg.value

/-- Two occurrences of patterns do not overlap. -/
def Apart (rules : List Rule) : Prop :=
  ∀ r ∈ rules, ∀ r' ∈ rules, ∀ front back front' back', front ++ r.pat ++ back = front' ++ r'.pat ++ back' →
    front.length ≤ front'.length → (front = front' ∧ r = r') ∨ front.length + r.pat.length ≤ front'.length

/-- In some text that has the value the pattern occurs with a part of it, or across it if it is empty. -/
def Touches (value pat : Str) : Prop :=
  ∃ x y front back, x ++ value ++ y = front ++ pat ++ back ∧ front.length < x.length + value.length ∧
    x.length < front.length + pat.length

/-- A pattern that is changed does not touch the value of another rule. -/
def Undisturbed (rules : List Rule) : Prop :=
  ∀ r ∈ rules, ∀ r' ∈ rules, r ≠ r' → r'.value = r'.pat ∨ ¬ Touches r.value r'.pat

/-- With the values of some rules put in, the pattern of another one stands at its own holes only. -/
def OnlyAtHoles (done : List Rule) (segs : List Seg) (e : Rule) : Prop :=
  ∀ before seg after, segs = before ++ seg :: after → seg ≠ .hole e → ∀ w u, w ++ u = seg.render done → u ≠ [] →
    ¬ e.pat <+: u ++ after.flatMap (Seg.render done)

/-- Nothing is captured: when the turn of a rule comes, its pattern stands at its own holes only, or is its own value. -/
def NoCapture (order : List Rule) (segs : List Seg) : Prop :=
  ∀ done e later, order = done ++ e :: later → e.value = e.pat ∨ OnlyAtHoles done segs e

/-! ## One pattern -/

section Replace

variable {pat rep s : Str}

/-- A text is an occurrence and a rest, or the pattern does not stand at its beginning. -/
theorem occurrence_induction {motive : Str → Prop} (nil : motive []) (occurrence : ∀ rest, motive rest → motive (pat ++ rest))
    (other : ∀ c rest, ¬ pat <+: c :: rest → motive rest → motive (c :: rest)) (hpat : pat ≠ []) : ∀ s, motive s := by
  have hall : ∀ n, ∀ s : Str, s.length ≤ n → motive s := by
    intro n
    induction n with
    | zero =>
      intro s hs
      rw [List.length_eq_zero_iff.mp (Nat.le_zero.mp hs)]
      exact nil
    | succ n ih =>
      intro s hs
      cases s with
      | nil => exact nil
      | cons c rest =>
        rw [List.length_cons] at hs
        by_cases hpre : pat <+: c :: rest
        · obtain ⟨rest', hrest⟩ := hpre
          have hlen := congrArg List.length hrest
          have hpos := List.length_pos_iff.mpr hpat
          rw [List.length_append, List.length_cons] at hlen
          rw [← hrest]
          exact occurrence rest' (ih rest' (by omega))
        · exact other c rest hpre (ih rest (by omega))
  exact fun s => hall s.length s le_rfl

theorem replace_pat (hpat : pat ≠ []) (rep s : Str) : replace (pat ++ s) pat rep = rep ++ replace s pat rep :=
  replaceFrom_pat hpat rep s

theorem replace_cons {c : Char} (hpre : ¬ pat <+: c :: s) (rep : Str) :
    replace (c :: s) pat rep = c :: replace s pat rep := by
  unfold replace
  rw [replaceFrom_cons, if_neg hpre]

/-- Text without the first character of the pattern is passed over. -/
theorem replace_past {d : Char} {w m : Str} (hm : d ∉ m) (rep s : Str) :
    replace (m ++ s) (d :: w) rep = m ++ replace s (d :: w) rep := by
  refine replaceFrom_keep (d :: w) rep m s fun u hu hne hpre => ?_
  obtain ⟨c, u, rfl⟩ := List.exists_cons_of_ne_nil hne
  rw [List.cons_append, List.cons_prefix_cons] at hpre
  exact hm (hu.mem (hpre.1 ▸ List.mem_cons_self))

theorem replace_self (hpat : pat ≠ []) (s : Str) : replace s pat pat = s := by
  induction s using occurrence_induction with
  | hpat => exact hpat
  | nil => rfl
  | occurrence rest ih => rw [replace_pat hpat, ih]
  | other c rest hpre ih => rw [replace_cons hpre, ih]

theorem replace_of_absent (rep : Str) (h : ¬ pat <:+: s) : replace s pat rep = s := by
  have hkeep := replaceFrom_keep pat rep s [] fun u hu _ hpre => by
    rw [List.append_nil] at hpre
    exact h (hpre.isInfix.trans hu.isInfix)
  rw [List.append_nil] at hkeep
  unfold replace
  rw [hkeep]
  exact List.append_nil s

/-- The length of the text after so many replacements. -/
theorem length_replace (hpat : pat ≠ []) (rep s : Str) :
    ∃ k, (replace s pat rep).length + k * pat.length = s.length + k * rep.length := by
  induction s using occurrence_induction with
  | hpat => exact hpat
  | nil => exact ⟨0, by simp [replace, replaceFrom]⟩
  | occurrence rest ih =>
    obtain ⟨k, hk⟩ := ih
    refine ⟨k + 1, ?_⟩
    rw [replace_pat hpat, List.length_append, List.length_append, Nat.succ_mul, Nat.succ_mul]
    omega
  | other c rest hpre ih =>
    obtain ⟨k, hk⟩ := ih
    refine ⟨k, ?_⟩
    rw [replace_cons hpre, List.length_cons, List.length_cons]
    omega

/-- A shorter value makes a text with the pattern in it shorter. -/
theorem length_replace_lt (hpat : pat ≠ []) (hlt : rep.length < pat.length) (s : Str) :
    pat <:+: s → (replace s pat rep).length < s.length := by
  induction s using occurrence_induction with
  | hpat => exact hpat
  | nil =>
    intro hin
    exact absurd (List.infix_nil.mp hin) hpat
  | occurrence rest ih =>
    intro _
    obtain ⟨k, hk⟩ := length_replace hpat rep rest
    have := Nat.mul_le_mul_left k hlt.le
    rw [replace_pat hpat, List.length_append, List.length_append]
    omega
  | other c rest hpre ih =>
    intro hin
    have hrest := ih ((List.infix_cons_iff.mp hin).resolve_left hpre)
    rw [replace_cons hpre, List.length_cons, List.length_cons]
    omega

/-- A pattern that occurs is changed by any other value. -/
theorem replace_ne (hpat : pat ≠ []) (hrep : rep ≠ pat) (s : Str) : pat <:+: s → replace s pat rep ≠ s := by
  induction s using occurrence_induction with
  | hpat => exact hpat
  | nil =>
    intro hin
    exact absurd (List.infix_nil.mp hin) hpat
  | occurrence rest ih =>
    intro _ heq
    rw [replace_pat hpat] at heq
    obtain ⟨k, hk⟩ := length_replace hpat rep rest
    have hlen := congrArg List.length heq
    rw [List.length_append, List.length_append] at hlen
    -- all the replacements change the length in the same direction
    have hsame : rep.length = pat.length := by
      rcases Nat.lt_trichotomy rep.length pat.length with hlt | heq | hlt
      · have := Nat.mul_le_mul_left k hlt.le
        omega
      · exact heq
      · have := Nat.mul_le_mul_left k hlt.le
        omega
    exact hrep (List.append_inj_left heq hsame)
  | other c rest hpre ih =>
    intro hin heq
    rw [replace_cons hpre] at heq
    exact ih ((List.infix_cons_iff.mp hin).resolve_left hpre) (List.cons.inj heq).2

end Replace

/-! ## Segments -/

section Segments

variable {rules done : List Rule} {s : Str} {segs : List Seg} {e : Rule}

theorem Seg.source_ne_nil (hpats : ∀ r ∈ rules, r.pat ≠ []) {seg : Seg} (h : ∀ r, seg = .hole r → r ∈ rules) :
    seg.source ≠ [] := by
  cases seg with
  | keep c => exact List.cons_ne_nil c []
  | hole r => exact hpats r (h r rfl)

/-- The segment at a place of the source. -/
theorem seg_at (hpats : ∀ r ∈ rules, r.pat ≠ []) : ∀ {before before' after after' : List Seg} {seg seg' : Seg},
    (∀ r, .hole r ∈ before ++ seg :: after → r ∈ rules) → before ++ seg :: after = before' ++ seg' :: after' →
    before.flatMap Seg.source = before'.flatMap Seg.source → seg = seg' := by
  intro before
  induction before with
  | nil =>
    intro before' after after' seg seg' hholes heq hsource
    cases before' with
    | nil => exact (List.cons.inj heq).1
    | cons seg'' before' =>
      obtain ⟨rfl, -⟩ := List.cons.inj heq
      rw [List.flatMap_nil, List.flatMap_cons] at hsource
      have hnil := (List.append_eq_nil_iff.mp hsource.symm).1
      exact absurd hnil (Seg.source_ne_nil hpats fun r hr => hholes r (by rw [hr]; exact List.mem_cons_self))
  | cons first before ih =>
    intro before' after after' seg seg' hholes heq hsource
    cases before' with
    | nil =>
      rw [List.flatMap_nil, List.flatMap_cons] at hsource
      have hnil := (List.append_eq_nil_iff.mp hsource).1
      exact absurd hnil (Seg.source_ne_nil hpats fun r hr => hholes r (by rw [hr]; exact List.mem_cons_self))
    | cons first' before' =>
      obtain ⟨rfl, hrest⟩ := List.cons.inj heq
      rw [List.flatMap_cons, List.flatMap_cons] at hsource
      exact ih (fun r hr => hholes r (List.mem_cons_of_mem _ hr)) hrest (List.append_cancel_left hsource)

theorem Segments.tail (hpats : ∀ r ∈ rules, r.pat ≠ []) {seg : Seg} (h : Segments rules s (seg :: segs)) :
    Segments rules (segs.flatMap Seg.source) segs := by
  refine ⟨rfl, fun r hr => h.holes r (List.mem_cons_of_mem _ hr), fun r hr front back heq => ?_⟩
  have hwhole : s = (seg.source ++ front) ++ r.pat ++ back := by
    rw [← h.source, List.flatMap_cons, heq]
    simp only [List.append_assoc]
  obtain ⟨before, after, hsegs, hsource⟩ := h.all r hr _ back hwhole
  cases before with
  | nil =>
    have hnil := (List.append_eq_nil_iff.mp hsource.symm).1
    exact absurd hnil (Seg.source_ne_nil hpats fun r hr => h.holes r (by rw [hr]; exact List.mem_cons_self))
  | cons first before =>
    obtain ⟨rfl, hrest⟩ := List.cons.inj hsegs
    rw [List.flatMap_cons] at hsource
    exact ⟨before, after, hrest, List.append_cancel_left hsource⟩

/-- A hole at the beginning of a text is one in all its segments. -/
theorem Segments.head_hole {r : Rule} (hpats : ∀ r ∈ rules, r.pat ≠ []) (h : Segments rules s (.hole r :: segs))
    {segs' : List Seg} (h' : Segments rules s segs') : ∃ rest, segs' = .hole r :: rest := by
  have hwhole : s = [] ++ r.pat ++ segs.flatMap Seg.source := by
    rw [← h.source, List.flatMap_cons]
    rfl
  obtain ⟨before, after, hsegs, hsource⟩ := h'.all r (h.holes r List.mem_cons_self) _ _ hwhole
  cases before with
  | nil => exact ⟨after, hsegs⟩
  | cons first before =>
    have hnil := (List.append_eq_nil_iff.mp hsource).1
    exact absurd hnil (Seg.source_ne_nil hpats fun r hr => h'.holes r (by rw [hsegs, hr]; exact List.mem_cons_self))

/-- A text has one way only to be cut at all occurrences. -/
theorem Segments.unique (hpats : ∀ r ∈ rules, r.pat ≠ []) : ∀ {segs segs' : List Seg} {s : Str}, Segments rules s segs →
    Segments rules s segs' → segs = segs' := by
  intro segs
  induction segs with
  | nil =>
    intro segs' s h h'
    cases segs' with
    | nil => rfl
    | cons seg segs' =>
      have hnil := h'.source
      rw [← h.source, List.flatMap_nil, List.flatMap_cons] at hnil
      have hsource := (List.append_eq_nil_iff.mp hnil).1
      exact absurd hsource (Seg.source_ne_nil hpats fun r hr => h'.holes r (by rw [hr]; exact List.mem_cons_self))
  | cons seg segs ih =>
    intro segs' s h h'
    have hsame : ∃ rest, segs' = seg :: rest := by
      cases seg with
      | hole r => exact h.head_hole hpats h'
      | keep c =>
        have hsource := h.source.trans h'.source.symm
        cases segs' with
        | nil => cases hsource
        | cons seg' segs' =>
          cases seg' with
          | keep c' =>
            obtain ⟨rfl, -⟩ := List.cons.inj hsource
            exact ⟨segs', rfl⟩
          | hole r =>
            obtain ⟨rest, hrest⟩ := h'.head_hole hpats h
            cases hrest
    obtain ⟨rest, rfl⟩ := hsame
    have hsource := h.source.trans h'.source.symm
    rw [List.flatMap_cons, List.flatMap_cons] at hsource
    have htail := h'.tail hpats
    rw [← List.append_cancel_left hsource] at htail
    rw [ih (h.tail hpats) htail]

theorem Segments.nil (hpats : ∀ r ∈ rules, r.pat ≠ []) : Segments rules [] [] := by
  refine ⟨rfl, fun r hr => (nomatch hr), fun r hr front back heq => ?_⟩
  have hnil := (List.append_eq_nil_iff.mp (List.append_eq_nil_iff.mp heq.symm).1).2
  exact absurd hnil (hpats r hr)

/-- An occurrence at the beginning; no other one begins in it. -/
theorem Segments.hole_cons {r : Rule} (hapart : Apart rules) (hr : r ∈ rules) (h : Segments rules s segs) :
    Segments rules (r.pat ++ s) (.hole r :: segs) := by
  refine ⟨?_, fun r' hr' => ?_, fun r' hr' front back heq => ?_⟩
  · rw [List.flatMap_cons, h.source]
    rfl
  · rcases List.mem_cons.mp hr' with heq | hr'
    · cases heq
      exact hr
    · exact h.holes r' hr'
  · rcases hapart r hr r' hr' [] s front back heq (Nat.zero_le _) with ⟨rfl, rfl⟩ | hle
    · exact ⟨[], segs, rfl, rfl⟩
    · have hfront : r.pat <+: front := by
        refine List.prefix_of_prefix_length_le (List.prefix_append r.pat s) ?_ (by simpa using hle)
        rw [heq, List.append_assoc]
        exact List.prefix_append _ _
      obtain ⟨front, rfl⟩ := hfront
      rw [List.append_assoc, List.append_assoc] at heq
      obtain ⟨before, after, hsegs, hsource⟩ := h.all r' hr' front back
        ((List.append_cancel_left heq).trans (List.append_assoc _ _ _).symm)
      refine ⟨.hole r :: before, after, by rw [hsegs]; rfl, ?_⟩
      rw [List.flatMap_cons, hsource]
      rfl

/-- A character at which no occurrence begins. -/
theorem Segments.keep_cons {c : Char} (hno : ¬ ∃ r ∈ rules, r.pat <+: c :: s) (h : Segments rules s segs) :
    Segments rules (c :: s) (.keep c :: segs) := by
  refine ⟨?_, fun r' hr' => ?_, fun r' hr' front back heq => ?_⟩
  · rw [List.flatMap_cons, h.source]
    rfl
  · rcases List.mem_cons.mp hr' with heq | hr'
    · cases heq
    · exact h.holes r' hr'
  · cases front with
    | nil =>
      refine absurd ⟨r', hr', ?_⟩ hno
      rw [heq, List.nil_append]
      exact List.prefix_append _ _
    | cons d front =>
      obtain ⟨rfl, hrest⟩ := List.cons.inj heq
      obtain ⟨before, after, hsegs, hsource⟩ := h.all r' hr' front back hrest
      refine ⟨.keep c :: before, after, by rw [hsegs]; rfl, ?_⟩
      rw [List.flatMap_cons, hsource]
      rfl

/-- Where occurrences do not overlap, a text can be cut at all of them. -/
theorem exists_segments (hpats : ∀ r ∈ rules, r.pat ≠ []) (hapart : Apart rules) : ∀ s, ∃ segs, Segments rules s segs := by
  have hall : ∀ n, ∀ s : Str, s.length ≤ n → ∃ segs, Segments rules s segs := by
    intro n
    induction n with
    | zero =>
      intro s hs
      obtain rfl := List.length_eq_zero_iff.mp (Nat.le_zero.mp hs)
      exact ⟨[], .nil hpats⟩
    | succ n ih =>
      intro s hs
      by_cases hpre : ∃ r ∈ rules, r.pat <+: s
      · obtain ⟨r, hr, rest, rfl⟩ := hpre
        have hpos := List.length_pos_iff.mpr (hpats r hr)
        rw [List.length_append] at hs
        obtain ⟨segs, hsegs⟩ := ih rest (by omega)
        exact ⟨_, hsegs.hole_cons hapart hr⟩
      · cases s with
        | nil => exact ih [] (Nat.zero_le _)
        | cons c rest =>
          rw [List.length_cons] at hs
          obtain ⟨segs, hsegs⟩ := ih rest (by omega)
          exact ⟨_, hsegs.keep_cons hpre⟩
  exact fun s => hall s.length s le_rfl

/-! ## One rule after the other -/

/-- An occurrence that begins before the values it might touch is one in the source. -/
theorem prefix_source {pat : Str} : ∀ {after : List Seg} {u : Str}, u ≠ [] →
    (∀ r, .hole r ∈ after → r ∈ done → ¬ Touches r.value pat) → pat <+: u ++ after.flatMap (Seg.render done) →
    pat <+: u ++ after.flatMap Seg.source := by
  intro after
  induction after with
  | nil => exact fun _ _ h => h
  | cons seg after ih =>
    intro u hu htouch h
    by_cases hlong : pat.length ≤ u.length
    · exact (List.prefix_of_prefix_length_le h (List.prefix_append u _) hlong).trans (List.prefix_append u _)
    rw [List.flatMap_cons, ← List.append_assoc] at h ⊢
    have hrest := fun r hr => htouch r (List.mem_cons_of_mem _ hr)
    by_cases hsame : seg.render done = seg.source
    · rw [hsame] at h
      exact ih (List.append_ne_nil_of_left_ne_nil hu _) hrest h
    · -- the occurrence would go on in a value
      cases seg with
      | keep c => exact absurd rfl hsame
      | hole r =>
        by_cases hdone : r ∈ done
        · obtain ⟨back, hback⟩ := h
          have hrender : (Seg.hole r).render done = r.value := if_pos hdone
          refine absurd ⟨u, after.flatMap (Seg.render done), [], back, ?_, ?_, ?_⟩ (htouch r List.mem_cons_self hdone)
          · rw [List.nil_append, hback, hrender]
          · have hpos := List.length_pos_iff.mpr hu
            rw [List.length_nil]
            omega
          · rw [List.length_nil]
            omega
        · exact absurd (if_neg hdone) hsame

/-- In the source an occurrence begins at its own hole only. -/
theorem not_prefix_source (hpats : ∀ r ∈ rules, r.pat ≠ []) (hapart : Apart rules) (hsegs : Segments rules s segs)
    (he : e ∈ rules) {before after : List Seg} {seg : Seg} (heq : segs = before ++ seg :: after) (hhole : seg ≠ .hole e)
    {w u : Str} (hw : w ++ u = seg.source) (hne : u ≠ []) : ¬ e.pat <+: u ++ after.flatMap Seg.source := by
  rintro ⟨back, hback⟩
  have hsource : s = before.flatMap Seg.source ++ (seg.source ++ after.flatMap Seg.source) := by
    rw [← hsegs.source, heq, List.flatMap_append, List.flatMap_cons]
  have hocc : s = (before.flatMap Seg.source ++ w) ++ e.pat ++ back := by
    rw [hsource, ← hw]
    simp only [List.append_assoc]
    rw [← hback]
  have hpos := List.length_pos_iff.mpr hne
  have hlen := congrArg List.length hw
  rw [List.length_append] at hlen
  cases seg with
  | keep c =>
    have hw' : w = [] := by
      rw [Seg.source, List.length_singleton] at hlen
      exact List.length_eq_zero_iff.mp (by omega)
    rw [hw', List.append_nil] at hocc
    obtain ⟨before', after', heq', hsource'⟩ := hsegs.all e he _ _ hocc
    exact hhole (seg_at hpats (by rw [← heq]; exact hsegs.holes) (heq.symm.trans heq') hsource'.symm)
  | hole r =>
    have hr : r ∈ rules := hsegs.holes r (by rw [heq]; simp)
    have hocc' : s = before.flatMap Seg.source ++ r.pat ++ after.flatMap Seg.source := by
      rw [hsource, List.append_assoc]
      rfl
    rw [Seg.source] at hlen
    rcases hapart r hr e he _ _ _ _ (hocc'.symm.trans hocc) (by simp) with ⟨-, rfl⟩ | hle
    · exact hhole rfl
    · rw [List.length_append] at hle
      omega

/-- Neither does one begin elsewhere with the values put in that the pattern does not touch. -/
theorem onlyAtHoles_of_not_touches (hpats : ∀ r ∈ rules, r.pat ≠ []) (hapart : Apart rules) (hsegs : Segments rules s segs)
    (he : e ∈ rules) (htouch : ∀ r ∈ done, ¬ Touches r.value e.pat) : OnlyAtHoles done segs e := by
  intro before seg after heq hhole w u hw hne hpre
  by_cases hsame : seg.render done = seg.source
  · have hafter : ∀ r, .hole r ∈ after → r ∈ done → ¬ Touches r.value e.pat := fun r _ hr => htouch r hr
    exact not_prefix_source hpats hapart hsegs he heq hhole (hw.trans hsame) hne (prefix_source hne hafter hpre)
  · -- it would begin in a value
    cases seg with
    | keep c => exact hsame rfl
    | hole r =>
      by_cases hdone : r ∈ done
      · obtain ⟨back, hback⟩ := hpre
        have hrender : (Seg.hole r).render done = r.value := if_pos hdone
        have hpos := List.length_pos_iff.mpr hne
        have hpos' := List.length_pos_iff.mpr (hpats e he)
        rw [hrender] at hw
        refine htouch r hdone ⟨[], after.flatMap (Seg.render done), w, back, ?_, ?_, ?_⟩
        · rw [← hw, List.nil_append, List.append_assoc, ← hback, List.append_assoc]
        · rw [← hw, List.length_nil, List.length_append]
          omega
        · rw [List.length_nil]
          omega
      · exact hsame (if_neg hdone)

/-- **One rule applied**: the occurrences of its pattern are the holes that it has. -/
theorem replace_render (hpat : e.pat ≠ []) (hnew : e ∉ done) (honly : OnlyAtHoles done segs e) :
    replace (segs.flatMap (Seg.render done)) e.pat e.value = segs.flatMap (Seg.render (done ++ [e])) := by
  have hall : ∀ after before, segs = before ++ after → replaceFrom e.pat e.value 0 (after.flatMap (Seg.render done)) =
      after.flatMap (Seg.render (done ++ [e])) := by
    intro after
    induction after with
    | nil => exact fun _ _ => rfl
    | cons seg after ih =>
      intro before heq
      have hnext := ih (before ++ [seg]) (by rw [heq, List.append_assoc]; rfl)
      rw [List.flatMap_cons, List.flatMap_cons]
      by_cases hhole : seg = .hole e
      · subst hhole
        have hrender : (Seg.hole e).render done = e.pat := if_neg hnew
        have hrender' : (Seg.hole e).render (done ++ [e]) = e.value := if_pos (by simp)
        rw [hrender, hrender', replaceFrom_pat hpat, hnext]
      · have hkept : seg.render (done ++ [e]) = seg.render done := by
          cases seg with
          | keep c => rfl
          | hole r =>
            have hne : r ≠ e := fun h => hhole (by rw [h])
            show (if r ∈ done ++ [e] then _ else _) = if r ∈ done then _ else _
            simp [hne]
        rw [hkept, replaceFrom_keep, hnext]
        rintro u ⟨w, hw⟩ hne
        exact honly before seg after heq hhole w u hw hne
  exact hall segs [] rfl

/-- A rule that changes nothing. -/
theorem render_self (he : e.value = e.pat) : Seg.render (done ++ [e]) = Seg.render done := by
  funext seg
  cases seg with
  | keep c => rfl
  | hole r =>
    show (if r ∈ done ++ [e] then _ else _) = if r ∈ done then _ else _
    by_cases hr : r = e
    · subst hr
      simp [he]
    · simp [hr]

/-- All rules applied: each finds its own holes and leaves the others. -/
theorem replaceEach_render : ∀ {todo done : List Rule}, (∀ r ∈ done ++ todo, r.pat ≠ []) → (done ++ todo).Nodup →
    (∀ done' e later, todo = done' ++ e :: later → e.value = e.pat ∨ OnlyAtHoles (done ++ done') segs e) →
    replaceEach todo (segs.flatMap (Seg.render done)) = segs.flatMap (Seg.render (done ++ todo)) := by
  intro todo
  induction todo with
  | nil =>
    intro done _ _ _
    rw [List.append_nil]
    rfl
  | cons e todo ih =>
    intro done hpats hnodup hfree
    have hpat : e.pat ≠ [] := hpats e (by simp)
    have hnew : e ∉ done := fun hmem => (List.nodup_append.mp hnodup).2.2 e hmem e List.mem_cons_self rfl
    have hstep : replace (segs.flatMap (Seg.render done)) e.pat e.value = segs.flatMap (Seg.render (done ++ [e])) := by
      rcases hfree [] e todo rfl with hself | honly
      · rw [hself, replace_self hpat, render_self hself]
      · rw [List.append_nil] at honly
        exact replace_render hpat hnew honly
    have hlater : ∀ done' e' later, todo = done' ++ e' :: later →
        e'.value = e'.pat ∨ OnlyAtHoles (done ++ [e] ++ done') segs e' := by
      intro done' e' later heq
      rw [List.append_assoc]
      exact hfree (e :: done') e' later (by rw [heq]; rfl)
    rw [List.append_cons] at hpats hnodup ⊢
    show replaceEach todo (replace _ e.pat e.value) = _
    rw [hstep, ih hpats hnodup hlater]

/-- **On one text and in one order the patterns are replaced at once**, if nothing is captured. -/
theorem simultaneous_of_noCapture (hpats : ∀ r ∈ rules, r.pat ≠ []) (hnodup : rules.Nodup) {order : List Rule}
    (hperm : order.Perm rules) (hsegs : Segments rules s segs) (hfree : NoCapture order segs) :
    Simultaneous rules s (replaceEach order s) := by
  refine ⟨segs, hsegs, ?_⟩
  have hrun : replaceEach order (segs.flatMap (Seg.render [])) = segs.flatMap (Seg.render ([] ++ order)) :=
    replaceEach_render (fun r hr => hpats r (hperm.subset hr)) (hperm.nodup_iff.mpr hnodup) hfree
  rw [show Seg.render [] = Seg.source from funext Seg.render_nil, hsegs.source, List.nil_append] at hrun
  rw [hrun]
  exact Seg.flatMap_render fun r hr => hperm.symm.subset (hsegs.holes r hr)

/-- Undisturbed values capture nothing, in any order. -/
theorem Undisturbed.noCapture (hpats : ∀ r ∈ rules, r.pat ≠ []) (hnodup : rules.Nodup) (hapart : Apart rules)
    (hclear : Undisturbed rules) (hsegs : Segments rules s segs) {order : List Rule} (hperm : order.Perm rules) :
    NoCapture order segs := by
  intro done e later heq
  subst heq
  have he : e ∈ rules := hperm.subset (by simp)
  by_cases hself : e.value = e.pat
  · exact .inl hself
  · refine .inr (onlyAtHoles_of_not_touches hpats hapart hsegs he fun r hr => ?_)
    have hne : r ≠ e := by
      rintro rfl
      exact (List.nodup_append.mp (hperm.nodup_iff.mpr hnodup)).2.2 r hr r List.mem_cons_self rfl
    exact (hclear r (hperm.subset (List.mem_append_left _ hr)) e he hne).resolve_left hself

/-! ## Where the order matters -/

/-- A pattern is not a part of another one. -/
theorem Apart.not_infix (hpats : ∀ r ∈ rules, r.pat ≠ []) (hapart : Apart rules) {r r' : Rule} (hr : r ∈ rules)
    (hr' : r' ∈ rules) {t : Str} (ht : t <:+: r'.pat) (hlt : t.length < r'.pat.length) : ¬ r.pat <:+: t := by
  intro hin
  obtain ⟨front, back, hpat⟩ := hin.trans ht
  have hle := hin.length_le
  have hpos := List.length_pos_iff.mpr (hpats r hr)
  have hlen := congrArg List.length hpat
  rw [List.length_append, List.length_append] at hlen
  have hocc : [] ++ r'.pat ++ [] = front ++ r.pat ++ back := by rw [hpat, List.nil_append, List.append_nil]
  rcases hapart r' hr' r hr _ _ _ _ hocc (Nat.zero_le _) with ⟨-, rfl⟩ | hover
  · omega
  · rw [List.length_nil] at hover
    omega

/-- A value is touched in a text that has only a part of the pattern on either side of it. -/
theorem Touches.trim {value pat : Str} (h : Touches value pat) (hne : pat ≠ []) : ∃ x y, pat <:+: x ++ value ++ y ∧
    (x <:+: pat ∧ x.length < pat.length) ∧ y <:+: pat ∧ y.length < pat.length := by
  obtain ⟨x, y, front, back, heq, hend, hbegin⟩ := h
  have hpat := List.length_pos_iff.mpr hne
  -- what stands before the occurrence is cut off
  obtain ⟨x', front', heq', ⟨hx, hxlen⟩, hend'⟩ : ∃ x' front', x' ++ value ++ y = front' ++ pat ++ back ∧
      (x' <:+: pat ∧ x'.length < pat.length) ∧ front'.length < x'.length + value.length := by
    rw [List.append_assoc, List.append_assoc] at heq
    rcases List.append_eq_append_iff.mp heq with ⟨a, rfl, hrest⟩ | ⟨c, rfl, hrest⟩
    · rw [List.length_append] at hend
      refine ⟨[], a, ?_, ⟨List.nil_infix, hpat⟩, by rw [List.length_nil]; omega⟩
      rw [List.nil_append, hrest, List.append_assoc]
    · rw [List.length_append] at hbegin hend
      have hlt : c.length < pat.length := by omega
      have hpre : c <+: pat := by
        refine List.prefix_of_prefix_length_le (List.prefix_append c (value ++ y)) ?_ hlt.le
        rw [← hrest]
        exact List.prefix_append _ _
      refine ⟨c, [], ?_, ⟨hpre.isInfix, hlt⟩, by rw [List.length_nil]; omega⟩
      rw [List.append_assoc, ← hrest, List.nil_append]
  -- and what stands behind it
  rcases List.append_eq_append_iff.mp heq' with ⟨a, hfront, rfl⟩ | ⟨c, hfront, -⟩
  · have hlen := congrArg List.length hfront
    simp only [List.length_append] at hlen
    have hlt : a.length < pat.length := by omega
    have hsuf : a <:+ pat := by
      refine List.suffix_of_suffix_length_le (List.suffix_append (x' ++ value) a) ?_ hlt.le
      rw [← hfront]
      exact List.suffix_append _ _
    refine ⟨x', a, ?_, ⟨hx, hxlen⟩, hsuf.isInfix, hlt⟩
    rw [← hfront]
    exact (List.suffix_append front' pat).isInfix
  · refine ⟨x', [], ?_, ⟨hx, hxlen⟩, List.nil_infix, hpat⟩
    rw [hfront, List.append_nil]
    exact ⟨front', c, by simp only [List.append_assoc]⟩

/-- A text with one occurrence, and parts of a pattern on both sides. -/
theorem segments_around (hpats : ∀ r ∈ rules, r.pat ≠ []) (hapart : Apart rules) {a b : Rule} (ha : a ∈ rules) (hb : b ∈ rules)
    {x y : Str} (hx : x <:+: b.pat ∧ x.length < b.pat.length) (hy : y <:+: b.pat ∧ y.length < b.pat.length) :
    Segments rules (x ++ a.pat ++ y) (x.map .keep ++ .hole a :: y.map .keep) := by
  refine ⟨?_, fun r hr => ?_, fun r hr front back heq => ?_⟩
  · rw [List.flatMap_append, List.flatMap_cons, Seg.flatMap_keep fun _ => rfl, Seg.flatMap_keep fun _ => rfl,
      List.append_assoc]
    rfl
  · rw [Seg.hole_mem_around.mp hr]
    exact ha
  · -- the occurrence is that of the one pattern, as there is none in the parts
    have hsame : front = x ∧ r = a := by
      rcases Nat.le_total front.length x.length with hle | hle
      · rcases hapart r hr a ha front back x y heq.symm hle with hsame | hover
        · exact hsame
        · have hpre : front ++ r.pat <+: x := by
            refine List.prefix_of_prefix_length_le (List.prefix_append _ back) ?_ (by rw [List.length_append]; exact hover)
            rw [← heq, List.append_assoc]
            exact List.prefix_append _ _
          have hin : r.pat <:+: x := (List.suffix_append front r.pat).isInfix.trans hpre.isInfix
          exact absurd hin (hapart.not_infix hpats hr hb hx.1 hx.2)
      · rcases hapart a ha r hr x y front back heq hle with ⟨rfl, rfl⟩ | hover
        · exact ⟨rfl, rfl⟩
        · have hsuf : r.pat ++ back <:+ y := by
            have hlen := congrArg List.length heq
            simp only [List.length_append] at hlen
            refine List.suffix_of_suffix_length_le (List.suffix_append front _) ?_ (by rw [List.length_append]; omega)
            rw [← List.append_assoc, ← heq]
            exact List.suffix_append _ _
          have hin : r.pat <:+: y := (List.prefix_append r.pat back).isInfix.trans hsuf.isInfix
          exact absurd hin (hapart.not_infix hpats hr hb hy.1 hy.2)
    obtain ⟨rfl, rfl⟩ := hsame
    exact ⟨front.map .keep, y.map .keep, rfl, Seg.flatMap_keep (fun _ => rfl) front⟩

theorem replaceEach_append (rules rules' : List Rule) (s : Str) :
    replaceEach (rules ++ rules') s = replaceEach rules' (replaceEach rules s) := List.foldl_append

/-- Rules whose patterns do not occur change nothing. -/
theorem replaceEach_absent : ∀ {rules : List Rule}, (∀ r ∈ rules, ¬ r.pat <:+: s) → replaceEach rules s = s := by
  intro rules
  induction rules with
  | nil => exact fun _ => rfl
  | cons r rules ih =>
    intro h
    show replaceEach rules (replace s r.pat r.value) = s
    rw [replace_of_absent r.value (h r List.mem_cons_self)]
    exact ih fun r' hr' => h r' (List.mem_cons_of_mem _ hr')

/-- The rules replace all their patterns at once, on every text and in every order. -/
def AlwaysSimultaneous (rules : List Rule) : Prop :=
  ∀ s order, order.Perm rules → Simultaneous rules s (replaceEach order s)

theorem AlwaysSimultaneous.apart (hpats : ∀ r ∈ rules, r.pat ≠ []) (hall : AlwaysSimultaneous rules) : Apart rules := by
  intro r hr r' hr' front back front' back' heq hle
  obtain ⟨segs, hsegs, -⟩ := hall (front ++ r.pat ++ back) rules (List.Perm.refl rules)
  obtain ⟨before, after, hsplit, hsource⟩ := hsegs.all r hr front back rfl
  obtain ⟨before', after', hsplit', hsource'⟩ := hsegs.all r' hr' front' back' heq
  rcases List.append_eq_append_iff.mp (hsplit.symm.trans hsplit') with ⟨more, rfl, hmore⟩ | ⟨more, rfl, hmore⟩
  · cases more with
    | nil =>
      rw [List.append_nil] at hsource'
      cases (List.cons.inj hmore).1
      exact .inl ⟨hsource.symm.trans hsource', rfl⟩
    | cons seg more =>
      obtain ⟨rfl, -⟩ := List.cons.inj hmore
      right
      rw [← hsource', ← hsource, List.flatMap_append, List.flatMap_cons, List.length_append, List.length_append]
      show _ + r.pat.length ≤ _ + (r.pat.length + _)
      omega
  · cases more with
    | nil =>
      rw [List.append_nil] at hsource
      cases (List.cons.inj hmore).1
      exact .inl ⟨hsource.symm.trans hsource', rfl⟩
    | cons seg more =>
      obtain ⟨rfl, -⟩ := List.cons.inj hmore
      have hpos := List.length_pos_iff.mpr (hpats r' hr')
      rw [← hsource, ← hsource', List.flatMap_append, List.flatMap_cons, List.length_append, List.length_append] at hle
      have hpat : (Seg.hole r').source.length = r'.pat.length := rfl
      omega

/-- Two rules are put behind the others. -/
theorem perm_last_two {a b : Rule} (hnodup : rules.Nodup) (ha : a ∈ rules) (hb : b ∈ rules) (hne : a ≠ b) :
    (rules.filter (fun r => r ≠ a ∧ r ≠ b) ++ [a, b]).Perm rules := by
  refine (List.perm_ext_iff_of_nodup ?_ hnodup).mpr fun r => ?_
  · refine List.nodup_append.mpr ⟨hnodup.filter _, by simp [hne], fun r hr r' hr' heq => ?_⟩
    have hother := (List.mem_filter.mp hr).2
    subst heq
    rcases List.mem_cons.mp hr' with rfl | hr'
    · simp at hother
    · rw [List.mem_singleton.mp hr'] at hother
      simp at hother
  · by_cases hra : r = a
    · subst hra
      simp [ha]
    · by_cases hrb : r = b
      · subst hrb
        simp [hb]
      · simp [hra, hrb]

theorem AlwaysSimultaneous.undisturbed (hpats : ∀ r ∈ rules, r.pat ≠ []) (hnodup : rules.Nodup)
    (hall : AlwaysSimultaneous rules) : Undisturbed rules := by
  intro a ha b hb hne
  by_contra hno
  rw [not_or, not_not] at hno
  obtain ⟨hvalue, htouch⟩ := hno
  have hapart := hall.apart hpats
  obtain ⟨x, y, hin, hx, hy⟩ := htouch.trim (hpats b hb)
  have hsegs := segments_around hpats hapart ha hb hx hy
  have hvalues : (x.map Seg.keep ++ Seg.hole a :: y.map Seg.keep).flatMap Seg.value = x ++ a.value ++ y := by
    rw [List.flatMap_append, List.flatMap_cons, Seg.flatMap_keep fun _ => rfl, Seg.flatMap_keep fun _ => rfl,
      List.append_assoc]
    rfl
  -- the other rules first, which do nothing, then the two
  obtain ⟨segs, hsegs', hresult⟩ := hall _ _ (perm_last_two hnodup ha hb hne)
  rw [← hsegs.unique hpats hsegs', hvalues] at hresult
  have hrest : replaceEach (rules.filter fun r => r ≠ a ∧ r ≠ b) (x ++ a.pat ++ y) = x ++ a.pat ++ y := by
    refine replaceEach_absent fun r hr hocc => ?_
    obtain ⟨hr, hother⟩ := List.mem_filter.mp hr
    obtain ⟨front, back, heq⟩ := hocc
    obtain ⟨before, after, hsplit, -⟩ := hsegs.all r hr front back heq.symm
    have hsame : r = a := Seg.hole_mem_around.mp (by rw [hsplit]; simp)
    simp [hsame] at hother
  have hfirst : replace (x ++ a.pat ++ y) a.pat a.value = x ++ a.value ++ y := by
    have hstep := replace_render (hpats a ha) (List.not_mem_nil (a := a))
      (onlyAtHoles_of_not_touches hpats hapart hsegs ha fun r hr => (nomatch hr))
    rw [show Seg.render [] = Seg.source from funext Seg.render_nil, hsegs.source, Seg.flatMap_render fun r hr => by
      rw [Seg.hole_mem_around.mp hr]; exact List.mem_singleton_self a] at hstep
    rw [hstep, hvalues]
  rw [replaceEach_append, hrest] at hresult
  change replace (replace (x ++ a.pat ++ y) a.pat a.value) b.pat b.value = _ at hresult
  rw [hfirst] at hresult
  exact replace_ne (hpats b hb) hvalue _ hin hresult

/-- **Rules that are applied one after the other replace all their patterns at once, on every text and in every order,
exactly if no occurrences overlap and no value disturbs another pattern.** -/
theorem alwaysSimultaneous_iff (hpats : ∀ r ∈ rules, r.pat ≠ []) (hnodup : rules.Nodup) :
    AlwaysSimultaneous rules ↔ Apart rules ∧ Undisturbed rules := by
  constructor
  · intro hall
    exact ⟨hall.apart hpats, hall.undisturbed hpats hnodup⟩
  · rintro ⟨hapart, hclear⟩ s order hperm
    obtain ⟨segs, hsegs⟩ := exists_segments hpats hapart s
    exact simultaneous_of_noCapture hpats hnodup hperm hsegs (hclear.noCapture hpats hnodup hapart hsegs hperm)

end Segments

end Zeptoclaw.Text

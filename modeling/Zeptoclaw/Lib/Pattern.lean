import Zeptoclaw.Lib.Text
import Mathlib.Data.List.Chain

/-!
# Patterns with groups

Regular expressions with groups, assertions about the neighbouring characters, and greedy or lazy repetitions of a
class, over any alphabet. `ways` lists the matches at a place in the order in which a leftmost-first engine prefers
them; `scan` cuts a text into the matches that such an engine finds one after the other and what stands between them.
`Rewrites` is what a replacement of all matches does to a text, whatever the engine prefers.
-/

namespace Zeptoclaw

inductive Pattern (α : Type*) where
  | empty
  | cls (p : α → Bool)
  | seq (r r' : Pattern α)
  | alt (r r' : Pattern α)
  -- a class, at least `min` and at most `max` times, as often or as seldom as possible
  | rep (p : α → Bool) (min : ℕ) (max : Option ℕ) (lazy : Bool)
  | group (n : ℕ) (r : Pattern α)
  -- an assertion about the character before and the one behind
  | look (p : Option α → Option α → Bool)

/-- A match at the beginning of a text, with its groups and what it leaves. -/
structure Way (α : Type*) where
  text : List α
  groups : List (ℕ × List α)
  rest : List α
  deriving DecidableEq

namespace Way

variable {α : Type*}

/-- The text of a group; a group without a match is empty. -/
def get (w : Way α) (n : ℕ) : List α := ((w.groups.find? fun g => g.1 == n).map Prod.snd).getD []

/-- One match behind another. -/
def append (w w' : Way α) : Way α := ⟨w.text ++ w'.text, w.groups ++ w'.groups, w'.rest⟩

end Way

namespace Pattern

variable {α : Type*}

/-- The character before the place behind a match. -/
def behind (before : Option α) (text : List α) : Option α := text.getLast?.or before

/-- The matches of a repetition. -/
def repWays (p : α → Bool) (lazy : Bool) : ℕ → Option ℕ → List α → List (Way α)
  | min, _, [] => if min = 0 then [⟨[], [], []⟩] else []
  | min, max, c :: s =>
    let more := if p c ∧ max ≠ some 0 then
      (repWays p lazy (min - 1) (max.map (· - 1)) s).map fun w => { w with text := c :: w.text } else []
    let stop := if min = 0 then [⟨[], [], c :: s⟩] else []
    if lazy then stop ++ more else more ++ stop

/-- The matches at the beginning of the text, in the order of preference. -/
def ways : Pattern α → Option α → List α → List (Way α)
  | .empty, _, s => [⟨[], [], s⟩]
  | .cls _, _, [] => []
  | .cls p, _, c :: s => if p c then [⟨[c], [], s⟩] else []
  | .seq r r', before, s =>
    (r.ways before s).flatMap fun w => (r'.ways (behind before w.text) w.rest).map w.append
  | .alt r r', before, s => r.ways before s ++ r'.ways before s
  | .rep p min max lazy, _, s => repWays p lazy min max s
  | .group n r, before, s => (r.ways before s).map fun w => { w with groups := (n, w.text) :: w.groups }
  | .look p, before, s => if p before s.head? then [⟨[], [], s⟩] else []

/-- A fixed text. -/
def lit [DecidableEq α] : List α → Pattern α
  | [] => .empty
  | c :: s => .seq (.cls fun d => d = c) (lit s)

/-- Patterns one after the other. -/
def cat : List (Pattern α) → Pattern α
  | [] => .empty
  | [r] => r
  | r :: rs => .seq r (cat rs)

/-- A part of a scanned text. -/
inductive Piece (α : Type*) where
  | keep (c : α)
  | hit (w : Way α)

/-- The scan; the first `skip` characters belong to the match before. An empty match is passed over. -/
def scanFrom (r : Pattern α) : ℕ → Option α → List α → List (Piece α)
  | _, _, [] => []
  | skip + 1, _, c :: s => scanFrom r skip (some c) s
  | 0, before, c :: s =>
    match (r.ways before (c :: s)).head? with
    | some ⟨d :: t, groups, rest⟩ => .hit ⟨d :: t, groups, rest⟩ :: scanFrom r t.length (some c) s
    | _ => .keep c :: scanFrom r 0 (some c) s

def scan (r : Pattern α) (s : List α) : List (Piece α) := scanFrom r 0 none s

def Piece.hit? : Piece α → Option (Way α)
  | .keep _ => none
  | .hit w => some w

/-- The matches, one after the other. -/
def capturesIter (r : Pattern α) (s : List α) : List (Way α) := (r.scan s).filterMap Piece.hit?

/-- Every match replaced. -/
def replaceAll (r : Pattern α) (f : Way α → List α) (s : List α) : List α :=
  (r.scan s).flatMap fun
    | .keep c => [c]
    | .hit w => f w

/-! ## Matches -/

section Ways

attribute [local simp] ways repWays

variable {r r' : Pattern α} {before : Option α} {s : List α} {w : Way α} {p : α → Bool} {min : ℕ} {max : Option ℕ}
  {lazy : Bool}

theorem mem_ways_cls : w ∈ (cls p).ways before s ↔ ∃ c t, p c = true ∧ s = c :: t ∧ w = ⟨[c], [], t⟩ := by
  cases s with
  | nil => simp
  | cons c s =>
    simp only [ways]
    split
    · rename_i hc
      simp [hc]
    · rename_i hc
      simp only [List.not_mem_nil, false_iff]
      rintro ⟨d, t, hd, hs, -⟩
      obtain ⟨rfl, -⟩ := List.cons.inj hs
      exact hc hd

theorem mem_ways_seq : w ∈ (seq r r').ways before s ↔
    ∃ u ∈ r.ways before s, ∃ v ∈ r'.ways (behind before u.text) u.rest, w = u.append v := by
  simp only [ways, List.mem_flatMap, List.mem_map]
  refine exists_congr fun u => and_congr_right fun _ => exists_congr fun v => and_congr_right fun _ => ?_
  exact eq_comm

theorem mem_ways_alt : w ∈ (alt r r').ways before s ↔ w ∈ r.ways before s ∨ w ∈ r'.ways before s := List.mem_append

theorem mem_ways_group {n : ℕ} : w ∈ (group n r).ways before s ↔
    ∃ u ∈ r.ways before s, w = ⟨u.text, (n, u.text) :: u.groups, u.rest⟩ := by
  simp only [ways, List.mem_map]
  refine exists_congr fun u => and_congr_right fun _ => ?_
  exact eq_comm

theorem mem_ways_look {q : Option α → Option α → Bool} :
    w ∈ (look q).ways before s ↔ q before s.head? = true ∧ w = ⟨[], [], s⟩ := by
  simp only [ways]
  split
  · rename_i hq
    simp [hq]
  · rename_i hq
    simp [hq]

theorem mem_repWays_cons {c : α} : w ∈ repWays p lazy min max (c :: s) ↔
    (p c = true ∧ max ≠ some 0 ∧ ∃ u ∈ repWays p lazy (min - 1) (max.map (· - 1)) s, w = ⟨c :: u.text, u.groups, u.rest⟩) ∨
      (min = 0 ∧ w = ⟨[], [], c :: s⟩) := by
  have hmore : (w ∈ if p c = true ∧ max ≠ some 0 then (repWays p lazy (min - 1) (max.map (· - 1)) s).map
      (fun u => { u with text := c :: u.text }) else []) ↔ (p c = true ∧ max ≠ some 0 ∧
        ∃ u ∈ repWays p lazy (min - 1) (max.map (· - 1)) s, w = ⟨c :: u.text, u.groups, u.rest⟩) := by
    split
    · rename_i hc
      simp [hc, eq_comm]
    · rename_i hc
      rw [← and_assoc]
      simp [hc]
  have hstop : (w ∈ if min = 0 then [(⟨[], [], c :: s⟩ : Way α)] else []) ↔ (min = 0 ∧ w = ⟨[], [], c :: s⟩) := by
    split
    · rename_i hmin
      simp [hmin]
    · rename_i hmin
      simp [hmin]
  rw [← hmore, ← hstop, repWays]
  split
  · rw [List.mem_append, or_comm]
  · rw [List.mem_append]

/-- The matches of a repetition are the texts of the class whose length is within the bounds. -/
theorem mem_repWays : ∀ {s : List α} {w : Way α} {min : ℕ} {max : Option ℕ}, w ∈ repWays p lazy min max s ↔
    s = w.text ++ w.rest ∧ w.groups = [] ∧ min ≤ w.text.length ∧ (∀ m ∈ max, w.text.length ≤ m) ∧
      ∀ c ∈ w.text, p c = true := by
  intro s
  induction s with
  | nil =>
    rintro ⟨text, groups, rest⟩ min max
    simp only [repWays, List.nil_eq_append_iff]
    split
    · rename_i hmin
      simp only [List.mem_singleton, Way.mk.injEq]
      constructor
      · rintro ⟨rfl, rfl, rfl⟩
        simp [hmin]
      · rintro ⟨⟨rfl, rfl⟩, rfl, -⟩
        exact ⟨rfl, rfl, rfl⟩
    · rename_i hmin
      simp only [List.not_mem_nil, false_iff]
      rintro ⟨⟨rfl, -⟩, -, hle, -⟩
      exact hmin (Nat.le_zero.mp hle)
  | cons c s ih =>
    rintro ⟨text, groups, rest⟩ min max
    rw [mem_repWays_cons]
    constructor
    · rintro (⟨hc, hmax, u, hu, hw⟩ | ⟨hmin, hw⟩)
      · obtain ⟨rfl, rfl, rfl⟩ := Way.mk.inj hw
        obtain ⟨hs, hgroups, hlen, hbound, hall⟩ := ih.mp hu
        refine ⟨by rw [hs]; rfl, hgroups, by rw [List.length_cons]; omega, ?_, List.forall_mem_cons.mpr ⟨hc, hall⟩⟩
        intro m hm
        obtain rfl : max = some m := hm
        have hpred := hbound (m - 1) rfl
        have hpos : m ≠ 0 := fun h0 => hmax (by rw [h0])
        rw [List.length_cons]
        omega
      · obtain ⟨rfl, rfl, rfl⟩ := Way.mk.inj hw
        simp [hmin]
    · rintro ⟨hs, hgroups, hlen, hbound, hall⟩
      cases text with
      | nil =>
        refine .inr ⟨Nat.le_zero.mp hlen, ?_⟩
        rw [List.nil_append] at hs
        rw [hs, show groups = [] from hgroups]
      | cons d text =>
        obtain ⟨rfl, hrest⟩ := List.cons.inj hs
        obtain ⟨hc, hall'⟩ := List.forall_mem_cons.mp hall
        refine .inl ⟨hc, ?_, ⟨text, groups, rest⟩, ih.mpr ⟨hrest, hgroups, ?_, ?_, hall'⟩, rfl⟩
        · rintro rfl
          exact absurd (hbound 0 rfl) (by simp)
        · rw [List.length_cons] at hlen
          show min - 1 ≤ text.length
          omega
        · intro m hm
          obtain ⟨m', hm', rfl⟩ := Option.map_eq_some_iff.mp hm
          have hle := hbound m' hm'
          rw [List.length_cons] at hle
          show text.length ≤ m' - 1
          omega

theorem mem_ways_rep : w ∈ (rep p min max lazy).ways before s ↔
    ∃ text rest, s = text ++ rest ∧ min ≤ text.length ∧ (∀ m ∈ max, text.length ≤ m) ∧ (∀ c ∈ text, p c = true) ∧
      w = ⟨text, [], rest⟩ := by
  rw [ways, mem_repWays]
  constructor
  · rintro ⟨hs, hgroups, hlen, hbound, hall⟩
    exact ⟨w.text, w.rest, hs, hlen, hbound, hall, by rw [← hgroups]⟩
  · rintro ⟨text, rest, hs, hlen, hbound, hall, rfl⟩
    exact ⟨hs, rfl, hlen, hbound, hall⟩

/-- The match of a repetition in a group. -/
theorem mem_ways_capture {n : ℕ} (h : w ∈ (group n (rep p min max lazy)).ways before s) :
    ∃ text rest, w = ⟨text, [(n, text)], rest⟩ := by
  obtain ⟨u, hu, rfl⟩ := mem_ways_group.mp h
  obtain ⟨text, rest, -, -, -, -, rfl⟩ := mem_ways_rep.mp hu
  exact ⟨text, rest, rfl⟩

theorem mem_ways_lit [DecidableEq α] : ∀ {t s : List α} {before : Option α} {w : Way α},
    w ∈ (lit t).ways before s ↔ ∃ rest, s = t ++ rest ∧ w = ⟨t, [], rest⟩ := by
  intro t
  induction t with
  | nil =>
    intro s before w
    simp [lit]
  | cons c t ih =>
    intro s before w
    rw [lit, mem_ways_seq]
    constructor
    · rintro ⟨u, hu, v, hv, rfl⟩
      obtain ⟨d, s', hd, rfl, rfl⟩ := mem_ways_cls.mp hu
      obtain ⟨rest, hrest, rfl⟩ := ih.mp hv
      obtain rfl : d = c := of_decide_eq_true hd
      exact ⟨rest, congrArg (d :: ·) hrest, rfl⟩
    · rintro ⟨rest, rfl, rfl⟩
      exact ⟨⟨[c], [], t ++ rest⟩, mem_ways_cls.mpr ⟨c, t ++ rest, by simp, rfl, rfl⟩, ⟨t, [], rest⟩,
        ih.mpr ⟨rest, rfl, rfl⟩, rfl⟩

/-- A match and what it leaves are the text. -/
theorem ways_split : ∀ {r : Pattern α} {before : Option α} {s : List α} {w : Way α}, w ∈ r.ways before s →
    s = w.text ++ w.rest := by
  intro r
  induction r with
  | empty =>
    intro before s w hw
    obtain rfl := List.mem_singleton.mp hw
    rfl
  | cls p =>
    intro before s w hw
    obtain ⟨c, t, -, rfl, rfl⟩ := mem_ways_cls.mp hw
    rfl
  | seq r r' ih ih' =>
    intro before s w hw
    obtain ⟨u, hu, v, hv, rfl⟩ := mem_ways_seq.mp hw
    rw [ih hu, ih' hv, Way.append, List.append_assoc]
  | alt r r' ih ih' =>
    intro before s w hw
    exact (mem_ways_alt.mp hw).elim ih ih'
  | rep p min max lazy =>
    intro before s w hw
    exact (mem_repWays.mp hw).1
  | group n r ih =>
    intro before s w hw
    obtain ⟨u, hu, rfl⟩ := mem_ways_group.mp hw
    have hsplit := ih hu
    exact hsplit
  | look q =>
    intro before s w hw
    obtain ⟨-, rfl⟩ := mem_ways_look.mp hw
    rfl

/-- The classes of the pattern have only characters with the property. -/
def Within (Q : α → Prop) : Pattern α → Prop
  | .cls p => ∀ c, p c = true → Q c
  | .rep p _ _ _ => ∀ c, p c = true → Q c
  | .seq r r' => r.Within Q ∧ r'.Within Q
  | .alt r r' => r.Within Q ∧ r'.Within Q
  | .group _ r => r.Within Q
  | _ => True

/-- So have its matches. -/
theorem forall_mem_ways {Q : α → Prop} : ∀ {r : Pattern α} {before : Option α} {s : List α} {w : Way α}, r.Within Q →
    w ∈ r.ways before s → ∀ c ∈ w.text, Q c := by
  intro r
  induction r with
  | empty =>
    intro before s w _ hw c hc
    obtain rfl := List.mem_singleton.mp hw
    cases hc
  | cls p =>
    intro before s w hr hw c hc
    obtain ⟨d, t, hd, -, rfl⟩ := mem_ways_cls.mp hw
    rw [List.mem_singleton.mp hc]
    exact hr d hd
  | seq r r' ih ih' =>
    intro before s w hr hw c hc
    obtain ⟨x, hx, y, hy, rfl⟩ := mem_ways_seq.mp hw
    exact (List.mem_append.mp hc).elim (ih hr.1 hx c) (ih' hr.2 hy c)
  | alt r r' ih ih' =>
    intro before s w hr hw c hc
    exact (mem_ways_alt.mp hw).elim (fun hw => ih hr.1 hw c hc) (fun hw => ih' hr.2 hw c hc)
  | rep p min max lazy =>
    intro before s w hr hw c hc
    obtain ⟨text, rest, -, -, -, hall, rfl⟩ := mem_ways_rep.mp hw
    exact hr c (hall c hc)
  | group n r ih =>
    intro before s w hr hw c hc
    obtain ⟨x, hx, rfl⟩ := mem_ways_group.mp hw
    exact ih hr hx c hc
  | look q =>
    intro before s w _ hw c hc
    obtain ⟨-, rfl⟩ := mem_ways_look.mp hw
    cases hc

end Ways

/-! ## Replacing -/

/-- The text after a replacement: what is not replaced stays, and each match that is has the property. -/
inductive Rewrites (P : Way α → Prop) (f : Way α → List α) : List α → List α → Prop
  | nil : Rewrites P f [] []
  | keep (c : α) {s s' : List α} : Rewrites P f s s' → Rewrites P f (c :: s) (c :: s')
  | hit (w : Way α) {s' : List α} : P w → w.text ≠ [] → Rewrites P f w.rest s' → Rewrites P f (w.text ++ w.rest) (f w ++ s')

/-- A text without a character that every match has is not rewritten. -/
theorem Rewrites.eq_self {P : Way α → Prop} {f : Way α → List α} {d : α} {s t : List α} (h : Rewrites P f s t)
    (hP : ∀ w, P w → d ∈ w.text) : d ∉ s → t = s := by
  induction h with
  | nil => exact fun _ => rfl
  | keep c _ ih => exact fun hd => congrArg (c :: ·) (ih fun hmem => hd (List.mem_cons_of_mem c hmem))
  | hit w hw _ _ _ => exact fun hd => absurd (List.mem_append_left _ (hP w hw)) hd

/-- Nor is a text without a part that every match has. -/
theorem Rewrites.eq_self_of_absent {P : Way α → Prop} {f : Way α → List α} {x s t : List α} (h : Rewrites P f s t)
    (hP : ∀ w, P w → x <:+: w.text) : ¬ x <:+: s → t = s := by
  induction h with
  | nil => exact fun _ => rfl
  | keep c _ ih => exact fun hx => congrArg (c :: ·) (ih fun hin => hx (hin.trans (List.suffix_cons _ _).isInfix))
  | hit w hw _ _ _ => exact fun hx => absurd ((hP w hw).trans (List.prefix_append _ _).isInfix) hx

/-- What holds of all characters goes on to hold if it does of what is put in. -/
theorem Rewrites.forall_mem {P : Way α → Prop} {f : Way α → List α} {Q : α → Prop} {s t : List α} (h : Rewrites P f s t)
    (hf : ∀ w, P w → (∀ c ∈ w.text, Q c) → ∀ c ∈ f w, Q c) : (∀ c ∈ s, Q c) → ∀ c ∈ t, Q c := by
  induction h with
  | nil => exact id
  | keep c _ ih =>
    intro hs
    obtain ⟨hc, hrest⟩ := List.forall_mem_cons.mp hs
    exact List.forall_mem_cons.mpr ⟨hc, ih hrest⟩
  | hit w hw _ _ ih =>
    intro hs
    obtain ⟨htext, hrest⟩ := List.forall_mem_append.mp hs
    exact List.forall_mem_append.mpr ⟨hf w hw htext, ih hrest⟩

/-- No `x` stands directly before a `y`. -/
def Never (x y : α) (s : List α) : Prop := s.IsChain fun a b => a = x → b ≠ y

theorem never_iff {x y : α} {s : List α} : Never x y s ↔ ¬ [x, y] <:+: s := by
  unfold Never
  rw [List.isChain_iff_forall_rel_of_append_cons_cons]
  constructor
  · rintro h ⟨front, back, heq⟩
    have hpair : s = front ++ x :: y :: back := by
      rw [← heq, List.append_assoc]
      rfl
    exact h hpair rfl rfl
  · rintro h a b front back rfl rfl rfl
    exact h ⟨front, back, by rw [List.append_assoc]; rfl⟩

theorem never_of_not_mem {x : α} (y : α) {s : List α} (h : x ∉ s) : Never x y s := by
  rw [never_iff]
  exact fun hin => h (hin.subset List.mem_cons_self)

/-- Two characters that are no neighbours do not become ones, if what is put in neither ends with the one nor begins
with the other. -/
theorem Rewrites.never {P : Way α → Prop} {f : Way α → List α} {x y : α} {s t : List α} (h : Rewrites P f s t)
    (hf : ∀ w, P w → Never x y w.text → Never x y (f w) ∧ (∀ d ∈ (f w).head?, d ≠ y) ∧ (∀ a ∈ (f w).getLast?, a ≠ x) ∧
      (f w = [] → ∀ d ∈ w.rest.head?, d ≠ y)) :
    Never x y s → Never x y t ∧ ∀ d ∈ t.head?, d ∈ s.head? ∨ d ≠ y := by
  induction h with
  | nil => exact fun hs => ⟨hs, fun d hd => nomatch hd⟩
  | @keep c s t _ ih =>
    intro hs
    obtain ⟨hhead, hrest⟩ := List.isChain_cons.mp hs
    obtain ⟨hchain, hfirst⟩ := ih hrest
    refine ⟨List.isChain_cons.mpr ⟨fun d hd hc => ?_, hchain⟩, fun d hd => .inl hd⟩
    exact (hfirst d hd).elim (fun hs => hhead d hs hc) id
  | @hit w t hw _ _ ih =>
    intro hs
    obtain ⟨htext, hrest, -⟩ := List.isChain_append.mp hs
    obtain ⟨hput, hbegin, hend, hempty⟩ := hf w hw htext
    obtain ⟨hchain, hfirst⟩ := ih hrest
    refine ⟨List.isChain_append.mpr ⟨hput, hchain, fun a ha b _ hax => absurd hax (hend a ha)⟩, fun d hd => .inr ?_⟩
    cases hfw : f w with
    | nil =>
      rw [hfw] at hd
      exact (hfirst d hd).elim (hempty hfw d) id
    | cons e put =>
      rw [hfw] at hd hbegin
      exact hbegin d hd

/-- A replacement that pays for its text out of the match does not make the text heavier. -/
theorem Rewrites.sum_le {P : Way α → Prop} {f : Way α → List α} {s t : List α} (h : Rewrites P f s t) (weight : α → ℕ)
    (hf : ∀ w, P w → ((f w).map weight).sum ≤ (w.text.map weight).sum) : (t.map weight).sum ≤ (s.map weight).sum := by
  induction h with
  | nil => exact le_rfl
  | keep c _ ih =>
    rw [List.map_cons, List.map_cons, List.sum_cons, List.sum_cons]
    exact Nat.add_le_add_left ih _
  | hit w hw _ _ ih =>
    rw [List.map_append, List.map_append, List.sum_append, List.sum_append]
    exact Nat.add_le_add (hf w hw) ih

theorem behind_cons (before : Option α) (c : α) (t : List α) : behind before (c :: t) = behind (some c) t := by
  unfold behind
  cases t with
  | nil => rfl
  | cons d t => rw [List.getLast?_cons_cons]; rfl

theorem scanFrom_skip (r : Pattern α) : ∀ (t s : List α) (before : Option α),
    scanFrom r t.length before (t ++ s) = scanFrom r 0 (behind before t) s := by
  intro t
  induction t with
  | nil => intro s before; rfl
  | cons c t ih =>
    intro s before
    rw [List.cons_append, List.length_cons, scanFrom, ih, behind_cons]

/-- A scan finds the match that is preferred, or keeps the first character. -/
theorem scanFrom_cases (r : Pattern α) (before : Option α) (c : α) (s : List α) :
    (∃ w, w.text ≠ [] ∧ (r.ways before (c :: s)).head? = some w ∧
      scanFrom r 0 before (c :: s) = .hit w :: scanFrom r 0 (behind before w.text) w.rest) ∨
    ((∀ w, (r.ways before (c :: s)).head? = some w → w.text = []) ∧
      scanFrom r 0 before (c :: s) = .keep c :: scanFrom r 0 (some c) s) := by
  rw [scanFrom]
  split
  · rename_i d t groups rest hhead
    have hsplit : c :: s = d :: (t ++ rest) := ways_split (List.mem_of_mem_head? hhead)
    obtain ⟨rfl, rfl⟩ := List.cons.inj hsplit
    refine .inl ⟨⟨c :: t, groups, rest⟩, List.cons_ne_nil c t, hhead, ?_⟩
    rw [scanFrom_skip, behind_cons]
  · rename_i hother
    refine .inr ⟨fun w hw => ?_, rfl⟩
    by_contra hne
    obtain ⟨d, t, hdt⟩ := List.exists_cons_of_ne_nil hne
    exact hother d t w.groups w.rest (by rw [hw, ← hdt])

/-- The pattern has no assertion. -/
def lookFree : Pattern α → Bool
  | .look _ => false
  | .seq r r' => r.lookFree && r'.lookFree
  | .alt r r' => r.lookFree && r'.lookFree
  | .group _ r => r.lookFree
  | _ => true

/-- A match then does not depend on what stands before it. -/
theorem ways_of_lookFree : ∀ {r : Pattern α}, r.lookFree = true → ∀ (before : Option α) (s : List α),
    r.ways before s = r.ways none s := by
  intro r
  induction r with
  | empty => exact fun _ _ _ => rfl
  | cls p => intro _ before s; cases s <;> rfl
  | seq r r' ih ih' =>
    intro h before s
    rw [lookFree, Bool.and_eq_true] at h
    simp only [ways]
    rw [ih h.1 before s]
    exact List.flatMap_congr fun w _ => by rw [ih' h.2 (behind before w.text), ih' h.2 (behind none w.text)]
  | alt r r' ih ih' =>
    intro h before s
    rw [lookFree, Bool.and_eq_true] at h
    simp only [ways]
    rw [ih h.1 before s, ih' h.2 before s]
  | rep p min max lazy => exact fun _ _ _ => rfl
  | group n r ih =>
    intro h before s
    simp only [ways]
    rw [ih h before s]
  | look q => intro h; cases h

theorem scanFrom_of_lookFree {r : Pattern α} (h : r.lookFree = true) : ∀ (s : List α) (skip : ℕ) (before : Option α),
    scanFrom r skip before s = scanFrom r skip none s := by
  intro s
  induction s with
  | nil => intro skip before; cases skip <;> rfl
  | cons c s ih =>
    intro skip before
    cases skip with
    | zero => rw [scanFrom, scanFrom, ways_of_lookFree h before]
    | succ skip => rfl

/-- The scan of a pattern without assertions. -/
theorem scan_cases {r : Pattern α} (h : r.lookFree = true) (c : α) (s : List α) :
    (∃ w, w.text ≠ [] ∧ w ∈ r.ways none (c :: s) ∧ r.scan (c :: s) = .hit w :: r.scan w.rest) ∨
    ((∀ w, (r.ways none (c :: s)).head? = some w → w.text = []) ∧ r.scan (c :: s) = .keep c :: r.scan s) := by
  unfold scan
  rcases scanFrom_cases r none c s with ⟨w, hne, hhead, hscan⟩ | ⟨hnone, hscan⟩
  · rw [scanFrom_of_lookFree h w.rest] at hscan
    exact .inl ⟨w, hne, List.mem_of_mem_head? hhead, hscan⟩
  · rw [scanFrom_of_lookFree h s] at hscan
    exact .inr ⟨hnone, hscan⟩

/-- A text without a character that every match has is kept as it is. -/
theorem scan_of_not_mem {r : Pattern α} {d : α} (hr : ∀ before s w, w ∈ r.ways before s → d ∈ w.text) {s : List α}
    (hd : d ∉ s) : r.scan s = s.map .keep := by
  suffices h : ∀ before, scanFrom r 0 before s = s.map .keep from h none
  induction s with
  | nil => exact fun _ => rfl
  | cons c s ih =>
    intro before
    rcases scanFrom_cases r before c s with ⟨w, -, hhead, -⟩ | ⟨-, hscan⟩
    · have hmem := List.mem_of_mem_head? hhead
      have hin : d ∈ c :: s := by
        rw [ways_split hmem]
        exact List.mem_append_left _ (hr _ _ _ hmem)
      exact absurd hin hd
    · rw [hscan, ih (fun hmem => hd (List.mem_cons_of_mem c hmem))]
      rfl

/-- A replacement of all matches rewrites the text. -/
theorem rewrites_replaceAll (r : Pattern α) (f : Way α → List α) (s : List α) :
    Rewrites (fun w => ∃ before, w ∈ r.ways before (w.text ++ w.rest)) f s (r.replaceAll f s) := by
  suffices h : ∀ n, ∀ s : List α, s.length ≤ n → ∀ before,
      Rewrites (fun w => ∃ before, w ∈ r.ways before (w.text ++ w.rest)) f s
        ((scanFrom r 0 before s).flatMap fun | .keep c => [c] | .hit w => f w) from h _ s le_rfl none
  intro n
  induction n with
  | zero =>
    intro s hs before
    rw [List.length_eq_zero_iff.mp (Nat.le_zero.mp hs)]
    exact .nil
  | succ n ih =>
    intro s hs before
    cases s with
    | nil => exact .nil
    | cons c s =>
      rw [List.length_cons] at hs
      rcases scanFrom_cases r before c s with ⟨w, hne, hhead, hscan⟩ | ⟨-, hscan⟩
      · have hmem := List.mem_of_mem_head? hhead
        have hsplit := ways_split hmem
        rw [hscan, hsplit, List.flatMap_cons]
        refine .hit w ⟨before, by rw [← hsplit]; exact hmem⟩ hne (ih w.rest ?_ _)
        have hlen := congrArg List.length hsplit
        rw [List.length_cons, List.length_append] at hlen
        have := List.length_pos_iff.mpr hne
        omega
      · rw [hscan, List.flatMap_cons]
        exact .keep c (ih s (by omega) _)

/-- A text without a character that every match has stays as it is. -/
theorem replaceAll_of_not_mem {r : Pattern α} {f : Way α → List α} {d : α}
    (hr : ∀ before s w, w ∈ r.ways before s → d ∈ w.text) {s : List α} (hd : d ∉ s) : r.replaceAll f s = s :=
  (rewrites_replaceAll r f s).eq_self (fun w ⟨before, hw⟩ => hr before _ w hw) hd

/-- So does the replacement of a fixed text. -/
theorem rewrites_replace {pat : Str} (hpat : pat ≠ []) (rep s : Str) :
    Rewrites (fun w => w.text = pat) (fun _ => rep) s (Text.replace s pat rep) := by
  suffices h : ∀ n, ∀ s : Str, s.length ≤ n →
      Rewrites (fun w => w.text = pat) (fun _ => rep) s (Text.replaceFrom pat rep 0 s) from h _ s le_rfl
  intro n
  induction n with
  | zero =>
    intro s hs
    rw [List.length_eq_zero_iff.mp (Nat.le_zero.mp hs)]
    exact .nil
  | succ n ih =>
    intro s hs
    by_cases hpre : pat <+: s
    · obtain ⟨rest, rfl⟩ := hpre
      rw [Text.replaceFrom_pat hpat]
      have hpos := List.length_pos_iff.mpr hpat
      rw [List.length_append] at hs
      exact .hit ⟨pat, [], rest⟩ rfl hpat (ih rest (by omega))
    · cases s with
      | nil => exact .nil
      | cons c s =>
        rw [List.length_cons] at hs
        rw [Text.replaceFrom_cons, if_neg hpre]
        exact .keep c (ih s (by omega))

end Pattern

end Zeptoclaw

import Zeptoclaw.Lib.Marking

/-!
# Outlines of patterns

What decides whether patterns can be marked in turn is little: the ends of their matches, and which characters stand
inside. An outline is that much of a pattern, up to a folding of characters, and a finite check of the outlines shows
that the patterns are `Orderly`. A wild character may stand anywhere inside a match.
-/

namespace Zeptoclaw.Regex

/-- The one match, if there is only one; texts with which every match begins, and ends; and the characters behind the
first and before the last. -/
structure Outline (α : Type*) where
  fixed : Option (List α)
  fronts : List (List α)
  backs : List (List α)
  tail : List α
  init : List α

variable {α : Type*} {fold : α → α} {wild : α → Bool}

structure Outline.Fits (fold : α → α) (wild : α → Bool) (o : Outline α) (r : Regex α) : Prop where
  fixed : ∀ l ∈ o.fixed, ∀ w, r.Matches w → w.map fold = l
  front : ∀ w, r.Matches w → ∃ t ∈ o.fronts, t <+: w.map fold
  back : ∀ w, r.Matches w → ∃ t ∈ o.backs, t <:+ w.map fold
  tail : ∀ w, r.Matches w → ∀ c ∈ (w.map fold).tail, wild c = true ∨ c ∈ o.tail
  init : ∀ w, r.Matches w → ∀ c ∈ (w.map fold).dropLast, wild c = true ∨ c ∈ o.init

/-- The outline of a fixed text. -/
def Outline.ofText (t : List α) : Outline α := ⟨some t, [t], [t], t.tail, t.dropLast⟩

theorem Outline.fits_ofText {r : Regex α} {t : List α} (h : ∀ w, r.Matches w → w.map fold = t) :
    (Outline.ofText t).Fits fold wild r where
  fixed l hl w hw := by rw [h w hw, Option.mem_some_iff.mp hl]
  front w hw := ⟨t, List.mem_singleton_self t, by rw [h w hw]⟩
  back w hw := ⟨t, List.mem_singleton_self t, by rw [h w hw]⟩
  tail w hw c hc := .inr (by rwa [h w hw] at hc)
  init w hw c hc := .inr (by rwa [h w hw] at hc)

/-! ## Texts at the same place -/

/-- One of the texts begins the other. -/
def Meets (p q : List α) : Prop := p <+: q ∨ q <+: p

/-- One of the texts ends the other. -/
def MeetsEnd (p q : List α) : Prop := p <:+ q ∨ q <:+ p

instance [DecidableEq α] (p q : List α) : Decidable (Meets p q) := inferInstanceAs (Decidable (_ ∨ _))

instance [DecidableEq α] (p q : List α) : Decidable (MeetsEnd p q) := inferInstanceAs (Decidable (_ ∨ _))

section Places

variable {r : Regex α} {o : Outline α} {s l t : List α} {a b c d e g n : ℕ}

theorem prefix_drop (h : l <+: s.drop c) (hle : c ≤ a) : l.drop (a - c) <+: s.drop a := by
  have hdrop := h.drop (a - c)
  rwa [List.drop_drop, show c + (a - c) = a by omega] at hdrop

theorem suffix_take (h : l <+: s.drop c) (e : ℕ) (hle : e ≤ l.length) : l.take e <:+ s.take (c + e) := by
  have htake : (s.drop c).take e = l.take e := by
    obtain ⟨rest, hrest⟩ := h
    rw [← hrest, List.take_append_of_le_length hle]
  rw [List.take_add, htake]
  exact List.suffix_append _ _

/-- A text that ends at `g`, cut at `b`. -/
theorem suffix_take_of_le (h : t <:+ s.take g) (hb : b ≤ g) (hg : g ≤ s.length) :
    t.take (t.length - (g - b)) <:+ s.take b := by
  obtain ⟨x, hx⟩ := h
  have hlen := congrArg List.length hx
  rw [List.length_append, List.length_take, Nat.min_eq_left hg] at hlen
  have hcut : s.take b = (x ++ t).take b := by rw [hx, List.take_take, Nat.min_eq_left hb]
  rw [hcut, List.take_append]
  have hsame : t.length - (g - b) = b - x.length ∨ t.length - (g - b) = 0 := by omega
  rcases hsame with heq | heq
  · rw [heq]
    exact List.suffix_append _ _
  · rw [heq, List.take_zero]
    exact List.nil_suffix

theorem OccursAt.folded (h : r.OccursAt s a b) (fold : α → α) : ∃ w, r.Matches w ∧ w.map fold <+: (s.map fold).drop a ∧
    w.map fold <:+ (s.map fold).take b ∧ b = a + (w.map fold).length := by
  obtain ⟨w, hw, hpre, hb⟩ := h
  have hfold : w.map fold <+: (s.map fold).drop a := by
    rw [← List.map_drop]
    exact hpre.map fold
  refine ⟨w, hw, hfold, ?_, by rw [hb, List.length_map]⟩
  have hend := suffix_take hfold (w.map fold).length le_rfl
  rwa [List.take_length, List.length_map, ← hb] at hend

theorem OccursAt.front (h : r.OccursAt s a b) (hfits : o.Fits fold wild r) : ∃ t ∈ o.fronts, t <+: (s.map fold).drop a := by
  obtain ⟨w, hw, hpre, -, -⟩ := h.folded fold
  obtain ⟨t, ht, htw⟩ := hfits.front w hw
  exact ⟨t, ht, htw.trans hpre⟩

theorem OccursAt.back (h : r.OccursAt s a b) (hfits : o.Fits fold wild r) : ∃ t ∈ o.backs, t <:+ (s.map fold).take b := by
  obtain ⟨w, hw, -, hsuf, -⟩ := h.folded fold
  obtain ⟨t, ht, htw⟩ := hfits.back w hw
  exact ⟨t, ht, htw.trans hsuf⟩

theorem OccursAt.fixed (h : r.OccursAt s a b) (hfits : o.Fits fold wild r) (hl : l ∈ o.fixed) :
    l <+: (s.map fold).drop a ∧ b = a + l.length := by
  obtain ⟨w, hw, hpre, -, hb⟩ := h.folded fold
  rw [hfits.fixed l hl w hw] at hpre hb
  exact ⟨hpre, hb⟩

end Places

/-! ## A fixed text before other patterns -/

/-- No match begins in the text from `n` on. -/
def Outline.FrontsClear (o : Outline α) (l : List α) (n : ℕ) : Prop :=
  ∀ t ∈ o.fronts, ∀ j < l.length, n ≤ j → ¬ Meets t (l.drop j)

/-- Nor does one end in its first `n` characters, if those of `known` are read backwards from there. -/
def Outline.Clears (o : Outline α) (l : List α) (n : ℕ) (known : List α) : Prop :=
  o.FrontsClear l n ∧ ∀ t ∈ o.backs, ∀ e < n + 1, 0 < e → MeetsEnd t (l.take e) →
    ¬ MeetsEnd t (known.take (known.length - (n - e)))

/-- The text does not overlap itself, or matches do not begin in the overlap. -/
def Outline.ShadowClear (o : Outline α) (l : List α) : Prop :=
  ∀ k < l.length, 0 < k → l.drop k <+: l → o.FrontsClear (l.take k ++ l) 0

/-- Wherever a match of the earlier outline can have an end inside the text, the later ones clear it. -/
def Outline.CarriedClear (o₀ : Outline α) (later : List (Outline α)) (l : List α) : Prop :=
  ∀ n < l.length, 0 < n →
    (∀ t ∈ o₀.fronts, Meets t (l.drop n) → ∀ o ∈ later, o.Clears l n (l.take n)) ∧
      ∀ t ∈ o₀.backs, MeetsEnd t (l.take n) → ∀ o ∈ later, o.Clears l n t

section Fixed

variable {r r' r₀ : Regex α} {o o' o₀ : Outline α} {later : List (Outline α)} {s l known : List α} {a b c d g n : ℕ}

theorem Outline.FrontsClear.lt (h : o.FrontsClear l n) (hfits : o.Fits fold wild r) (hoccurs : r.OccursAt s a b)
    (hl : l <+: (s.map fold).drop c) (hlt : a < c + l.length) : a < c + n := by
  by_contra hge
  obtain ⟨t, ht, hpre⟩ := hoccurs.front hfits
  have hdrop := prefix_drop hl (show c ≤ a by omega)
  exact h t ht (a - c) (by omega) (by omega) (List.prefix_or_prefix_of_prefix hpre hdrop)

theorem Outline.Clears.inside (h : o.Clears l n known) (hfits : o.Fits fold wild r) (hoccurs : r.OccursAt s a b)
    (hl : l <+: (s.map fold).drop c) (hn : n < l.length) (hknown : known <:+ (s.map fold).take (c + n))
    (hcuts : Cuts c (c + l.length) a b) : a < c + n ∧ c + n < b := by
  have hlen : c + l.length ≤ (s.map fold).length := by
    have hle := hl.length_le
    rw [List.length_drop] at hle
    omega
  by_cases hbegin : a < c ∧ c < b
  · refine ⟨by omega, ?_⟩
    by_contra hend
    obtain ⟨t, ht, hsuf⟩ := hoccurs.back hfits
    have htext := suffix_take hl (b - c) (by omega)
    rw [show c + (b - c) = b by omega] at htext
    have hcut := suffix_take_of_le hknown (show b ≤ c + n by omega) (by omega)
    rw [show c + n - b = n - (b - c) by omega] at hcut
    exact h.2 t ht (b - c) (by omega) (by omega) (List.suffix_or_suffix_of_suffix hsuf htext)
      (List.suffix_or_suffix_of_suffix hsuf hcut)
  · have hin : a < c + l.length ∧ c + l.length < b := hcuts.resolve_left hbegin
    have hlt := h.1.lt hfits hoccurs hl hin.1
    exact ⟨hlt, by omega⟩

theorem shadowed_of_clear (hfits : o.Fits fold wild r) (hl : l ∈ o.fixed) (hfits' : o'.Fits fold wild r')
    (hclear : o'.ShadowClear l) : r.Shadowed r' := by
  intro s h h' c d a b hhit hoccurs hlt hlt' hoccurs' hcuts
  obtain ⟨hpre, rfl⟩ := hhit.fixed hfits hl
  obtain ⟨hpre', rfl⟩ := hoccurs.fixed hfits hl
  have hdrop := prefix_drop hpre (show h ≤ c by omega)
  have hself : l.drop (c - h) <+: l := List.prefix_of_prefix_length_le hdrop hpre' (by rw [List.length_drop]; omega)
  have hboth : l.take (c - h) ++ l <+: (s.map fold).drop h := by
    have htake : ((s.map fold).drop h).take (c - h) = l.take (c - h) := by
      obtain ⟨rest, hrest⟩ := hpre
      rw [← hrest, List.take_append_of_le_length (by omega)]
    rw [← List.take_append_drop (c - h) ((s.map fold).drop h), htake, List.drop_drop, show h + (c - h) = c by omega]
    exact (List.prefix_append_right_inj _).mpr hpre'
  have hlength : (l.take (c - h) ++ l).length = c - h + l.length := by
    rw [List.length_append, List.length_take]
    omega
  unfold Cuts at hcuts ⊢
  by_cases hbefore : a < h
  · omega
  · have hlt := (hclear (c - h) (by omega) (by omega) hself).lt hfits' hoccurs' hboth (by omega)
    omega

theorem carried_of_clear (hfits₀ : o₀.Fits fold wild r₀) (hfits : o.Fits fold wild r) (hl : l ∈ o.fixed)
    (hfits' : o'.Fits fold wild r') (hlater : o' ∈ later) (hclear : o₀.CarriedClear later l) : r₀.Carried r r' := by
  intro s c₀ d₀ c d a b g hoccurs₀ hoccurs hoccurs' hend hc hd hcuts
  obtain ⟨hpre, rfl⟩ := hoccurs.fixed hfits hl
  obtain ⟨n, rfl⟩ := Nat.exists_eq_add_of_lt hc
  have hn : n + 1 < l.length := by omega
  obtain ⟨hstart, hstop⟩ := hclear (n + 1) hn (Nat.succ_pos n)
  rw [Nat.add_assoc] at hend ⊢
  rcases hend with heq | heq
  · obtain ⟨t, ht, htext⟩ := hoccurs₀.front hfits₀
    have hdrop := prefix_drop hpre (show c ≤ c₀ by omega)
    rw [show c₀ - c = n + 1 by omega] at hdrop
    have hmeets : Meets t (l.drop (n + 1)) := List.prefix_or_prefix_of_prefix htext hdrop
    exact (hstart t ht hmeets o' hlater).inside hfits' hoccurs' hpre hn (suffix_take hpre (n + 1) hn.le) hcuts
  · obtain ⟨t, ht, htext⟩ := hoccurs₀.back hfits₀
    rw [← heq] at htext
    have hmeets : MeetsEnd t (l.take (n + 1)) := List.suffix_or_suffix_of_suffix htext (suffix_take hpre (n + 1) hn.le)
    exact (hstop t ht hmeets o' hlater).inside hfits' hoccurs' hpre hn htext hcuts

theorem determined_of_fixed (hfits : o.Fits fold wild r) (hl : l ∈ o.fixed) : r.Determined := by
  intro w w' hw hw' hpre
  have hlen : (w.map fold).length = (w'.map fold).length := by
    rw [hfits.fixed l hl w hw, hfits.fixed l hl w' hw']
  rw [List.length_map, List.length_map] at hlen
  exact hpre.eq_of_length hlen

end Fixed

/-! ## Ends that stand nowhere else -/

/-- No match of the outline has a character inside with which a match of the first begins or ends. -/
def Outline.Outside (wild : α → Bool) (o o' : Outline α) : Prop :=
  (∀ t ∈ o.fronts, t ≠ [] ∧ ∀ c ∈ t.head?, wild c = false ∧ c ∉ o'.tail) ∧
    ∀ t ∈ o.backs, t ≠ [] ∧ ∀ c ∈ t.getLast?, wild c = false ∧ c ∉ o'.init

/-- A match of the outline has its last character only there. -/
def Outline.EndsOnce (wild : α → Bool) (o : Outline α) : Prop :=
  ∀ t ∈ o.backs, t ≠ [] ∧ ∀ c ∈ t.getLast?, wild c = false ∧ c ∉ o.init

section Ends

variable {r r' r₀ : Regex α} {o o' o₀ : Outline α} {s w : List α} {a b c d n : ℕ} {x : α}

theorem mem_tail_of_getElem? {l : List α} (h : l[n]? = some x) (hn : 0 < n) : x ∈ l.tail := by
  obtain ⟨m, rfl⟩ := Nat.exists_eq_add_of_lt hn
  refine List.mem_of_getElem? (i := m) ?_
  rwa [List.getElem?_tail, show m + 1 = 0 + m + 1 by omega]

theorem mem_dropLast_of_getElem? {l : List α} (h : l[n]? = some x) (hn : n + 1 < l.length) : x ∈ l.dropLast := by
  refine List.mem_of_getElem? (i := n) ?_
  rwa [List.getElem?_dropLast, if_pos (by omega)]

theorem Outline.Fits.head (hfits : o.Fits fold wild r) (hw : r.Matches w) (hne : ∀ t ∈ o.fronts, t ≠ []) :
    ∃ t ∈ o.fronts, ∃ x ∈ t.head?, (w.map fold)[0]? = some x := by
  obtain ⟨t, ht, rest, hrest⟩ := hfits.front w hw
  refine ⟨t, ht, t.head (hne t ht), List.head?_eq_some_head (hne t ht), ?_⟩
  rw [← List.head?_eq_getElem?, ← hrest, List.head?_append_of_ne_nil _ (hne t ht), List.head?_eq_some_head (hne t ht)]

theorem Outline.Fits.last (hfits : o.Fits fold wild r) (hw : r.Matches w) (hne : ∀ t ∈ o.backs, t ≠ []) :
    ∃ t ∈ o.backs, ∃ x ∈ t.getLast?, (w.map fold)[(w.map fold).length - 1]? = some x := by
  obtain ⟨t, ht, rest, hrest⟩ := hfits.back w hw
  refine ⟨t, ht, t.getLast (hne t ht), List.getLast?_eq_some_getLast (hne t ht), ?_⟩
  rw [← List.getLast?_eq_getElem?, ← hrest, List.getLast?_append_of_ne_nil _ (hne t ht),
    List.getLast?_eq_some_getLast (hne t ht)]

theorem getElem?_of_prefix_drop {l t : List α} (h : l <+: t.drop a) (hn : n < l.length) : t[a + n]? = l[n]? := by
  obtain ⟨rest, hrest⟩ := h
  rw [← List.getElem?_drop, ← hrest, List.getElem?_append_left hn]

theorem not_inside {cs : List α} (h : wild x = false ∧ x ∉ cs) : ¬ (wild x = true ∨ x ∈ cs) := by
  rintro (hwild | hmem)
  · rw [h.1] at hwild
    cases hwild
  · exact h.2 hmem

theorem not_cuts (hfits : o.Fits fold wild r) (hfits' : o'.Fits fold wild r') (hout : o.Outside wild o')
    (hoccurs : r.OccursAt s c d) (hoccurs' : r'.OccursAt s a b) : ¬ Cuts c d a b := by
  obtain ⟨w, hw, hpre, -, hd⟩ := hoccurs.folded fold
  obtain ⟨w', hw', hpre', -, hb⟩ := hoccurs'.folded fold
  rintro (⟨hlt, hlt'⟩ | ⟨hlt, hlt'⟩)
  · obtain ⟨t, ht, x, hx, hhead⟩ := hfits.head hw fun t ht => (hout.1 t ht).1
    have hpos : 0 < (w.map fold).length := (List.getElem?_eq_some_iff.mp hhead).1
    have hplace := getElem?_of_prefix_drop hpre hpos
    have hplace' := getElem?_of_prefix_drop hpre' (show c - a < (w'.map fold).length by omega)
    rw [show a + (c - a) = c + 0 by omega, hplace, hhead] at hplace'
    exact not_inside ((hout.1 t ht).2 x hx) (hfits'.tail w' hw' x (mem_tail_of_getElem? hplace'.symm (by omega)))
  · obtain ⟨t, ht, x, hx, hlast⟩ := hfits.last hw fun t ht => (hout.2 t ht).1
    have hpos := (List.getElem?_eq_some_iff.mp hlast).1
    have hplace := getElem?_of_prefix_drop hpre hpos
    have hplace' := getElem?_of_prefix_drop hpre' (show d - 1 - a < (w'.map fold).length by omega)
    rw [show a + (d - 1 - a) = c + ((w.map fold).length - 1) by omega, hplace, hlast] at hplace'
    exact not_inside ((hout.2 t ht).2 x hx) (hfits'.init w' hw' x (mem_dropLast_of_getElem? hplace'.symm (by omega)))

theorem determined_of_endsOnce (hfits : o.Fits fold wild r) (honce : o.EndsOnce wild) : r.Determined := by
  intro w w' hw hw' hpre
  refine hpre.eq_of_length ?_
  by_contra hne
  have hlt : w.length < w'.length := lt_of_le_of_ne hpre.length_le hne
  obtain ⟨t, ht, x, hx, hlast⟩ := hfits.last hw fun t ht => (honce t ht).1
  have hpos := (List.getElem?_eq_some_iff.mp hlast).1
  have hpre' : w.map fold <+: (w'.map fold).drop 0 := hpre.map fold
  have hplace := getElem?_of_prefix_drop hpre' hpos
  rw [hlast, Nat.zero_add] at hplace
  have hinside : x ∈ (w'.map fold).dropLast := by
    refine mem_dropLast_of_getElem? hplace ?_
    rw [List.length_map] at hpos ⊢
    rw [List.length_map]
    omega
  exact not_inside ((honce t ht).2 x hx) (hfits.init w' hw' x hinside)

end Ends

/-! ## Marks -/

/-- A match that begins with the first character of the text has more than that, but not the second. -/
def Outline.Breaks (wild : α → Bool) (o : Outline α) : List α → Prop
  | x :: y :: _ => (wild y = false ∧ y ∉ o.tail) ∧ [] ∉ o.backs ∧ [x] ∉ o.backs
  | _ => False

/-- A match neither begins in a mark nor has the first character of a mark inside. -/
def Outline.Clear (fold : α → α) (wild : α → Bool) (mk : Marker α) (o : Outline α) : Prop :=
  (∀ t ∈ o.fronts,
    (∀ v ∈ (mk.first :: mk.more).tails, v ≠ [] → ¬ Meets t (v.map fold) ∨ o.Breaks wild (v.map fold)) ∧
      ¬ Meets t [fold mk.last]) ∧
    (wild (fold mk.first) = false ∧ fold mk.first ∉ o.tail) ∧ wild (fold mk.last) = false ∧ fold mk.last ∉ o.init

/-- A match begins like a start mark exactly if it ends like a stop mark. -/
def Outline.Paired (fold : α → α) (mk : Marker α) (o : Outline α) : Prop :=
  ((∀ t ∈ o.fronts, t.head? = some (fold mk.first)) ∧ ∀ t ∈ o.backs, t.getLast? = some (fold mk.last)) ∨
    ((∀ t ∈ o.fronts, t.head? ≠ some (fold mk.first)) ∧ ∀ t ∈ o.backs, t ≠ [] ∧ t.getLast? ≠ some (fold mk.last))

section Mark

variable {mk : Marker α} {r r' : Regex α} {o o' : Outline α} {s w : List α}

theorem Outline.Clear.front_ne_nil (h : o.Clear fold wild mk) : ∀ t ∈ o.fronts, t ≠ [] := by
  rintro t ht rfl
  exact (h.1 [] ht).2 (.inl List.nil_prefix)

theorem Outline.Breaks.not_prefix {v : List α} (h : o.Breaks wild v) (hfits : o.Fits fold wild r) (hw : r.Matches w) :
    ¬ w.map fold <+: v ++ s := by
  intro hpre
  match v, h with
  | x :: y :: v, ⟨hinside, hnil, hsingle⟩ =>
    obtain ⟨u, hu, hsuf⟩ := hfits.back w hw
    have htail := hfits.tail w hw
    generalize w.map fold = m at hpre hsuf htail
    match m with
    | [] => exact hnil (List.suffix_nil.mp hsuf ▸ hu)
    | [c] =>
      obtain ⟨rfl, -⟩ := List.cons_prefix_cons.mp hpre
      rcases List.suffix_cons_iff.mp hsuf with rfl | hsuf
      · exact hsingle hu
      · exact hnil (List.suffix_nil.mp hsuf ▸ hu)
    | c :: d :: m =>
      obtain ⟨-, hmore⟩ := List.cons_prefix_cons.mp hpre
      obtain ⟨rfl, -⟩ := List.cons_prefix_cons.mp hmore
      exact not_inside hinside (htail d List.mem_cons_self)

theorem Outline.Clear.marker (h : o.Clear fold wild mk) (hfits : o.Fits fold wild r) : mk.Clear r where
  proper hw := by
    obtain ⟨t, ht, hpre⟩ := hfits.front [] hw
    exact h.front_ne_nil t ht (List.prefix_nil.mp hpre)
  start_free v hv hsuf w hw s hpre := by
    obtain ⟨t, ht, htw⟩ := hfits.front w hw
    have htext : w.map fold <+: v.map fold ++ s.map fold := by
      rw [← List.map_append]
      exact hpre.map fold
    rcases (h.1 t ht).1 v ((List.mem_tails _ _).mpr hsuf) hv with hmeets | hbreaks
    · exact hmeets (List.prefix_or_prefix_of_prefix (htw.trans htext) (List.prefix_append _ _))
    · exact hbreaks.not_prefix hfits hw htext
  stop_free w hw s hpre := by
    obtain ⟨t, ht, htw⟩ := hfits.front w hw
    have htext : t <+: [fold mk.last] ++ s.map fold := htw.trans (hpre.map fold)
    exact (h.1 t ht).2 (List.prefix_or_prefix_of_prefix htext (List.prefix_append _ _))
  first_front w hw hmem := by
    have hfold : fold mk.first ∈ (w.map fold).tail := by
      rw [← List.map_tail]
      exact List.mem_map_of_mem hmem
    exact not_inside h.2.1 (hfits.tail w hw _ hfold)
  last_back w hw hmem := by
    have hfold : fold mk.last ∈ (w.map fold).dropLast := by
      rw [← List.map_dropLast]
      exact List.mem_map_of_mem hmem
    exact not_inside h.2.2 (hfits.init w hw _ hfold)

theorem Outline.Paired.last_of_head (h : o.Paired fold mk) (hclear : o.Clear fold wild mk) (hfits : o.Fits fold wild r)
    (hw : r.Matches w) (hhead : (w.map fold).head? = some (fold mk.first)) :
    (w.map fold).getLast? = some (fold mk.last) := by
  obtain ⟨t, ht, x, hx, hfirst⟩ := hfits.head hw hclear.front_ne_nil
  rw [← List.head?_eq_getElem?, hhead] at hfirst
  obtain rfl := Option.some.inj hfirst
  rcases h with ⟨-, hback⟩ | ⟨hfront, -⟩
  · obtain ⟨u, hu, hsuf⟩ := hfits.back w hw
    obtain ⟨rest, hrest⟩ := hsuf
    have hne : u ≠ [] := by
      rintro rfl
      have hlast := hback [] hu
      cases hlast
    rw [← hrest, List.getLast?_append_of_ne_nil _ hne, hback u hu]
  · exact absurd hx (hfront t ht)

theorem Outline.Paired.head_of_last (h : o.Paired fold mk) (hfits : o.Fits fold wild r) (hw : r.Matches w)
    (hlast : (w.map fold).getLast? = some (fold mk.last)) : (w.map fold).head? = some (fold mk.first) := by
  rcases h with ⟨hfront, -⟩ | ⟨-, hback⟩
  · obtain ⟨t, ht, rest, hrest⟩ := hfits.front w hw
    have hhead := hfront t ht
    have hne : t ≠ [] := by
      rintro rfl
      cases hhead
    rw [← hrest, List.head?_append_of_ne_nil _ hne, hhead]
  · obtain ⟨t, ht, x, hx, hend⟩ := hfits.last hw fun t ht => (hback t ht).1
    rw [← List.getLast?_eq_getElem?, hlast] at hend
    obtain rfl := Option.some.inj hend
    exact absurd hx (hback t ht).2

theorem apart_of_paired (hclear : o.Clear fold wild mk) (hfits : o.Fits fold wild r) (hpaired : o.Paired fold mk)
    (hclear' : o'.Clear fold wild mk) (hfits' : o'.Fits fold wild r') (hpaired' : o'.Paired fold mk) : mk.Apart r r' := by
  intro v x hv hw hw'
  have hlast : ((v ++ [mk.last]).map fold).getLast? = some (fold mk.last) := by simp
  have hhead := hpaired.head_of_last hfits hw hlast
  obtain ⟨c, u, rfl⟩ := List.exists_cons_of_ne_nil hv
  have hc : fold c = fold mk.first := by simpa using hhead
  have hx : x = [] := by
    by_contra hne
    have hmem : fold mk.first ∈ ((x ++ c :: u).map fold).tail := by
      rw [List.map_append, List.tail_append_of_ne_nil (by simpa using hne), List.map_cons, hc]
      simp
    exact not_inside hclear'.2.1 (hfits'.tail _ hw' _ hmem)
  subst hx
  have hend := hpaired'.last_of_head hclear' hfits' hw' (by simpa using hc)
  have hmem : fold mk.last ∈ (((c :: u) ++ [mk.last]).map fold).dropLast := by
    rw [List.map_append, List.map_singleton, List.dropLast_concat]
    exact List.mem_of_getLast? hend
  exact not_inside hclear.2.2 (hfits.init _ hw _ hmem)

end Mark

/-! ## All patterns -/

/-- What has to hold of a pattern and a later one. -/
def Outline.PairClear (wild : α → Bool) (o o' : Outline α) : Prop :=
  match o.fixed with
  | some l => o'.ShadowClear l
  | none => o.Outside wild o' ∧ o.EndsOnce wild

/-- What has to hold of a pattern, an earlier one and the later ones. -/
def Outline.TripleClear (o₀ o : Outline α) (later : List (Outline α)) : Prop := ∀ l ∈ o.fixed, o₀.CarriedClear later l

/-- The check of all outlines. -/
def OrderClear (wild : α → Bool) (os : List (Outline α)) : Prop :=
  ∀ i < os.length, ∀ o ∈ os[i]?, (∀ o' ∈ os.drop (i + 1), o.PairClear wild o') ∧
    ∀ o₀ ∈ os.take i, o₀.TripleClear o (os.drop (i + 1))

section Order

variable {mk : Marker α} {r r' r₀ : Regex α} {o o' o₀ : Outline α} {later : List (Outline α)}

theorem Outline.PairClear.order (h : o.PairClear wild o') (hfits : o.Fits fold wild r) (hfits' : o'.Fits fold wild r') :
    r.Determined ∧ r.Shadowed r' := by
  unfold Outline.PairClear at h
  cases hl : o.fixed with
  | some l =>
    rw [hl] at h
    exact ⟨determined_of_fixed hfits hl, shadowed_of_clear hfits hl hfits' h⟩
  | none =>
    rw [hl] at h
    refine ⟨determined_of_endsOnce hfits h.2, ?_⟩
    intro s h₁ h₂ c d a b _ hoccurs _ _ hoccurs' hcuts
    exact absurd hcuts (not_cuts hfits hfits' h.1 hoccurs hoccurs')

theorem Outline.TripleClear.carried (h : o₀.TripleClear o later) (hlater : o' ∈ later) (hpair : o.PairClear wild o')
    (hfits₀ : o₀.Fits fold wild r₀) (hfits : o.Fits fold wild r) (hfits' : o'.Fits fold wild r') : r₀.Carried r r' := by
  cases hl : o.fixed with
  | some l => exact carried_of_clear hfits₀ hfits hl hfits' hlater (h l hl)
  | none =>
    unfold Outline.PairClear at hpair
    rw [hl] at hpair
    intro s c₀ d₀ c d a b g _ hoccurs hoccurs' _ _ _ hcuts
    exact absurd hcuts (not_cuts hfits hfits' hpair.1 hoccurs hoccurs')

/-- **Patterns whose outlines pass the check can be marked in turn.** -/
theorem orderly_of_outlines {table : List (Outline α × Regex α)} (hfits : ∀ e ∈ table, e.1.Fits fold wild e.2)
    (hclear : ∀ e ∈ table, e.1.Clear fold wild mk ∧ e.1.Paired fold mk) (horder : OrderClear wild (table.map Prod.fst)) :
    Orderly mk (table.map Prod.snd) where
  clear r hr := by
    obtain ⟨e, he, rfl⟩ := List.mem_map.mp hr
    exact (hclear e he).1.marker (hfits e he)
  apart r hr r' hr' := by
    obtain ⟨e, he, rfl⟩ := List.mem_map.mp hr
    obtain ⟨e', he', rfl⟩ := List.mem_map.mp hr'
    exact apart_of_paired (hclear e he).1 (hfits e he) (hclear e he).2 (hclear e' he').1 (hfits e' he') (hclear e' he').2
  order pre r post hrs r' hr' := by
    obtain ⟨tpre, trest, htable, rfl, hrest⟩ := List.map_eq_append_iff.mp hrs
    obtain ⟨e, tpost, rfl, rfl, rfl⟩ := List.map_eq_cons_iff.mp hrest
    obtain ⟨e', he', rfl⟩ := List.mem_map.mp hr'
    subst htable
    have hos : (tpre ++ e :: tpost).map Prod.fst = tpre.map Prod.fst ++ e.1 :: tpost.map Prod.fst := by simp
    have htake : ((tpre ++ e :: tpost).map Prod.fst).take tpre.length = tpre.map Prod.fst := by
      rw [hos]
      exact List.take_left' (List.length_map _)
    have hdrop : ((tpre ++ e :: tpost).map Prod.fst).drop (tpre.length + 1) = tpost.map Prod.fst := by
      rw [hos, ← List.drop_drop, List.drop_left' (List.length_map _)]
      rfl
    have hcheck := horder tpre.length (by simp) e.1 (by simp)
    rw [htake, hdrop] at hcheck
    have hlater : e'.1 ∈ tpost.map Prod.fst := List.mem_map_of_mem he'
    have hpair := hcheck.1 e'.1 hlater
    have hfit := hfits e (by simp)
    have hfit' := hfits e' (by simp [he'])
    obtain ⟨hdetermined, hshadowed⟩ := hpair.order hfit hfit'
    refine ⟨hdetermined, hshadowed, fun r₀ hr₀ => ?_⟩
    obtain ⟨e₀, he₀, rfl⟩ := List.mem_map.mp hr₀
    have htriple := hcheck.2 e₀.1 (List.mem_map_of_mem he₀)
    exact htriple.carried hlater hpair (hfits e₀ (by simp [he₀])) hfit hfit'

end Order

/-! ## Checking -/

section Decide

variable [DecidableEq α] (fold : α → α) (wild : α → Bool) (mk : Marker α) (o₀ o o' : Outline α)
  (later : List (Outline α)) (l known : List α) (n : ℕ)

instance : Decidable (o.FrontsClear l n) :=
  inferInstanceAs (Decidable (∀ t ∈ o.fronts, ∀ j < l.length, n ≤ j → ¬ Meets t (l.drop j)))

instance : Decidable (o.Clears l n known) :=
  inferInstanceAs (Decidable (o.FrontsClear l n ∧ ∀ t ∈ o.backs, ∀ e < n + 1, 0 < e → MeetsEnd t (l.take e) →
    ¬ MeetsEnd t (known.take (known.length - (n - e)))))

instance : Decidable (o.ShadowClear l) :=
  inferInstanceAs (Decidable (∀ k < l.length, 0 < k → l.drop k <+: l → o.FrontsClear (l.take k ++ l) 0))

instance : Decidable (o₀.CarriedClear later l) :=
  inferInstanceAs (Decidable (∀ n < l.length, 0 < n →
    (∀ t ∈ o₀.fronts, Meets t (l.drop n) → ∀ o ∈ later, o.Clears l n (l.take n)) ∧
      ∀ t ∈ o₀.backs, MeetsEnd t (l.take n) → ∀ o ∈ later, o.Clears l n t))

instance : Decidable (o.EndsOnce wild) :=
  inferInstanceAs (Decidable (∀ t ∈ o.backs, t ≠ [] ∧ ∀ c ∈ t.getLast?, wild c = false ∧ c ∉ o.init))

instance : Decidable (o.Outside wild o') := inferInstanceAs (Decidable (_ ∧ _))

instance : ∀ t : List α, Decidable (o.Breaks wild t)
  | [] | [_] => isFalse id
  | x :: y :: _ => inferInstanceAs (Decidable ((wild y = false ∧ y ∉ o.tail) ∧ [] ∉ o.backs ∧ [x] ∉ o.backs))

instance : Decidable (o.Clear fold wild mk) := inferInstanceAs (Decidable (_ ∧ _))

instance : Decidable (o.Paired fold mk) := inferInstanceAs (Decidable (_ ∨ _))

instance : Decidable (o.PairClear wild o') :=
  match h : o.fixed with
  | some l => decidable_of_iff (o'.ShadowClear l) (by rw [Outline.PairClear, h])
  | none => decidable_of_iff (o.Outside wild o' ∧ o.EndsOnce wild) (by rw [Outline.PairClear, h])

instance : Decidable (o₀.TripleClear o later) := inferInstanceAs (Decidable (∀ l ∈ o.fixed, o₀.CarriedClear later l))

instance (os : List (Outline α)) : Decidable (OrderClear wild os) :=
  inferInstanceAs (Decidable (∀ i < os.length, ∀ o ∈ os[i]?, (∀ o' ∈ os.drop (i + 1), o.PairClear wild o') ∧
    ∀ o₀ ∈ os.take i, o₀.TripleClear o (os.drop (i + 1))))

end Decide

end Zeptoclaw.Regex

import Zeptoclaw.Lib.EditDistance
import Zeptoclaw.Lib.Offset
import Zeptoclaw.Spec.Suggest
import Mathlib.Data.List.Lemmas

/-!
# The nearest known field

* `levenshtein_spec`: the matrix gives the least number of edits exactly for ASCII names and equal ones. Rows and
  columns are counted in bytes and filled by characters, so with any other character the corner stays zero.
* `suggestField_spec`: an ASCII name is told the first of the nearest known fields within three edits. Any
  other one is told the first known field.
* `validateFields_spec`: the check of a configuration reports every unknown field in this way, and nothing else.
-/

namespace Zeptoclaw

open Text

/-- As many bytes as characters. -/
def AsciiText (s : Str) : Prop := byteLen s = s.length

instance (s : Str) : Decidable (AsciiText s) := inferInstanceAs (Decidable (byteLen s = s.length))

theorem length_le_byteLen (s : Str) : s.length ≤ byteLen s := by
  induction s with
  | nil => exact Nat.le_refl _
  | cons c s ih =>
    have hpos := Char.utf8Size_pos c
    rw [List.length_cons, byteLen_cons]
    omega

namespace EditMatrix

/-- The numbers of rows and columns. -/
def HasSize (m : EditMatrix) (rows columns : ℕ) : Prop := m.length = rows ∧ ∀ row ∈ m, row.length = columns

variable {m : EditMatrix} {rows columns : ℕ}

theorem HasSize.setCell (h : m.HasSize rows columns) (i j v : ℕ) : (m.setCell i j v).HasSize rows columns := by
  refine ⟨by rw [EditMatrix.setCell, List.length_modify, h.1], fun row hrow => ?_⟩
  obtain ⟨k, hk, rfl⟩ := List.mem_iff_getElem.mp hrow
  have hk' : k < m.length := by rwa [EditMatrix.setCell, List.length_modify] at hk
  have hold := h.2 _ (List.getElem_mem hk')
  simp only [EditMatrix.setCell, List.getElem_modify]
  split
  · rw [List.length_set, hold]
  · exact hold

theorem HasSize.cell_setCell (h : m.HasSize rows columns) {i j : ℕ} (hi : i < rows) (hj : j < columns) (v p q : ℕ) :
    (m.setCell i j v).cell p q = if p = i ∧ q = j then v else m.cell p q := by
  have hi' : i < m.length := h.1 ▸ hi
  have hrow : (m[i]).length = columns := h.2 _ (List.getElem_mem hi')
  unfold cell EditMatrix.setCell
  simp only [List.getD_eq_getElem?_getD, List.getElem?_modify]
  by_cases hp : i = p
  · subst hp
    rw [List.getElem?_eq_getElem hi']
    simp only [if_true, true_and, Option.map_eq_map, Option.map_some, Option.getD_some, List.getElem?_set, hrow]
    by_cases hq : j = q
    · subst hq
      simp [hj]
    · simp [hq, Ne.symm hq]
  · simp [hp, Ne.symm hp]

theorem init_size (aLen bLen : ℕ) : (init aLen bLen).HasSize (aLen + 1) (bLen + 1) := by
  refine ⟨by simp [init], fun row hrow => ?_⟩
  obtain ⟨k, hk, rfl⟩ := List.mem_iff_getElem.mp hrow
  simp only [init, List.getElem_modify]
  split <;> simp

theorem cell_init {aLen bLen p q : ℕ} (hp : p ≤ aLen) (hq : q ≤ bLen) :
    (init aLen bLen).cell p q = if p = 0 then q else if q = 0 then p else 0 := by
  have hp' : p < aLen + 1 := Nat.lt_succ_of_le hp
  have hq' : q < bLen + 1 := Nat.lt_succ_of_le hq
  unfold cell init
  simp only [List.getD_eq_getElem?_getD, List.getElem?_modify, List.getElem?_mapIdx, List.getElem?_replicate, if_pos hp']
  by_cases hzero : p = 0
  · subst hzero
    simp [hq']
  · have hzero' : 0 ≠ p := Ne.symm hzero
    simp only [if_neg hzero, if_neg hzero']
    by_cases hcol : q = 0
    · subst hcol
      simp
    · simp [Ne.symm hcol, hcol, hq']

/-- The cells that are filled, with `i` characters of the first name and `j` of the second one done for the next. -/
def Done (b : Str) (i j p q : ℕ) : Prop := (p ≤ i ∧ q ≤ b.length) ∨ (p = i + 1 ∧ q ≤ j)

/-- The matrix while it is filled: distances of what the names begin with, and zeros. -/
structure Filled (a b : Str) (i j : ℕ) (m : EditMatrix) : Prop where
  size : m.HasSize (byteLen a + 1) (byteLen b + 1)
  done : ∀ p q, p ≤ a.length → Done b i j p q → m.cell p q = editDistance (a.take p) (b.take q)
  left : ∀ p, p ≤ byteLen a → m.cell p 0 = p
  top : ∀ q, q ≤ byteLen b → m.cell 0 q = q
  rest : ∀ p q, 0 < p → p ≤ byteLen a → 0 < q → q ≤ byteLen b → ¬ Done b i j p q → m.cell p q = 0

variable {a b : Str} {i j : ℕ}

theorem Filled.init (a b : Str) : Filled a b 0 0 (init (byteLen a) (byteLen b)) := by
  refine ⟨init_size _ _, fun p q hp hdone => ?_, fun p hp => ?_, fun q hq => ?_, fun p q hp hpa hq hqb _ => ?_⟩
  · rcases hdone with ⟨hp0, hq⟩ | ⟨-, hq0⟩
    · rw [Nat.le_zero.mp hp0, cell_init (Nat.zero_le _) (hq.trans (length_le_byteLen b)), if_pos rfl, List.take_zero,
        editDistance_nil_left, List.length_take_of_le hq]
    · rw [Nat.le_zero.mp hq0, cell_init (hp.trans (length_le_byteLen a)) (Nat.zero_le _), if_pos rfl, List.take_zero,
        editDistance_nil_right, List.length_take_of_le hp]
      exact ite_eq_right_iff.mpr Eq.symm
  · rw [cell_init hp (Nat.zero_le _), if_pos rfl]
    exact ite_eq_right_iff.mpr Eq.symm
  · rw [cell_init (Nat.zero_le _) hq, if_pos rfl]
  · rw [cell_init hpa hqb, if_neg hp.ne', if_neg hq.ne']

theorem Filled.step (h : Filled a b i j m) (hi : i < a.length) (hj : j < b.length) :
    Filled a b i (j + 1) (m.setCell (i + 1) (j + 1)
      (min (min (m.cell i (j + 1) + 1) (m.cell (i + 1) j + 1)) (m.cell i j + if a[i] = b[j] then 0 else 1))) := by
  have hia : i + 1 ≤ byteLen a := hi.trans_le (length_le_byteLen a)
  have hjb : j + 1 ≤ byteLen b := hj.trans_le (length_le_byteLen b)
  have hset := h.size.cell_setCell (Nat.lt_succ_of_le hia) (Nat.lt_succ_of_le hjb)
  refine ⟨h.size.setCell _ _ _, fun p q hp hdone => ?_, fun p hp => ?_, fun q hq => ?_, fun p q hp hpa hq hqb hdone => ?_⟩
  · rw [hset]
    split
    · next heq =>
      obtain ⟨rfl, rfl⟩ := heq
      rw [h.done i (j + 1) (by omega) (Or.inl ⟨le_refl i, hj⟩), h.done (i + 1) j hi (Or.inr ⟨rfl, le_refl j⟩),
        h.done i j (by omega) (Or.inl ⟨le_refl i, hj.le⟩), List.take_succ_eq_append_getElem hi,
        List.take_succ_eq_append_getElem hj, editDistance_concat]
    · next hne =>
      refine h.done p q hp ?_
      unfold Done at hdone ⊢
      omega
  · rw [hset, if_neg (by omega), h.left p hp]
  · rw [hset, if_neg (by omega), h.top q hq]
  · have hold : ¬ Done b i j p q := fun hold => hdone (by unfold Done at hold ⊢; omega)
    rw [hset, if_neg fun heq => hdone (Or.inr ⟨heq.1, heq.2.le⟩), h.rest p q hp hpa hq hqb hold]

/-- The inner loop. -/
theorem Filled.fillRow (h : Filled a b i 0 m) (hi : i < a.length) : Filled a b i b.length (m.fillRow b (a[i], i)) := by
  have hloop : ∀ (rest : Str) (j : ℕ) (m : EditMatrix), b.drop j = rest → j ≤ b.length → Filled a b i j m →
      Filled a b i b.length ((rest.zipIdx j).foldl
        (fun m cb => m.setCell (i + 1) (cb.2 + 1)
          (min (min (m.cell i (cb.2 + 1) + 1) (m.cell (i + 1) cb.2 + 1)) (m.cell i cb.2 + if a[i] = cb.1 then 0 else 1))) m) := by
    intro rest
    induction rest with
    | nil =>
      intro j m hdrop hj h
      rw [List.drop_eq_nil_iff] at hdrop
      rw [← Nat.le_antisymm hj hdrop]
      exact h
    | cons c rest ih =>
      intro j m hdrop hj h
      have hj' : j < b.length := by
        by_contra hge
        rw [List.drop_eq_nil_of_le (Nat.le_of_not_lt hge)] at hdrop
        cases hdrop
      rw [← List.getElem_cons_drop hj'] at hdrop
      obtain ⟨rfl, hrest⟩ := List.cons.inj hdrop
      exact ih (j + 1) _ hrest hj' (h.step hi hj')
  exact hloop b 0 m rfl (Nat.zero_le _) h

theorem Filled.nextRow (h : Filled a b i b.length m) : Filled a b (i + 1) 0 m := by
  refine ⟨h.size, fun p q hp hdone => ?_, h.left, h.top, fun p q hp hpa hq hqb hdone => ?_⟩
  · by_cases hold : Done b i b.length p q
    · exact h.done p q hp hold
    · have hzero : q = 0 := by
        unfold Done at hdone hold
        omega
      subst hzero
      rw [h.left p (hp.trans (length_le_byteLen a)), List.take_zero, editDistance_nil_right, List.length_take_of_le hp]
  · refine h.rest p q hp hpa hq hqb fun hold => hdone ?_
    unfold Done at hold ⊢
    omega

/-- The outer loop. -/
theorem Filled.fill (a b : Str) : Filled a b a.length 0 (a.zipIdx.foldl (EditMatrix.fillRow b) (.init (byteLen a) (byteLen b))) := by
  have hloop : ∀ (rest : Str) (i : ℕ) (m : EditMatrix), a.drop i = rest → i ≤ a.length → Filled a b i 0 m →
      Filled a b a.length 0 ((rest.zipIdx i).foldl (EditMatrix.fillRow b) m) := by
    intro rest
    induction rest with
    | nil =>
      intro i m hdrop hi h
      rw [List.drop_eq_nil_iff] at hdrop
      rw [← Nat.le_antisymm hi hdrop]
      exact h
    | cons c rest ih =>
      intro i m hdrop hi h
      have hi' : i < a.length := by
        by_contra hge
        rw [List.drop_eq_nil_of_le (Nat.le_of_not_lt hge)] at hdrop
        cases hdrop
      rw [← List.getElem_cons_drop hi'] at hdrop
      obtain ⟨rfl, hrest⟩ := List.cons.inj hdrop
      exact ih (i + 1) _ hrest hi' (h.fillRow hi').nextRow
  exact hloop a 0 _ rfl (Nat.zero_le _) (Filled.init a b)

end EditMatrix

/-- What the matrix comes to. -/
theorem levenshtein_eq (a b : Str) :
    levenshtein a b =
      if a = [] then byteLen b else if b = [] then byteLen a else if AsciiText a ∧ AsciiText b then editDistance a b else 0 := by
  have hfill := EditMatrix.Filled.fill a b
  rw [levenshtein]
  split
  · next ha =>
    subst ha
    exact hfill.top _ (le_refl _)
  · next ha =>
    split
    · next hb =>
      subst hb
      exact hfill.left _ (le_refl _)
    · next hb =>
      split
      · next hascii =>
        have hcorner := hfill.done a.length b.length (le_refl _) (Or.inl ⟨le_refl _, le_refl _⟩)
        have ha' : byteLen a = a.length := hascii.1
        have hb' : byteLen b = b.length := hascii.2
        rwa [List.take_length, List.take_length, ← ha', ← hb'] at hcorner
      · next hascii =>
        have hpos := byteLen_pos ha
        have hpos' := byteLen_pos hb
        refine hfill.rest _ _ hpos (le_refl _) hpos' (le_refl _) fun hdone => hascii ?_
        have hle := length_le_byteLen a
        have hle' := length_le_byteLen b
        unfold EditMatrix.Done at hdone
        unfold AsciiText
        omega

theorem levenshtein_ascii {a b : Str} (ha : AsciiText a) (hb : AsciiText b) : levenshtein a b = editDistance a b := by
  rw [levenshtein_eq]
  split
  · next h => rw [h, editDistance_nil_left, hb]
  · split
    · next h => rw [h, editDistance_nil_right, ha]
    · exact if_pos ⟨ha, hb⟩

theorem editDistance_eq_zero_iff {a b : Str} : editDistance a b = 0 ↔ a = b := by
  refine ⟨fun h => ?_, fun h => by rw [h, editDistance_self]⟩
  have hedits := edits_editDistance a b
  rw [h] at hedits
  cases hedits
  rfl

/-- Two names for which the matrix is right: ASCII, or the same. -/
theorem levenshtein_eq_iff {a b : Str} : levenshtein a b = editDistance a b ↔ (AsciiText a ∧ AsciiText b) ∨ a = b := by
  rw [levenshtein_eq]
  split
  · next ha =>
    subst ha
    rw [editDistance_nil_left]
    refine ⟨fun h => .inl ⟨rfl, h⟩, ?_⟩
    rintro (⟨-, h⟩ | rfl)
    · exact h
    · rfl
  split
  · next hb =>
    subst hb
    rw [editDistance_nil_right]
    refine ⟨fun h => .inl ⟨h, rfl⟩, ?_⟩
    rintro (⟨h, -⟩ | rfl)
    · exact h
    · rfl
  split
  · next hascii => exact iff_of_true rfl (.inl hascii)
  · next hascii => rw [eq_comm, editDistance_eq_zero_iff, or_iff_right hascii]

/-- **The matrix computes the least number of edits exactly for ASCII names and equal ones**; if one of two names has
any other character, the result is zero, unless one is empty. -/
theorem levenshtein_spec (a b : Str) :
    (IsLeast {n | Edits n a b} (levenshtein a b) ↔ (AsciiText a ∧ AsciiText b) ∨ a = b) ∧
      (¬ (AsciiText a ∧ AsciiText b) → a ≠ [] → b ≠ [] → levenshtein a b = 0) := by
  refine ⟨?_, fun hascii ha hb => ?_⟩
  · rw [← levenshtein_eq_iff]
    refine ⟨fun h => h.unique (isLeast_editDistance a b), fun h => ?_⟩
    rw [h]
    exact isLeast_editDistance a b
  · rw [levenshtein_eq, if_neg ha, if_neg hb, if_neg hascii]

theorem levenshtein_spec_example :
    IsLeast {n | Edits n "skils".toList "skills".toList} (levenshtein "skils".toList "skills".toList) ∧
      levenshtein "größe".toList "agents".toList = 0 :=
  ⟨(levenshtein_spec _ _).1.mpr (.inl (by decide)), (levenshtein_spec _ _).2 (by decide) (by decide) (by decide)⟩

/-! ## Suggestions -/

/-- The first of the least. -/
def FirstLeast (key : Str → ℕ) (l : List Str) (k : Str) : Prop :=
  ∃ before after, l = before ++ k :: after ∧ (∀ x ∈ before, key k < key x) ∧ ∀ x ∈ after, key k ≤ key x

theorem exists_firstLeast (key : Str → ℕ) : ∀ {l : List Str}, l ≠ [] → ∃ k, FirstLeast key l k := by
  intro l
  induction l with
  | nil => exact fun h => absurd rfl h
  | cons x l ih =>
    intro _
    by_cases hl : l = []
    · exact ⟨x, [], [], by rw [hl]; rfl, fun _ h => absurd h List.not_mem_nil, fun _ h => absurd h List.not_mem_nil⟩
    obtain ⟨k, before, after, rfl, hbefore, hafter⟩ := ih hl
    by_cases hle : key x ≤ key k
    · refine ⟨x, [], _, rfl, fun _ h => absurd h List.not_mem_nil, fun y hy => hle.trans ?_⟩
      rcases List.mem_append.mp hy with hy | hy
      · exact (hbefore y hy).le
      · rcases List.mem_cons.mp hy with rfl | hy
        · exact le_refl _
        · exact hafter y hy
    · refine ⟨k, x :: before, after, rfl, fun y hy => ?_, hafter⟩
      rcases List.mem_cons.mp hy with rfl | hy
      · exact Nat.lt_of_not_le hle
      · exact hbefore y hy

theorem minByKey_of_firstLeast {key : Str → ℕ} {l : List Str} {k : Str} (h : FirstLeast key l k) :
    minByKey (l.map fun k => (k, key k)) = some (k, key k) := by
  obtain ⟨before, after, rfl, hbefore, hafter⟩ := h
  -- nothing behind it is less, and all before it is more
  have hkeep : ∀ after : List Str, (∀ x ∈ after, key k ≤ key x) →
      (after.map fun k => (k, key k)).foldl (fun best k => if k.2 < best.2 then k else best) (k, key k) = (k, key k) := by
    intro after
    induction after with
    | nil => exact fun _ => rfl
    | cons x after ih =>
      intro h
      obtain ⟨hx, hrest⟩ := List.forall_mem_cons.mp h
      rw [List.map_cons, List.foldl_cons, if_neg (Nat.not_lt.mpr hx)]
      exact ih hrest
  have hreach : ∀ (before : List Str) (best : Str), key k < key best → (∀ x ∈ before, key k < key x) →
      ((before ++ k :: after).map fun k => (k, key k)).foldl (fun best k => if k.2 < best.2 then k else best)
        (best, key best) = (k, key k) := by
    intro before
    induction before with
    | nil =>
      intro best hbest _
      rw [List.nil_append, List.map_cons, List.foldl_cons, if_pos hbest]
      exact hkeep after hafter
    | cons x before ih =>
      intro best hbest h
      obtain ⟨hx, hrest⟩ := List.forall_mem_cons.mp h
      rw [List.cons_append, List.map_cons, List.foldl_cons]
      split
      · exact ih x hx hrest
      · exact ih best hbest hrest
  cases before with
  | nil =>
    rw [List.nil_append, List.map_cons, minByKey]
    exact congrArg some (hkeep after hafter)
  | cons x before =>
    obtain ⟨hx, hrest⟩ := List.forall_mem_cons.mp hbefore
    rw [List.cons_append, List.map_cons, minByKey]
    exact congrArg some (hreach before x hx hrest)

/-- The first of the nearest fields is suggested, if it is near enough. -/
theorem suggestField_eq (unknown : Str) {known : List Str} {k : Str} (h : FirstLeast (levenshtein unknown) known k) :
    suggestField unknown known = if levenshtein unknown k ≤ 3 then some (didYouMean k) else none := by
  obtain ⟨before, after, rfl, hbefore, hafter⟩ := h
  have hmap : ((before ++ k :: after).map fun k => (k, levenshtein unknown k)).filter (fun k => k.2 ≤ 3) =
      ((before ++ k :: after).filter fun k => levenshtein unknown k ≤ 3).map fun k => (k, levenshtein unknown k) :=
    List.filter_map
  rw [suggestField, hmap]
  split
  · next hle =>
    rw [minByKey_of_firstLeast (k := k)]
    · rfl
    · refine ⟨before.filter fun k => levenshtein unknown k ≤ 3, after.filter fun k => levenshtein unknown k ≤ 3, ?_,
        fun x hx => hbefore x (List.mem_of_mem_filter hx), fun x hx => hafter x (List.mem_of_mem_filter hx)⟩
      have hk : (k :: after).filter (fun k => levenshtein unknown k ≤ 3) =
          k :: after.filter fun k => levenshtein unknown k ≤ 3 := List.filter_cons_of_pos (decide_eq_true hle)
      rw [List.filter_append, hk]
  · next hgt =>
    have hnone : (before ++ k :: after).filter (fun k => levenshtein unknown k ≤ 3) = [] := by
      rw [List.filter_eq_nil_iff]
      intro x hx
      rw [decide_eq_true_eq]
      rcases List.mem_append.mp hx with hx | hx
      · exact fun hle => hgt ((hbefore x hx).le.trans hle)
      · rcases List.mem_cons.mp hx with rfl | hx
        · exact hgt
        · exact fun hle => hgt ((hafter x hx).trans hle)
    rw [hnone]
    rfl

section

variable {known : List Str} (hknown : ∀ k ∈ known, AsciiText k ∧ k ≠ []) {unknown : Str}

include hknown

theorem suggestField_ascii (hascii : AsciiText unknown) {k : Str} (hk : FirstLeast (editDistance unknown) known k) :
    suggestField unknown known = if editDistance unknown k ≤ 3 then some (didYouMean k) else none := by
  have hsame : ∀ x ∈ known, levenshtein unknown x = editDistance unknown x := fun x hx => levenshtein_ascii hascii (hknown x hx).1
  obtain ⟨before, after, rfl, hbefore, hafter⟩ := hk
  have hmem : k ∈ before ++ k :: after := List.mem_append_right _ List.mem_cons_self
  rw [← hsame k hmem]
  refine suggestField_eq unknown ⟨before, after, rfl, fun x hx => ?_, fun x hx => ?_⟩
  · rw [hsame k hmem, hsame x (List.mem_append_left _ hx)]
    exact hbefore x hx
  · rw [hsame k hmem, hsame x (List.mem_append_right _ (List.mem_cons_of_mem _ hx))]
    exact hafter x hx

theorem suggestField_nonAscii (hascii : ¬ AsciiText unknown) : suggestField unknown known = known.head?.map didYouMean := by
  have hne : unknown ≠ [] := fun h => hascii (by rw [h]; rfl)
  have hzero : ∀ x ∈ known, levenshtein unknown x = 0 := fun x hx => by
    rw [levenshtein_eq, if_neg hne, if_neg (hknown x hx).2, if_neg fun h => hascii h.1]
  cases known with
  | nil => rfl
  | cons k known =>
    have hk := hzero k List.mem_cons_self
    have hfirst : FirstLeast (levenshtein unknown) (k :: known) k :=
      ⟨[], known, rfl, fun _ h => absurd h List.not_mem_nil, fun x _ => hk ▸ Nat.zero_le _⟩
    rw [suggestField_eq unknown hfirst, if_pos (hk ▸ Nat.zero_le 3)]
    rfl

end

/-- The known fields of the configuration. -/
theorem known_ascii {known : List Str} (h : known ∈ [knownTopLevel, knownAgentsDefaults, knownLoopGuard]) :
    ∀ k ∈ known, AsciiText k ∧ k ≠ [] := by
  rcases List.mem_cons.mp h with rfl | h
  · decide
  · rcases List.mem_pair.mp h with rfl | rfl <;> decide

/-- In every object of the configuration that is checked, a name with another character is told the first field. -/
theorem unknownMessage_nonAscii {known : List Str} (h : known ∈ [knownTopLevel, knownAgentsDefaults, knownLoopGuard])
    {key : Str} (hascii : ¬ AsciiText key) :
    unknownMessage key known = "Unknown field '".toList ++ key ++ "' — ".toList ++ didYouMean (known.headD []) := by
  have hsuggest := suggestField_nonAscii (known_ascii h) hascii
  unfold unknownMessage
  rw [hsuggest]
  cases known with
  | nil => exact absurd h (by decide)
  | cons k known => exact if_neg (List.cons_ne_nil _ _)

/-- **An ASCII name is told the first of the nearest known fields, if that is within three edits; any other name
is told the first known field.** -/
theorem suggestField_spec {known : List Str} (hknown : ∀ k ∈ known, AsciiText k ∧ k ≠ []) (unknown : Str) :
    (AsciiText unknown → known ≠ [] → ∃ k, FirstLeast (editDistance unknown) known k ∧
      suggestField unknown known = if editDistance unknown k ≤ 3 then some (didYouMean k) else none) ∧
    (¬ AsciiText unknown → suggestField unknown known = known.head?.map didYouMean) := by
  refine ⟨fun hascii hne => ?_, fun hascii => suggestField_nonAscii hknown hascii⟩
  obtain ⟨k, hk⟩ := exists_firstLeast (editDistance unknown) hne
  exact ⟨k, hk, suggestField_ascii hknown hascii hk⟩

theorem suggestField_spec_example :
    (∃ k, FirstLeast (editDistance "skils".toList) knownLoopGuard k ∧
      suggestField "skils".toList knownLoopGuard =
        if editDistance "skils".toList k ≤ 3 then some (didYouMean k) else none) ∧
      suggestField "größe".toList knownLoopGuard = some (didYouMean "enabled".toList) :=
  have hknown : ∀ k ∈ knownLoopGuard, AsciiText k ∧ k ≠ [] := known_ascii (by decide)
  ⟨(suggestField_spec hknown _).1 (by decide) (by decide), (suggestField_spec hknown _).2 (by decide)⟩

/-! ## The configuration -/

/-- A field that the checks do not know, with how severe that is, its path and the known fields of its object. -/
inductive UnknownField (raw : Json) : DiagnosticLevel → Str → Str → List Str → Prop
  | top {key : Str} (field : raw.get key ≠ none) (unknown : key ∉ knownTopLevel) :
    UnknownField raw .error key key knownTopLevel
  | defaults {key : Str} {agents defaults : Json} (hagents : raw.get "agents".toList = some agents)
    (hdefaults : agents.get "defaults".toList = some defaults) (field : defaults.get key ≠ none)
    (unknown : key ∉ knownAgentsDefaults) :
    UnknownField raw .error ("agents.defaults.".toList ++ key) key knownAgentsDefaults
  | loopGuard {key : Str} {agents defaults loopGuard : Json} (hagents : raw.get "agents".toList = some agents)
    (hdefaults : agents.get "defaults".toList = some defaults) (hguard : defaults.get "loop_guard".toList = some loopGuard)
    (field : loopGuard.get key ≠ none) (unknown : key ∉ knownLoopGuard) :
    UnknownField raw .warn ("agents.defaults.loop_guard.".toList ++ key) key knownLoopGuard

theorem get_ne_none_iff {v : Json} {key : Str} : v.get key ≠ none ↔ ∃ keys, v.keys = some keys ∧ key ∈ keys := by
  cases v with
  | object fields =>
    have hfind : (fields.find? fun f => f.1 = key) ≠ none ↔ ∃ f ∈ fields, f.1 = key := by
      simp
    rw [Json.get, ne_eq, Option.map_eq_none_iff, ← ne_eq, hfind]
    simp [Json.keys]
  | null | bool | number | string | array => simp [Json.get, Json.keys]

theorem mem_unknownFields_iff {level : DiagnosticLevel} {path : Str} {known keys : List Str} {d : Diagnostic} :
    d ∈ unknownFields level path known keys ↔
      ∃ key ∈ keys, key ∉ known ∧ d = ⟨level, path ++ key, unknownMessage key known⟩ := by
  unfold unknownFields
  rw [List.mem_map]
  constructor
  · rintro ⟨key, hkey, rfl⟩
    rw [List.mem_filter, decide_eq_true_eq] at hkey
    exact ⟨key, hkey.1, hkey.2, rfl⟩
  · rintro ⟨key, hkey, hunknown, rfl⟩
    exact ⟨key, List.mem_filter.mpr ⟨hkey, decide_eq_true hunknown⟩, rfl⟩

/-- The diagnostics of unknown fields are those of the fields that are unknown. -/
theorem mem_unknownDiagnostics_iff {raw : Json} {keys : List Str} (hkeys : raw.keys = some keys) {d : Diagnostic} :
    d ∈ unknownDiagnostics raw keys ↔
      ∃ level path key known, UnknownField raw level path key known ∧ d = ⟨level, path, unknownMessage key known⟩ := by
  have hnested : ∀ {v : Option Json} {key : Str},
      key ∈ (v.bind Json.keys).getD [] ↔ ∃ w, v = some w ∧ w.get key ≠ none := by
    intro v key
    cases v with
    | none => simp
    | some w =>
      rw [Option.bind_some]
      cases hw : w.keys with
      | none => simp [get_ne_none_iff, hw]
      | some keys => simp [get_ne_none_iff, hw]
  unfold unknownDiagnostics
  dsimp only
  rw [List.mem_append, List.mem_append, mem_unknownFields_iff, mem_unknownFields_iff, mem_unknownFields_iff]
  constructor
  · rintro ((⟨key, hkey, hunknown, rfl⟩ | ⟨key, hkey, hunknown, rfl⟩) | ⟨key, hkey, hunknown, rfl⟩)
    · exact ⟨_, _, key, _, .top (get_ne_none_iff.mpr ⟨keys, hkeys, hkey⟩) hunknown, rfl⟩
    · obtain ⟨defaults, hdefaults, hfield⟩ := hnested.mp hkey
      obtain ⟨agents, hagents, hdefaults⟩ := Option.bind_eq_some_iff.mp hdefaults
      exact ⟨_, _, key, _, .defaults hagents hdefaults hfield hunknown, rfl⟩
    · obtain ⟨guard, hguard, hfield⟩ := hnested.mp hkey
      obtain ⟨defaults, hdefaults, hguard⟩ := Option.bind_eq_some_iff.mp hguard
      obtain ⟨agents, hagents, hdefaults⟩ := Option.bind_eq_some_iff.mp hdefaults
      exact ⟨_, _, key, _, .loopGuard hagents hdefaults hguard hfield hunknown, rfl⟩
  · rintro ⟨level, path, key, known, hfield, rfl⟩
    cases hfield with
    | top hfield hunknown =>
      obtain ⟨keys', hkeys', hmem⟩ := get_ne_none_iff.mp hfield
      obtain rfl := Option.some.inj (hkeys.symm.trans hkeys')
      exact .inl (.inl ⟨_, hmem, hunknown, rfl⟩)
    | defaults hagents hdefaults hfield hunknown =>
      refine .inl (.inr ⟨_, hnested.mpr ⟨_, ?_, hfield⟩, hunknown, rfl⟩)
      rw [hagents, Option.bind_some, hdefaults]
    | loopGuard hagents hdefaults hguard hfield hunknown =>
      refine .inr ⟨_, hnested.mpr ⟨_, ?_, hfield⟩, hunknown, rfl⟩
      rw [hagents, Option.bind_some, hdefaults, Option.bind_some, hguard]

/-- **The check of the field names reports every unknown field at its path with its suggestion, and nothing else**; all
fields are recognized exactly if there is none. -/
theorem validateFields_spec (fields : List (Str × Json)) :
    (∀ d, d.level ≠ .ok → (d ∈ validateFields (.object fields) ↔
      ∃ level path key known, UnknownField (.object fields) level path key known ∧
        d = ⟨level, path, unknownMessage key known⟩)) ∧
    (⟨.ok, [], "All fields recognized".toList⟩ ∈ validateFields (.object fields) ↔
      ∀ level path key known, ¬ UnknownField (.object fields) level path key known) := by
  have hkeys : (Json.object fields).keys = some (fields.map Prod.fst) := rfl
  have hmem := fun d => mem_unknownDiagnostics_iff hkeys (d := d)
  have hlevel : ∀ d ∈ unknownDiagnostics (.object fields) (fields.map Prod.fst), d.level ≠ .ok := by
    intro d hd
    obtain ⟨level, path, key, known, hfield, rfl⟩ := (hmem d).mp hd
    cases hfield <;> exact fun h => by cases h
  have hvalidate : validateFields (.object fields) =
      ⟨.ok, [], "Valid JSON".toList⟩ :: unknownDiagnostics (.object fields) (fields.map Prod.fst) ++
        if unknownDiagnostics (.object fields) (fields.map Prod.fst) = [] then
          [⟨.ok, [], "All fields recognized".toList⟩] else [] := rfl
  rw [hvalidate]
  constructor
  · intro d hd
    rw [List.mem_append, List.mem_cons, ← hmem]
    constructor
    · rintro ((rfl | h) | h)
      · exact absurd rfl hd
      · exact h
      · split at h
        · rw [List.mem_singleton.mp h] at hd
          exact absurd rfl hd
        · cases h
    · exact fun h => .inl (.inr h)
  · rw [List.mem_append, List.mem_cons]
    constructor
    · rintro ((h | h) | h) level path key known hfield
      · exact absurd (congrArg Diagnostic.message h) (by decide)
      · exact absurd rfl (hlevel _ h)
      · split at h
        · next hnil =>
          have hd := (hmem _).mpr ⟨level, path, key, known, hfield, rfl⟩
          rw [hnil] at hd
          cases hd
        · cases h
    · intro hnone
      have hnil : unknownDiagnostics (.object fields) (fields.map Prod.fst) = [] := by
        rw [List.eq_nil_iff_forall_not_mem]
        intro d hd
        obtain ⟨level, path, key, known, hfield, -⟩ := (hmem d).mp hd
        exact hnone level path key known hfield
      rw [if_pos hnil]
      exact .inr List.mem_cons_self

end Zeptoclaw

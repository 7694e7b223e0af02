import Zeptoclaw.Spec.Telegram

/-!
# Tags in a text

`html_tags_valid` finds its tags with a pattern. Here a text is read as characters and tags (`Reads`): the pattern finds
the tags of a text exactly in this way if no `<` stands outside a tag (`reads_iff`). A text is acceptable if it can be
read so and its elements are nested; behind an acceptable text, any text is acceptable exactly if it is so by itself
(`acceptable_append_iff`).
-/

namespace Zeptoclaw

open Text Pattern

/-! ## One tag -/

section Span

variable {α : Type*} {p : α → Bool}

/-- A text of a class, up to a character that is not of the class, is determined by the whole. -/
theorem span_unique : ∀ {a b a' b' : List α}, a ++ b = a' ++ b' → (∀ c ∈ a, p c = true) → (∀ c ∈ b.head?, p c = false) →
    (∀ c ∈ a', p c = true) → (∀ c ∈ b'.head?, p c = false) → a = a' ∧ b = b' := by
  intro a
  induction a with
  | nil =>
    intro b a' b' h _ hb ha' _
    cases a' with
    | nil => exact ⟨rfl, h⟩
    | cons c a' =>
      rw [List.nil_append] at h
      have hc := hb c (by rw [h]; rfl)
      rw [ha' c List.mem_cons_self] at hc
      cases hc
  | cons c a ih =>
    intro b a' b' h ha hb ha' hb'
    cases a' with
    | nil =>
      rw [List.nil_append] at h
      have hc := hb' c (by rw [← h]; rfl)
      rw [ha c List.mem_cons_self] at hc
      cases hc
    | cons d a' =>
      obtain ⟨rfl, hrest⟩ := List.cons.inj h
      obtain ⟨rfl, rfl⟩ := ih hrest (fun e he => ha e (List.mem_cons_of_mem c he)) hb
        (fun e he => ha' e (List.mem_cons_of_mem c he)) hb'
      exact ⟨rfl, rfl⟩

end Span

variable {u : UnicodeLib}

/-- The name of a tag. -/
def IsName (u : UnicodeLib) (name : Str) : Prop :=
  ∃ c t, name = c :: t ∧ u.isWord c = true ∧ ∀ d ∈ t, (u.isWord d || d = '-') = true

/-- What stands between the name of a tag and its end. -/
def IsSpace (space : Str) : Prop :=
  space = [] ∨ ∃ c t, space = c :: t ∧ isWhitespace c = true ∧ ∀ d ∈ t, d ≠ '>'

/-- The parts of a tag. -/
structure IsTag (u : UnicodeLib) (slash name space : Str) : Prop where
  slash : slash = [] ∨ slash = ['/']
  name : IsName u name
  space : IsSpace space

/-- The text of a tag and what follows. -/
def tagText (slash name space rest : Str) : Str := '<' :: (slash ++ (name ++ (space ++ '>' :: rest)))

theorem tagText_append (slash name space rest t : Str) : tagText slash name space rest ++ t = tagText slash name space (rest ++ t) := by
  simp [tagText]

/-- The part of the pattern behind the name. -/
theorem mem_ways_space {before : Option Char} {s : Str} {w : Way Char} :
    w ∈ (alt (seq (cls isWhitespace) (rep (fun c => c ≠ '>') 0 none false)) .empty).ways before s ↔
      ∃ space rest, IsSpace space ∧ s = space ++ rest ∧ w = ⟨space, [], rest⟩ := by
  rw [mem_ways_alt, mem_ways_seq]
  constructor
  · rintro (⟨x, hx, y, hy, rfl⟩ | hw)
    · obtain ⟨c, t, hc, rfl, rfl⟩ := mem_ways_cls.mp hx
      obtain ⟨text, rest, rfl, -, -, hall, rfl⟩ := mem_ways_rep.mp hy
      exact ⟨c :: text, rest, .inr ⟨c, text, rfl, hc, fun d hd => of_decide_eq_true (hall d hd)⟩, rfl, rfl⟩
    · obtain rfl := List.mem_singleton.mp hw
      exact ⟨[], s, .inl rfl, rfl, rfl⟩
  · rintro ⟨space, rest, rfl | ⟨c, t, rfl, hc, hall⟩, rfl, rfl⟩
    · exact .inr (List.mem_singleton_self _)
    · refine .inl ⟨⟨[c], [], t ++ rest⟩, mem_ways_cls.mpr ⟨c, t ++ rest, hc, rfl, rfl⟩, ⟨t, [], rest⟩, ?_, rfl⟩
      exact mem_ways_rep.mpr ⟨t, rest, rfl, Nat.zero_le _, by simp, fun d hd => decide_eq_true (hall d hd), rfl⟩

theorem mem_ways_name {before : Option Char} {s : Str} {w : Way Char} :
    w ∈ (seq (cls u.isWord) (rep (fun c => u.isWord c || c = '-') 0 none false)).ways before s ↔
      ∃ name rest, IsName u name ∧ s = name ++ rest ∧ w = ⟨name, [], rest⟩ := by
  rw [mem_ways_seq]
  constructor
  · rintro ⟨x, hx, y, hy, rfl⟩
    obtain ⟨c, t, hc, rfl, rfl⟩ := mem_ways_cls.mp hx
    obtain ⟨text, rest, rfl, -, -, hall, rfl⟩ := mem_ways_rep.mp hy
    exact ⟨c :: text, rest, ⟨c, text, rfl, hc, hall⟩, rfl, rfl⟩
  · rintro ⟨name, rest, ⟨c, t, rfl, hc, hall⟩, rfl, rfl⟩
    refine ⟨⟨[c], [], t ++ rest⟩, mem_ways_cls.mpr ⟨c, t ++ rest, hc, rfl, rfl⟩, ⟨t, [], rest⟩, ?_, rfl⟩
    exact mem_ways_rep.mpr ⟨t, rest, rfl, Nat.zero_le _, by simp, hall, rfl⟩

/-- **The pattern finds the tags.** -/
theorem mem_ways_reTag {before : Option Char} {s : Str} {w : Way Char} : w ∈ (reTag u).ways before s ↔
    ∃ slash name space rest, IsTag u slash name space ∧ s = tagText slash name space rest ∧
      w = ⟨tagText slash name space [], [(1, slash), (2, name)], rest⟩ := by
  simp only [reTag, cat]
  constructor
  · intro h
    obtain ⟨w1, h1, v1, hv1, rfl⟩ := mem_ways_seq.mp h
    obtain ⟨w2, h2, v2, hv2, rfl⟩ := mem_ways_seq.mp hv1
    obtain ⟨w3, h3, v3, hv3, rfl⟩ := mem_ways_seq.mp hv2
    obtain ⟨w4, h4, w5, h5, rfl⟩ := mem_ways_seq.mp hv3
    obtain ⟨s1, rfl, rfl⟩ := mem_ways_lit.mp h1
    obtain ⟨x2, hx2, rfl⟩ := mem_ways_group.mp h2
    obtain ⟨slash, s2, rfl, -, hmax, hslash, rfl⟩ := mem_ways_rep.mp hx2
    obtain ⟨x3, hx3, rfl⟩ := mem_ways_group.mp h3
    obtain ⟨name, s3, hname, rfl, rfl⟩ := mem_ways_name.mp hx3
    obtain ⟨space, s4, hspace, rfl, rfl⟩ := mem_ways_space.mp h4
    obtain ⟨rest, rfl, rfl⟩ := mem_ways_lit.mp h5
    have hslash' : slash = [] ∨ slash = ['/'] := by
      have hlen := hmax 1 rfl
      match slash, hlen, hslash with
      | [], _, _ => exact .inl rfl
      | [c], _, hall => exact .inr (by rw [of_decide_eq_true (hall c (List.mem_singleton_self c))])
    exact ⟨slash, name, space, rest, ⟨hslash', hname, hspace⟩, rfl, rfl⟩
  · rintro ⟨slash, name, space, rest, htag, rfl, rfl⟩
    have hslash : (∀ m ∈ some 1, slash.length ≤ m) ∧ ∀ c ∈ slash, decide (c = '/') = true := by
      rcases htag.slash with rfl | rfl
      · simp
      · simp
    refine mem_ways_seq.mpr ⟨⟨['<'], [], slash ++ (name ++ (space ++ '>' :: rest))⟩,
      mem_ways_lit.mpr ⟨slash ++ (name ++ (space ++ '>' :: rest)), rfl, rfl⟩,
      ⟨slash ++ (name ++ (space ++ ['>'])), [(1, slash), (2, name)], rest⟩, ?_, rfl⟩
    refine mem_ways_seq.mpr ⟨⟨slash, [(1, slash)], name ++ (space ++ '>' :: rest)⟩,
      mem_ways_group.mpr ⟨⟨slash, [], name ++ (space ++ '>' :: rest)⟩, ?_, rfl⟩,
      ⟨name ++ (space ++ ['>']), [(2, name)], rest⟩, ?_, rfl⟩
    · exact mem_ways_rep.mpr ⟨slash, name ++ (space ++ '>' :: rest), rfl, Nat.zero_le _, hslash.1, hslash.2, rfl⟩
    refine mem_ways_seq.mpr ⟨⟨name, [(2, name)], space ++ '>' :: rest⟩,
      mem_ways_group.mpr ⟨⟨name, [], space ++ '>' :: rest⟩, ?_, rfl⟩, ⟨space ++ ['>'], [], rest⟩, ?_, rfl⟩
    · exact mem_ways_name.mpr ⟨name, space ++ '>' :: rest, htag.name, rfl, rfl⟩
    refine mem_ways_seq.mpr ⟨⟨space, [], '>' :: rest⟩, ?_, ⟨['>'], [], rest⟩, mem_ways_lit.mpr ⟨rest, rfl, rfl⟩, rfl⟩
    exact mem_ways_space.mpr ⟨space, '>' :: rest, htag.space, rfl, rfl⟩

theorem notName_slash : (u.isWord '/' || '/' = '-') = false := by
  rw [u.word_ascii '/' (by decide)]
  decide

theorem notName_end : (u.isWord '>' || '>' = '-') = false := by
  rw [u.word_ascii '>' (by decide)]
  decide

theorem notName_space {c : Char} (hc : isWhitespace c = true) : (u.isWord c || c = '-') = false := by
  rw [u.word_not_space c hc, Bool.false_or, decide_eq_false_iff_not]
  rintro rfl
  exact absurd hc (by decide)

theorem IsName.forall_mem {name : Str} (h : IsName u name) : ∀ c ∈ name, (u.isWord c || c = '-') = true := by
  obtain ⟨c, t, rfl, hc, hall⟩ := h
  exact List.forall_mem_cons.mpr ⟨by rw [hc, Bool.true_or], hall⟩

theorem IsSpace.forall_mem {space : Str} (h : IsSpace space) : ∀ c ∈ space, c ≠ '>' := by
  rcases h with rfl | ⟨c, t, rfl, hc, hall⟩
  · simp
  · refine List.forall_mem_cons.mpr ⟨?_, hall⟩
    rintro rfl
    exact absurd hc (by decide)

/-- **The parts of a tag are determined by the text.** -/
theorem tagText_inj {slash name space rest slash' name' space' rest' : Str} (h : IsTag u slash name space)
    (h' : IsTag u slash' name' space') (heq : tagText slash name space rest = tagText slash' name' space' rest') :
    slash = slash' ∧ name = name' ∧ space = space' ∧ rest = rest' := by
  have hhead : ∀ {name space rest : Str}, IsName u name → ∀ c ∈ (name ++ (space ++ '>' :: rest)).head?,
      (c == '/') = false := by
    rintro name space rest ⟨d, t, rfl, hd, -⟩ c hc
    obtain rfl : d = c := Option.some.inj hc
    rw [beq_eq_false_iff_ne]
    rintro rfl
    have hslash := notName_slash (u := u)
    rw [hd] at hslash
    cases hslash
  have hbehind : ∀ {space rest : Str}, IsSpace space → ∀ c ∈ (space ++ '>' :: rest).head?,
      (u.isWord c || c = '-') = false := by
    rintro space rest (rfl | ⟨d, t, rfl, hd, -⟩) c hc
    · obtain rfl : '>' = c := Option.some.inj hc
      exact notName_end
    · obtain rfl : d = c := Option.some.inj hc
      exact notName_space hd
  have hslashes : ∀ {slash : Str}, slash = [] ∨ slash = ['/'] → ∀ c ∈ slash, (c == '/') = true := by
    rintro slash (rfl | rfl)
    · simp
    · simp
  obtain ⟨rfl, hnames⟩ := span_unique (List.cons.inj heq).2 (hslashes h.slash) (hhead h.name) (hslashes h'.slash)
    (hhead h'.name)
  obtain ⟨rfl, hspaces⟩ := span_unique hnames h.name.forall_mem (hbehind h.space) h'.name.forall_mem (hbehind h'.space)
  have hends : ∀ {rest : Str}, ∀ c ∈ ('>' :: rest).head?, (c != '>') = false := by
    intro rest c hc
    obtain rfl : '>' = c := Option.some.inj hc
    rfl
  obtain ⟨rfl, hrests⟩ := span_unique (p := fun c => c != '>') hspaces (fun c hc => bne_iff_ne.mpr (h.space.forall_mem c hc))
    hends (fun c hc => bne_iff_ne.mpr (h'.space.forall_mem c hc)) hends
  exact ⟨rfl, rfl, rfl, (List.cons.inj hrests).2⟩

/-! ## Reading a text -/

/-- The text as characters and tags, with its tags. -/
inductive Reads (u : UnicodeLib) : Str → List (Str × Str) → Prop
  | nil : Reads u [] []
  | char {c : Char} {s : Str} {tags : List (Str × Str)} : c ≠ '<' → Reads u s tags → Reads u (c :: s) tags
  | tag {slash name space rest : Str} {tags : List (Str × Str)} : IsTag u slash name space → Reads u rest tags →
      Reads u (tagText slash name space rest) ((slash, name) :: tags)

theorem Reads.of_plain {s : Str} (h : '<' ∉ s) : Reads u s [] := by
  induction s with
  | nil => exact .nil
  | cons c s ih =>
    rw [List.mem_cons, not_or] at h
    exact .char (Ne.symm h.1) (ih h.2)

theorem Reads.append {a b : Str} {tags tags' : List (Str × Str)} (h : Reads u a tags) (h' : Reads u b tags') :
    Reads u (a ++ b) (tags ++ tags') := by
  induction h with
  | nil => exact h'
  | char hc _ ih => exact .char hc ih
  | tag htag _ ih =>
    rw [tagText_append]
    exact .tag htag ih

theorem Reads.cons_inv {c : Char} {s : Str} {tags : List (Str × Str)} (h : Reads u (c :: s) tags) (hc : c ≠ '<') :
    Reads u s tags := by
  generalize heq : c :: s = t at h
  cases h with
  | nil => cases heq
  | char _ hs =>
    obtain ⟨-, rfl⟩ := List.cons.inj heq
    exact hs
  | tag htag hs =>
    obtain ⟨rfl, -⟩ := List.cons.inj heq
    exact absurd rfl hc

theorem Reads.tag_inv {slash name space rest : Str} {tags : List (Str × Str)} (htag : IsTag u slash name space)
    (h : Reads u (tagText slash name space rest) tags) : ∃ tags', tags = (slash, name) :: tags' ∧ Reads u rest tags' := by
  generalize heq : tagText slash name space rest = t at h
  cases h with
  | nil => cases heq
  | char hc _ =>
    obtain ⟨rfl, -⟩ := List.cons.inj heq
    exact absurd rfl hc
  | tag htag' hs =>
    obtain ⟨rfl, rfl, -, rfl⟩ := tagText_inj htag htag' heq
    exact ⟨_, rfl, hs⟩

/-- Behind a text that can be read, the rest is read by itself. -/
theorem Reads.append_inv {a b : Str} {tags tags' : List (Str × Str)} (h : Reads u a tags) (h' : Reads u (a ++ b) tags') :
    ∃ rest, tags' = tags ++ rest ∧ Reads u b rest := by
  induction h generalizing tags' with
  | nil => exact ⟨tags', rfl, h'⟩
  | char hc _ ih => exact ih (h'.cons_inv hc)
  | tag htag _ ih =>
    rw [tagText_append] at h'
    obtain ⟨tags'', rfl, hrest⟩ := h'.tag_inv htag
    obtain ⟨rest, rfl, hb⟩ := ih hrest
    exact ⟨rest, rfl, hb⟩

/-! ## The tags that the pattern finds -/

/-- No `<` stands outside a tag. -/
def noRawAngle (u : UnicodeLib) (html : Str) : Bool :=
  ((reTag u).scan html).all fun
    | .keep c => c ≠ '<'
    | .hit _ => true

/-- The tags with their slash and their name. -/
def tagsOf (u : UnicodeLib) (html : Str) : List (Str × Str) :=
  ((reTag u).capturesIter html).map fun caps => (caps.get 1, caps.get 2)

theorem lookFree_reTag (u : UnicodeLib) : (reTag u).lookFree = true := rfl

theorem noRawAngle_keep {c : Char} {s : Str} (h : (reTag u).scan (c :: s) = .keep c :: (reTag u).scan s) :
    (noRawAngle u (c :: s) = true ↔ c ≠ '<' ∧ noRawAngle u s = true) ∧ tagsOf u (c :: s) = tagsOf u s := by
  constructor
  · rw [noRawAngle, h, List.all_cons, Bool.and_eq_true, decide_eq_true_eq]
    rfl
  · rw [tagsOf, capturesIter, h]
    rfl

theorem noRawAngle_hit {slash name space rest : Str} {w : Way Char} (hw : w ∈ (reTag u).ways none (tagText slash name space rest))
    (htag : IsTag u slash name space)
    (h : (reTag u).scan (tagText slash name space rest) = .hit w :: (reTag u).scan w.rest) :
    noRawAngle u (tagText slash name space rest) = noRawAngle u rest ∧
      tagsOf u (tagText slash name space rest) = (slash, name) :: tagsOf u rest := by
  obtain ⟨slash', name', space', rest', htag', heq, rfl⟩ := mem_ways_reTag.mp hw
  obtain ⟨rfl, rfl, rfl, rfl⟩ := tagText_inj htag htag' heq
  constructor
  · rw [noRawAngle, h, List.all_cons]
    rfl
  · rw [tagsOf, capturesIter, h]
    rfl

/-- A text without a `<` outside its tags can be read. -/
theorem reads_of_noRawAngle (u : UnicodeLib) (s : Str) (h : noRawAngle u s = true) : Reads u s (tagsOf u s) := by
  induction hlen : s.length using Nat.strong_induction_on generalizing s with
  | _ len ih =>
    cases s with
    | nil => exact .nil
    | cons c s =>
      rcases scan_cases (lookFree_reTag u) c s with ⟨w, hne, hw, hscan⟩ | ⟨-, hscan⟩
      · obtain ⟨slash, name, space, rest, htag, heq, -⟩ := mem_ways_reTag.mp hw
        rw [heq] at hw hscan h hlen ⊢
        obtain ⟨hraw, htags⟩ := noRawAngle_hit hw htag hscan
        rw [htags]
        refine .tag htag (ih rest.length ?_ rest (hraw ▸ h) rfl)
        rw [← hlen]
        simp only [tagText, List.length_cons, List.length_append]
        omega
      · obtain ⟨hraw, htags⟩ := noRawAngle_keep hscan
        obtain ⟨hc, hs⟩ := hraw.mp h
        rw [htags]
        refine .char hc (ih s.length ?_ s hs rfl)
        rw [← hlen, List.length_cons]
        omega

/-- A text is read only with the tags that the pattern finds. -/
theorem Reads.noRawAngle {s : Str} {tags : List (Str × Str)} (h : Reads u s tags) :
    noRawAngle u s = true ∧ tagsOf u s = tags := by
  induction h with
  | nil => exact ⟨rfl, rfl⟩
  | @char c s tags hc _ ih =>
    rcases scan_cases (lookFree_reTag u) c s with ⟨w, -, hw, -⟩ | ⟨-, hscan⟩
    · obtain ⟨slash, name, space, rest, -, heq, -⟩ := mem_ways_reTag.mp hw
      exact absurd (List.cons.inj heq).1 hc
    · obtain ⟨hraw, htags⟩ := noRawAngle_keep hscan
      exact ⟨hraw.mpr ⟨hc, ih.1⟩, htags.trans ih.2⟩
  | @tag slash name space rest tags htag _ ih =>
    rcases scan_cases (lookFree_reTag u) '<' (slash ++ (name ++ (space ++ '>' :: rest))) with ⟨w, -, hw, hscan⟩ | ⟨hnone, -⟩
    · obtain ⟨hraw, htags⟩ := noRawAngle_hit hw htag hscan
      exact ⟨hraw.trans ih.1, by rw [htags, ih.2]⟩
    · -- the pattern finds the tag
      have hmem : ⟨tagText slash name space [], [(1, slash), (2, name)], rest⟩ ∈
          (reTag u).ways none (tagText slash name space rest) :=
        mem_ways_reTag.mpr ⟨slash, name, space, rest, htag, rfl, rfl⟩
      obtain ⟨w, hw⟩ := Option.isSome_iff_exists.mp (List.isSome_head?.mpr (List.ne_nil_of_mem hmem))
      obtain ⟨_, _, _, _, -, -, rfl⟩ := mem_ways_reTag.mp (List.mem_of_mem_head? hw)
      exact absurd (hnone _ hw) (List.cons_ne_nil _ _)

/-- **The pattern finds no `<` outside a tag exactly if the text can be read, and then it finds the tags.** -/
theorem reads_iff {s : Str} {tags : List (Str × Str)} :
    Reads u s tags ↔ noRawAngle u s = true ∧ tagsOf u s = tags := by
  refine ⟨Reads.noRawAngle, ?_⟩
  rintro ⟨h, rfl⟩
  exact reads_of_noRawAngle u s h

/-! ## Acceptable texts -/

/-- The tags are nested, and no `<` stands outside a tag. -/
def Acceptable (u : UnicodeLib) (html : Str) : Prop := htmlTagsValid u html = true ∧ noRawAngle u html = true

instance (u : UnicodeLib) (html : Str) : Decidable (Acceptable u html) :=
  inferInstanceAs (Decidable (htmlTagsValid u html = true ∧ noRawAngle u html = true))

/-- The elements that are open behind a tag. -/
def nestTag (u : UnicodeLib) (stack : List Str) (tag : Str × Str) : Option (List Str) :=
  if tag.1 = "/".toList then
    if stack.head? ≠ some (u.toLowercase tag.2) then none else some stack.tail
  else some (u.toLowercase tag.2 :: stack)

theorem checkTags_iff (u : UnicodeLib) : ∀ (caps : List (Way Char)) (stack : List Str), checkTags u stack caps = true ↔
    (caps.map fun caps => (caps.get 1, caps.get 2)).foldlM (nestTag u) stack = some [] := by
  intro caps
  induction caps with
  | nil => intro stack; simp [checkTags]
  | cons w caps ih =>
    intro stack
    rw [List.map_cons, List.foldlM_cons, checkTags]
    by_cases hclosing : w.get 1 = "/".toList
    · by_cases hhead : stack.head? ≠ some (u.toLowercase (w.get 2))
      · simp only [nestTag, if_pos hclosing, if_pos hhead]
        simp
      · simp only [nestTag, if_pos hclosing, if_neg hhead]
        exact ih stack.tail
    · simp only [nestTag, if_neg hclosing]
      exact ih _

theorem acceptable_iff {s : Str} :
    Acceptable u s ↔ ∃ tags, Reads u s tags ∧ tags.foldlM (nestTag u) [] = some [] := by
  rw [Acceptable, htmlTagsValid, checkTags_iff]
  constructor
  · rintro ⟨hvalid, hraw⟩
    exact ⟨tagsOf u s, reads_of_noRawAngle u s hraw, hvalid⟩
  · rintro ⟨tags, hreads, hvalid⟩
    obtain ⟨hraw, rfl⟩ := hreads.noRawAngle
    exact ⟨hvalid, hraw⟩

/-- **Behind an acceptable text, a text is acceptable exactly if it is so by itself.** -/
theorem acceptable_append_iff {a b : Str} (ha : Acceptable u a) : Acceptable u (a ++ b) ↔ Acceptable u b := by
  obtain ⟨tags, hreads, hvalid⟩ := acceptable_iff.mp ha
  rw [acceptable_iff, acceptable_iff]
  constructor
  · rintro ⟨tags', hreads', hvalid'⟩
    obtain ⟨rest, rfl, hb⟩ := hreads.append_inv hreads'
    rw [List.foldlM_append, hvalid] at hvalid'
    exact ⟨rest, hb, hvalid'⟩
  · rintro ⟨rest, hb, hvalid'⟩
    refine ⟨tags ++ rest, hreads.append hb, ?_⟩
    rw [List.foldlM_append, hvalid]
    exact hvalid'

theorem acceptable_of_plain {s : Str} (h : '<' ∉ s) : Acceptable u s := acceptable_iff.mpr ⟨[], .of_plain h, rfl⟩

/-- A tag ends before a text without its end. -/
theorem Reads.of_append_plain {a t : Str} {tags : List (Str × Str)} (hlt : '<' ∉ t) (hgt : '>' ∉ t)
    (h : Reads u (a ++ t) tags) : Reads u a tags := by
  generalize heq : a ++ t = s at h
  induction h generalizing a with
  | nil =>
    obtain ⟨rfl, -⟩ := List.append_eq_nil_iff.mp heq
    exact .nil
  | @char c s tags hc hs ih =>
    cases a with
    | nil =>
      rw [List.nil_append] at heq
      rw [heq] at hlt
      have hplain : Reads u s [] := .of_plain fun hmem => hlt (List.mem_cons_of_mem c hmem)
      obtain rfl : tags = [] := hs.noRawAngle.2.symm.trans hplain.noRawAngle.2
      exact .nil
    | cons d a =>
      obtain ⟨rfl, hrest⟩ := List.cons.inj heq
      exact .char hc (ih hrest)
  | @tag slash name space rest tags htag hs ih =>
    have hsplit : a ++ t = '<' :: (slash ++ (name ++ space)) ++ '>' :: rest := by
      rw [heq, tagText]
      simp
    rcases List.append_eq_append_iff.mp hsplit with ⟨b, -, ht⟩ | ⟨b, hb, hrest⟩
    · exact absurd (by rw [ht]; simp) hgt
    · cases b with
      | nil =>
        rw [List.nil_append] at hrest
        exact absurd (by rw [← hrest]; simp) hgt
      | cons d b =>
        obtain ⟨rfl, htail⟩ := List.cons.inj hrest
        have ha : a = tagText slash name space b := by
          rw [hb, tagText]
          simp
        rw [ha]
        exact .tag htag (ih htail.symm)

/-- White space behind a text does not matter. -/
theorem acceptable_append_plain {a t : Str} (hlt : '<' ∉ t) (hgt : '>' ∉ t) : Acceptable u (a ++ t) ↔ Acceptable u a := by
  constructor
  · intro h
    obtain ⟨tags, hreads, hvalid⟩ := acceptable_iff.mp h
    exact acceptable_iff.mpr ⟨tags, hreads.of_append_plain hlt hgt, hvalid⟩
  · intro h
    exact (acceptable_append_iff h).mpr (acceptable_of_plain hlt)

end Zeptoclaw

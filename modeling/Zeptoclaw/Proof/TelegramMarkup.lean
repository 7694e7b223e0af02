import Zeptoclaw.Proof.TelegramTags

/-!
# The markup has no stray angle bracket

After the text is escaped, every `<` in it is the beginning of a tag that a phase of the rendering inserts (`Tagged`).
A phase cuts the text only at characters that no tag has, so that it leaves the tags whole (`Tagged.rewrites`). The text
of all phases can therefore be read as characters and tags (`reads_telegramMarkup`).
-/

namespace Zeptoclaw

open Text Pattern

/-! ## Texts with tags -/

section Tagged

variable {heads heads' : List Str} {a b c : Str}

/-- Every `<` begins one of the heads, and a `>` follows it. -/
def Tagged (heads : List Str) (s : Str) : Prop :=
  ∀ pre rest, s = pre ++ '<' :: rest → ∃ h ∈ heads, h <+: '<' :: rest ∧ '>' ∈ rest

/-- Every `<` begins one of the heads, and the text has all of it. -/
def Whole (heads : List Str) (s : Str) : Prop := ∀ pre rest, s = pre ++ '<' :: rest → ∃ h ∈ heads, h <+: '<' :: rest

/-- No head has the character. -/
def Apart (heads : List Str) (d : Char) : Prop := ∀ h ∈ heads, d ∉ h

instance (heads : List Str) (d : Char) : Decidable (Apart heads d) := inferInstanceAs (Decidable (∀ h ∈ heads, d ∉ h))

theorem Tagged.mono (hsub : heads ⊆ heads') (h : Tagged heads a) : Tagged heads' a := by
  intro pre rest heq
  obtain ⟨head, hmem, hhead⟩ := h pre rest heq
  exact ⟨head, hsub hmem, hhead⟩

theorem Whole.mono (hsub : heads ⊆ heads') (h : Whole heads a) : Whole heads' a := by
  intro pre rest heq
  obtain ⟨head, hmem, hhead⟩ := h pre rest heq
  exact ⟨head, hsub hmem, hhead⟩

theorem tagged_of_plain (h : '<' ∉ a) : Tagged heads a := by
  intro pre rest heq
  exact absurd (by rw [heq]; simp) h

theorem Tagged.suffix (h : Tagged heads (a ++ b)) : Tagged heads b := by
  intro pre rest heq
  exact h (a ++ pre) rest (by rw [heq, List.append_assoc])

/-- A text in which a head can only stop at a character that it does not have. -/
theorem Tagged.whole (h : Tagged heads (a ++ b)) (hb : ∀ d ∈ b.head?, Apart heads d) : Whole heads a := by
  intro pre rest heq
  obtain ⟨head, hmem, hhead, -⟩ := h pre (rest ++ b) (by rw [heq, List.append_assoc]; rfl)
  refine ⟨head, hmem, ?_⟩
  cases b with
  | nil => rwa [List.append_nil] at hhead
  | cons d b => exact prefix_side (l := '<' :: rest) (hb d rfl head hmem) hhead

/-- The text goes on as one with tags. -/
theorem Whole.append (ha : Whole heads a) (hc : Tagged heads c) (hgt : (∀ h ∈ heads, '>' ∈ h) ∨ '>' ∈ c) :
    Tagged heads (a ++ c) := by
  intro pre rest heq
  rcases List.append_eq_append_iff.mp heq with ⟨x, rfl, hx⟩ | ⟨x, hpre, hx⟩
  · exact hc x rest hx
  · cases x with
    | nil => exact hc [] rest hx.symm
    | cons d x =>
      obtain ⟨rfl, hrest⟩ := List.cons.inj hx
      obtain ⟨head, hmem, hhead⟩ := ha pre x hpre
      rw [hrest]
      refine ⟨head, hmem, hhead.trans (List.prefix_append ('<' :: x) c), ?_⟩
      rcases hgt with hshort | hc
      · have hin : '>' ∈ '<' :: x := hhead.subset (hshort head hmem)
        exact List.mem_append_left c ((List.mem_cons.mp hin).resolve_left (by decide))
      · exact List.mem_append_right x hc

/-- A head in front. -/
theorem Tagged.head {u : Str} (hmem : '<' :: u ∈ heads) (hu : '<' ∉ u) (hgt : '>' ∈ u ++ a) (ha : Tagged heads a) :
    Tagged heads ('<' :: u ++ a) := by
  intro pre rest heq
  cases pre with
  | nil =>
    obtain ⟨-, rfl⟩ := List.cons.inj heq
    exact ⟨'<' :: u, hmem, List.prefix_append ('<' :: u) a, hgt⟩
  | cons d pre =>
    obtain ⟨-, hrest⟩ := List.cons.inj heq
    rcases List.append_eq_append_iff.mp hrest with ⟨x, rfl, hx⟩ | ⟨x, hpre, hx⟩
    · exact ha x rest hx
    · cases x with
      | nil => exact ha [] rest hx.symm
      | cons e x =>
        obtain ⟨rfl, -⟩ := List.cons.inj hx
        exact absurd (by rw [hpre]; simp) hu

theorem Tagged.plain_append (ha : '<' ∉ a) (hb : Tagged heads b) : Tagged heads (a ++ b) := by
  intro pre rest heq
  rcases List.append_eq_append_iff.mp heq with ⟨x, rfl, hx⟩ | ⟨x, hpre, hx⟩
  · exact hb x rest hx
  · cases x with
    | nil => exact hb [] rest hx.symm
    | cons d x =>
      obtain ⟨rfl, -⟩ := List.cons.inj hx
      exact absurd (by rw [hpre]; simp) ha

end Tagged

/-! ## Rewriting -/

section Rewriting

variable {heads heads' : List Str} {P : Way Char → Prop} {f : Way Char → Str} {s s' : Str}

/-- What no match can begin in stays in front. -/
theorem prefix_of_rewrites (h : Rewrites P f s s') : ∀ {x : Str}, x <+: s →
    (∀ w, P w → ∀ d ∈ w.text.head?, d ∉ x) → x <+: s' := by
  induction h with
  | nil => exact fun hx _ => hx
  | keep c _ ih =>
    intro x hx hstart
    cases x with
    | nil => exact List.nil_prefix
    | cons d x =>
      obtain ⟨rfl, hx'⟩ := List.cons_prefix_cons.mp hx
      refine List.cons_prefix_cons.mpr ⟨rfl, ih hx' fun w hw e he hmem => ?_⟩
      exact hstart w hw e he (List.mem_cons_of_mem d hmem)
  | hit w hw hne _ _ =>
    intro x hx hstart
    cases x with
    | nil => exact List.nil_prefix
    | cons d x =>
      obtain ⟨e, t, ht⟩ := List.exists_cons_of_ne_nil hne
      rw [ht, List.cons_append] at hx
      obtain ⟨rfl, -⟩ := List.cons_prefix_cons.mp hx
      exact absurd List.mem_cons_self (hstart w hw d (by rw [ht]; rfl))

theorem mem_of_rewrites (h : Rewrites P f s s') {d : Char} (hf : ∀ w, P w → d ∈ f w) (hd : d ∈ s) : d ∈ s' := by
  induction h with
  | nil => exact hd
  | keep c _ ih =>
    rcases List.mem_cons.mp hd with rfl | hd
    · exact List.mem_cons_self
    · exact List.mem_cons_of_mem c (ih hd)
  | hit w hw _ _ _ => exact List.mem_append_left _ (hf w hw)

/-- **A phase that begins its matches at characters apart from the tags leaves the text tagged.** -/
theorem Tagged.rewrites (h : Rewrites P f s s') (hs : Tagged heads s) (hsub : heads ⊆ heads')
    (hfirst : ∀ w, P w → ∀ d ∈ w.text.head?, Apart heads d)
    (hgt : (∀ h ∈ heads, '>' ∈ h) ∨ ∀ w, P w → '>' ∈ f w)
    (hhit : ∀ w t, P w → Tagged heads (w.text ++ w.rest) → Tagged heads' t → Tagged heads' (f w ++ t)) :
    Tagged heads' s' := by
  induction h with
  | nil => exact hs.mono hsub
  | @keep c s s' hrest ih =>
    have htail : Tagged heads' s' := ih (hs.suffix (a := [c]))
    intro pre rest heq
    cases pre with
    | nil =>
      obtain ⟨rfl, rfl⟩ := List.cons.inj heq
      obtain ⟨head, hmem, hhead, hin⟩ := hs [] s rfl
      have hhead' : head <+: '<' :: s' :=
        prefix_of_rewrites (.keep '<' hrest) hhead fun w hw d hd => hfirst w hw d hd head hmem
      refine ⟨head, hsub hmem, hhead', ?_⟩
      rcases hgt with hshort | hf
      · exact (List.mem_cons.mp (hhead'.subset (hshort head hmem))).resolve_left (by decide)
      · exact mem_of_rewrites hrest hf hin
    | cons d pre =>
      obtain ⟨-, hcut⟩ := List.cons.inj heq
      exact htail pre rest hcut
  | hit w hw _ _ ih => exact hhit w _ hw hs (ih hs.suffix)

end Rewriting

/-! ## The matches of the patterns -/

section Matches

variable {before : Option Char} {s : Str} {w : Way Char}

theorem mem_ways_marked {mark : String} {p : Char → Bool} {lazy : Bool} (h : w ∈ (marked mark p lazy).ways before s) :
    ∃ body, w.text = mark.toList ++ (body ++ mark.toList) ∧ w.get 1 = body := by
  simp only [marked, cat] at h
  obtain ⟨w1, h1, v, hv, rfl⟩ := mem_ways_seq.mp h
  obtain ⟨w2, h2, w3, h3, rfl⟩ := mem_ways_seq.mp hv
  obtain ⟨s1, -, rfl⟩ := mem_ways_lit.mp h1
  obtain ⟨body, s2, rfl⟩ := mem_ways_capture h2
  obtain ⟨s3, -, rfl⟩ := mem_ways_lit.mp h3
  exact ⟨body, rfl, rfl⟩

theorem mem_ways_lineEnd (h : w ∈ lineEnd.ways before s) : w = ⟨[], [], s⟩ ∧ ∀ d ∈ s.head?, d = '\n' := by
  obtain ⟨hlook, rfl⟩ := mem_ways_look.mp h
  refine ⟨rfl, fun d hd => ?_⟩
  obtain hd : s.head? = some d := hd
  rw [hd] at hlook
  simpa using hlook

theorem mem_ways_reHeader (h : w ∈ reHeader.ways before s) :
    ∃ hashes space body, w.text = '#' :: (hashes ++ (space ++ body)) ∧ w.get 1 = body ∧
      ∀ d ∈ w.rest.head?, d = '\n' := by
  simp only [reHeader, cat] at h
  obtain ⟨w1, h1, v1, hv1, rfl⟩ := mem_ways_seq.mp h
  obtain ⟨w2, h2, v2, hv2, rfl⟩ := mem_ways_seq.mp hv1
  obtain ⟨w3, h3, v3, hv3, rfl⟩ := mem_ways_seq.mp hv2
  obtain ⟨w4, h4, w5, h5, rfl⟩ := mem_ways_seq.mp hv3
  obtain ⟨-, rfl⟩ := mem_ways_look.mp h1
  obtain ⟨hashes, s2, -, hlen, -, hhashes, rfl⟩ := mem_ways_rep.mp h2
  obtain ⟨space, s3, -, -, -, -, rfl⟩ := mem_ways_rep.mp h3
  obtain ⟨body, s4, rfl⟩ := mem_ways_capture h4
  obtain ⟨rfl, hend⟩ := mem_ways_lineEnd h5
  obtain ⟨c, hashes, rfl⟩ := List.exists_cons_of_ne_nil (List.ne_nil_of_length_pos hlen)
  obtain rfl := of_decide_eq_true (hhashes c List.mem_cons_self)
  refine ⟨hashes, space, body, ?_, rfl, hend⟩
  simp [Way.append]

theorem mem_ways_reBlockquote (h : w ∈ reBlockquote.ways before s) :
    ∃ space body, w.text = "&gt;".toList ++ (space ++ body) ∧ w.get 1 = body ∧ ∀ d ∈ w.rest.head?, d = '\n' := by
  simp only [reBlockquote, cat] at h
  obtain ⟨w1, h1, v1, hv1, rfl⟩ := mem_ways_seq.mp h
  obtain ⟨w2, h2, v2, hv2, rfl⟩ := mem_ways_seq.mp hv1
  obtain ⟨w3, h3, v3, hv3, rfl⟩ := mem_ways_seq.mp hv2
  obtain ⟨w4, h4, w5, h5, rfl⟩ := mem_ways_seq.mp hv3
  obtain ⟨-, rfl⟩ := mem_ways_look.mp h1
  obtain ⟨s2, -, rfl⟩ := mem_ways_lit.mp h2
  obtain ⟨space, s3, -, -, -, -, rfl⟩ := mem_ways_rep.mp h3
  obtain ⟨body, s4, rfl⟩ := mem_ways_capture h4
  obtain ⟨rfl, hend⟩ := mem_ways_lineEnd h5
  refine ⟨space, body, ?_, rfl, hend⟩
  simp [Way.append]

theorem mem_ways_reLink (h : w ∈ reLink.ways before s) :
    ∃ label target, w.text = "[".toList ++ (label ++ ("](".toList ++ (target ++ ")".toList))) ∧ w.get 1 = label ∧
      w.get 2 = target := by
  simp only [reLink, cat] at h
  obtain ⟨w1, h1, v1, hv1, rfl⟩ := mem_ways_seq.mp h
  obtain ⟨w2, h2, v2, hv2, rfl⟩ := mem_ways_seq.mp hv1
  obtain ⟨w3, h3, v3, hv3, rfl⟩ := mem_ways_seq.mp hv2
  obtain ⟨w4, h4, w5, h5, rfl⟩ := mem_ways_seq.mp hv3
  obtain ⟨s1, -, rfl⟩ := mem_ways_lit.mp h1
  obtain ⟨label, s2, rfl⟩ := mem_ways_capture h2
  obtain ⟨s3, -, rfl⟩ := mem_ways_lit.mp h3
  obtain ⟨target, s4, rfl⟩ := mem_ways_capture h4
  obtain ⟨s5, -, rfl⟩ := mem_ways_lit.mp h5
  exact ⟨label, target, rfl, rfl, rfl⟩

theorem mem_ways_reItalicUnderscore (h : w ∈ reItalicUnderscore.ways before s) :
    ∃ pre body suf, w.text = pre ++ ("_".toList ++ (body ++ ("_".toList ++ suf))) ∧ w.get 1 = pre ∧ w.get 2 = body ∧
      w.get 3 = suf ∧ (∀ d ∈ pre, isWhitespace d = true) ∧ '<' ∉ suf := by
  simp only [reItalicUnderscore, cat] at h
  obtain ⟨w1, h1, v1, hv1, rfl⟩ := mem_ways_seq.mp h
  obtain ⟨w2, h2, v2, hv2, rfl⟩ := mem_ways_seq.mp hv1
  obtain ⟨w3, h3, v3, hv3, rfl⟩ := mem_ways_seq.mp hv2
  obtain ⟨w4, h4, w5, h5, rfl⟩ := mem_ways_seq.mp hv3
  obtain ⟨s2, -, rfl⟩ := mem_ways_lit.mp h2
  obtain ⟨body, s3, rfl⟩ := mem_ways_capture h3
  obtain ⟨s4, -, rfl⟩ := mem_ways_lit.mp h4
  obtain ⟨x5, hx5, rfl⟩ := mem_ways_group.mp h5
  have hsuf : x5.groups = [] ∧ '<' ∉ x5.text := by
    rcases mem_ways_alt.mp hx5 with hx5 | hx5
    · obtain ⟨c, t, hc, -, rfl⟩ := mem_ways_cls.mp hx5
      refine ⟨rfl, ?_⟩
      rw [List.mem_singleton]
      rintro rfl
      exact absurd hc (by decide)
    · obtain ⟨-, rfl⟩ := mem_ways_look.mp hx5
      exact ⟨rfl, List.not_mem_nil⟩
  -- at the beginning of the text there is no character for the first group
  rcases mem_ways_alt.mp h1 with h1 | h1
  · obtain ⟨-, rfl⟩ := mem_ways_look.mp h1
    refine ⟨[], body, x5.text, rfl, ?_, rfl, rfl, by simp, hsuf.2⟩
    simp [Way.append, Way.get, hsuf.1]
  · obtain ⟨x1, hx1, rfl⟩ := mem_ways_group.mp h1
    obtain ⟨c, t, hc, -, rfl⟩ := mem_ways_cls.mp hx1
    exact ⟨[c], body, x5.text, rfl, rfl, rfl, rfl, by simpa using hc, hsuf.2⟩

/-- The characters of bullets, numbers and rules. -/
def IsFiller (u : UnicodeLib) (d : Char) : Prop := isWhitespace d = true ∨ u.isDigit d = true ∨ d ∈ "-*.".toList

theorem within_reHr (u : UnicodeLib) : reHr.Within (IsFiller u) := by
  simp only [reHr, lineStart, lineEnd, cat, Within, true_and, and_true]
  refine ⟨fun c hc => .inr (.inr ?_), fun c hc => .inl hc⟩
  rw [of_decide_eq_true hc]
  decide

theorem within_reBullet (u : UnicodeLib) : reBullet.Within (IsFiller u) := by
  simp only [reBullet, lineStart, cat, Within, true_and, Bool.or_eq_true, decide_eq_true_eq]
  refine ⟨fun c hc => .inl ?_, fun c hc => .inr (.inr ?_), fun c hc => .inl hc⟩
  · rcases hc with rfl | rfl
    · decide
    · decide
  · rcases hc with rfl | rfl
    · decide
    · decide

theorem within_reNumberedList (u : UnicodeLib) : (reNumberedList u).Within (IsFiller u) := by
  have hdot : (lit ".".toList).Within (IsFiller u) := by
    refine ⟨fun c hc => .inr (.inr ?_), trivial⟩
    rw [of_decide_eq_true hc]
    decide
  simp only [reNumberedList, lineStart, cat, Within, true_and, Bool.or_eq_true, decide_eq_true_eq]
  refine ⟨fun c hc => .inl ?_, fun c hc => .inr (.inl hc), hdot, fun c hc => .inl hc⟩
  rcases hc with rfl | rfl
  · decide
  · decide

end Matches

/-! ## The phases -/

/-- The tags of the phases before the links. -/
def earlyHeads : List Str :=
  ["<u>", "</u>", "<b>", "</b>", "<blockquote>", "</blockquote>", "<i>", "</i>", "<s>", "</s>"].map String.toList

/-- The tags of all phases, and how a link begins. -/
def lateHeads : List Str :=
  earlyHeads ++ ["<a href=\"", "</a>", "<tg-spoiler>", "</tg-spoiler>", "<pre>", "</pre>", "<code>", "</code>"].map String.toList

theorem gt_mem_earlyHeads : ∀ h ∈ earlyHeads, '>' ∈ h := by decide

theorem earlyHeads_subset : earlyHeads ⊆ lateHeads := List.subset_append_left _ _

theorem apart_of_filler {u : UnicodeLib} {d : Char} (hd : IsFiller u d) : Apart earlyHeads d ∧ d ≠ '<' := by
  have hascii : (earlyHeads.all fun h => h.all fun c =>
      isWhitespace c = false ∧ c.toNat < 128 ∧ c.isDigit = false ∧ c ∉ "-*.".toList) = true := by decide
  have hno : ∀ c : Char, isWhitespace c = false ∧ c.toNat < 128 ∧ c.isDigit = false ∧ c ∉ "-*.".toList → ¬ IsFiller u c := by
    rintro c ⟨hspace, hlt, hdigit, hother⟩ (h | h | h)
    · rw [hspace] at h
      cases h
    · rw [u.digit_ascii c hlt, hdigit] at h
      cases h
    · exact hother h
  refine ⟨fun h hmem hin => ?_, ?_⟩
  · exact hno d (of_decide_eq_true (List.all_eq_true.mp (List.all_eq_true.mp hascii h hmem) d hin)) hd
  · rintro rfl
    exact hno '<' (by decide) hd

section Phases

variable {heads : List Str} {s body t : Str} {tag : String}

/-- The tags of an element are heads. -/
structure HasTags (heads : List Str) (tag : String) : Prop where
  opening : '<' :: (tag.toList ++ ['>']) ∈ heads
  closing : '<' :: '/' :: (tag.toList ++ ['>']) ∈ heads
  plain : '<' ∉ tag.toList

theorem hasTags_early {tag : String} (h : tag ∈ ["b", "blockquote", "i", "s"]) : HasTags earlyHeads tag := by
  have hall : ∀ tag ∈ ["b", "blockquote", "i", "s"], ('<' :: (tag.toList ++ ['>']) ∈ earlyHeads ∧
      '<' :: '/' :: (tag.toList ++ ['>']) ∈ earlyHeads) ∧ '<' ∉ tag.toList := by decide
  exact ⟨(hall tag h).1.1, (hall tag h).1.2, (hall tag h).2⟩

theorem hasTags_late {tag : String} (h : tag ∈ ["tg-spoiler", "pre", "code"]) : HasTags lateHeads tag := by
  have hall : ∀ tag ∈ ["tg-spoiler", "pre", "code"], ('<' :: (tag.toList ++ ['>']) ∈ lateHeads ∧
      '<' :: '/' :: (tag.toList ++ ['>']) ∈ lateHeads) ∧ '<' ∉ tag.toList := by decide
  exact ⟨(hall tag h).1.1, (hall tag h).1.2, (hall tag h).2⟩

theorem gt_mem_element (tag : String) (body : Str) : '>' ∈ element tag body := by simp [element]

theorem element_append (tag : String) (body t : Str) : element tag body ++ t =
    '<' :: (tag.toList ++ ['>']) ++ (body ++ ('<' :: '/' :: (tag.toList ++ ['>']) ++ t)) := by
  simp [element]

theorem tagged_element (htag : HasTags heads tag) (hbody : Whole heads body) (ht : Tagged heads t) :
    Tagged heads (element tag body ++ t) := by
  have hclose : Tagged heads ('<' :: '/' :: (tag.toList ++ ['>']) ++ t) :=
    Tagged.head htag.closing (by simp [htag.plain]) (by simp) ht
  rw [element_append]
  exact Tagged.head htag.opening (by simp [htag.plain]) (by simp) (hbody.append hclose (.inr (by simp)))

/-- An element in another one. -/
theorem whole_element (htag : HasTags heads tag) (hbody : Whole heads body) : Whole heads (element tag body) := by
  have htagged := tagged_element htag hbody (t := []) (tagged_of_plain List.not_mem_nil)
  exact htagged.whole (by simp)

/-- What a match has between two of its parts is whole, if no head has the character behind it. -/
theorem Tagged.whole_part {w : Way Char} (h : Tagged heads (w.text ++ w.rest)) (front back : Str)
    (htext : w.text = front ++ (body ++ back)) (hback : ∀ d ∈ (back ++ w.rest).head?, Apart heads d) : Whole heads body := by
  rw [htext, List.append_assoc, List.append_assoc] at h
  exact h.suffix.whole hback

/-- The phases that put what stands between two marks into an element. -/
theorem tagged_marked {mark : String} {p : Char → Bool} {lazy : Bool} (wrap : Str → Str) {d : Char} {more : Str}
    (hmark : mark.toList = d :: more) (hd : Apart heads d) (hgt : ∀ body, '>' ∈ wrap body)
    (hwrap : ∀ body t, Whole heads body → Tagged heads t → Tagged heads (wrap body ++ t)) (hs : Tagged heads s) :
    Tagged heads ((marked mark p lazy).replaceAll (fun caps => wrap (caps.get 1)) s) := by
  refine hs.rewrites (rewrites_replaceAll _ _ s) (List.Subset.refl _) ?_ (.inr fun w _ => hgt _) ?_
  · rintro w ⟨before, hw⟩ e he
    obtain ⟨body, htext, -⟩ := mem_ways_marked hw
    rw [htext, hmark] at he
    obtain rfl : d = e := Option.some.inj he
    exact hd
  · rintro w t ⟨before, hw⟩ htagged ht
    obtain ⟨body, htext, hget⟩ := mem_ways_marked hw
    rw [hget]
    refine hwrap body t (htagged.whole_part mark.toList mark.toList htext fun e he => ?_) ht
    rw [hmark] at he
    obtain rfl : d = e := Option.some.inj he
    exact hd

theorem tagged_markedElement (mark : String) {p : Char → Bool} {lazy : Bool} {d : Char} {more : Str}
    (hmark : mark.toList = d :: more) (hd : Apart heads d) (htag : HasTags heads tag) (hs : Tagged heads s) :
    Tagged heads ((marked mark p lazy).replaceAll (fun caps => element tag (caps.get 1)) s) :=
  tagged_marked (element tag) hmark hd (gt_mem_element tag) (fun _ _ hbody ht => tagged_element htag hbody ht) hs

/-- The phases that replace indents, bullets and rules. -/
theorem tagged_filler {u : UnicodeLib} {r : Pattern Char} {f : Way Char → Str} (hr : r.Within (IsFiller u))
    (hf : ∀ w : Way Char, (∀ d ∈ w.text, IsFiller u d) → '<' ∉ f w) (hs : Tagged earlyHeads s) :
    Tagged earlyHeads (r.replaceAll f s) := by
  refine hs.rewrites (rewrites_replaceAll _ _ s) (List.Subset.refl _) ?_ (.inl gt_mem_earlyHeads) ?_
  · rintro w ⟨before, hw⟩ d hd
    exact (apart_of_filler (forall_mem_ways hr hw d (List.mem_of_mem_head? hd))).1
  · rintro w t ⟨before, hw⟩ - ht
    exact ht.plain_append (hf w (forall_mem_ways hr hw))

/-- The replacement of a fixed text. -/
theorem tagged_replace {d : Char} {more rep : Str} (hd : Apart heads d) (hgt : '>' ∈ rep)
    (hrep : ∀ t, Tagged heads t → Tagged heads (rep ++ t)) (hs : Tagged heads s) :
    Tagged heads (replace s (d :: more) rep) := by
  refine hs.rewrites (rewrites_replace (List.cons_ne_nil d more) rep s) (List.Subset.refl _) ?_ (.inr fun _ _ => hgt) ?_
  · intro w hw e he
    rw [hw] at he
    obtain rfl : d = e := Option.some.inj he
    exact hd
  · exact fun w t _ _ ht => hrep t ht

theorem lt_not_mem_escapeHtml (s : Str) : '<' ∉ escapeHtml s := by
  have hlt : ∀ t : Str, '<' ∉ replace t "<".toList "&lt;".toList := by
    intro t
    have hflat := replace_singleton '<' "&lt;".toList t
    rw [show "<".toList = ['<'] from rfl, hflat, List.mem_flatMap]
    rintro ⟨c, -, hc⟩
    split at hc
    · exact absurd hc (by decide)
    · rename_i hne
      exact hne (List.mem_singleton.mp hc).symm
  have hgt : ∀ t : Str, '<' ∉ t → '<' ∉ replace t ">".toList "&gt;".toList := by
    intro t ht
    have hflat := replace_singleton '>' "&gt;".toList t
    rw [show ">".toList = ['>'] from rfl, hflat, List.mem_flatMap]
    rintro ⟨c, hmem, hc⟩
    split at hc
    · exact absurd hc (by decide)
    · exact ht ((List.mem_singleton.mp hc) ▸ hmem)
  exact hgt _ (hlt _)

theorem tagged_restoreUnderline (hs : '<' ∉ s) : Tagged earlyHeads (restoreUnderline s) := by
  have hamp : Apart earlyHeads '&' := by decide
  have hopen : ∀ {more t : Str}, Tagged earlyHeads t → Tagged earlyHeads (replace t ('&' :: more) "<u>".toList) :=
    fun ht => tagged_replace hamp (by decide)
      (fun t ht => Tagged.head (u := "u>".toList) (by decide) (by decide) (by simp) ht) ht
  have hclose : ∀ {more t : Str}, Tagged earlyHeads t → Tagged earlyHeads (replace t ('&' :: more) "</u>".toList) :=
    fun ht => tagged_replace hamp (by decide)
      (fun t ht => Tagged.head (u := "/u>".toList) (by decide) (by decide) (by simp) ht) ht
  exact hclose (hopen (hclose (hopen (tagged_of_plain hs))))

theorem tagged_header (hs : Tagged earlyHeads s) :
    Tagged earlyHeads (reHeader.replaceAll (fun caps => element "b" (caps.get 1) ++ "\n".toList) s) := by
  have hb : HasTags earlyHeads "b" := hasTags_early (by simp)
  refine hs.rewrites (rewrites_replaceAll _ _ s) (List.Subset.refl _) ?_ (.inl gt_mem_earlyHeads) ?_
  · rintro w ⟨before, hw⟩ d hd
    obtain ⟨hashes, space, body, htext, -, -⟩ := mem_ways_reHeader hw
    rw [htext] at hd
    obtain rfl : '#' = d := Option.some.inj hd
    decide
  · rintro w t ⟨before, hw⟩ htagged ht
    obtain ⟨hashes, space, body, htext, hget, hend⟩ := mem_ways_reHeader hw
    have hbody : Whole earlyHeads body := by
      refine htagged.whole_part ('#' :: (hashes ++ space)) [] (by simp [htext]) fun d hd => ?_
      rw [hend d hd]
      decide
    rw [hget, List.append_assoc]
    exact tagged_element hb hbody (ht.plain_append (by decide))

theorem tagged_blockquote (hs : Tagged earlyHeads s) :
    Tagged earlyHeads (reBlockquote.replaceAll (fun caps => element "blockquote" (caps.get 1)) s) := by
  have hquote : HasTags earlyHeads "blockquote" := hasTags_early (by simp)
  refine hs.rewrites (rewrites_replaceAll _ _ s) (List.Subset.refl _) ?_ (.inl gt_mem_earlyHeads) ?_
  · rintro w ⟨before, hw⟩ d hd
    obtain ⟨space, body, htext, -⟩ := mem_ways_reBlockquote hw
    rw [htext] at hd
    obtain rfl : '&' = d := Option.some.inj hd
    decide
  · rintro w t ⟨before, hw⟩ htagged ht
    obtain ⟨space, body, htext, hget, hend⟩ := mem_ways_reBlockquote hw
    have hbody : Whole earlyHeads body := by
      refine htagged.whole_part ("&gt;".toList ++ space) [] (by simp [htext]) fun d hd => ?_
      rw [hend d hd]
      decide
    rw [hget]
    exact tagged_element hquote hbody ht

theorem tagged_convertBlocks (u : UnicodeLib) (hs : Tagged earlyHeads s) : Tagged earlyHeads (convertBlocks u s) := by
  have hhr := tagged_filler (within_reHr u) (f := fun _ => []) (fun _ _ => List.not_mem_nil) hs
  have hquote := tagged_blockquote (tagged_header hhr)
  have hbullet := tagged_filler (within_reBullet u) (f := fun _ => "• ".toList) (fun _ _ => by decide) hquote
  refine tagged_filler (within_reNumberedList u) (fun w hw hmem => ?_) hbullet
  have hin : '<' ∈ w.text := (List.dropWhile_suffix _).subset hmem
  exact (apart_of_filler (hw '<' hin)).2 rfl

theorem tagged_underscore (u : UnicodeLib) (hs : Tagged earlyHeads s) : Tagged earlyHeads (reItalicUnderscore.replaceAll
    (fun caps => caps.get 1 ++ element "i" (caps.get 2) ++ caps.get 3) s) := by
  have hi : HasTags earlyHeads "i" := hasTags_early (by simp)
  have hspace : ∀ d, isWhitespace d = true → Apart earlyHeads d ∧ d ≠ '<' :=
    fun d hd => apart_of_filler (u := u) (.inl hd)
  refine hs.rewrites (rewrites_replaceAll _ _ s) (List.Subset.refl _) ?_ (.inl gt_mem_earlyHeads) ?_
  · rintro w ⟨before, hw⟩ d hd
    obtain ⟨pre, body, suf, htext, -, -, -, hpre, -⟩ := mem_ways_reItalicUnderscore hw
    rw [htext] at hd
    cases pre with
    | nil =>
      obtain rfl : '_' = d := Option.some.inj hd
      decide
    | cons c pre =>
      obtain rfl : c = d := Option.some.inj hd
      exact (hspace c (hpre c List.mem_cons_self)).1
  · rintro w t ⟨before, hw⟩ htagged ht
    obtain ⟨pre, body, suf, htext, hget1, hget2, hget3, hpre, hsuf⟩ := mem_ways_reItalicUnderscore hw
    have hbody : Whole earlyHeads body := by
      refine htagged.whole_part (pre ++ "_".toList) ("_".toList ++ suf) (by simp [htext]) fun d hd => ?_
      obtain rfl : '_' = d := Option.some.inj hd
      decide
    rw [hget1, hget2, hget3, List.append_assoc, List.append_assoc]
    refine Tagged.plain_append (fun hmem => (hspace '<' (hpre '<' hmem)).2 rfl) ?_
    exact tagged_element hi hbody (ht.plain_append hsuf)

theorem tagged_convertInline (u : UnicodeLib) (hs : Tagged earlyHeads s) : Tagged earlyHeads (convertInline s) := by
  have hb : HasTags earlyHeads "b" := hasTags_early (by simp)
  have hi : HasTags earlyHeads "i" := hasTags_early (by simp)
  have hstrike : HasTags earlyHeads "s" := hasTags_early (by simp)
  have hstar : Apart earlyHeads '*' := by decide
  have h1 : Tagged earlyHeads (reBoldItalic.replaceAll (fun caps => element "b" (element "i" (caps.get 1))) s) :=
    tagged_marked (fun body => element "b" (element "i" body)) rfl hstar (fun _ => gt_mem_element _ _)
      (fun _ _ hbody ht => tagged_element hb (whole_element hi hbody) ht) hs
  have h2 : Tagged earlyHeads (reBold.replaceAll (fun caps => element "b" (caps.get 1)) _) :=
    tagged_markedElement "**" rfl hstar hb h1
  have h3 : Tagged earlyHeads (reItalic.replaceAll (fun caps => element "i" (caps.get 1)) _) :=
    tagged_markedElement "*" rfl hstar hi h2
  exact tagged_markedElement "~~" rfl (by decide) hstrike (tagged_underscore u h3)

theorem tagged_links (hs : Tagged earlyHeads s) : Tagged lateHeads (reLink.replaceAll
    (fun caps => "<a href=\"".toList ++ caps.get 2 ++ "\">".toList ++ caps.get 1 ++ "</a>".toList) s) := by
  refine hs.rewrites (rewrites_replaceAll _ _ s) earlyHeads_subset ?_ (.inl gt_mem_earlyHeads) ?_
  · rintro w ⟨before, hw⟩ d hd
    obtain ⟨label, target, htext, -⟩ := mem_ways_reLink hw
    rw [htext] at hd
    obtain rfl : '[' = d := Option.some.inj hd
    decide
  · rintro w t ⟨before, hw⟩ htagged ht
    obtain ⟨label, target, htext, hget1, hget2⟩ := mem_ways_reLink hw
    -- the label and the target change places, and both are cut at characters that no tag has
    have hlabel : Whole earlyHeads label := by
      refine htagged.whole_part "[".toList ("](".toList ++ (target ++ ")".toList)) htext fun d hd => ?_
      obtain rfl : ']' = d := Option.some.inj hd
      decide
    have htarget : Whole earlyHeads target := by
      refine htagged.whole_part ("[".toList ++ label ++ "](".toList) ")".toList (by simp [htext])
        fun d hd => ?_
      obtain rfl : ')' = d := Option.some.inj hd
      decide
    have hclose : Tagged lateHeads ("</a>".toList ++ t) :=
      Tagged.head (u := "/a>".toList) (by decide) (by decide) (by simp) ht
    have hbehind : Tagged lateHeads ("\">".toList ++ (label ++ ("</a>".toList ++ t))) :=
      Tagged.plain_append (by decide) ((hlabel.mono earlyHeads_subset).append hclose (.inr (by simp)))
    rw [hget1, hget2]
    simp only [List.append_assoc]
    refine Tagged.head (u := "a href=\"".toList) (by decide) (by decide) (by simp) ?_
    exact (htarget.mono earlyHeads_subset).append hbehind (.inr (by simp))

theorem tagged_convertLinks (hs : Tagged earlyHeads s) : Tagged lateHeads (convertLinks s) :=
  tagged_markedElement "||" rfl (by decide) (hasTags_late (by simp)) (tagged_links hs)

theorem tagged_reinsert {label : String} {wrap : Str → Str}
    (hwrap : ∀ region t, '>' ∈ wrap region ∧ (Tagged lateHeads t → Tagged lateHeads (wrap region ++ t))) (regions : List Str)
    (hs : Tagged lateHeads s) : Tagged lateHeads (reinsert label wrap s regions) := by
  unfold reinsert
  induction regions.zipIdx generalizing s with
  | nil => exact hs
  | cons region rest ih =>
    rw [List.foldl_cons]
    refine ih (tagged_replace (d := '\x00') (by decide) (hwrap region.1 []).1 (fun t ht => (hwrap region.1 t).2 ht) hs)

/-- Code is put back with its own escapes. -/
theorem tagged_code (htag : HasTags lateHeads tag) (code : Str) (t : Str) :
    '>' ∈ element tag (escapeHtml code) ∧ (Tagged lateHeads t → Tagged lateHeads (element tag (escapeHtml code) ++ t)) := by
  refine ⟨gt_mem_element _ _, fun ht => tagged_element htag ?_ ht⟩
  intro pre rest heq
  exact absurd (by rw [heq]; simp) (lt_not_mem_escapeHtml code)

/-- **Every `<` of the markup begins a tag of one of the phases.** -/
theorem tagged_telegramMarkup (u : UnicodeLib) (content : Str) : Tagged lateHeads (telegramMarkup u content) := by
  have hpre : HasTags lateHeads "pre" := hasTags_late (by simp)
  have hcode : HasTags lateHeads "code" := hasTags_late (by simp)
  unfold telegramMarkup
  refine tagged_reinsert (fun code t => tagged_code hcode code t) _ ?_
  refine tagged_reinsert (fun block t => tagged_code hpre (trimEnd block) t) _ ?_
  have htext := tagged_restoreUnderline (lt_not_mem_escapeHtml (extract reInlineCode "INLINE" (extract reFencedCode "CODEBLOCK" content).1).1)
  exact tagged_convertLinks (tagged_convertInline u (tagged_convertBlocks u htext))

end Phases

/-! ## The tags of the markup -/

section Names

variable {u : UnicodeLib}

/-- The names of the elements that the phases insert. -/
def tagNames : List Str := ["u", "b", "blockquote", "i", "s", "a", "tg-spoiler", "pre", "code"].map String.toList

theorem isName_of_mem {name : Str} (h : name ∈ tagNames) : IsName u name := by
  have hascii : (tagNames.all fun name => name ≠ [] && (name.head?.all fun c => c.toNat < 128 ∧ c.isAlphanum = true) &&
      name.all fun c => c = '-' ∨ (c.toNat < 128 ∧ c.isAlphanum = true)) = true := by decide
  have hword : ∀ c : Char, c.toNat < 128 ∧ c.isAlphanum = true → u.isWord c = true := by
    rintro c ⟨hlt, halnum⟩
    rw [u.word_ascii c hlt, halnum, Bool.true_or]
  have hname := List.all_eq_true.mp hascii name h
  rw [Bool.and_eq_true, Bool.and_eq_true, decide_eq_true_eq] at hname
  obtain ⟨⟨hne, hhead⟩, hall⟩ := hname
  obtain ⟨c, t, rfl⟩ := List.exists_cons_of_ne_nil hne
  refine ⟨c, t, rfl, hword c (of_decide_eq_true hhead), fun d hd => ?_⟩
  rw [Bool.or_eq_true, decide_eq_true_eq]
  exact (of_decide_eq_true (List.all_eq_true.mp hall d (List.mem_cons_of_mem c hd))).symm.imp_left (hword d)

/-- Where a head begins and a `>` follows, there is a tag. -/
theorem exists_tag {head rest : Str} (hmem : head ∈ lateHeads) (hhead : head <+: '<' :: rest) (hgt : '>' ∈ rest) :
    ∃ slash name space rest', IsTag u slash name space ∧ '<' :: rest = tagText slash name space rest' := by
  have hform : ∀ h ∈ lateHeads, h = "<a href=\"".toList ∨
      ∃ slash ∈ [[], ['/']], ∃ name ∈ tagNames, h = '<' :: (slash ++ (name ++ ['>'])) := by decide
  obtain ⟨t, ht⟩ := hhead
  rcases hform head hmem with rfl | ⟨slash, hslash, name, hname, rfl⟩
  · -- the attribute of a link ends at the next `>`
    have hcut : rest = "a href=\"".toList ++ t := (List.cons.inj ht).2.symm
    have hin : '>' ∈ t := by
      rw [hcut] at hgt
      exact (List.mem_append.mp hgt).resolve_left (by decide)
    obtain ⟨x, y, rfl, hx⟩ := List.eq_append_cons_of_mem hin
    have hplain : ∀ d ∈ "href=\"".toList ++ x, d ≠ '>' := by
      rintro d hd rfl
      exact (List.mem_append.mp hd).elim (by decide) hx
    have hspace : IsSpace (' ' :: ("href=\"".toList ++ x)) := .inr ⟨' ', _, rfl, by decide, hplain⟩
    refine ⟨[], "a".toList, ' ' :: ("href=\"".toList ++ x), y, ⟨.inl rfl, isName_of_mem (by decide), hspace⟩, ?_⟩
    rw [hcut, tagText, List.cons_append, List.append_assoc]
    rfl
  · refine ⟨slash, name, [], t, ⟨by simpa using hslash, isName_of_mem hname, .inl rfl⟩, ?_⟩
    rw [← ht, tagText]
    simp

/-- A text in which every `<` begins a tag can be read. -/
theorem reads_of_tagged (u : UnicodeLib) (s : Str) (h : Tagged lateHeads s) : ∃ tags, Reads u s tags := by
  induction hlen : s.length using Nat.strong_induction_on generalizing s with
  | _ len ih =>
    cases s with
    | nil => exact ⟨[], .nil⟩
    | cons c s =>
      by_cases hc : c = '<'
      · subst hc
        obtain ⟨head, hmem, hhead, hgt⟩ := h [] s rfl
        obtain ⟨slash, name, space, rest, htag, heq⟩ := exists_tag (u := u) hmem hhead hgt
        have hsplit : '<' :: s = tagText slash name space [] ++ rest := by rw [heq, tagText_append, List.nil_append]
        obtain ⟨tags, hreads⟩ := ih rest.length (by
          rw [← hlen, hsplit, List.length_append, tagText, List.length_cons]
          omega) rest (Tagged.suffix (hsplit ▸ h)) rfl
        rw [heq]
        exact ⟨_, .tag htag hreads⟩
      · obtain ⟨tags, hreads⟩ := ih s.length (by rw [← hlen, List.length_cons]; omega) s (h.suffix (a := [c])) rfl
        exact ⟨tags, .char hc hreads⟩

/-- **The markup has no `<` outside a tag.** -/
theorem noRawAngle_telegramMarkup (u : UnicodeLib) (content : Str) : noRawAngle u (telegramMarkup u content) = true := by
  obtain ⟨tags, hreads⟩ := reads_of_tagged u _ (tagged_telegramMarkup u content)
  exact hreads.noRawAngle.1

end Names

end Zeptoclaw

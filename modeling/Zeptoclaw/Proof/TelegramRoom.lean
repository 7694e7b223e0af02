import Mathlib.Data.List.Chain
import Zeptoclaw.Proof.Telegram
import Zeptoclaw.Proof.TelegramEscape

/-!
# Contents whose chunks are acceptable

What the phases of `render_telegram_html` put into a text is paid for by the marks that they take
away (`weight_convertBlocks`, `weight_convertInline`, `weight_convertLinks`). With units of UTF-16 for
the price, the markup of a content with few marks fits in one message, and nothing is cut
(`telegramChunks_of_room`). With the opening angle bracket for the price, a content without marks has
no tag at all, and every cut is harmless (`telegramChunks_of_no_marks`). With marks of one kind, one
phase puts in all the elements, and they do not cross (`telegramChunks_of_oneKind`).
-/

namespace Zeptoclaw

open Text Pattern

/-! ## The weight of a text -/

section Weight

variable {μ : Char → ℕ} {s : Str}

def weight (μ : Char → ℕ) (s : Str) : ℕ := (s.map μ).sum

@[simp] theorem weight_nil : weight μ [] = 0 := rfl

@[simp] theorem weight_cons (c : Char) (s : Str) : weight μ (c :: s) = μ c + weight μ s := by
  simp [weight]

@[simp] theorem weight_append (s t : Str) : weight μ (s ++ t) = weight μ s + weight μ t := by
  simp [weight]

theorem forall_mem_of_all {p : Char → Prop} [DecidablePred p] (h : (s.all fun c => decide (p c)) = true) : ∀ c ∈ s, p c :=
  fun c hc => of_decide_eq_true (List.all_eq_true.mp h c hc)

/-- What an element costs besides its body. -/
theorem weight_element (tag : String) (body : Str) :
    weight μ (element tag body) = weight μ (element tag []) + weight μ body := by
  simp only [element, weight_append, weight_nil]
  omega

theorem weight_suffix {s t : Str} (h : s <:+ t) : weight μ s ≤ weight μ t := by
  obtain ⟨front, rfl⟩ := h
  rw [weight_append]
  omega

theorem le_weight {c : Char} (h : c ∈ s) : μ c ≤ weight μ s := by
  obtain ⟨front, back, rfl⟩ := List.append_of_mem h
  rw [weight_append, weight_cons]
  omega

theorem weight_eq_zero (h : ∀ c ∈ s, μ c = 0) : weight μ s = 0 := by
  induction s with
  | nil => rfl
  | cons c s ih => rw [weight_cons, h c List.mem_cons_self, ih fun d hd => h d (List.mem_cons_of_mem c hd)]

/-- Every mark that the phases take away weighs as much as what they put in its place. -/
structure Pays (μ : Char → ℕ) : Prop where
  header : weight μ (element "b" [] ++ "\n".toList) ≤ μ '#'
  bullet : ∀ c d, c = '-' ∨ c = '*' → weight μ "• ".toList ≤ μ c + μ d
  boldItalic : weight μ (element "b" (element "i" [])) ≤ 2 * weight μ "***".toList
  bold : weight μ (element "b" []) ≤ 2 * weight μ "**".toList
  italic : weight μ (element "i" []) ≤ 2 * weight μ "*".toList
  underscore : weight μ (element "i" []) ≤ 2 * weight μ "_".toList
  strikethrough : weight μ (element "s" []) ≤ 2 * weight μ "~~".toList
  link : weight μ ("<a href=\"".toList ++ "\">".toList ++ "</a>".toList) ≤ weight μ "[]()".toList
  spoiler : weight μ (element "tg-spoiler" []) ≤ 2 * weight μ "||".toList

theorem weight_replaceAll {r : Pattern Char} {f : Way Char → Str}
    (h : ∀ before s w, w ∈ r.ways before s → weight μ (f w) ≤ weight μ w.text) (s : Str) :
    weight μ (r.replaceAll f s) ≤ weight μ s :=
  (rewrites_replaceAll r f s).sum_le μ fun w ⟨before, hw⟩ => h before _ w hw

theorem weight_marked {mark : String} {p : Char → Bool} {lazy : Bool} (wrap : Str → Str)
    (h : ∀ body, weight μ (wrap body) ≤ 2 * weight μ mark.toList + weight μ body) (s : Str) :
    weight μ ((marked mark p lazy).replaceAll (fun caps => wrap (caps.get 1)) s) ≤ weight μ s := by
  refine weight_replaceAll (fun before t w hw => ?_) s
  obtain ⟨body, htext, hget⟩ := mem_ways_marked hw
  have hbody := h body
  rw [hget, htext, weight_append, weight_append]
  omega

theorem weight_markedElement {mark tag : String} {p : Char → Bool} {lazy : Bool}
    (h : weight μ (element tag []) ≤ 2 * weight μ mark.toList) (s : Str) :
    weight μ ((marked mark p lazy).replaceAll (fun caps => element tag (caps.get 1)) s) ≤ weight μ s := by
  refine weight_marked (element tag) (fun body => ?_) s
  rw [weight_element]
  omega

theorem weight_hr (s : Str) : weight μ (reHr.replaceAll (fun _ => []) s) ≤ weight μ s :=
  weight_replaceAll (fun _ _ _ _ => Nat.zero_le _) s

theorem weight_header (hμ : Pays μ) (s : Str) :
    weight μ (reHeader.replaceAll (fun caps => element "b" (caps.get 1) ++ "\n".toList) s) ≤ weight μ s := by
  refine weight_replaceAll (fun before t w hw => ?_) s
  obtain ⟨hashes, space, body, htext, hget, -⟩ := mem_ways_reHeader hw
  have hcost := hμ.header
  rw [weight_append] at hcost
  rw [hget, htext, weight_append, weight_element, weight_cons, weight_append, weight_append]
  omega

theorem mem_ways_reBullet {before : Option Char} {w : Way Char} (h : w ∈ reBullet.ways before s) :
    ∃ front c d back, w.text = front ++ c :: d :: back ∧ (c = '-' ∨ c = '*') := by
  simp only [reBullet, cat] at h
  obtain ⟨w1, h1, v1, hv1, rfl⟩ := mem_ways_seq.mp h
  obtain ⟨w2, h2, v2, hv2, rfl⟩ := mem_ways_seq.mp hv1
  obtain ⟨w3, h3, w4, h4, rfl⟩ := mem_ways_seq.mp hv2
  obtain ⟨-, rfl⟩ := mem_ways_look.mp h1
  obtain ⟨c, t, hc, -, rfl⟩ := mem_ways_cls.mp h3
  obtain ⟨space, rest, -, hlen, -, -, rfl⟩ := mem_ways_rep.mp h4
  obtain ⟨d, back, rfl⟩ := List.exists_cons_of_ne_nil (List.ne_nil_of_length_pos hlen)
  refine ⟨w2.text, c, d, back, ?_, by simpa using hc⟩
  simp [Way.append]

theorem weight_bullet (hμ : Pays μ) (s : Str) : weight μ (reBullet.replaceAll (fun _ => "• ".toList) s) ≤ weight μ s := by
  refine weight_replaceAll (fun before t w hw => ?_) s
  obtain ⟨front, c, d, back, htext, hc⟩ := mem_ways_reBullet hw
  have hcost := hμ.bullet c d hc
  rw [htext, weight_append, weight_cons, weight_cons]
  omega

theorem weight_numberedList (u : UnicodeLib) (s : Str) :
    weight μ ((reNumberedList u).replaceAll (fun caps => trimStart caps.text) s) ≤ weight μ s :=
  weight_replaceAll (fun _ _ _ _ => weight_suffix (List.dropWhile_suffix _)) s

/-- Phase 4; a block quote is a case of its own, because nothing that the pattern takes away is a mark. -/
theorem weight_convertBlocks (hμ : Pays μ) (u : UnicodeLib)
    (hquote : weight μ (reBlockquote.replaceAll (fun caps => element "blockquote" (caps.get 1))
        (reHeader.replaceAll (fun caps => element "b" (caps.get 1) ++ "\n".toList) (reHr.replaceAll (fun _ => []) s))) ≤
      weight μ (reHeader.replaceAll (fun caps => element "b" (caps.get 1) ++ "\n".toList)
        (reHr.replaceAll (fun _ => []) s))) : weight μ (convertBlocks u s) ≤ weight μ s := by
  unfold convertBlocks
  calc _ ≤ _ := weight_numberedList u _
    _ ≤ _ := weight_bullet hμ _
    _ ≤ _ := hquote
    _ ≤ _ := weight_header hμ _
    _ ≤ _ := weight_hr _

theorem weight_underscore (hμ : Pays μ) (s : Str) : weight μ (reItalicUnderscore.replaceAll
    (fun caps => caps.get 1 ++ element "i" (caps.get 2) ++ caps.get 3) s) ≤ weight μ s := by
  refine weight_replaceAll (fun before t w hw => ?_) s
  obtain ⟨pre, body, suf, htext, hget1, hget2, hget3, -, -⟩ := mem_ways_reItalicUnderscore hw
  have hcost := hμ.underscore
  rw [hget1, hget2, hget3, htext]
  simp only [weight_append]
  rw [weight_element]
  omega

theorem weight_convertInline (hμ : Pays μ) (s : Str) : weight μ (convertInline s) ≤ weight μ s := by
  have hboth : ∀ body, weight μ (element "b" (element "i" body)) ≤ 2 * weight μ "***".toList + weight μ body := by
    intro body
    have hcost := hμ.boldItalic
    rw [weight_element] at hcost
    rw [weight_element "b" (element "i" body), weight_element "i" body]
    omega
  unfold convertInline
  calc _ ≤ _ := weight_markedElement hμ.strikethrough _
    _ ≤ _ := weight_underscore hμ _
    _ ≤ _ := weight_markedElement hμ.italic _
    _ ≤ _ := weight_markedElement hμ.bold _
    _ ≤ _ := weight_marked (fun body => element "b" (element "i" body)) hboth _

theorem weight_convertLinks (hμ : Pays μ) (s : Str) : weight μ (convertLinks s) ≤ weight μ s := by
  unfold convertLinks
  refine (weight_markedElement hμ.spoiler _).trans (weight_replaceAll (fun before t w hw => ?_) s)
  obtain ⟨label, target, htext, hget1, hget2⟩ := mem_ways_reLink hw
  have hcost := hμ.link
  have hmarks : weight μ "[]()".toList = weight μ "[".toList + (weight μ "](".toList + weight μ ")".toList) := by
    rw [← weight_append, ← weight_append]
    rfl
  rw [hmarks] at hcost
  rw [hget1, hget2, htext]
  simp only [weight_append] at hcost ⊢
  omega

/-! ## Contents without code -/

/-- Characters that are kept are put behind the text, and no region is taken out. -/
theorem foldl_keep {f : Str × List Str → Piece Char → Str × List Str}
    (hf : ∀ state c, f state (.keep c) = (state.1 ++ [c], state.2)) (regions : List Str) :
    ∀ t front : Str, (t.map Piece.keep).foldl f (front, regions) = (front ++ t, regions) := by
  intro t
  induction t with
  | nil => intro front; simp
  | cons c t ih =>
    intro front
    rw [List.map_cons, List.foldl_cons, hf, ih]
    simp

/-- A pattern that needs a character takes nothing out of a text without it. -/
theorem extract_of_not_mem {r : Pattern Char} {d : Char} (hr : ∀ before s w, w ∈ r.ways before s → d ∈ w.text)
    (label : String) (hd : d ∉ s) : extract r label s = (s, []) := by
  unfold extract
  rw [scan_of_not_mem hr hd]
  exact foldl_keep (fun _ _ => rfl) [] s []

theorem backtick_mem_fenced {before : Option Char} {w : Way Char} (h : w ∈ reFencedCode.ways before s) : '\x60' ∈ w.text := by
  simp only [reFencedCode, cat] at h
  obtain ⟨w1, h1, v1, hv1, rfl⟩ := mem_ways_seq.mp h
  obtain ⟨s1, -, rfl⟩ := mem_ways_lit.mp h1
  have hmark : '\x60' ∈ "```".toList := by decide
  exact List.mem_append_left _ hmark

theorem backtick_mem_inline {before : Option Char} {w : Way Char} (h : w ∈ reInlineCode.ways before s) : '\x60' ∈ w.text := by
  obtain ⟨body, htext, -⟩ := mem_ways_marked h
  rw [htext]
  exact List.mem_append_left _ (by decide)

theorem telegramMarkup_of_no_code (u : UnicodeLib) {content : Str} (h : '\x60' ∉ content) : telegramMarkup u content =
    convertLinks (convertInline (convertBlocks u (restoreUnderline (escapeHtml content)))) := by
  unfold telegramMarkup
  rw [extract_of_not_mem (fun _ _ _ hw => backtick_mem_fenced hw) "CODEBLOCK" h]
  dsimp only
  rw [extract_of_not_mem (fun _ _ _ hw => backtick_mem_inline hw) "INLINE" h]
  simp only [reinsert, List.zipIdx_nil, List.foldl_nil]

end Weight

/-! ## Stripped text -/

theorem mem_ways_reStrip {before : Option Char} {s : Str} {w : Way Char} : w ∈ reStrip.ways before s ↔
    ∃ body rest, body ≠ [] ∧ (∀ c ∈ body, (c != '>') = true) ∧ s = '<' :: (body ++ '>' :: rest) ∧
      w = ⟨'<' :: (body ++ ['>']), [], rest⟩ := by
  simp only [reStrip, cat]
  constructor
  · intro h
    obtain ⟨w1, h1, v1, hv1, rfl⟩ := mem_ways_seq.mp h
    obtain ⟨w2, h2, w3, h3, rfl⟩ := mem_ways_seq.mp hv1
    obtain ⟨s1, hs, rfl⟩ := mem_ways_lit.mp h1
    obtain ⟨body, s2, hbody, hlen, -, hall, rfl⟩ := mem_ways_rep.mp h2
    obtain ⟨s3, hrest, rfl⟩ := mem_ways_lit.mp h3
    dsimp only at hbody hrest
    refine ⟨body, s3, List.ne_nil_of_length_pos hlen, by simpa using hall, ?_, rfl⟩
    rw [hs, hbody, hrest]
    rfl
  · rintro ⟨body, rest, hne, hall, rfl, rfl⟩
    refine mem_ways_seq.mpr ⟨⟨['<'], [], body ++ '>' :: rest⟩, mem_ways_lit.mpr ⟨_, rfl, rfl⟩,
      ⟨body ++ ['>'], [], rest⟩, mem_ways_seq.mpr ⟨⟨body, [], '>' :: rest⟩, ?_, ⟨['>'], [], rest⟩,
        mem_ways_lit.mpr ⟨rest, rfl, rfl⟩, rfl⟩, rfl⟩
    exact mem_ways_rep.mpr
      ⟨body, '>' :: rest, rfl, List.length_pos_iff.mpr hne, by simp, by simpa using hall, rfl⟩

/-- Stripping takes out the tags of a text that can be read, and leaves no angle bracket that opens. -/
theorem lt_not_mem_reStrip {u : UnicodeLib} {s : Str} {tags : List (Str × Str)} (h : Reads u s tags) :
    '<' ∉ reStrip.replaceAll (fun _ => []) s := by
  have hfree : reStrip.lookFree = true := rfl
  unfold replaceAll
  induction h with
  | nil => exact List.not_mem_nil
  | @char c s tags hc _ ih =>
    rcases scan_cases hfree c s with ⟨w, -, hw, -⟩ | ⟨-, hscan⟩
    · obtain ⟨body, rest, -, -, heq, -⟩ := mem_ways_reStrip.mp hw
      exact absurd (List.cons.inj heq).1 hc
    · rw [hscan, List.flatMap_cons, List.singleton_append, List.mem_cons, not_or]
      exact ⟨Ne.symm hc, ih⟩
  | @tag slash name space rest tags htag _ ih =>
    obtain ⟨body, hbody⟩ : ∃ body, body = slash ++ (name ++ space) := ⟨_, rfl⟩
    have htext : tagText slash name space rest = '<' :: (body ++ '>' :: rest) := by simp [tagText, hbody]
    have hne : body ≠ [] := by
      obtain ⟨c, t, rfl, -⟩ := htag.name
      rw [hbody]
      simp
    have hplain : ∀ c ∈ body, (c != '>') = true := by
      intro c hc
      rw [hbody, List.mem_append, List.mem_append] at hc
      rw [bne_iff_ne]
      rcases hc with hc | hc | hc
      · rcases htag.slash with rfl | rfl
        · cases hc
        · rw [List.mem_singleton.mp hc]
          decide
      · rintro rfl
        have hend := htag.name.forall_mem '>' hc
        rw [notName_end] at hend
        cases hend
      · exact htag.space.forall_mem c hc
    have hway : (⟨'<' :: (body ++ ['>']), [], rest⟩ : Way Char) ∈ reStrip.ways none ('<' :: (body ++ '>' :: rest)) :=
      mem_ways_reStrip.mpr ⟨body, rest, hne, hplain, rfl, rfl⟩
    rw [htext]
    rcases scan_cases hfree '<' (body ++ '>' :: rest) with ⟨w, -, hw, hscan⟩ | ⟨hnone, -⟩
    · -- a match ends at the first end of a tag, as the tag does
      obtain ⟨body', rest', -, hplain', heq, rfl⟩ := mem_ways_reStrip.mp hw
      obtain ⟨-, hrest⟩ := span_unique (List.cons.inj heq).2 hplain (by simp) hplain' (by simp)
      rw [hscan, List.flatMap_cons, List.nil_append, ← (List.cons.inj hrest).2]
      exact ih
    · obtain ⟨w, hhead⟩ := Option.isSome_iff_exists.mp (List.isSome_head?.mpr (List.ne_nil_of_mem hway))
      obtain ⟨body', rest', -, -, -, hw⟩ := mem_ways_reStrip.mp (List.mem_of_mem_head? hhead)
      have hempty := hnone w hhead
      rw [hw] at hempty
      cases hempty

/-! ## Contents without closing angle brackets -/

section NoGt

variable {x y : Char} {s content : Str}

theorem mem_ways_reHr {before : Option Char} {w : Way Char} (h : w ∈ reHr.ways before s) :
    ∀ d ∈ w.rest.head?, d = '\n' := by
  simp only [reHr, cat] at h
  obtain ⟨w1, -, v1, hv1, rfl⟩ := mem_ways_seq.mp h
  obtain ⟨w2, -, v2, hv2, rfl⟩ := mem_ways_seq.mp hv1
  obtain ⟨w3, -, w4, h4, rfl⟩ := mem_ways_seq.mp hv2
  obtain ⟨rfl, hend⟩ := mem_ways_lineEnd h4
  exact hend

/-- A rule is taken out up to the end of its line, so it brings no other two characters together. -/
theorem never_hr (hy : y ≠ '\n') (h : Never x y s) : Never x y (reHr.replaceAll (fun _ => []) s) := by
  refine ((rewrites_replaceAll _ _ s).never ?_ h).1
  rintro w ⟨before, hw⟩ -
  refine ⟨List.isChain_nil, by simp, by simp, fun _ d hd => ?_⟩
  rw [mem_ways_reHr hw d hd]
  exact hy.symm

theorem never_header (h : Never '&' 'g' s) :
    Never '&' 'g' (reHeader.replaceAll (fun caps => element "b" (caps.get 1) ++ "\n".toList) s) := by
  refine ((rewrites_replaceAll _ _ s).never ?_ h).1
  rintro w ⟨before, hw⟩ htext
  obtain ⟨hashes, space, body, hcut, hget, -⟩ := mem_ways_reHeader hw
  have hbody : Never '&' 'g' body :=
    List.IsChain.suffix htext ⟨'#' :: (hashes ++ space), by rw [hcut]; simp only [List.cons_append, List.append_assoc]⟩
  have hput : element "b" body ++ "\n".toList = "<b>".toList ++ (body ++ "</b>\n".toList) := by simp [element]
  have hinner : Never '&' 'g' (body ++ "</b>\n".toList) := by
    refine List.isChain_append.mpr ⟨hbody, never_of_not_mem 'g' (by decide), fun a _ d hd _ => ?_⟩
    obtain rfl : '<' = d := Option.some.inj hd
    decide
  have hlast : (element "b" body ++ "\n".toList).getLast? = some '\n' := List.getLast?_concat
  rw [hget]
  refine ⟨?_, fun d hd => ?_, fun a ha => ?_, fun hnil => ?_⟩
  · rw [hput]
    refine List.isChain_append.mpr ⟨never_of_not_mem 'g' (by decide), hinner, fun a ha d _ hamp => ?_⟩
    obtain rfl : '>' = a := Option.some.inj ha
    exact absurd hamp (by decide)
  · obtain rfl : '<' = d := Option.some.inj hd
    decide
  · rw [hlast] at ha
    obtain rfl := Option.some.inj ha
    decide
  · rw [hnil] at hlast
    cases hlast

theorem gt_absent (h : Never '&' 'g' s) : ¬ "&gt;".toList <:+: s := by
  have hbegin : ['&', 'g'] <:+: "&gt;".toList := ⟨[], "t;".toList, rfl⟩
  exact fun hin => never_iff.mp h (hbegin.trans hin)

/-- Without the entity there is no quote. -/
theorem quote_of_never (h : Never '&' 'g' s) :
    reBlockquote.replaceAll (fun caps => element "blockquote" (caps.get 1)) s = s := by
  refine (rewrites_replaceAll _ _ _).eq_self_of_absent ?_ (gt_absent h)
  rintro w ⟨before, hw⟩
  obtain ⟨space, body, htext, -⟩ := mem_ways_reBlockquote hw
  rw [htext]
  exact (List.prefix_append _ _).isInfix

theorem restoreUnderline_of_never (h : Never '&' 'g' s) : restoreUnderline s = s := by
  have hstep : ∀ {pat : Str} (rep : Str), "&gt;".toList <:+: pat → replace s pat rep = s :=
    fun rep hin => replace_of_absent _ fun hpat => gt_absent h (hin.trans hpat)
  unfold restoreUnderline
  rw [hstep "<u>".toList (by decide), hstep "</u>".toList (by decide), hstep "<u>".toList (by decide),
    hstep "</u>".toList (by decide)]

theorem noGt_escapeHtml (h : '>' ∉ s) : Never '&' 'g' (escapeHtml s) := by
  rw [escapeHtml_eq]
  unfold Never
  induction s with
  | nil => exact List.isChain_nil
  | cons c s ih =>
    rw [List.mem_cons, not_or] at h
    rw [List.flatMap_cons]
    refine List.isChain_append.mpr ⟨?_, ih h.2, ?_⟩
    · unfold escapeChar escapeAngles
      split
      · decide
      · split
        · decide
        · rw [if_neg (Ne.symm h.1)]
          exact List.isChain_singleton _
    · intro a ha b _ hamp
      subst hamp
      unfold escapeChar escapeAngles at ha
      split at ha
      · exact absurd ha (by decide)
      · rename_i hne
        split at ha
        · exact absurd ha (by decide)
        · rw [if_neg (Ne.symm h.1)] at ha
          exact absurd (Option.some.inj ha) hne

/-- The markup weighs no more than the escaped text, if there is no closing angle bracket to make a quote of. -/
theorem weight_telegramMarkup {μ : Char → ℕ} (hμ : Pays μ) (u : UnicodeLib) (hplain : ∀ c ∈ content, c ∉ ">\x60".toList) :
    weight μ (telegramMarkup u content) ≤ weight μ (escapeHtml content) := by
  have hcode : '\x60' ∉ content := fun h => hplain _ h (by decide)
  have hgt : Never '&' 'g' (escapeHtml content) := noGt_escapeHtml fun h => hplain _ h (by decide)
  rw [telegramMarkup_of_no_code u hcode, restoreUnderline_of_never hgt]
  refine (weight_convertLinks hμ _).trans ((weight_convertInline hμ _).trans (weight_convertBlocks hμ u ?_))
  rw [quote_of_never (never_header (never_hr (by decide) hgt))]

end NoGt

/-! ## Contents that fit -/

section Contents

variable {u : UnicodeLib} {content : Str}

/-- The marks of the elements. -/
def elementMarks : List Char := "*_~|[#".toList

/-- The units that a character may take up in the markup. A mark brings in at most eleven besides its own; an ampersand
may take up more. -/
def markupRoom (amp : ℕ) (c : Char) : ℕ := lenUtf16 c + if c ∈ elementMarks then 11 else if c = '&' then amp else 0

theorem one_le_lenUtf16 (c : Char) : 1 ≤ lenUtf16 c := by
  unfold lenUtf16
  split
  · decide
  · decide

theorem pays_markupRoom (amp : ℕ) : Pays (markupRoom amp) where
  header := by simp [element, markupRoom, elementMarks, lenUtf16]
  bullet c d _ := by
    have hc := one_le_lenUtf16 c
    have hd := one_le_lenUtf16 d
    have hbullet : weight (markupRoom amp) "• ".toList = 2 := by simp [markupRoom, elementMarks, lenUtf16]
    rw [hbullet]
    unfold markupRoom
    omega
  boldItalic := by simp [element, markupRoom, elementMarks, lenUtf16]
  bold := by simp [element, markupRoom, elementMarks, lenUtf16]
  italic := by simp [element, markupRoom, elementMarks, lenUtf16]
  underscore := by simp [element, markupRoom, elementMarks, lenUtf16]
  strikethrough := by simp [element, markupRoom, elementMarks, lenUtf16]
  link := by simp [markupRoom, elementMarks, lenUtf16]
  spoiler := by simp [element, markupRoom, elementMarks, lenUtf16]

theorem escapeHtml_of_plain {s : Str} (h : ∀ c ∈ s, c ∉ "<>&".toList) : escapeHtml s = s := by
  rw [escapeHtml_eq]
  have hsame : ∀ c ∈ s, escapeChar c = [c] := by
    intro c hc
    have hplain := h c hc
    have hne : c ≠ '<' ∧ c ≠ '>' ∧ c ≠ '&' := by
      refine ⟨?_, ?_, ?_⟩
      · rintro rfl; exact hplain (by decide)
      · rintro rfl; exact hplain (by decide)
      · rintro rfl; exact hplain (by decide)
    simp [escapeChar, escapeAngles, hne.1, hne.2.1, hne.2.2]
  rw [List.flatMap_congr hsame]
  simp

theorem weight_mono {μ ν : Char → ℕ} (h : ∀ c, μ c ≤ ν c) (s : Str) : weight μ s ≤ weight ν s := by
  induction s with
  | nil => exact le_rfl
  | cons c s ih =>
    rw [weight_cons, weight_cons]
    exact Nat.add_le_add (h c) ih

theorem utf16Len_le_room (amp : ℕ) (s : Str) : utf16Len s ≤ weight (markupRoom amp) s :=
  weight_mono (fun _ => Nat.le_add_right _ _) s

theorem weight_room (amp : ℕ) (s : Str) :
    weight (markupRoom amp) s = utf16Len s + 11 * s.countP (· ∈ elementMarks) + amp * s.count '&' := by
  induction s with
  | nil => rfl
  | cons c s ih =>
    have hunit : utf16Len (c :: s) = lenUtf16 c + utf16Len s := by simp [utf16Len]
    rw [weight_cons, ih, hunit, List.countP_cons, List.count_cons]
    unfold markupRoom
    by_cases hamp : c = '&'
    · subst hamp
      simp only [show '&' ∉ elementMarks by decide, if_false, decide_false, Bool.false_eq_true, beq_self_eq_true, if_true,
        Nat.mul_add, Nat.mul_one]
      omega
    · by_cases hc : c ∈ elementMarks
      · simp only [hc, hamp, if_true, decide_true, beq_iff_eq, if_false, Nat.add_zero]
        omega
      · simp only [hc, hamp, if_false, decide_false, Bool.false_eq_true, beq_iff_eq, Nat.add_zero]
        omega

/-- An entity for each ampersand and each opening angle bracket. -/
theorem weight_escapeHtml (h : '>' ∉ content) : weight (markupRoom 0) (escapeHtml content) =
    utf16Len content + 11 * content.countP (· ∈ elementMarks) + 4 * content.count '&' + 3 * content.count '<' := by
  rw [escapeHtml_eq]
  induction content with
  | nil => rfl
  | cons c s ih =>
    rw [List.mem_cons, not_or] at h
    have hunit : utf16Len (c :: s) = lenUtf16 c + utf16Len s := by simp [utf16Len]
    rw [List.flatMap_cons, weight_append, ih h.2, hunit, List.countP_cons, List.count_cons, List.count_cons]
    unfold escapeChar escapeAngles
    by_cases hamp : c = '&'
    · subst hamp
      have hentity : weight (markupRoom 0) "&amp;".toList = 5 := by decide
      have hone : lenUtf16 '&' = 1 := by decide
      rw [if_pos rfl, hentity, hone]
      simp only [show '&' ∉ elementMarks by decide, decide_false, Bool.false_eq_true, if_false, beq_self_eq_true, if_true,
        show ('&' == '<') = false by decide]
      omega
    by_cases hlt : c = '<'
    · subst hlt
      have hentity : weight (markupRoom 0) "&lt;".toList = 4 := by decide
      have hone : lenUtf16 '<' = 1 := by decide
      rw [if_neg hamp, if_pos rfl, hentity, hone]
      simp only [show '<' ∉ elementMarks by decide, decide_false, Bool.false_eq_true, if_false, beq_self_eq_true, if_true,
        show ('<' == '&') = false by decide]
      omega
    · rw [if_neg hamp, if_neg hlt, if_neg (Ne.symm h.1), weight_cons, weight_nil, markupRoom]
      by_cases hc : c ∈ elementMarks
      · simp only [hc, hamp, hlt, if_true, decide_true, beq_iff_eq, if_false]
        omega
      · simp only [hc, hamp, hlt, decide_false, Bool.false_eq_true, beq_iff_eq, if_false]
        omega

/-- A text that takes up no more room than a message has no ampersand. -/
theorem amp_not_mem_of_room {s : Str} (h : weight (markupRoom telegramMaxMessageLen) s ≤ telegramMaxMessageLen) : '&' ∉ s := by
  intro hmem
  have hle := (le_weight (μ := markupRoom telegramMaxMessageLen) hmem).trans h
  exact absurd hle (by decide)

/-- **The text that is sent instead has no angle bracket that opens**, if the markup takes up no more room than a
message. -/
theorem stripHtmlTags_of_room {html : Str} {tags : List (Str × Str)} (hreads : Reads u html tags)
    (hroom : weight (markupRoom telegramMaxMessageLen) html ≤ telegramMaxMessageLen) :
    '<' ∉ stripHtmlTags html ∧ utf16Len (stripHtmlTags html) ≤ telegramMaxMessageLen := by
  have hless : weight (markupRoom telegramMaxMessageLen) (reStrip.replaceAll (fun _ => []) html) ≤ telegramMaxMessageLen :=
    (weight_replaceAll (fun _ _ _ _ => Nat.zero_le _) html).trans hroom
  have hamp := amp_not_mem_of_room hless
  have hkeep : ∀ more rep : Str, replace (reStrip.replaceAll (fun _ => []) html) ('&' :: more) rep =
      reStrip.replaceAll (fun _ => []) html := by
    intro more rep
    refine (rewrites_replace (List.cons_ne_nil '&' more) rep _).eq_self (d := '&') ?_ hamp
    intro w hw
    rw [hw]
    exact List.mem_cons_self
  have hstrip : stripHtmlTags html = reStrip.replaceAll (fun _ => []) html := by
    have h1 := hkeep "amp;".toList "&".toList
    have h2 := hkeep "lt;".toList "<".toList
    have h3 := hkeep "gt;".toList ">".toList
    unfold stripHtmlTags
    dsimp only
    change replace (replace (replace _ ('&' :: "amp;".toList) _) ('&' :: "lt;".toList) _) ('&' :: "gt;".toList) _ = _
    rw [h1, h2, h3]
  rw [hstrip]
  exact ⟨lt_not_mem_reStrip hreads, (utf16Len_le_room _ _).trans hless⟩

theorem telegramChunks_of_room (u : UnicodeLib) (hplain : ∀ c ∈ content, c ∉ "<>&\x60".toList)
    (hroom : utf16Len content + 11 * content.countP (· ∈ elementMarks) ≤ telegramMaxMessageLen) :
    AllAcceptable u (telegramChunks u content) := by
  have hmarkup : weight (markupRoom telegramMaxMessageLen) (telegramMarkup u content) ≤ telegramMaxMessageLen := by
    have hamp : content.count '&' = 0 := List.count_eq_zero.mpr fun h => hplain _ h (by decide)
    have hescape : escapeHtml content = content :=
      escapeHtml_of_plain fun c hc hmem => hplain c hc (List.mem_append_left ['\x60'] hmem)
    have hcode : ∀ c ∈ content, c ∉ ">\x60".toList := fun c hc hmem =>
      hplain c hc ((by decide : ">\x60".toList ⊆ "<>&\x60".toList) hmem)
    have hweight := weight_telegramMarkup (pays_markupRoom telegramMaxMessageLen) u hcode
    rw [hescape, weight_room _ content, hamp, Nat.mul_zero, Nat.add_zero] at hweight
    exact hweight.trans hroom
  obtain ⟨tags, hreads⟩ := reads_of_tagged u _ (tagged_telegramMarkup u content)
  have hrendered : Acceptable u (renderTelegramHtml u content) ∧
      utf16Len (renderTelegramHtml u content) ≤ telegramMaxMessageLen := by
    cases hvalid : htmlTagsValid u (telegramMarkup u content) with
    | true =>
      have hrender : renderTelegramHtml u content = telegramMarkup u content := by simp [renderTelegramHtml, hvalid]
      rw [hrender]
      exact ⟨⟨hvalid, noRawAngle_telegramMarkup u content⟩, (utf16Len_le_room _ _).trans hmarkup⟩
    | false =>
      have hrender : renderTelegramHtml u content = stripHtmlTags (telegramMarkup u content) := by
        simp [renderTelegramHtml, hvalid]
      obtain ⟨hlt, hlen⟩ := stripHtmlTags_of_room hreads hmarkup
      rw [hrender]
      exact ⟨acceptable_of_plain hlt, hlen⟩
  rw [telegramChunks, chunkMessage, if_pos hrendered.2]
  exact (allAcceptable_single _).mpr hrendered.1

/-! ## Contents with marks of one kind -/

/-- The text has no marks but those of one kind. -/
def OnlyMark (m : Char) (s : Str) : Prop := ∀ c ∈ s, c ∈ elementMarks → c = m

/-- A text without angle brackets that has marks of one kind. -/
structure OneKind (m : Char) (s : Str) : Prop where
  lt : '<' ∉ s
  gt : '>' ∉ s
  marks : OnlyMark m s

section OneKind

variable {m : Char} {s t : Str}

theorem OnlyMark.append (hs : OnlyMark m s) (ht : OnlyMark m t) : OnlyMark m (s ++ t) := List.forall_mem_append.mpr ⟨hs, ht⟩

theorem OnlyMark.not_mem {d : Char} (h : OnlyMark m s) (hd : d ∈ elementMarks) (hne : d ≠ m) : d ∉ s := fun hmem => hne (h d hmem hd)

theorem OneKind.part (h : OneKind m s) (hin : t <:+: s) : OneKind m t :=
  ⟨fun hc => h.lt (hin.subset hc), fun hc => h.gt (hin.subset hc), fun c hc => h.marks c (hin.subset hc)⟩

theorem OneKind.rewrites {P : Way Char → Prop} {f : Way Char → Str} (h : Rewrites P f s t)
    (hf : ∀ w, P w → OneKind m w.text → OneKind m (f w)) (hs : OneKind m s) : OneKind m t := by
  have hsplit : ∀ s, OneKind m s ↔ ∀ c ∈ s, c ≠ '<' ∧ c ≠ '>' ∧ (c ∈ elementMarks → c = m) := by
    intro s
    constructor
    · intro hs c hc
      refine ⟨?_, ?_, hs.marks c hc⟩
      · rintro rfl
        exact hs.lt hc
      · rintro rfl
        exact hs.gt hc
    · exact fun hall => ⟨fun hc => (hall _ hc).1 rfl, fun hc => (hall _ hc).2.1 rfl, fun c hc => (hall c hc).2.2⟩
  rw [hsplit] at hs ⊢
  exact h.forall_mem (fun w hw htext => (hsplit _).mp (hf w hw ((hsplit _).mpr htext))) hs

theorem oneKind_escapeHtml (h : OnlyMark m content) : OneKind m (escapeHtml content) := by
  have hchar : ∀ c ∈ escapeHtml content, c ∈ "&amp;&lt;&gt;".toList ∨ (c ∈ content ∧ c ∉ "<>".toList) := by
    intro c hc
    rw [escapeHtml_eq] at hc
    obtain ⟨d, hd, hcd⟩ := List.mem_flatMap.mp hc
    unfold escapeChar escapeAngles at hcd
    split at hcd
    · exact .inl (List.mem_append_left "&lt;&gt;".toList hcd)
    split at hcd
    · exact .inl (List.mem_append_right "&amp;".toList (List.mem_append_left "&gt;".toList hcd))
    split at hcd
    · exact .inl (List.mem_append_right "&amp;&lt;".toList hcd)
    · rename_i hlt hgt
      rw [List.mem_singleton.mp hcd]
      exact .inr ⟨hd, by simp [hlt, hgt]⟩
  have hentity : ∀ e ∈ "&amp;&lt;&gt;".toList, e ∉ elementMarks ∧ e ≠ '<' ∧ e ≠ '>' := forall_mem_of_all (by decide)
  refine ⟨fun hmem => ?_, fun hmem => ?_, fun c hc hmark => ?_⟩
  · exact (hchar _ hmem).elim (fun he => (hentity _ he).2.1 rfl) fun hno => hno.2 (by decide)
  · exact (hchar _ hmem).elim (fun he => (hentity _ he).2.2 rfl) fun hno => hno.2 (by decide)
  · exact (hchar c hc).elim (fun he => absurd hmark (hentity c he).1) fun hin => h c hin.1 hmark

/-! ### The phases that put in no element -/

theorem oneKind_hr (hs : OneKind m s) : OneKind m (reHr.replaceAll (fun _ => []) s) :=
  hs.rewrites (rewrites_replaceAll _ _ s) fun _ _ _ => ⟨List.not_mem_nil, List.not_mem_nil, fun _ hc => nomatch hc⟩

theorem oneKind_bullet (hs : OneKind m s) : OneKind m (reBullet.replaceAll (fun _ => "• ".toList) s) := by
  have hplain : ∀ c ∈ "• ".toList, c ∉ elementMarks := forall_mem_of_all (by decide)
  exact hs.rewrites (rewrites_replaceAll _ _ s) fun _ _ _ => ⟨by decide, by decide, fun c hc hmark => absurd hmark (hplain c hc)⟩

theorem oneKind_numberedList (u : UnicodeLib) (hs : OneKind m s) :
    OneKind m ((reNumberedList u).replaceAll (fun caps => trimStart caps.text) s) :=
  hs.rewrites (rewrites_replaceAll _ _ s) fun _ _ htext => htext.part (List.dropWhile_suffix _).isInfix

/-- Without a heading and a quote, rules, bullets and numbers are left. -/
theorem convertBlocks_eq (u : UnicodeLib) (hm : m ≠ '#') (hs : OneKind m s) (hgt : Never '&' 'g' s) :
    convertBlocks u s = (reNumberedList u).replaceAll (fun caps => trimStart caps.text)
      (reBullet.replaceAll (fun _ => "• ".toList) (reHr.replaceAll (fun _ => []) s)) := by
  have hheader : reHeader.replaceAll (fun caps => element "b" (caps.get 1) ++ "\n".toList) (reHr.replaceAll (fun _ => []) s) =
      reHr.replaceAll (fun _ => []) s := by
    refine replaceAll_of_not_mem (d := '#') (fun before s w hw => ?_) ((oneKind_hr hs).marks.not_mem (by decide) hm.symm)
    obtain ⟨hashes, space, body, htext, -⟩ := mem_ways_reHeader hw
    rw [htext]
    exact List.mem_cons_self
  unfold convertBlocks
  dsimp only
  rw [hheader, quote_of_never (never_hr (by decide) hgt)]

theorem oneKind_convertBlocks (u : UnicodeLib) (hm : m ≠ '#') (hs : OneKind m s) (hgt : Never '&' 'g' s) :
    OneKind m (convertBlocks u s) := by
  rw [convertBlocks_eq u hm hs hgt]
  exact oneKind_numberedList u (oneKind_bullet (oneKind_hr hs))

/-- Asterisks that stand alone go on to do so. -/
theorem alone_rewrites {P : Way Char → Prop} {f : Way Char → Str} (h : Rewrites P f s t)
    (hf : ∀ w, P w → f w ≠ [] ∧ '*' ∉ f w) (hs : Never '*' '*' s) : Never '*' '*' t := by
  refine (h.never (fun w hw _ => ?_) hs).1
  obtain ⟨hne, hno⟩ := hf w hw
  refine ⟨never_of_not_mem '*' hno, fun d hd => ?_, fun a ha => ?_, fun hnil => absurd hnil hne⟩
  · rintro rfl
    exact hno (List.mem_of_head? hd)
  · rintro rfl
    exact hno (List.mem_of_getLast? ha)

theorem alone_escapeHtml (h : Never '*' '*' content) : Never '*' '*' (escapeHtml content) := by
  have hstep : ∀ {s : Str} (pat rep : String), pat.toList ≠ [] ∧ rep.toList ≠ [] ∧ '*' ∉ rep.toList → Never '*' '*' s →
      Never '*' '*' (replace s pat.toList rep.toList) :=
    fun pat rep hp => alone_rewrites (rewrites_replace hp.1 rep.toList _) fun _ _ => hp.2
  unfold escapeHtml
  exact hstep ">" "&gt;" (by decide) (hstep "<" "&lt;" (by decide) (hstep "&" "&amp;" (by decide) h))

theorem mem_ways_reNumberedList {u : UnicodeLib} {before : Option Char} {w : Way Char} (h : w ∈ (reNumberedList u).ways before s) :
    '.' ∈ trimStart w.text ∧ '*' ∉ w.text := by
  simp only [reNumberedList, cat] at h
  obtain ⟨w1, h1, v1, hv1, rfl⟩ := mem_ways_seq.mp h
  obtain ⟨w2, h2, v2, hv2, rfl⟩ := mem_ways_seq.mp hv1
  obtain ⟨w3, h3, v3, hv3, rfl⟩ := mem_ways_seq.mp hv2
  obtain ⟨w4, h4, w5, h5, rfl⟩ := mem_ways_seq.mp hv3
  obtain ⟨-, rfl⟩ := mem_ways_look.mp h1
  obtain ⟨indent, s2, -, -, -, hindent, rfl⟩ := mem_ways_rep.mp h2
  obtain ⟨digits, s3, -, -, -, hdigits, rfl⟩ := mem_ways_rep.mp h3
  obtain ⟨s4, -, rfl⟩ := mem_ways_lit.mp h4
  obtain ⟨space, s5, -, -, -, hspace, rfl⟩ := mem_ways_rep.mp h5
  have hdigit : u.isDigit '*' = false := (u.digit_ascii '*' (by decide)).trans (by decide)
  constructor
  · have hdot : '.' ∈ indent ++ (digits ++ (".".toList ++ space)) := by simp
    rw [← List.takeWhile_append_dropWhile (p := isWhitespace) (l := indent ++ (digits ++ (".".toList ++ space)))] at hdot
    refine (List.mem_append.mp hdot).resolve_left fun hmem => ?_
    exact absurd (List.mem_takeWhile_imp hmem) (by decide)
  · show '*' ∉ indent ++ (digits ++ (".".toList ++ space))
    simp only [List.mem_append, not_or]
    refine ⟨fun hc => ?_, fun hc => ?_, by decide, fun hc => ?_⟩
    · exact absurd (hindent '*' hc) (by decide)
    · exact absurd (hdigits '*' hc) (by rw [hdigit]; decide)
    · exact absurd (hspace '*' hc) (by decide)

theorem alone_convertBlocks (u : UnicodeLib) (hm : m ≠ '#') (hs : OneKind m s) (hgt : Never '&' 'g' s)
    (halone : Never '*' '*' s) : Never '*' '*' (convertBlocks u s) := by
  rw [convertBlocks_eq u hm hs hgt]
  refine alone_rewrites (rewrites_replaceAll _ _ _) ?_ (alone_rewrites (rewrites_replaceAll _ _ _) (fun _ _ => by decide)
    (never_hr (by decide) halone))
  rintro w ⟨before, hw⟩
  obtain ⟨hdot, hno⟩ := mem_ways_reNumberedList hw
  exact ⟨List.ne_nil_of_mem hdot, fun hmem => hno ((List.dropWhile_suffix _).subset hmem)⟩

/-! ### The phases that put in elements -/

theorem tagName_not_mark {tag : String} (htag : tag.toList ∈ tagNames) : OnlyMark m tag.toList := by
  have hall : (tagNames.all fun name => name.all fun c => c ∉ elementMarks) = true := by decide
  exact fun c hc hmark => absurd hmark (of_decide_eq_true (List.all_eq_true.mp (List.all_eq_true.mp hall _ htag) c hc))

theorem acceptable_element {tag : String} (htag : tag.toList ∈ tagNames) {body : Str} (hbody : '<' ∉ body) :
    Acceptable u (element tag body) := by
  have hname := isName_of_mem (u := u) htag
  have htext : element tag body = tagText [] tag.toList [] (body ++ tagText ['/'] tag.toList [] []) := by
    simp [element, tagText]
  rw [htext]
  refine acceptable_iff.mpr ⟨[([], tag.toList), (['/'], tag.toList)], .tag ⟨.inl rfl, hname, .inl rfl⟩
    ((Reads.of_plain hbody).append (.tag ⟨.inr rfl, hname, .inl rfl⟩ .nil)), ?_⟩
  simp [nestTag]

theorem onlyMark_element {tag : String} (htag : tag.toList ∈ tagNames) {body : Str} (hbody : OnlyMark m body) :
    OnlyMark m (element tag body) := by
  have hbracket : ∀ c ∈ "</>".toList, c ∉ elementMarks := forall_mem_of_all (by decide)
  have hpart : ∀ {x : Str}, x ⊆ "</>".toList → OnlyMark m x := fun hx c hc hmark => absurd hmark (hbracket c (hx hc))
  have hname := tagName_not_mark (m := m) htag
  unfold element
  exact (((((hpart (by decide)).append hname).append (hpart (by decide))).append hbody).append (hpart (by decide))).append hname
    |>.append (hpart (by decide))

/-- **A phase that puts acceptable texts into a text without angle brackets makes an acceptable one.** -/
theorem acceptable_rewrites {P : Way Char → Prop} {f : Way Char → Str} (h : Rewrites P f s t)
    (hf : ∀ w, P w → OneKind m w.text → Acceptable u (f w) ∧ OnlyMark m (f w)) :
    OneKind m s → Acceptable u t ∧ OnlyMark m t := by
  induction h with
  | nil => exact fun hs => ⟨acceptable_of_plain hs.lt, hs.marks⟩
  | @keep c s t _ ih =>
    intro hs
    have hc : OneKind m [c] := hs.part ⟨[], s, rfl⟩
    obtain ⟨hok, hmarks⟩ := ih (hs.part (List.suffix_cons c s).isInfix)
    exact ⟨(acceptable_append_iff (acceptable_of_plain hc.lt)).mpr hok, hc.marks.append hmarks⟩
  | hit w hw _ _ ih =>
    intro hs
    obtain ⟨hok, hmarks⟩ := ih (hs.part (List.suffix_append _ _).isInfix)
    obtain ⟨hput, hputMarks⟩ := hf w hw (hs.part (List.prefix_append _ _).isInfix)
    exact ⟨(acceptable_append_iff hput).mpr hok, hputMarks.append hmarks⟩

theorem acceptable_marked {mark tag : String} {p : Char → Bool} {lazy : Bool} (htag : tag.toList ∈ tagNames) (hs : OneKind m s) :
    Acceptable u ((marked mark p lazy).replaceAll (fun caps => element tag (caps.get 1)) s) ∧
      OnlyMark m ((marked mark p lazy).replaceAll (fun caps => element tag (caps.get 1)) s) := by
  refine acceptable_rewrites (rewrites_replaceAll _ _ s) ?_ hs
  rintro w ⟨before, hw⟩ hkind
  obtain ⟨body, htext, hget⟩ := mem_ways_marked hw
  have hbody : OneKind m body := hkind.part ⟨mark.toList, mark.toList, by rw [htext, List.append_assoc]⟩
  rw [hget]
  exact ⟨acceptable_element htag hbody.lt, onlyMark_element htag hbody.marks⟩

theorem acceptable_underscore (hs : OneKind m s) :
    Acceptable u (reItalicUnderscore.replaceAll (fun caps => caps.get 1 ++ element "i" (caps.get 2) ++ caps.get 3) s) ∧
      OnlyMark m (reItalicUnderscore.replaceAll (fun caps => caps.get 1 ++ element "i" (caps.get 2) ++ caps.get 3) s) := by
  refine acceptable_rewrites (rewrites_replaceAll _ _ s) ?_ hs
  rintro w ⟨before, hw⟩ hkind
  obtain ⟨pre, body, suf, htext, hpre, hbody, hsuf, -, -⟩ := mem_ways_reItalicUnderscore hw
  have hpart : ∀ front x back, w.text = front ++ (x ++ back) → OneKind m x := fun front x back heq =>
    hkind.part ⟨front, back, by rw [heq, List.append_assoc]⟩
  have hpreKind := hpart [] pre _ (by rw [htext, List.nil_append])
  have hbodyKind := hpart (pre ++ "_".toList) body _ (by rw [htext, List.append_assoc])
  have hsufKind := hpart (pre ++ "_".toList ++ body ++ "_".toList) suf [] (by rw [htext, List.append_nil]; simp only [List.append_assoc])
  rw [hpre, hbody, hsuf, List.append_assoc]
  constructor
  · rw [acceptable_append_iff (acceptable_of_plain hpreKind.lt), acceptable_append_iff (acceptable_element (by decide) hbodyKind.lt)]
    exact acceptable_of_plain hsufKind.lt
  · exact hpreKind.marks.append ((onlyMark_element (by decide) hbodyKind.marks).append hsufKind.marks)

theorem acceptable_link (hs : OneKind m s) :
    Acceptable u (reLink.replaceAll
        (fun caps => "<a href=\"".toList ++ caps.get 2 ++ "\">".toList ++ caps.get 1 ++ "</a>".toList) s) ∧
      OnlyMark m (reLink.replaceAll
        (fun caps => "<a href=\"".toList ++ caps.get 2 ++ "\">".toList ++ caps.get 1 ++ "</a>".toList) s) := by
  refine acceptable_rewrites (rewrites_replaceAll _ _ s) ?_ hs
  rintro w ⟨before, hw⟩ hkind
  obtain ⟨label, target, htext, hlabel, htarget⟩ := mem_ways_reLink hw
  have hlabelKind : OneKind m label := hkind.part ⟨"[".toList, "](".toList ++ (target ++ ")".toList), by rw [htext, List.append_assoc]⟩
  have htargetKind : OneKind m target :=
    hkind.part ⟨"[".toList ++ label ++ "](".toList, ")".toList, by rw [htext]; simp only [List.append_assoc]⟩
  have hspace : IsSpace (' ' :: ("href=\"".toList ++ (target ++ "\"".toList))) := by
    refine .inr ⟨' ', _, rfl, by decide, fun d hd => ?_⟩
    rintro rfl
    rcases List.mem_append.mp hd with hd | hd
    · exact absurd hd (by decide)
    · exact (List.mem_append.mp hd).elim htargetKind.gt (by decide)
  have hname : IsName u "a".toList := isName_of_mem (by decide)
  have htag : "<a href=\"".toList ++ target ++ "\">".toList ++ label ++ "</a>".toList =
      tagText [] "a".toList (' ' :: ("href=\"".toList ++ (target ++ "\"".toList))) (label ++ tagText ['/'] "a".toList [] []) := by
    simp [tagText]
  have hattribute : ∀ c ∈ "<a href=\">/".toList, c ∉ elementMarks := forall_mem_of_all (by decide)
  have hpart : ∀ {x : Str}, x ⊆ "<a href=\">/".toList → OnlyMark m x := fun hx c hc hmark => absurd hmark (hattribute c (hx hc))
  rw [hlabel, htarget]
  constructor
  · rw [htag]
    refine acceptable_iff.mpr ⟨[([], "a".toList), (['/'], "a".toList)], .tag ⟨.inl rfl, hname, hspace⟩
      ((Reads.of_plain hlabelKind.lt).append (.tag ⟨.inr rfl, hname, .inl rfl⟩ .nil)), ?_⟩
    simp [nestTag]
  · exact ((((hpart (by decide)).append htargetKind.marks).append (hpart (by decide))).append hlabelKind.marks).append (hpart (by decide))

theorem marked_of_not_mem {mark : String} {p : Char → Bool} {lazy : Bool} {d : Char} (f : Way Char → Str) (hmark : d ∈ mark.toList)
    (hd : d ∉ s) : (marked mark p lazy).replaceAll f s = s := by
  refine replaceAll_of_not_mem (fun before t w hw => ?_) hd
  obtain ⟨body, htext, -⟩ := mem_ways_marked hw
  rw [htext]
  exact List.mem_append_left _ hmark

theorem underscore_of_not_mem (f : Way Char → Str) (hd : '_' ∉ s) : reItalicUnderscore.replaceAll f s = s := by
  refine replaceAll_of_not_mem (fun before t w hw => ?_) hd
  obtain ⟨pre, body, suf, htext, -⟩ := mem_ways_reItalicUnderscore hw
  rw [htext]
  exact List.mem_append_right pre List.mem_cons_self

theorem link_of_not_mem (f : Way Char → Str) (hd : '[' ∉ s) : reLink.replaceAll f s = s := by
  refine replaceAll_of_not_mem (fun before t w hw => ?_) hd
  obtain ⟨label, target, htext, -⟩ := mem_ways_reLink hw
  rw [htext]
  exact List.mem_cons_self

/-- The pattern of a mark that is doubled finds none in a text where it stands alone. -/
theorem marked_of_alone (mark : String) {p : Char → Bool} {lazy : Bool} (f : Way Char → Str) (hmark : ['*', '*'] <:+: mark.toList)
    (halone : Never '*' '*' s) : (marked mark p lazy).replaceAll f s = s := by
  refine (rewrites_replaceAll _ _ _).eq_self_of_absent ?_ (never_iff.mp halone)
  rintro w ⟨before, hw⟩
  obtain ⟨body, htext, -⟩ := mem_ways_marked hw
  rw [htext]
  exact hmark.trans (List.prefix_append _ _).isInfix

theorem convertInline_of_alone (halone : Never '*' '*' s) : convertInline s =
    reStrikethrough.replaceAll (fun caps => element "s" (caps.get 1)) (reItalicUnderscore.replaceAll
      (fun caps => caps.get 1 ++ element "i" (caps.get 2) ++ caps.get 3)
        (reItalic.replaceAll (fun caps => element "i" (caps.get 1)) s)) := by
  unfold convertInline reBoldItalic reBold
  dsimp only
  rw [marked_of_alone "***" _ (by decide) halone, marked_of_alone "**" _ (by decide) halone]

/-- A text in which the phases of the given marks are still to find something. -/
structure MarksLeft (u : UnicodeLib) (m : Char) (todo : List Char) (s : Str) : Prop where
  acceptable : Acceptable u s
  marks : OnlyMark m s
  plain : m ∈ todo → OneKind m s

/-- A phase finds its own mark only, and no other phase has been at work before it if there is one to be found. -/
theorem MarksLeft.phase {d : Char} {todo : List Char} {f : Str → Str} (h : MarksLeft u m (d :: todo) s) (hd : d ∈ elementMarks)
    (honce : d ∉ todo) (hkeep : d ∉ s → f s = s) (hput : OneKind d s → Acceptable u (f s) ∧ OnlyMark d (f s)) :
    MarksLeft u m todo (f s) := by
  by_cases hm : m = d
  · subst hm
    obtain ⟨hok, hmarks⟩ := hput (h.plain List.mem_cons_self)
    exact ⟨hok, hmarks, fun hmem => absurd hmem honce⟩
  · rw [hkeep (h.marks.not_mem hd (Ne.symm hm))]
    exact ⟨h.acceptable, h.marks, fun hmem => h.plain (List.mem_cons_of_mem d hmem)⟩

/-- **Marks of one kind make elements that do not cross.** -/
theorem acceptable_inline (hs : OneKind m s) (halone : Never '*' '*' s) : Acceptable u (convertLinks (convertInline s)) := by
  have hstart : MarksLeft u m "*_~[|".toList s := ⟨acceptable_of_plain hs.lt, hs.marks, fun _ => hs⟩
  have hitalic := hstart.phase (f := reItalic.replaceAll fun caps => element "i" (caps.get 1)) (by decide) (by decide)
    (marked_of_not_mem _ (by decide)) (acceptable_marked (by decide))
  have hunderscore := hitalic.phase (f := reItalicUnderscore.replaceAll fun caps =>
    caps.get 1 ++ element "i" (caps.get 2) ++ caps.get 3) (by decide) (by decide) (underscore_of_not_mem _) acceptable_underscore
  have hstrike := hunderscore.phase (f := reStrikethrough.replaceAll fun caps => element "s" (caps.get 1)) (by decide) (by decide)
    (marked_of_not_mem _ (by decide)) (acceptable_marked (by decide))
  have hlink := hstrike.phase (f := reLink.replaceAll fun caps =>
    "<a href=\"".toList ++ caps.get 2 ++ "\">".toList ++ caps.get 1 ++ "</a>".toList) (by decide) (by decide)
    (link_of_not_mem _) acceptable_link
  have hspoiler := hlink.phase (f := reSpoiler.replaceAll fun caps => element "tg-spoiler" (caps.get 1)) (by decide) (by decide)
    (marked_of_not_mem _ (by decide)) (acceptable_marked (by decide))
  rw [convertInline_of_alone halone, convertLinks]
  exact hspoiler.acceptable

/-- Marks of one kind, and a message long enough for what they bring in. -/
theorem telegramChunks_of_oneKind (u : UnicodeLib) (hm : m ≠ '#') (hplain : ∀ c ∈ content, c ∉ ">\x60".toList)
    (hmarks : OnlyMark m content) (halone : Never '*' '*' content)
    (hroom : utf16Len content + 11 * content.countP (· ∈ elementMarks) + 4 * content.count '&' + 3 * content.count '<' ≤
      telegramMaxMessageLen) : AllAcceptable u (telegramChunks u content) := by
  have hgt : '>' ∉ content := fun h => hplain _ h (by decide)
  have hescaped := noGt_escapeHtml hgt
  have hkind := oneKind_escapeHtml hmarks
  have hok : Acceptable u (telegramMarkup u content) := by
    rw [telegramMarkup_of_no_code u fun h => hplain _ h (by decide), restoreUnderline_of_never hescaped]
    exact acceptable_inline (oneKind_convertBlocks u hm hkind hescaped)
      (alone_convertBlocks u hm hkind hescaped (alone_escapeHtml halone))
  have hlen : utf16Len (telegramMarkup u content) ≤ telegramMaxMessageLen := calc
    _ ≤ weight (markupRoom 0) (telegramMarkup u content) := utf16Len_le_room 0 _
    _ ≤ weight (markupRoom 0) (escapeHtml content) := weight_telegramMarkup (pays_markupRoom 0) u hplain
    _ = _ := weight_escapeHtml hgt
    _ ≤ telegramMaxMessageLen := hroom
  have hrender : renderTelegramHtml u content = telegramMarkup u content := by simp [renderTelegramHtml, hok.1]
  rw [telegramChunks, hrender, chunkMessage, if_pos hlen]
  exact (allAcceptable_single _).mpr hok

end OneKind

/-! ## Contents without marks -/

/-- Counts what opens a tag, and the marks that can bring one in. -/
def tagOpens (c : Char) : ℕ := if c = '<' then 1 else if c ∈ elementMarks then 2 else 0

theorem pays_tagOpens : Pays tagOpens where
  header := by decide
  bullet c d _ := Nat.zero_le _
  boldItalic := by decide
  bold := by decide
  italic := by decide
  underscore := by decide
  strikethrough := by decide
  link := by decide
  spoiler := by decide

theorem opens_escapeHtml (h : ∀ c ∈ content, c ∉ elementMarks) : weight tagOpens (escapeHtml content) = 0 := by
  refine weight_eq_zero fun c hc => ?_
  have hlt : c ≠ '<' := by
    rintro rfl
    exact lt_not_mem_escapeHtml content hc
  have hmark : c ∉ elementMarks := by
    rw [escapeHtml_eq] at hc
    obtain ⟨d, hd, hcd⟩ := List.mem_flatMap.mp hc
    have hentity : ∀ e ∈ "&amp;&lt;&gt;".toList, e ∉ elementMarks := forall_mem_of_all (by decide)
    unfold escapeChar escapeAngles at hcd
    split at hcd
    · exact hentity c (List.mem_append_left _ hcd)
    · split at hcd
      · exact hentity c (List.mem_append_right "&amp;".toList (List.mem_append_left _ hcd))
      · split at hcd
        · exact hentity c (List.mem_append_right "&amp;&lt;".toList hcd)
        · rw [List.mem_singleton.mp hcd]
          exact h d hd
  simp [tagOpens, hlt, hmark]

/-- **A content without marks, code and closing angle brackets brings in no tag.** -/
theorem lt_not_mem_telegramMarkup (u : UnicodeLib) (h : ∀ c ∈ content, c ∉ '>' :: '\x60' :: elementMarks) :
    '<' ∉ telegramMarkup u content := by
  have hmarks : ∀ c ∈ content, c ∉ elementMarks :=
    fun c hc hm => h c hc (List.mem_cons_of_mem '>' (List.mem_cons_of_mem '\x60' hm))
  have hplain : ∀ c ∈ content, c ∉ ">\x60".toList := fun c hc hmem => h c hc (List.mem_append_left elementMarks hmem)
  intro hmem
  have hall := weight_telegramMarkup pays_tagOpens u hplain
  rw [opens_escapeHtml hmarks] at hall
  exact absurd ((le_weight (μ := tagOpens) hmem).trans hall) (by decide)

theorem cutsFrom_isPrefix {maxLen : ℕ} : ∀ (rounds : ℕ) (sent remaining : Str),
    ∀ front ∈ cutsFrom maxLen rounds sent remaining, front <+: sent ++ remaining := by
  intro rounds
  induction rounds with
  | zero => intro sent remaining front hfront; cases hfront
  | succ rounds ih =>
    intro sent remaining front hfront
    have hsplit := cut_split maxLen remaining
    rw [cutsFrom] at hfront
    split at hfront
    · cases hfront
    · rcases List.mem_cons.mp hfront with rfl | hfront
      · exact (List.prefix_append_right_inj sent).mpr (cutPiece_isPrefix maxLen remaining)
      · have hrest := ih _ _ front hfront
        rw [List.append_assoc, List.append_assoc, ← hsplit] at hrest
        exact hrest

theorem telegramChunks_of_no_marks (u : UnicodeLib) (h : ∀ c ∈ content, c ∉ '>' :: '\x60' :: elementMarks) :
    AllAcceptable u (telegramChunks u content) := by
  have hlt := lt_not_mem_telegramMarkup u h
  have hok : Acceptable u (telegramMarkup u content) := acceptable_of_plain hlt
  have hrender : renderTelegramHtml u content = telegramMarkup u content := by simp [renderTelegramHtml, hok.1]
  rw [telegramChunks, hrender, chunkMessage_acceptable_iff (by decide)]
  refine ⟨hok, fun front hfront => acceptable_of_plain fun hmem => hlt ?_⟩
  exact (cutsFrom_isPrefix _ [] _ front hfront).subset hmem

end Contents

end Zeptoclaw

import Zeptoclaw.Lib.History
import Zeptoclaw.Lib.Outline
import Zeptoclaw.Spec.Sanitizer

/-!
# Injection reports

`check_injection` searches each pattern in the text that the earlier patterns have marked, `has_injection` in the text
itself. The two agree on whether there is an injection, and marking only inserts; but a mark inside a match hides it from
the later patterns. The report names the patterns that match exactly if each of them has an occurrence that no occurrence
of an earlier pattern cuts (`checkInjection_faithful_iff`).
-/

namespace Zeptoclaw.Sanitizer

open Regex Text

/-! ## Matches of the patterns -/

section Matches

variable {w t : Str} {left right : List Char}

theorem matches_caseless : ∀ {t w : Str}, (caseless t).Matches w ↔ w.map foldCase = t.map foldCase := by
  intro t
  induction t with
  | nil =>
    intro w
    cases w with
    | nil => simp [caseless, Regex.Matches, rems]
    | cons c w => simp [caseless, Regex.Matches, rems]
  | cons c t ih =>
    intro w
    rw [caseless, matches_seq]
    constructor
    · rintro ⟨u, v, rfl, hu, hv⟩
      obtain ⟨d, hd, rfl⟩ := matches_cls.mp hu
      rw [List.map_append, ih.mp hv, List.map_singleton, of_decide_eq_true hd]
      rfl
    · intro h
      cases w with
      | nil => cases h
      | cons d w =>
        obtain ⟨hd, hw⟩ := List.cons.inj h
        exact ⟨[d], w, rfl, matches_cls.mpr ⟨d, decide_eq_true hd, rfl⟩, ih.mpr hw⟩

theorem foldCase_whitespace {c : Char} (h : isWhitespace c = true) : foldCase c = c := by
  unfold foldCase
  have hs : c ≠ 'ſ' := by
    rintro rfl
    revert h
    decide
  have hk : c ≠ '\u212A' := by
    rintro rfl
    revert h
    decide
  have hupper : ¬ (c.val ≥ 'A'.val ∧ c.val ≤ 'Z'.val) := by
    rintro ⟨hlo, hhi⟩
    have hlo' : 65 ≤ c.toNat := hlo
    have hhi' : c.toNat ≤ 90 := hhi
    simp only [isWhitespace, Bool.or_eq_true, Bool.and_eq_true, decide_eq_true_eq, beq_iff_eq] at h
    omega
  rw [if_neg hs, if_neg hk]
  exact dif_neg hupper

/-- A repetition of white space is folded to itself. -/
theorem matches_rep_whitespace {min : ℕ} (h : (Regex.rep isWhitespace min none).Matches w) :
    w.map foldCase = w ∧ ∀ c ∈ w, isWhitespace c = true := by
  have hall := (repRems_whole h).2
  exact ⟨(List.map_congr_left fun c hc => foldCase_whitespace (hall c hc)).trans (List.map_id w), hall⟩

def roleNames : List Str := ["system".toList, "assistant".toList, "user".toList]

theorem matches_roleName (h : roleName.Matches w) : w.map foldCase ∈ roleNames := by
  rcases matches_alt.mp h with h | h
  · rw [matches_caseless.mp h]
    decide
  rcases matches_alt.mp h with h | h
  · rw [matches_caseless.mp h]
    decide
  · rw [matches_caseless.mp h]
    decide

def overrideWords : List Str := ["you".toList, "ignore".toList, "disregard".toList, "forget".toList]

theorem matches_overrideWord (h : overrideWord.Matches w) : w.map foldCase ∈ overrideWords := by
  rcases matches_alt.mp h with h | h
  · rw [matches_caseless.mp h]
    decide
  rcases matches_alt.mp h with h | h
  · rw [matches_caseless.mp h]
    decide
  rcases matches_alt.mp h with h | h
  · rw [matches_caseless.mp h]
    decide
  · rw [matches_caseless.mp h]
    decide

theorem matches_bracketed (h : (bracketed left right).Matches w) (hfold : ∀ c ∈ left ++ right, foldCase c = c) :
    ∃ c ∈ left, ∃ d ∈ right, ∃ inner, w.map foldCase = c :: (inner ++ [d]) ∧
      ∀ e ∈ inner, isWhitespace e = true ∨ e ∈ roleNames.flatten := by
  obtain ⟨_, _, rfl, hc, h⟩ := matches_seq.mp h
  obtain ⟨u, _, rfl, hu, h⟩ := matches_seq.mp h
  obtain ⟨name, _, rfl, hname, h⟩ := matches_seq.mp h
  obtain ⟨v, _, rfl, hv, hd⟩ := matches_seq.mp h
  obtain ⟨c, hleft, rfl⟩ := matches_cls.mp hc
  obtain ⟨d, hright, rfl⟩ := matches_cls.mp hd
  obtain ⟨hu, hspace⟩ := matches_rep_whitespace hu
  obtain ⟨hv, hspace'⟩ := matches_rep_whitespace hv
  have hc : c ∈ left := of_decide_eq_true hleft
  have hd : d ∈ right := of_decide_eq_true hright
  refine ⟨c, hc, d, hd, u ++ name.map foldCase ++ v, ?_, ?_⟩
  · simp [hu, hv, hfold c (by simp [hc]), hfold d (by simp [hd])]
  · intro e he
    simp only [List.mem_append] at he
    rcases he with (he | he) | he
    · exact .inl (hspace e he)
    · exact .inr (List.mem_flatten.mpr ⟨_, matches_roleName hname, he⟩)
    · exact .inl (hspace' e he)

theorem matches_beginPrompt (h : beginPrompt.Matches w) :
    ∃ u, (∀ c ∈ u, isWhitespace c = true) ∧ w.map foldCase = "begin".toList ++ u ++ "prompt".toList := by
  obtain ⟨x, _, rfl, hx, h⟩ := matches_seq.mp h
  obtain ⟨u, y, rfl, hu, hy⟩ := matches_seq.mp h
  obtain ⟨hu, hspace⟩ := matches_rep_whitespace hu
  refine ⟨u, hspace, ?_⟩
  rw [List.map_append, List.map_append, matches_caseless.mp hx, hu, matches_caseless.mp hy, List.append_assoc]
  rfl

theorem matches_fromNowOn (h : fromNowOn.Matches w) :
    ∃ inner, ∃ word ∈ overrideWords, w.map foldCase = "from".toList ++ inner ++ word ∧
      ∀ c ∈ inner, isWhitespace c = true ∨ c ∈ "now,".toList := by
  obtain ⟨x, _, rfl, hx, h⟩ := matches_seq.mp h
  obtain ⟨u, _, rfl, hu, h⟩ := matches_seq.mp h
  obtain ⟨y, _, rfl, hy, h⟩ := matches_seq.mp h
  obtain ⟨u', _, rfl, hu', h⟩ := matches_seq.mp h
  obtain ⟨z, _, rfl, hz, h⟩ := matches_seq.mp h
  obtain ⟨v, _, rfl, hv, h⟩ := matches_seq.mp h
  obtain ⟨comma, _, rfl, hcomma, h⟩ := matches_seq.mp h
  obtain ⟨v', word, rfl, hv', hword⟩ := matches_seq.mp h
  obtain ⟨hu, hblank⟩ := matches_rep_whitespace hu
  obtain ⟨hu', hblank'⟩ := matches_rep_whitespace hu'
  obtain ⟨hv, hspace⟩ := matches_rep_whitespace hv
  obtain ⟨hv', hspace'⟩ := matches_rep_whitespace hv'
  have hcomma : comma.map foldCase ⊆ "now,".toList := by
    rcases matches_alt.mp hcomma with h | h
    · rw [matches_caseless.mp h]
      decide
    · obtain rfl : comma = [] := (List.mem_singleton.mp h).symm
      exact List.nil_subset _
  refine ⟨u ++ "now".toList ++ u' ++ "on".toList ++ v ++ comma.map foldCase ++ v', word.map foldCase,
    matches_overrideWord hword, ?_, ?_⟩
  · have hfrom := matches_caseless.mp hx
    have hnow := matches_caseless.mp hy
    have hon := matches_caseless.mp hz
    simp only [List.map_append, hfrom, hnow, hon, hu, hu', hv, hv', List.append_assoc]
    rfl
  · have hnow : "now".toList ⊆ "now,".toList := by decide
    have hon : "on".toList ⊆ "now,".toList := by decide
    intro c hc
    simp only [List.mem_append] at hc
    rcases hc with (((((hc | hc) | hc) | hc) | hc) | hc) | hc
    · exact .inl (hblank c hc)
    · exact .inr (hnow hc)
    · exact .inl (hblank' c hc)
    · exact .inr (hon hc)
    · exact .inl (hspace c hc)
    · exact .inr (hcomma hc)
    · exact .inl (hspace' c hc)

end Matches

/-! ## Outlines -/

def bracketOutline (left right : List Char) : Outline Char :=
  ⟨none, left.map ([·]), right.map ([·]), right ++ roleNames.flatten, left ++ roleNames.flatten⟩

def beginOutline : Outline Char := ⟨none, ["begin".toList], ["prompt".toList], "eginprompt".toList, "beginpromp".toList⟩

def fromOutline : Outline Char :=
  ⟨none, ["from".toList], overrideWords, "romnow,".toList ++ overrideWords.flatten,
    "fromnow,".toList ++ (overrideWords.map List.dropLast).flatten⟩

section Fits

variable {left right : List Char}

theorem fits_caseless (t : Str) : (Outline.ofText (t.map foldCase)).Fits foldCase isWhitespace (caseless t) :=
  Outline.fits_ofText fun _ hw => matches_caseless.mp hw

theorem fits_bracketed (hfold : ∀ c ∈ left ++ right, foldCase c = c) :
    (bracketOutline left right).Fits foldCase isWhitespace (bracketed left right) where
  fixed l hl := nomatch hl
  front w hw := by
    obtain ⟨c, hc, d, -, inner, heq, -⟩ := matches_bracketed hw hfold
    exact ⟨[c], List.mem_map_of_mem hc, by simp [heq]⟩
  back w hw := by
    obtain ⟨c, -, d, hd, inner, heq, -⟩ := matches_bracketed hw hfold
    exact ⟨[d], List.mem_map_of_mem hd, by rw [heq, ← List.cons_append]; exact List.suffix_append _ _⟩
  tail w hw e he := by
    obtain ⟨c, -, d, hd, inner, heq, hinner⟩ := matches_bracketed hw hfold
    rw [heq, List.tail_cons] at he
    rcases List.mem_append.mp he with he | he
    · exact (hinner e he).imp id fun h => List.mem_append_right right h
    · exact .inr (List.mem_append_left _ (List.mem_singleton.mp he ▸ hd))
  init w hw e he := by
    obtain ⟨c, hc, d, -, inner, heq, hinner⟩ := matches_bracketed hw hfold
    rw [heq, ← List.cons_append, List.dropLast_concat] at he
    rcases List.mem_cons.mp he with rfl | he
    · exact .inr (List.mem_append_left _ hc)
    · exact (hinner e he).imp id fun h => List.mem_append_right left h

theorem fits_beginPrompt : beginOutline.Fits foldCase isWhitespace beginPrompt where
  fixed l hl := nomatch hl
  front w hw := by
    obtain ⟨u, -, heq⟩ := matches_beginPrompt hw
    exact ⟨_, List.mem_singleton_self _, by rw [heq, List.append_assoc]; exact List.prefix_append _ _⟩
  back w hw := by
    obtain ⟨u, -, heq⟩ := matches_beginPrompt hw
    exact ⟨_, List.mem_singleton_self _, by rw [heq]; exact List.suffix_append _ _⟩
  tail w hw c hc := by
    obtain ⟨u, hspace, heq⟩ := matches_beginPrompt hw
    have hfront : "egin".toList ⊆ beginOutline.tail := by decide
    have hback : "prompt".toList ⊆ beginOutline.tail := by decide
    have htail : (w.map foldCase).tail = "egin".toList ++ u ++ "prompt".toList := by rw [heq]; rfl
    rw [htail, List.mem_append, List.mem_append] at hc
    rcases hc with (hc | hc) | hc
    · exact .inr (hfront hc)
    · exact .inl (hspace c hc)
    · exact .inr (hback hc)
  init w hw c hc := by
    obtain ⟨u, hspace, heq⟩ := matches_beginPrompt hw
    have hfront : "begin".toList ⊆ beginOutline.init := by decide
    have hback : "promp".toList ⊆ beginOutline.init := by decide
    have hinit : (w.map foldCase).dropLast = "begin".toList ++ u ++ "promp".toList := by
      rw [heq, List.dropLast_append_of_ne_nil (by decide)]
      rfl
    rw [hinit, List.mem_append, List.mem_append] at hc
    rcases hc with (hc | hc) | hc
    · exact .inr (hfront hc)
    · exact .inl (hspace c hc)
    · exact .inr (hback hc)

theorem fits_fromNowOn : fromOutline.Fits foldCase isWhitespace fromNowOn where
  fixed l hl := nomatch hl
  front w hw := by
    obtain ⟨inner, word, -, heq, -⟩ := matches_fromNowOn hw
    exact ⟨_, List.mem_singleton_self _, by rw [heq, List.append_assoc]; exact List.prefix_append _ _⟩
  back w hw := by
    obtain ⟨inner, word, hword, heq, -⟩ := matches_fromNowOn hw
    exact ⟨word, hword, by rw [heq]; exact List.suffix_append _ _⟩
  tail w hw c hc := by
    obtain ⟨inner, word, hword, heq, hinner⟩ := matches_fromNowOn hw
    have hfront : "rom".toList ⊆ fromOutline.tail := by decide
    have hmiddle : "now,".toList ⊆ fromOutline.tail := by decide
    have htail : (w.map foldCase).tail = "rom".toList ++ inner ++ word := by rw [heq]; rfl
    rw [htail, List.mem_append, List.mem_append] at hc
    rcases hc with (hc | hc) | hc
    · exact .inr (hfront hc)
    · exact (hinner c hc).imp id fun h => hmiddle h
    · exact .inr (List.mem_append_right _ (List.mem_flatten.mpr ⟨word, hword, hc⟩))
  init w hw c hc := by
    obtain ⟨inner, word, hword, heq, hinner⟩ := matches_fromNowOn hw
    have hfront : "from".toList ⊆ fromOutline.init := by decide
    have hmiddle : "now,".toList ⊆ fromOutline.init := by decide
    have hne : ∀ word ∈ overrideWords, word ≠ [] := by decide
    rw [heq, List.dropLast_append_of_ne_nil (hne word hword), List.mem_append, List.mem_append] at hc
    rcases hc with (hc | hc) | hc
    · exact .inr (hfront hc)
    · exact (hinner c hc).imp id fun h => hmiddle h
    · exact .inr (List.mem_append_right _ (List.mem_flatten.mpr ⟨_, List.mem_map_of_mem hword, hc⟩))

end Fits

def phraseTexts : List Str :=
  ["ignore previous".toList, "ignore all previous".toList, "disregard".toList, "forget everything".toList,
    "new instructions".toList, "updated instructions".toList, "you are now".toList, "act as".toList,
    "pretend to be".toList, "system:".toList, "assistant:".toList, "user:".toList, "<|".toList, "|>".toList,
    "[INST]".toList, "[/INST]".toList, "```system".toList]

/-- The patterns with their outlines. -/
def outlineTable : List (Outline Char × Regex Char) :=
  phraseTexts.map (fun t => (Outline.ofText (t.map foldCase), caseless t)) ++
    [(bracketOutline ['['] [']'], bracketed ['['] [']']),
      (bracketOutline ['<', '\x7b'] ['\x7d', '>'], bracketed ['<', '\x7b'] ['\x7d', '>']),
      (beginOutline, beginPrompt), (fromOutline, fromNowOn)]

theorem outlineTable_fits : ∀ e ∈ outlineTable, e.1.Fits foldCase isWhitespace e.2 := by
  intro e he
  rcases List.mem_append.mp he with he | he
  · obtain ⟨t, -, rfl⟩ := List.mem_map.mp he
    exact fits_caseless t
  · simp only [List.mem_cons, List.not_mem_nil, or_false] at he
    rcases he with rfl | rfl | rfl | rfl
    · exact fits_bracketed (List.forall_iff_forall_mem.mp (by decide))
    · exact fits_bracketed (List.forall_iff_forall_mem.mp (by decide))
    · exact fits_beginPrompt
    · exact fits_fromNowOn

theorem outlineTable_clear : ∀ o ∈ outlineTable.map Prod.fst,
    o.Clear foldCase isWhitespace detectedMarker ∧ o.Paired foldCase detectedMarker := by
  decide +kernel

theorem outlineTable_order : OrderClear isWhitespace (outlineTable.map Prod.fst) := by
  decide +kernel

/-- **The patterns can be marked in turn.** -/
theorem compiledPatterns_orderly : Orderly detectedMarker (compiledPatterns.map InjectionPattern.regex) :=
  orderly_of_outlines outlineTable_fits (fun e he => outlineTable_clear e.1 (List.mem_map_of_mem he)) outlineTable_order

/-! ## The full check -/

section Check

variable {ps : List InjectionPattern} {input x label : Str} {out : SanitizedOutput} {p : InjectionPattern}

/-- The check of any patterns. -/
def checkAll (ps : List InjectionPattern) (input : Str) : SanitizedOutput := ps.foldl checkPattern ⟨input, [], false⟩

theorem checkAll_concat (ps : List InjectionPattern) (p : InjectionPattern) (input : Str) :
    checkAll (ps ++ [p]) input = checkPattern (checkAll ps input) p := by
  unfold checkAll
  rw [List.foldl_append]
  rfl

theorem checkPattern_content (out : SanitizedOutput) (p : InjectionPattern) :
    (checkPattern out p).content = p.regex.replaceAll detectedMarker.wrap out.content := by
  unfold checkPattern
  by_cases hmatch : p.regex.isMatch out.content = true
  · rw [if_pos hmatch]
  · rw [if_neg hmatch, replaceAll_eq_self _ _ (mt isMatch_iff.mpr hmatch)]

theorem mem_checkPattern_warnings : x ∈ (checkPattern out p).warnings ↔
    x ∈ out.warnings ∨ ∃ m ∈ p.regex.findIter out.content, x = warning p.label m := by
  unfold checkPattern
  by_cases hmatch : p.regex.isMatch out.content = true
  · rw [if_pos hmatch, List.mem_append, List.mem_map]
    simp only [eq_comm]
  · rw [if_neg hmatch, findIter_eq_nil (mt isMatch_iff.mpr hmatch)]
    simp

theorem checkPattern_wasModified :
    (checkPattern out p).wasModified = true ↔ out.wasModified = true ∨ p.regex.Occurs out.content := by
  unfold checkPattern
  rw [← isMatch_iff]
  by_cases hmatch : p.regex.isMatch out.content = true
  · simp [hmatch]
  · simp [hmatch]

/-- The text in which the pattern behind `ps` is searched. -/
def markedText (ps : List InjectionPattern) (input : Str) : Str := markAll detectedMarker (ps.map InjectionPattern.regex) input

theorem checkAll_content : (checkAll ps input).content = markedText ps input := by
  induction ps using List.reverseRecOn with
  | nil => rfl
  | append_singleton ps p ih =>
    rw [checkAll_concat, checkPattern_content, ih, markedText, markedText, List.map_append, markAll, markAll,
      List.foldl_append]
    rfl

theorem mem_checkAll_warnings : x ∈ (checkAll ps input).warnings ↔ ∃ pre p post, ps = pre ++ p :: post ∧
    ∃ m ∈ p.regex.findIter (markedText pre input), x = warning p.label m := by
  induction ps using List.reverseRecOn with
  | nil => simp [checkAll]
  | append_singleton ps q ih =>
    rw [checkAll_concat, mem_checkPattern_warnings, ih, checkAll_content]
    exact (exists_cut_concat
      (P := fun pre (p : InjectionPattern) => ∃ m ∈ p.regex.findIter (markedText pre input), x = warning p.label m)).symm

theorem checkAll_wasModified : (checkAll ps input).wasModified = true ↔
    ∃ pre p post, ps = pre ++ p :: post ∧ p.regex.Occurs (markedText pre input) := by
  induction ps using List.reverseRecOn with
  | nil => simp [checkAll]
  | append_singleton ps q ih =>
    rw [checkAll_concat, checkPattern_wasModified, ih, checkAll_content]
    exact (exists_cut_concat (P := fun pre (p : InjectionPattern) => p.regex.Occurs (markedText pre input))).symm

end Check

/-! ## The report -/

/-- A pattern is named in the warnings by its source. -/
def Named (label : Str) (warnings : List Str) : Prop := ∃ matchedText, warning label matchedText ∈ warnings

/-- The report names the patterns that match, agrees with the fast check, and keeps the text. -/
def Faithful (input : Str) : Prop :=
  (∀ p ∈ compiledPatterns, Named p.label (checkInjection input).warnings ↔ p.regex.Occurs input) ∧
    (checkInjection input).wasModified = hasInjection input ∧ input.Sublist (checkInjection input).content

/-- Every pattern that matches has an occurrence that no occurrence of an earlier pattern cuts. -/
def Uncut (input : Str) : Prop :=
  ∀ pre p post, compiledPatterns = pre ++ p :: post → p.regex.Occurs input →
    ∃ a b, p.regex.OccursAt input a b ∧ ∀ q ∈ pre, ∀ c d, q.regex.OccursAt input c d → ¬ Cuts c d a b

section Report

variable {input label label' m m' : Str} {pre pre' post post' : List InjectionPattern} {p p' : InjectionPattern}

/-- A label without a quote is read off the warning. -/
theorem warning_inj (h : '\'' ∉ label) (h' : '\'' ∉ label') (heq : warning label m = warning label' m') : label = label' := by
  have hsep : "' matched: '".toList = '\'' :: " matched: '".toList := by decide
  unfold warning at heq
  rw [hsep] at heq
  generalize "Injection pattern '".toList = front, " matched: '".toList = middle at heq
  simp only [List.append_assoc, List.cons_append] at heq
  have heq := List.append_cancel_left heq
  have hpre : label <+: label' := prefix_side h ⟨_, heq⟩
  have hpre' : label' <+: label := prefix_side h' ⟨_, heq.symm⟩
  exact hpre.eq_of_length (le_antisymm hpre.length_le hpre'.length_le)

theorem labels_plain : ∀ label ∈ compiledPatterns.map InjectionPattern.label, '\'' ∉ label := by decide +kernel

theorem labels_nodup : (compiledPatterns.map InjectionPattern.label).Nodup := by decide +kernel

/-- A pattern is found by its label. -/
theorem cut_unique (h : compiledPatterns = pre ++ p :: post) (h' : compiledPatterns = pre' ++ p' :: post')
    (hlabel : p'.label = p.label) : pre' = pre ∧ p' = p := by
  have hnodup := labels_nodup
  rw [h', List.map_append, List.map_cons, List.nodup_append, List.nodup_cons] at hnodup
  obtain ⟨-, ⟨hpost, -⟩, hdisjoint⟩ := hnodup
  have hpre : p'.label ∉ pre'.map InjectionPattern.label := fun hmem => hdisjoint _ hmem _ List.mem_cons_self rfl
  rw [hlabel] at hpost hpre
  have heq := h'.symm.trans h
  have hlabels := congrArg (List.map InjectionPattern.label) heq
  rw [List.map_append, List.map_append, List.map_cons, List.map_cons] at hlabels
  have hlen := congrArg List.length ((List.append_cons_inj_of_notMem hpre hpost).mp hlabels).1
  rw [List.length_map, List.length_map] at hlen
  obtain ⟨hpre, hrest⟩ := List.append_inj heq hlen
  exact ⟨hpre, (List.cons.inj hrest).1⟩

theorem occurs_markedText_iff (h : compiledPatterns = pre ++ p :: post) : p.regex.Occurs (markedText pre input) ↔
    ∃ a b, p.regex.OccursAt input a b ∧ ∀ q ∈ pre, ∀ c d, q.regex.OccursAt input c d → ¬ Cuts c d a b := by
  have hrs : compiledPatterns.map InjectionPattern.regex =
      pre.map InjectionPattern.regex ++ p.regex :: post.map InjectionPattern.regex := by
    rw [h, List.map_append, List.map_cons]
  rw [markedText, occurs_markAll_iff compiledPatterns_orderly hrs]
  simp only [List.forall_mem_map]

/-- The patterns named are those that are found in the marked text. -/
theorem named_iff (h : compiledPatterns = pre ++ p :: post) :
    Named p.label (checkInjection input).warnings ↔ p.regex.Occurs (markedText pre input) := by
  have hp : p ∈ compiledPatterns := by simp [h]
  have hproper := (compiledPatterns_orderly.clear _ (List.mem_map_of_mem hp)).proper
  have hplain := labels_plain _ (List.mem_map_of_mem hp)
  rw [← findIter_ne_nil_iff hproper]
  constructor
  · rintro ⟨m, hm⟩
    obtain ⟨pre', p', post', h', m', hm', heq⟩ := mem_checkAll_warnings.mp hm
    have hplain' := labels_plain p'.label (by simp [h'])
    obtain ⟨rfl, rfl⟩ := cut_unique h h' (warning_inj hplain hplain' heq).symm
    exact List.ne_nil_of_mem hm'
  · intro hne
    obtain ⟨m, hm⟩ := List.exists_mem_of_ne_nil _ hne
    exact ⟨m, mem_checkAll_warnings.mpr ⟨pre, p, post, h, m, hm, rfl⟩⟩

theorem wasModified_eq (input : Str) : (checkInjection input).wasModified = hasInjection input := by
  rw [Bool.eq_iff_iff]
  refine checkAll_wasModified.trans ?_
  unfold hasInjection
  constructor
  · rintro ⟨pre, p, post, h, hoccurs⟩
    obtain ⟨a, b, hplace, -⟩ := (occurs_markedText_iff h).mp hoccurs
    exact List.any_eq_true.mpr ⟨p, by simp [h], isMatch_iff.mpr (occurs_iff_occursAt.mpr ⟨a, b, hplace⟩)⟩
  · intro hany
    obtain ⟨p, hfind⟩ := Option.isSome_iff_exists.mp (List.find?_isSome.mpr (List.any_eq_true.mp hany))
    obtain ⟨hmatch, pre, post, h, hearlier⟩ := List.find?_eq_some_iff_append.mp hfind
    obtain ⟨a, b, hplace⟩ := occurs_iff_occursAt.mp (isMatch_iff.mp hmatch)
    refine ⟨pre, p, post, h, (occurs_markedText_iff h).mpr ⟨a, b, hplace, fun q hq c d hoccurs _ => ?_⟩⟩
    have hnone := hearlier q hq
    rw [isMatch_iff.mpr (occurs_iff_occursAt.mpr ⟨c, d, hoccurs⟩)] at hnone
    cases hnone

/-- **The report is faithful exactly if every pattern that matches has an occurrence that is not cut.** -/
theorem checkInjection_faithful_iff (input : Str) : Faithful input ↔ Uncut input := by
  constructor
  · rintro ⟨hnamed, -, -⟩ pre p post h hoccurs
    exact (occurs_markedText_iff h).mp ((named_iff h).mp ((hnamed p (by simp [h])).mpr hoccurs))
  · intro huncut
    refine ⟨fun p hp => ?_, wasModified_eq input, ?_⟩
    · obtain ⟨pre, post, h⟩ := List.append_of_mem hp
      rw [named_iff h, occurs_markedText_iff h]
      constructor
      · rintro ⟨a, b, hplace, -⟩
        exact occurs_iff_occursAt.mpr ⟨a, b, hplace⟩
      · exact huncut pre p post h
    · show input.Sublist (checkAll compiledPatterns input).content
      rw [checkAll_content]
      exact sublist_markAll _ _ _

/-- A pattern that the marks of another one hide. -/
theorem checkInjection_hides :
    checkInjection "from now on, disregard".toList = ⟨"from now on, [DETECTED: disregard]".toList,
      ["Injection pattern 'disregard' matched: 'disregard'".toList], true⟩ ∧
    fromNowOn.Occurs "from now on, disregard".toList ∧ ¬ Faithful "from now on, disregard".toList := by
  have hcheck : checkInjection "from now on, disregard".toList = ⟨"from now on, [DETECTED: disregard]".toList,
      ["Injection pattern 'disregard' matched: 'disregard'".toList], true⟩ := by decide +kernel
  have hoccurs : fromNowOn.Occurs "from now on, disregard".toList := isMatch_iff.mp (by decide +kernel)
  refine ⟨hcheck, hoccurs, fun hfaithful => ?_⟩
  have hmem : ⟨fromNowOn, "(?i)from\\s+now\\s+on\\s*,?\\s*(you|ignore|disregard|forget)".toList⟩ ∈ compiledPatterns := by
    simp [compiledPatterns, structuralPatterns]
  obtain ⟨m, hm⟩ := (hfaithful.1 _ hmem).mpr hoccurs
  have hother : "Injection pattern 'disregard' matched: 'disregard'".toList =
      warning "disregard".toList "disregard".toList := by decide +kernel
  rw [hcheck, List.mem_singleton, hother] at hm
  have hlabel := warning_inj (by decide +kernel) (by decide +kernel) hm
  exact absurd hlabel (by decide +kernel)

end Report

end Zeptoclaw.Sanitizer

import Zeptoclaw.Lib.Substitution
import Zeptoclaw.Proof.TelegramMarkup

/-!
# Escaped text read back

`escape_html` replaces the ampersand first, and `strip_html_tags` puts it back first: an entity
that stands in the text is escaped to `&amp;lt;`, which becomes `&lt;` and then `<`.
`strip_escape_iff`: the text comes back exactly if it has neither `&lt;` nor `&gt;` in it.
-/

namespace Zeptoclaw

open Text Pattern

/-! ## The escaped text -/

/-- The two angle brackets escaped. -/
def escapeAngles (c : Char) : Str := if c = '<' then "&lt;".toList else if c = '>' then "&gt;".toList else [c]

def escapeGt (c : Char) : Str := if c = '>' then "&gt;".toList else [c]

theorem escapeGt_plain {v : Str} (hgt : '>' ∉ v) : ∀ c ∈ v, escapeGt c = [c] :=
  fun _ hc => if_neg (ne_of_mem_of_not_mem hc hgt)

theorem escapeAngles_plain {v : Str} (hlt : '<' ∉ v) (hgt : '>' ∉ v) : ∀ c ∈ v, escapeAngles c = [c] :=
  fun c hc => (if_neg (ne_of_mem_of_not_mem hc hlt)).trans (escapeGt_plain hgt c hc)

/-- The escape of a character. -/
def escapeChar (c : Char) : Str := if c = '&' then "&amp;".toList else escapeAngles c

theorem escapeHtml_eq (s : Str) : escapeHtml s = s.flatMap escapeChar := by
  have hamp := replace_singleton '&' "&amp;".toList s
  have hlt := replace_singleton '<' "&lt;".toList
  have hgt := replace_singleton '>' "&gt;".toList
  unfold escapeHtml
  rw [show "&".toList = ['&'] from rfl, show "<".toList = ['<'] from rfl, show ">".toList = ['>'] from rfl, hamp, hlt,
    hgt, List.flatMap_assoc, List.flatMap_assoc]
  refine List.flatMap_congr fun c _ => ?_
  unfold escapeChar escapeAngles
  by_cases hc : c = '&'
  · subst hc
    decide
  by_cases hl : c = '<'
  · subst hl
    decide
  by_cases hg : c = '>'
  · subst hg
    decide
  simp [hc, hl, hg]

/-- Escaped text has no tags to strip. -/
theorem reStrip_escapeHtml (s : Str) : reStrip.replaceAll (fun _ => []) (escapeHtml s) = escapeHtml s := by
  refine (rewrites_replaceAll reStrip (fun _ => []) (escapeHtml s)).eq_self (d := '<') ?_ (lt_not_mem_escapeHtml s)
  rintro w ⟨before, hw⟩
  obtain ⟨u, hu, v, -, rfl⟩ := mem_ways_seq.mp hw
  obtain ⟨rest, -, rfl⟩ := mem_ways_lit.mp hu
  exact List.mem_append_left _ (List.mem_singleton_self '<')

/-! ## The entities put back -/

section Entities

/-- The escape leaves the character or begins an entity that is not `pat`. -/
def KeepsOrOther (esc : Char → Str) (pat : Str) (c : Char) : Prop :=
  esc c = [c] ∨ ∃ m, '&' ∉ m ∧ esc c = '&' :: m ∧ ∀ t, ¬ pat <+: '&' :: m ++ t

variable {esc esc' : Char → Str} {w : Str} {d : Char}

/-- A text without ampersands begins the escaped text only if it begins the text. -/
theorem prefix_of_flatMap (hesc : ∀ c, esc c = [c] ∨ ∃ m, esc c = '&' :: m) (hw : '&' ∉ w) :
    ∀ {s : Str}, w <+: s.flatMap esc → w <+: s := by
  induction w with
  | nil => exact fun _ => List.nil_prefix
  | cons a w ih =>
    intro s hpre
    cases s with
    | nil => exact absurd (List.prefix_nil.mp hpre) (List.cons_ne_nil a w)
    | cons c s =>
      rw [List.flatMap_cons] at hpre
      rcases hesc c with hc | ⟨m, hm⟩
      · rw [hc] at hpre
        obtain ⟨rfl, hrest⟩ := List.cons_prefix_cons.mp hpre
        exact List.cons_prefix_cons.mpr ⟨rfl, ih (fun hmem => hw (List.mem_cons_of_mem a hmem)) hrest⟩
      · rw [hm] at hpre
        obtain ⟨rfl, -⟩ := List.cons_prefix_cons.mp hpre
        exact absurd List.mem_cons_self hw

theorem not_prefix_entity {a b : Char} (hab : a ≠ b) (v m t : Str) : ¬ '&' :: a :: v <+: '&' :: (b :: m) ++ t := by
  simp [List.cons_prefix_cons, hab]

/-- An entity other than the one that is replaced stays. -/
theorem replace_other {m : Str} (hm : '&' ∉ m) {rep t : Str} (hpre : ¬ '&' :: w <+: '&' :: m ++ t) :
    replace ('&' :: m ++ t) ('&' :: w) rep = '&' :: m ++ replace t ('&' :: w) rep := by
  rw [List.cons_append] at hpre ⊢
  rw [replace_cons hpre, replace_past hm]
  rfl

/-- One entity put back in a text that has it escaped: an entity that the text itself has is
put back as well. -/
theorem unescape_entity (esc esc' : Char → Str) (w : Str) (d : Char) (hw : '&' ∉ w) (hd : esc d = '&' :: w)
    (hd' : esc' d = [d]) (hsame : ∀ c, c ≠ d → esc' c = esc c) (hother : ∀ c, c ≠ d → KeepsOrOther esc ('&' :: w) c)
    (hplain : ∀ c ∈ '&' :: w, esc c = [c]) (s : Str) :
    replace (s.flatMap esc) ('&' :: w) [d] = (replace s ('&' :: w) [d]).flatMap esc' := by
  have hesc : ∀ c, esc c = [c] ∨ ∃ m, esc c = '&' :: m := by
    intro c
    by_cases hc : c = d
    · exact .inr ⟨w, hc ▸ hd⟩
    · rcases hother c hc with hkeep | ⟨m, -, hm, -⟩
      · exact .inl hkeep
      · exact .inr ⟨m, hm⟩
  have hpat : ('&' :: w).flatMap esc = '&' :: w := by
    rw [List.flatMap_congr hplain, List.flatMap_singleton']
  induction s using occurrence_induction with
  | hpat => exact List.cons_ne_nil '&' w
  | nil => rfl
  | occurrence rest ih =>
    rw [List.flatMap_append, hpat, replace_pat (List.cons_ne_nil '&' w), ih, replace_pat (List.cons_ne_nil '&' w),
      List.flatMap_append, List.flatMap_singleton, hd']
  | other c rest hpre ih =>
    rw [replace_cons hpre, List.flatMap_cons, List.flatMap_cons, ← ih]
    by_cases hc : c = d
    · rw [hc, hd, hd', replace_pat (List.cons_ne_nil '&' w)]
    rw [hsame c hc]
    rcases hother c hc with hkeep | ⟨m, hm, hcm, hno⟩
    · -- the entity does not stand here in the escaped text if it does not in the text
      have hpre' : ¬ '&' :: w <+: c :: rest.flatMap esc := by
        intro hin
        obtain ⟨hamp, hname⟩ := List.cons_prefix_cons.mp hin
        exact hpre (List.cons_prefix_cons.mpr ⟨hamp, prefix_of_flatMap hesc hw hname⟩)
      rw [hkeep, List.singleton_append, List.singleton_append, replace_cons hpre']
    · rw [hcm, replace_other hm (hno _)]

/-- The ampersands come back: each one in the escaped text begins an entity of the escape. -/
theorem unescape_amp (s : Str) : replace (s.flatMap escapeChar) "&amp;".toList "&".toList = s.flatMap escapeAngles := by
  induction s with
  | nil => rfl
  | cons c s ih =>
    rw [List.flatMap_cons, List.flatMap_cons, ← ih]
    by_cases hc : c = '&'
    · subst hc
      exact replace_pat (by decide) "&".toList (s.flatMap escapeChar)
    rw [escapeChar, if_neg hc]
    unfold escapeAngles
    split
    · exact replace_other (by decide) (not_prefix_entity (by decide : 'a' ≠ 'l') "mp;".toList "t;".toList _)
    split
    · exact replace_other (by decide) (not_prefix_entity (by decide : 'a' ≠ 'g') "mp;".toList "t;".toList _)
    · have hother : '&' ∉ [c] := fun hmem => hc (List.mem_singleton.mp hmem).symm
      exact replace_past hother "&".toList (s.flatMap escapeChar)

theorem unescape_lt (s : Str) :
    replace (s.flatMap escapeAngles) "&lt;".toList "<".toList = (replace s "&lt;".toList "<".toList).flatMap escapeGt := by
  have hplain := escapeAngles_plain (v := "&lt;".toList) (by decide) (by decide)
  refine unescape_entity escapeAngles escapeGt "lt;".toList '<' (by decide) rfl rfl ?_ ?_ hplain s
  · intro c hc
    rw [escapeAngles, if_neg hc, escapeGt]
  · intro c hc
    unfold KeepsOrOther escapeAngles
    rw [if_neg hc]
    split
    · exact .inr ⟨"gt;".toList, by decide, rfl, not_prefix_entity (by decide : 'l' ≠ 'g') "t;".toList "t;".toList⟩
    · exact .inl rfl

theorem unescape_gt (s : Str) :
    replace (s.flatMap escapeGt) "&gt;".toList ">".toList = replace s "&gt;".toList ">".toList := by
  have hplain := escapeGt_plain (v := "&gt;".toList) (by decide)
  have hput := unescape_entity escapeGt (fun c => [c]) "gt;".toList '>' (by decide) rfl rfl
    (fun c hc => by rw [escapeGt, if_neg hc]) (fun c hc => .inl (by rw [escapeGt, if_neg hc])) hplain s
  rw [List.flatMap_singleton'] at hput
  exact hput

end Entities

/-! ## The round trip -/

/-- What the user sees of an escaped text: its own entities for angle brackets are read. -/
theorem strip_escape (s : Str) :
    stripHtmlTags (escapeHtml s) = replace (replace s "&lt;".toList "<".toList) "&gt;".toList ">".toList := by
  unfold stripHtmlTags
  dsimp only
  rw [reStrip_escapeHtml, escapeHtml_eq, unescape_amp, unescape_lt, unescape_gt]

/-- **The fallback.** Escaped text with its tags stripped is the text again, exactly if the text has neither `&lt;` nor
`&gt;`. -/
theorem strip_escape_iff (s : Str) :
    stripHtmlTags (escapeHtml s) = s ↔ ¬ "&lt;".toList <:+: s ∧ ¬ "&gt;".toList <:+: s := by
  rw [strip_escape]
  refine ⟨fun heq => ?_, fun ⟨hlt, hgt⟩ => ?_⟩
  · have hshort : ¬ "&lt;".toList <:+: s := by
      intro hin
      have hless : (replace s "&lt;".toList "<".toList).length < s.length :=
        length_replace_lt (by decide) (by decide) s hin
      have hgt : "&gt;".toList ≠ [] := by decide
      obtain ⟨k, hk⟩ := length_replace hgt ">".toList (replace s "&lt;".toList "<".toList)
      have hfour : "&gt;".toList.length = 4 := rfl
      have hone : ">".toList.length = 1 := rfl
      rw [heq, hfour, hone] at hk
      omega
    refine ⟨hshort, fun hin => ?_⟩
    rw [replace_of_absent _ hshort] at heq
    exact replace_ne (by decide) (by decide) s hin heq
  · rw [replace_of_absent _ hlt, replace_of_absent _ hgt]

theorem strip_escape_entity : stripHtmlTags (escapeHtml "&lt;".toList) = "<".toList ∧ "<".toList ≠ "&lt;".toList := by
  decide

end Zeptoclaw

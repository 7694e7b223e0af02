import Zeptoclaw.Lib.Text
import Mathlib.Tactic.Common

/-!
# Lines and numbers in a text

The lines of a text with and without their ends, as a standard string library splits them
(a line ends with a newline, before which one carriage return is dropped), and decimal
numbers of a bounded type.

`splitInclusive` cuts a text behind each newline: every piece but the last ends with one. Pieces that are put together
are those of the text again exactly if none before the last lacks its newline (`bodies_flatten_iff`); otherwise two of them
have become one.
-/

namespace Zeptoclaw

namespace Text

/-! ## Lines -/

/-- The lines with their newlines, with the line at hand; the last one may have none. -/
def splitInclusiveFrom (line : Str) : Str → List Str
  | [] => if line = [] then [] else [line]
  | c :: s => if c = '\n' then (line ++ ['\n']) :: splitInclusiveFrom [] s else splitInclusiveFrom (line ++ [c]) s

def splitInclusive (s : Str) : List Str := splitInclusiveFrom [] s

/-- One carriage return at the end removed. -/
def stripCr (line : Str) : Str := if line.getLast? = some '\r' then line.dropLast else line

/-- The end of a line removed. -/
def chomp (line : Str) : Str := if line.getLast? = some '\n' then stripCr line.dropLast else line

/-- The lines without their ends. -/
def lines (s : Str) : List Str := (splitInclusive s).map chomp

/-- Every line ended by a newline. -/
def unlines (ls : List Str) : Str := ls.flatMap (· ++ ['\n'])

theorem splitInclusiveFrom_append {part : Str} (h : '\n' ∉ part) (s : Str) : ∀ line : Str,
    splitInclusiveFrom line (part ++ s) = splitInclusiveFrom (line ++ part) s := by
  induction part with
  | nil => intro line; rw [List.append_nil]; rfl
  | cons c part ih =>
    intro line
    have hc : c ≠ '\n' := fun heq => h (heq ▸ List.mem_cons_self)
    rw [List.cons_append, splitInclusiveFrom, if_neg hc, ih fun hmem => h (List.mem_cons_of_mem _ hmem),
      List.append_assoc]
    rfl

/-- The first line of a text. -/
theorem splitInclusive_line {line : Str} (h : '\n' ∉ line) (s : Str) :
    splitInclusive (line ++ '\n' :: s) = (line ++ ['\n']) :: splitInclusive s := by
  unfold splitInclusive
  rw [splitInclusiveFrom_append h, List.nil_append, splitInclusiveFrom, if_pos rfl]

theorem splitInclusive_unlines : ∀ {ls : List Str}, (∀ l ∈ ls, '\n' ∉ l) →
    splitInclusive (unlines ls) = ls.map (· ++ ['\n']) := by
  intro ls
  induction ls with
  | nil => intro _; rfl
  | cons l ls ih =>
    intro h
    have hrest := ih fun l' hl' => h l' (List.mem_cons_of_mem _ hl')
    have hcut : unlines (l :: ls) = l ++ '\n' :: unlines ls := by simp [unlines]
    rw [hcut, splitInclusive_line (h l List.mem_cons_self), hrest, List.map_cons]

theorem chomp_newline (line : Str) : chomp (line ++ ['\n']) = stripCr line := by
  unfold chomp
  rw [if_pos (by simp), List.dropLast_concat]

/-- A text is a line, or a line with a newline and a text behind it. -/
theorem line_induction {motive : Str → Prop} (last : ∀ line, '\n' ∉ line → motive line)
    (line : ∀ line s, '\n' ∉ line → motive s → motive (line ++ '\n' :: s)) : ∀ s, motive s := by
  have hbuild : ∀ s front, '\n' ∉ front → motive (front ++ s) := by
    intro s
    induction s with
    | nil =>
      intro front hfront
      rw [List.append_nil]
      exact last front hfront
    | cons c s ih =>
      intro front hfront
      by_cases hc : c = '\n'
      · subst hc
        exact line front s hfront (ih [] List.not_mem_nil)
      · rw [List.append_cons]
        apply ih
        simp [hfront, Ne.symm hc]
  exact fun s => hbuild s [] List.not_mem_nil

/-- The lines of a text that begins with a line. -/
theorem lines_line {line : Str} (h : '\n' ∉ line) (s : Str) : lines (line ++ '\n' :: s) = stripCr line :: lines s := by
  unfold lines
  rw [splitInclusive_line h, List.map_cons, chomp_newline]

theorem splitInclusive_last {line : Str} (h : '\n' ∉ line) :
    splitInclusive line = if line = [] then [] else [line] := by
  have hsplit := splitInclusiveFrom_append h [] []
  rw [List.append_nil, List.nil_append] at hsplit
  unfold splitInclusive
  rw [hsplit, splitInclusiveFrom]

/-- The one line of a text without newlines. -/
theorem lines_last {line : Str} (h : '\n' ∉ line) : lines line = if line = [] then [] else [line] := by
  have hlast : line.getLast? ≠ some '\n' := fun heq => h (List.mem_of_getLast? heq)
  unfold lines
  rw [splitInclusive_last h]
  split
  · rfl
  · rw [List.map_singleton, chomp, if_neg hlast]

theorem lines_unlines {ls : List Str} (h : ∀ l ∈ ls, '\n' ∉ l) : lines (unlines ls) = ls.map stripCr := by
  unfold lines
  rw [splitInclusive_unlines h, List.map_map]
  exact List.map_congr_left fun l _ => chomp_newline l

theorem prefix_stripCr (line : Str) : stripCr line <+: line := by
  unfold stripCr
  split
  · exact List.dropLast_prefix line
  · exact List.prefix_rfl

theorem newline_notMem_lines {s l : Str} : l ∈ lines s → '\n' ∉ l := by
  induction s using line_induction with
  | last line h =>
    intro hl
    rw [lines_last h] at hl
    split at hl
    · cases hl
    · rwa [List.mem_singleton.mp hl]
  | line line s h ih =>
    intro hl
    rw [lines_line h] at hl
    rcases List.mem_cons.mp hl with rfl | hl
    · exact fun hmem => h ((prefix_stripCr line).subset hmem)
    · exact ih hl

/-- A carriage return is taken from the last part. -/
theorem stripCr_append {front : Str} (hlast : front.getLast? ≠ some '\r') (back : Str) :
    stripCr (front ++ back) = front ++ stripCr back := by
  unfold stripCr
  rcases List.eq_nil_or_concat back with rfl | ⟨back, c, rfl⟩
  · rw [List.append_nil, if_neg hlast]
    simp
  · rw [List.concat_eq_append, ← List.append_assoc, List.getLast?_concat, List.getLast?_concat]
    split
    · rw [List.dropLast_concat, List.dropLast_concat]
    · rw [List.append_assoc]

theorem stripCr_cons {c : Char} (hc : c ≠ '\r') (line : Str) : stripCr (c :: line) = c :: stripCr line := by
  have hlast : [c].getLast? ≠ some '\r' := by simpa using hc
  exact stripCr_append hlast line

/-! ## Numbers -/

/-- A plus sign in front removed. -/
def stripPlus : Str → Str
  | '+' :: s => s
  | s => s

/-- The parsing of an unsigned number below a bound: digits, with a plus sign allowed. -/
def parseUnsigned (bound : ℕ) (s : Str) : Option ℕ :=
  let digits := stripPlus s
  if digits ≠ [] ∧ digits.all Char.isDigit then
    let n := Nat.ofDigitChars 10 digits 0
    if n < bound then some n else none
  else none

theorem isDigit_of_mem_toString {n : ℕ} {c : Char} (h : c ∈ (toString n).toList) : c.isDigit = true := by
  rw [Nat.toString_eq_ofList_toDigits, String.toList_ofList] at h
  exact Nat.isDigit_of_mem_toDigits (by decide) (by decide) h

theorem toString_ne_nil (n : ℕ) : (toString n).toList ≠ [] := by
  rw [Nat.toString_eq_ofList_toDigits, String.toList_ofList]
  exact Nat.toDigits_ne_nil

/-- A number is read back from its digits. -/
theorem parseUnsigned_toString {bound n : ℕ} (h : n < bound) : parseUnsigned bound (toString n).toList = some n := by
  have hdigits : stripPlus (toString n).toList = (toString n).toList := by
    have hplus : '+' ∉ (toString n).toList := fun hmem => absurd (isDigit_of_mem_toString hmem) (by decide)
    unfold stripPlus
    split
    · rename_i rest heq
      rw [heq] at hplus
      exact absurd List.mem_cons_self hplus
    · rfl
  have hall : (toString n).toList.all Char.isDigit = true :=
    List.all_eq_true.mpr fun c hc => isDigit_of_mem_toString hc
  have hvalue : Nat.ofDigitChars 10 (toString n).toList 0 = n := by
    rw [Nat.toString_eq_ofList_toDigits, String.toList_ofList, Nat.ofDigitChars_ten_toDigits]
  unfold parseUnsigned
  dsimp only
  rw [hdigits, if_pos ⟨toString_ne_nil n, hall⟩, hvalue, if_pos h]

/-- A number with zeros in front up to a width. -/
def zeroPad (width n : ℕ) : Str := List.replicate (width - (toString n).toList.length) '0' ++ (toString n).toList

theorem isDigit_of_mem_zeroPad {width n : ℕ} {c : Char} (h : c ∈ zeroPad width n) : c.isDigit = true := by
  rcases List.mem_append.mp h with hzero | hdigit
  · rw [List.eq_of_mem_replicate hzero]
    rfl
  · exact isDigit_of_mem_toString hdigit

/-- The zeros in front do not count. -/
theorem ofDigitChars_zeroPad (width n : ℕ) : Nat.ofDigitChars 10 (zeroPad width n) 0 = n := by
  rw [zeroPad, Nat.ofDigitChars_append, Nat.ofDigitChars_replicate_zero, Nat.mul_zero, Nat.toString_eq_ofList_toDigits,
    String.toList_ofList, Nat.ofDigitChars_ten_toDigits]

theorem zeroPad_injective {width n m : ℕ} (h : zeroPad width n = zeroPad width m) : n = m := by
  rw [← ofDigitChars_zeroPad width n, h, ofDigitChars_zeroPad]

theorem toString_injective {n m : ℕ} (h : (toString n).toList = (toString m).toList) : n = m := by
  have hpad : zeroPad 0 n = zeroPad 0 m := by
    unfold zeroPad
    rw [h]
  exact zeroPad_injective hpad

/-! ## Pieces -/

/-- A line with its newline, or what a text has behind the last one. -/
structure IsPiece (p : Str) : Prop where
  ne_nil : p ≠ []
  newline_last : '\n' ∉ p.dropLast

/-- The text ends with a newline. -/
def EndsLine (p : Str) : Prop := p.getLast? = some '\n'

instance (p : Str) : Decidable (EndsLine p) := inferInstanceAs (Decidable (_ = _))

/-- A piece without its newline. -/
def body (p : Str) : Str := if EndsLine p then p.dropLast else p

/-- The lines of a text, cut at newlines only. -/
def bodies (s : Str) : List Str := (splitInclusive s).map body

section Pieces

variable {p s t : Str}

theorem EndsLine.eq_append (h : EndsLine p) : p = p.dropLast ++ ['\n'] := by
  obtain ⟨line, rfl⟩ := List.getLast?_eq_some_iff.mp h
  rw [List.dropLast_concat]

theorem endsLine_concat (line : Str) : EndsLine (line ++ ['\n']) := List.getLast?_concat

theorem IsPiece.newline_notMem (h : IsPiece p) (hend : ¬ EndsLine p) : '\n' ∉ p := by
  intro hmem
  obtain ⟨line, c, rfl⟩ := (List.eq_nil_or_concat' p).resolve_left h.ne_nil
  have hline := h.newline_last
  rw [List.dropLast_concat] at hline
  rcases List.mem_append.mp hmem with hmem | hmem
  · exact hline hmem
  · obtain rfl := List.mem_singleton.mp hmem
    exact hend (endsLine_concat line)

theorem isPiece_line (h : '\n' ∉ s) : IsPiece (s ++ ['\n']) :=
  ⟨List.append_ne_nil_of_right_ne_nil _ (List.cons_ne_nil _ _), by rwa [List.dropLast_concat]⟩

theorem isPiece_last (h : '\n' ∉ s) (hne : s ≠ []) : IsPiece s := ⟨hne, fun hmem => h (List.dropLast_subset s hmem)⟩

theorem splitInclusive_piece (h : IsPiece p) (hend : EndsLine p) (s : Str) :
    splitInclusive (p ++ s) = p :: splitInclusive s := by
  rw [hend.eq_append, List.append_assoc]
  exact splitInclusive_line h.newline_last s

theorem splitInclusive_rest (h : IsPiece p) (hend : ¬ EndsLine p) : splitInclusive p = [p] := by
  rw [splitInclusive_last (h.newline_notMem hend), if_neg h.ne_nil]

theorem flatten_splitInclusive (s : Str) : (splitInclusive s).flatten = s := by
  induction s using line_induction with
  | last line h =>
    rw [splitInclusive_last h]
    split
    · next hnil => exact hnil.symm
    · exact List.flatten_singleton
  | line line s h ih =>
    rw [splitInclusive_line h, List.flatten_cons, ih, List.append_assoc]
    rfl

theorem isPiece_of_mem : p ∈ splitInclusive s → IsPiece p := by
  induction s using line_induction with
  | last line h =>
    intro hmem
    rw [splitInclusive_last h] at hmem
    split at hmem
    · cases hmem
    · next hne =>
      rw [List.mem_singleton.mp hmem]
      exact isPiece_last h hne
  | line line s h ih =>
    intro hmem
    rw [splitInclusive_line h] at hmem
    rcases List.mem_cons.mp hmem with rfl | hmem
    · exact isPiece_line h
    · exact ih hmem

theorem endsLine_of_mem_dropLast : p ∈ (splitInclusive s).dropLast → EndsLine p := by
  induction s using line_induction with
  | last line h =>
    intro hmem
    rw [splitInclusive_last h] at hmem
    split at hmem <;> cases hmem
  | line line s h ih =>
    intro hmem
    rw [splitInclusive_line h] at hmem
    cases hs : splitInclusive s with
    | nil =>
      rw [hs] at hmem
      cases hmem
    | cons q qs =>
      rw [hs, List.dropLast_cons_cons, ← hs] at hmem
      rcases List.mem_cons.mp hmem with rfl | hmem
      · exact endsLine_concat line
      · exact ih hmem

end Pieces

/-! ## Pieces put together -/

section Together

variable {ps : List Str}

theorem splitInclusive_flatten (hps : ∀ p ∈ ps, IsPiece p) (hends : ∀ p ∈ ps.dropLast, EndsLine p) :
    splitInclusive ps.flatten = ps := by
  induction ps with
  | nil => rfl
  | cons p ps ih =>
    have hp := hps p List.mem_cons_self
    have hrest := fun q hq => hps q (List.mem_cons_of_mem p hq)
    cases ps with
    | nil =>
      rw [List.flatten_singleton]
      by_cases hend : EndsLine p
      · have hsplit := splitInclusive_piece hp hend []
        rwa [List.append_nil] at hsplit
      · exact splitInclusive_rest hp hend
    | cons q qs =>
      rw [List.dropLast_cons_cons] at hends
      rw [List.flatten_cons, splitInclusive_piece hp (hends p List.mem_cons_self),
        ih hrest fun r hr => hends r (List.mem_cons_of_mem p hr)]

/-- A piece without its newline becomes one with the next piece. -/
theorem isPiece_fused {p q : Str} (hp : IsPiece p) (hend : ¬ EndsLine p) (hq : IsPiece q) : IsPiece (p ++ q) := by
  refine ⟨List.append_ne_nil_of_right_ne_nil p hq.ne_nil, ?_⟩
  rw [List.dropLast_append_of_ne_nil hq.ne_nil, List.mem_append, not_or]
  exact ⟨hp.newline_notMem hend, hq.newline_last⟩

/-- A text has no more pieces than it was put together from, and as many only if they are these. -/
theorem length_splitInclusive_flatten : ∀ (n : ℕ) {ps : List Str}, ps.length = n → (∀ p ∈ ps, IsPiece p) →
    (splitInclusive ps.flatten).length ≤ n ∧
      ((splitInclusive ps.flatten).length = n → ∀ p ∈ ps.dropLast, EndsLine p) := by
  intro n
  induction n with
  | zero =>
    intro ps hn _
    rw [List.length_eq_zero_iff.mp hn]
    exact ⟨le_rfl, fun _ _ hmem => (nomatch hmem)⟩
  | succ n ih =>
    intro ps hn hps
    obtain ⟨p, ps, rfl⟩ := List.exists_cons_of_length_eq_add_one hn
    have hp := hps p List.mem_cons_self
    have hrest := fun q hq => hps q (List.mem_cons_of_mem p hq)
    have hlen : ps.length = n := by simpa using hn
    by_cases hend : EndsLine p
    · obtain ⟨hle, hall⟩ := ih hlen hrest
      rw [List.flatten_cons, splitInclusive_piece hp hend, List.length_cons]
      refine ⟨by omega, fun heq q hq => ?_⟩
      cases ps with
      | nil => cases hq
      | cons r rs =>
        rw [List.dropLast_cons_cons] at hq
        rcases List.mem_cons.mp hq with rfl | hq
        · exact hend
        · exact hall (by omega) q hq
    · cases ps with
      | nil =>
        rw [List.flatten_singleton, splitInclusive_rest hp hend]
        exact ⟨by simp, fun _ _ hmem => (nomatch hmem)⟩
      | cons q qs =>
        -- the two pieces are one, so there are too few
        have hfused : ∀ r ∈ (p ++ q) :: qs, IsPiece r := by
          intro r hr
          rcases List.mem_cons.mp hr with rfl | hr
          · exact isPiece_fused hp hend (hrest q List.mem_cons_self)
          · exact hrest r (List.mem_cons_of_mem q hr)
        have hle := (ih (by simpa using hlen) hfused).1
        rw [List.flatten_cons, List.append_assoc] at hle
        simp only [List.flatten_cons] at hle ⊢
        exact ⟨by omega, fun heq => by omega⟩

theorem endsLine_of_length (hps : ∀ p ∈ ps, IsPiece p) (hlen : (bodies ps.flatten).length = ps.length) :
    ∀ p ∈ ps.dropLast, EndsLine p := by
  unfold bodies at hlen
  rw [List.length_map] at hlen
  exact (length_splitInclusive_flatten _ rfl hps).2 hlen

/-- **The lines of pieces that are put together are theirs exactly if each piece before the last ends its line.** -/
theorem bodies_flatten_iff (hps : ∀ p ∈ ps, IsPiece p) :
    bodies ps.flatten = ps.map body ↔ ∀ p ∈ ps.dropLast, EndsLine p := by
  constructor
  · intro h
    exact endsLine_of_length hps (by rw [h, List.length_map])
  · intro h
    unfold bodies
    rw [splitInclusive_flatten hps h]

/-- A text behind lines that are ended. -/
theorem splitInclusive_flatten_append (hps : ∀ p ∈ ps, IsPiece p ∧ EndsLine p) (s : Str) :
    splitInclusive (ps.flatten ++ s) = ps ++ splitInclusive s := by
  induction ps with
  | nil => rfl
  | cons p ps ih =>
    obtain ⟨hp, hend⟩ := hps p List.mem_cons_self
    rw [List.flatten_cons, List.append_assoc, splitInclusive_piece hp hend,
      ih fun q hq => hps q (List.mem_cons_of_mem p hq), List.cons_append]

end Together

end Text

end Zeptoclaw

import Zeptoclaw.Lib.Text
import Mathlib.Tactic.Common

/-!
# String literals in a text

A scanner that knows whether it is outside of a literal in double quotes, inside of one, or behind
a backslash in one. Two scanners of a text that begin on different sides of a quote stay on
different sides, as long as neither meets a backslash outside (`scan_flipped`).
-/

namespace Zeptoclaw

inductive Literal where
  | outside
  | inside
  | escaped
  deriving DecidableEq, Repr

namespace Literal

def next : Literal → Char → Literal
  | outside, c => if c = '"' then inside else outside
  | inside, c => if c = '\\' then escaped else if c = '"' then outside else inside
  | escaped, _ => inside

/-- The state behind a text. -/
def scan (state : Literal) (s : Str) : Literal := s.foldl next state

/-- The characters outside of the literals. -/
def outsideOf (state : Literal) : Str → Str
  | [] => []
  | c :: s => if state = outside ∧ c ≠ '"' then c :: outsideOf (state.next c) s else outsideOf (state.next c) s

/-- The characters of the literals. -/
def insideOf (state : Literal) : Str → Str
  | [] => []
  | c :: s =>
    if state = escaped ∨ state = inside ∧ c ≠ '"' then c :: insideOf (state.next c) s else insideOf (state.next c) s

theorem scan_append (state : Literal) (s t : Str) : scan state (s ++ t) = scan (scan state s) t := List.foldl_append

theorem scan_cons (state : Literal) (c : Char) (s : Str) : scan state (c :: s) = scan (state.next c) s := rfl

theorem outsideOf_append : ∀ (s t : Str) (state : Literal),
    outsideOf state (s ++ t) = outsideOf state s ++ outsideOf (scan state s) t := by
  intro s t
  induction s with
  | nil => exact fun state => rfl
  | cons c s ih =>
    intro state
    rw [List.cons_append, outsideOf, outsideOf, ih]
    split
    · rfl
    · rfl

/-! ## Characters that are neither quotes nor backslashes -/

section Plain

variable {c : Char} {s : Str}

theorem next_outside (hquote : c ≠ '"') : outside.next c = outside := if_neg hquote

theorem next_inside (hquote : c ≠ '"') (hslash : c ≠ '\\') : inside.next c = inside := by
  rw [next, if_neg hslash, if_neg hquote]

theorem outsideOf_outside (hquote : c ≠ '"') : outsideOf outside (c :: s) = c :: outsideOf outside s := by
  rw [outsideOf, if_pos ⟨rfl, hquote⟩, next_outside hquote]

theorem outsideOf_inside (hquote : c ≠ '"') (hslash : c ≠ '\\') : outsideOf inside (c :: s) = outsideOf inside s := by
  rw [outsideOf, if_neg (by simp), next_inside hquote hslash]

theorem insideOf_outside (hquote : c ≠ '"') : insideOf outside (c :: s) = insideOf outside s := by
  rw [insideOf, if_neg (by simp), next_outside hquote]

theorem insideOf_inside (hquote : c ≠ '"') (hslash : c ≠ '\\') : insideOf inside (c :: s) = c :: insideOf inside s := by
  rw [insideOf, if_pos (.inr ⟨rfl, hquote⟩), next_inside hquote hslash]

/-- Such a text leaves the scanner where it is. -/
theorem scan_plain (hs : ∀ c ∈ s, c ≠ '"' ∧ c ≠ '\\') {state : Literal} (hstate : state ≠ escaped) :
    scan state s = state := by
  induction s with
  | nil => rfl
  | cons c s ih =>
    obtain ⟨hc, hs⟩ := List.forall_mem_cons.mp hs
    have hnext : state.next c = state := by
      cases state with
      | outside => exact next_outside hc.1
      | inside => exact next_inside hc.1 hc.2
      | escaped => exact absurd rfl hstate
    rw [scan_cons, hnext]
    exact ih hs

theorem outsideOf_inside_plain (hs : ∀ c ∈ s, c ≠ '"' ∧ c ≠ '\\') : outsideOf inside s = [] := by
  induction s with
  | nil => rfl
  | cons c s ih =>
    obtain ⟨hc, hs⟩ := List.forall_mem_cons.mp hs
    rw [outsideOf_inside hc.1 hc.2]
    exact ih hs

end Plain

/-! ## Two scanners -/

/-- On different sides of a quote. -/
def Flipped (a b : Literal) : Prop := (a = inside ∧ b = outside) ∨ (a = outside ∧ b = inside)

/-- **What is inside for one of two scanners is outside for the other.** -/
theorem scan_flipped : ∀ {s : Str} {a b : Literal}, Flipped a b → '\\' ∉ outsideOf a s → '\\' ∉ outsideOf b s →
    Flipped (scan a s) (scan b s) ∧ insideOf b s = outsideOf a s := by
  intro s
  induction s with
  | nil => exact fun hflip _ _ => ⟨hflip, rfl⟩
  | cons c s ih =>
    -- the one that is outside meets no backslash; a quote takes both to the other side
    rintro a b (⟨rfl, rfl⟩ | ⟨rfl, rfl⟩) ha hb
    · by_cases hquote : c = '"'
      · subst hquote
        exact ih (.inr ⟨rfl, rfl⟩) ha hb
      · rw [outsideOf_outside hquote, List.mem_cons, not_or] at hb
        have hslash : c ≠ '\\' := Ne.symm hb.1
        rw [outsideOf_inside hquote hslash] at ha ⊢
        rw [scan_cons, scan_cons, next_inside hquote hslash, next_outside hquote, insideOf_outside hquote]
        exact ih (.inl ⟨rfl, rfl⟩) ha hb.2
    · by_cases hquote : c = '"'
      · subst hquote
        exact ih (.inl ⟨rfl, rfl⟩) ha hb
      · rw [outsideOf_outside hquote, List.mem_cons, not_or] at ha
        have hslash : c ≠ '\\' := Ne.symm ha.1
        rw [outsideOf_inside hquote hslash] at hb
        rw [scan_cons, scan_cons, next_inside hquote hslash, next_outside hquote, outsideOf_outside hquote,
          insideOf_inside hquote hslash]
        obtain ⟨hflip, hsame⟩ := ih (.inr ⟨rfl, rfl⟩) ha.2 hb
        exact ⟨hflip, congrArg (c :: ·) hsame⟩

end Literal

end Zeptoclaw

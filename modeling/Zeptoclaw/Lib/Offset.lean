import Zeptoclaw.Lib.Text
import Mathlib.Tactic.Common

/-!
# Byte offsets into a text

A text is cut at offsets into its UTF-8 encoding. A cut behind the end, or inside a
character, is not possible: `splitAtByte` and `slice` then give nothing.

An offset inside a character is moved back to the beginning of the character, or forward to its end. What stands before
an offset that was moved back is the longest beginning of the text that fits (`floorBoundary_longest`).
-/

namespace Zeptoclaw

namespace Text

@[simp] theorem byteLen_nil : byteLen [] = 0 := rfl

@[simp] theorem byteLen_cons (c : Char) (s : Str) : byteLen (c :: s) = c.utf8Size + byteLen s := rfl

@[simp] theorem byteLen_append (s t : Str) : byteLen (s ++ t) = byteLen s + byteLen t := by
  simp [byteLen]

theorem byteLen_pos {s : Str} (h : s ≠ []) : 0 < byteLen s := by
  obtain ⟨c, t, rfl⟩ := List.exists_cons_of_ne_nil h
  have := c.utf8Size_pos
  rw [byteLen_cons]
  omega

/-- The beginnings of a text are told apart by their length. -/
theorem eq_of_byteLen_eq : ∀ {l l' r r' : Str}, l ++ r = l' ++ r' → byteLen l = byteLen l' → l = l' ∧ r = r' := by
  intro l
  induction l with
  | nil =>
    intro l' r r' h hlen
    have hnil : l' = [] := by
      by_contra hne
      have := byteLen_pos hne
      rw [← hlen] at this
      exact absurd this (Nat.lt_irrefl 0)
    subst hnil
    exact ⟨rfl, h⟩
  | cons c l ih =>
    intro l' r r' h hlen
    cases l' with
    | nil =>
      have := byteLen_pos (s := c :: l) (by simp)
      rw [hlen] at this
      exact absurd this (Nat.lt_irrefl 0)
    | cons c' l' =>
      obtain ⟨rfl, htail⟩ := List.cons.inj h
      rw [byteLen_cons, byteLen_cons] at hlen
      have hrest : byteLen l = byteLen l' := by omega
      obtain ⟨rfl, rfl⟩ := ih htail hrest
      exact ⟨rfl, rfl⟩

/-- The text before and behind an offset. -/
def splitAtByte : ℕ → Str → Option (Str × Str)
  | 0, s => some ([], s)
  | _ + 1, [] => none
  | n + 1, c :: s =>
    if c.utf8Size ≤ n + 1 then (splitAtByte (n + 1 - c.utf8Size) s).map fun cut => (c :: cut.1, cut.2) else none

theorem splitAtByte_byteLen : ∀ l r : Str, splitAtByte (byteLen l) (l ++ r) = some (l, r) := by
  intro l
  induction l with
  | nil => intro r; cases r <;> rfl
  | cons c l ih =>
    intro r
    have hpos := c.utf8Size_pos
    obtain ⟨n, hn⟩ : ∃ n, byteLen (c :: l) = n + 1 := ⟨byteLen (c :: l) - 1, by rw [byteLen_cons]; omega⟩
    have hrest : n + 1 - c.utf8Size = byteLen l := by rw [← hn, byteLen_cons]; omega
    have hle : c.utf8Size ≤ n + 1 := by rw [← hn, byteLen_cons]; omega
    rw [hn, List.cons_append, splitAtByte, if_pos hle, hrest, ih r]
    rfl

theorem splitAtByte_eq_some {n : ℕ} {s l r : Str} :
    splitAtByte n s = some (l, r) ↔ s = l ++ r ∧ byteLen l = n := by
  constructor
  · intro h
    induction s generalizing n l with
    | nil =>
      cases n with
      | zero =>
        cases h
        exact ⟨rfl, rfl⟩
      | succ n => cases h
    | cons c s ih =>
      cases n with
      | zero =>
        cases h
        exact ⟨rfl, rfl⟩
      | succ n =>
        rw [splitAtByte] at h
        split at h
        · rename_i hle
          obtain ⟨⟨l', r'⟩, hcut, heq⟩ := Option.map_eq_some_iff.mp h
          cases heq
          obtain ⟨rfl, hlen⟩ := ih hcut
          refine ⟨rfl, ?_⟩
          rw [byteLen_cons, hlen]
          omega
        · cases h
  · rintro ⟨rfl, rfl⟩
    exact splitAtByte_byteLen l r

/-- The offset is at the beginning or the end of a character. -/
def isCharBoundary (s : Str) (n : ℕ) : Bool := (splitAtByte n s).isSome

theorem isCharBoundary_iff {s : Str} {n : ℕ} : isCharBoundary s n = true ↔ ∃ p, p <+: s ∧ byteLen p = n := by
  unfold isCharBoundary
  rw [Option.isSome_iff_exists]
  constructor
  · rintro ⟨⟨l, r⟩, h⟩
    obtain ⟨rfl, hlen⟩ := splitAtByte_eq_some.mp h
    exact ⟨l, List.prefix_append l r, hlen⟩
  · rintro ⟨l, ⟨r, rfl⟩, hlen⟩
    exact ⟨(l, r), splitAtByte_eq_some.mpr ⟨rfl, hlen⟩⟩

/-- The text between two offsets. -/
def slice (s : Str) (start stop : ℕ) : Option Str :=
  match splitAtByte stop s with
  | none => none
  | some (front, _) => (splitAtByte start front).map Prod.snd

theorem slice_eq_some {s m : Str} {start stop : ℕ} : slice s start stop = some m ↔
    ∃ pre post, s = pre ++ m ++ post ∧ byteLen pre = start ∧ byteLen (pre ++ m) = stop := by
  unfold slice
  constructor
  · intro h
    cases hcut : splitAtByte stop s with
    | none =>
      rw [hcut] at h
      cases h
    | some cut =>
      obtain ⟨front, post⟩ := cut
      rw [hcut] at h
      obtain ⟨⟨pre, m'⟩, hstart, rfl⟩ := Option.map_eq_some_iff.mp h
      obtain ⟨rfl, hstop⟩ := splitAtByte_eq_some.mp hcut
      obtain ⟨rfl, hpre⟩ := splitAtByte_eq_some.mp hstart
      exact ⟨pre, post, rfl, hpre, hstop⟩
  · rintro ⟨pre, post, rfl, rfl, rfl⟩
    rw [splitAtByte_byteLen]
    show (splitAtByte (byteLen pre) (pre ++ m)).map Prod.snd = some m
    rw [splitAtByte_byteLen]
    rfl

end Text

/-! ## The boundary next to an offset -/

open Text

/-- The longest prefix of at most `n` bytes that is cut between characters. -/
structure LongestPrefix (n : ℕ) (s p : Str) : Prop where
  begins : p <+: s
  byteLen_le : byteLen p ≤ n
  longest : ∀ q, q <+: s → byteLen q ≤ n → q <+: p

namespace Text

/-- An offset moved back to a boundary. -/
def floorBoundary (s : Str) : ℕ → ℕ
  | 0 => 0
  | n + 1 => if isCharBoundary s (n + 1) then n + 1 else floorBoundary s n

/-- An offset moved forward to a boundary, over so many bytes at most. -/
def ceilBoundaryFrom (s : Str) : ℕ → ℕ → ℕ
  | 0, start => start
  | bytes + 1, start => if isCharBoundary s start then start else ceilBoundaryFrom s bytes (start + 1)

def ceilBoundary (s : Str) (start : ℕ) : ℕ := ceilBoundaryFrom s (byteLen s - start) start

theorem byteLen_le_of_prefix {p q : Str} (h : p <+: q) : byteLen p ≤ byteLen q := by
  obtain ⟨t, rfl⟩ := h
  rw [byteLen_append]
  omega

/-- Of two beginnings of a text the one with fewer bytes begins the other. -/
theorem prefix_of_byteLen_le {s p q : Str} (hp : p <+: s) (hq : q <+: s) (hle : byteLen p ≤ byteLen q) : p <+: q := by
  rcases List.prefix_or_prefix_of_prefix hp hq with h | ⟨t, rfl⟩
  · exact h
  · have hnil : t = [] := by
      by_contra hne
      have hpos := byteLen_pos hne
      rw [byteLen_append] at hle
      omega
    rw [hnil, List.append_nil]

theorem floorBoundary_longest (s : Str) (n : ℕ) : ∃ p, LongestPrefix n s p ∧ byteLen p = floorBoundary s n := by
  induction n with
  | zero =>
    refine ⟨[], ⟨List.nil_prefix, le_rfl, fun q hq hlen => ?_⟩, rfl⟩
    exact prefix_of_byteLen_le hq List.nil_prefix hlen
  | succ n ih =>
    rw [floorBoundary]
    by_cases hcut : isCharBoundary s (n + 1) = true
    · obtain ⟨p, hp, hlen⟩ := isCharBoundary_iff.mp hcut
      rw [if_pos hcut]
      refine ⟨p, ⟨hp, hlen.le, fun q hq hq' => ?_⟩, hlen⟩
      exact prefix_of_byteLen_le hq hp (by omega)
    · obtain ⟨p, hp, hlen⟩ := ih
      rw [if_neg hcut]
      refine ⟨p, ⟨hp.begins, hp.byteLen_le.trans (Nat.le_succ n), fun q hq hq' => ?_⟩, hlen⟩
      have hne : byteLen q ≠ n + 1 := fun heq => hcut (isCharBoundary_iff.mpr ⟨q, hq, heq⟩)
      exact hp.longest q hq (by omega)

theorem ceilBoundary_cut {s : Str} {start : ℕ} (h : start ≤ byteLen s) :
    ∃ p r, s = p ++ r ∧ byteLen p = ceilBoundary s start ∧ start ≤ byteLen p := by
  have hmoved : ∀ bytes start, start + bytes = byteLen s →
      ∃ p r, s = p ++ r ∧ byteLen p = ceilBoundaryFrom s bytes start ∧ start ≤ byteLen p := by
    intro bytes
    induction bytes with
    | zero =>
      intro start hend
      exact ⟨s, [], (List.append_nil s).symm, by rw [← hend]; rfl, by omega⟩
    | succ bytes ih =>
      intro start hend
      rw [ceilBoundaryFrom]
      by_cases hcut : isCharBoundary s start = true
      · obtain ⟨p, ⟨r, hr⟩, hlen⟩ := isCharBoundary_iff.mp hcut
        rw [if_pos hcut]
        exact ⟨p, r, hr.symm, hlen, hlen.ge⟩
      · obtain ⟨p, r, hs, hlen, hle⟩ := ih (start + 1) (by omega)
        rw [if_neg hcut]
        exact ⟨p, r, hs, hlen, by omega⟩
  exact hmoved _ start (by omega)

end Text

end Zeptoclaw

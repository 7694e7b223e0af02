import Mathlib.Algebra.GroupWithZero.Nat
import Mathlib.Data.List.DropRight
import Mathlib.Data.List.Infix

/-!
# Text as lists of Unicode scalar values

A string is the list of its characters. The operations are those of a standard
string library: Unicode white space and trimming, UTF-8 length, prefix, suffix
and infix tests, texts that occur in order, and the left-to-right replacement of a
pattern.
-/

namespace Zeptoclaw

/-- A string: its Unicode scalar values in order. -/
abbrev Str := List Char

/-- The comparison of texts is lawful, by one name for all that decide membership. -/
instance lawfulBEqStr : LawfulBEq Str := List.instLawfulBEq

namespace Text

/-- The `White_Space` property of Unicode. -/
def isWhitespace (c : Char) : Bool :=
  (9 ≤ c.toNat && c.toNat ≤ 13) || c.toNat == 0x20 || c.toNat == 0x85 || c.toNat == 0xA0 ||
    c.toNat == 0x1680 || (0x2000 ≤ c.toNat && c.toNat ≤ 0x200A) || c.toNat == 0x2028 ||
    c.toNat == 0x2029 || c.toNat == 0x202F || c.toNat == 0x205F || c.toNat == 0x3000

/-- The length of the UTF-8 encoding. -/
def byteLen (s : Str) : ℕ := (s.map Char.utf8Size).sum

def trimStart (s : Str) : Str := s.dropWhile isWhitespace

def trimEnd (s : Str) : Str := s.rdropWhile isWhitespace

def trim (s : Str) : Str := trimEnd (trimStart s)

/-- All trailing copies of one character removed. -/
def trimEndMatches (c : Char) (s : Str) : Str := s.rdropWhile (· == c)

/-- The pattern occurs somewhere in the string. -/
def contains (s p : Str) : Bool := decide (p <:+: s)

/-- The text is white space only. -/
def isBlank (s : Str) : Bool := s.all isWhitespace

/-- The words between white space, with the word at hand. -/
def splitWhitespaceFrom (current : Str) : Str → List Str
  | [] => if current = [] then [] else [current]
  | c :: s =>
    if isWhitespace c then
      if current = [] then splitWhitespaceFrom [] s else current :: splitWhitespaceFrom [] s
    else splitWhitespaceFrom (current ++ [c]) s

def splitWhitespace (s : Str) : List Str := splitWhitespaceFrom [] s

/-- The replacement of a pattern from left to right; the first `skip` characters belong to
an occurrence that was replaced. -/
def replaceFrom (pat rep : Str) : ℕ → Str → Str
  | _, [] => []
  | skip + 1, _ :: s => replaceFrom pat rep skip s
  | 0, c :: s =>
    if pat <+: c :: s then rep ++ replaceFrom pat rep (pat.length - 1) s else c :: replaceFrom pat rep 0 s

/-- Every occurrence of a non-empty pattern replaced. -/
def replace (s pat rep : Str) : Str := replaceFrom pat rep 0 s

theorem replaceFrom_cons (pat rep : Str) (c : Char) (s : Str) :
    replaceFrom pat rep 0 (c :: s) =
      if pat <+: c :: s then rep ++ replaceFrom pat rep (pat.length - 1) s else c :: replaceFrom pat rep 0 s :=
  rfl

theorem replaceFrom_skip (pat rep : Str) : ∀ (t s : Str),
    replaceFrom pat rep t.length (t ++ s) = replaceFrom pat rep 0 s := by
  intro t
  induction t with
  | nil => intro s; rfl
  | cons c t ih => intro s; exact ih s

/-- The pattern itself is replaced. -/
theorem replaceFrom_pat {pat : Str} (hp : pat ≠ []) (rep s : Str) :
    replaceFrom pat rep 0 (pat ++ s) = rep ++ replaceFrom pat rep 0 s := by
  obtain ⟨c, t, rfl⟩ := List.exists_cons_of_ne_nil hp
  have hpre : c :: t <+: c :: (t ++ s) := List.prefix_append (c :: t) s
  rw [List.cons_append, replaceFrom_cons, if_pos hpre, List.length_cons, Nat.add_sub_cancel, replaceFrom_skip]

/-- Text in which no occurrence starts is kept. -/
theorem replaceFrom_keep (pat rep : Str) : ∀ (t s : Str),
    (∀ u, u <:+ t → u ≠ [] → ¬ pat <+: u ++ s) → replaceFrom pat rep 0 (t ++ s) = t ++ replaceFrom pat rep 0 s := by
  intro t
  induction t with
  | nil => intro s _; rfl
  | cons c t ih =>
    intro s h
    have hne : ¬ pat <+: c :: (t ++ s) := h (c :: t) List.suffix_rfl (by simp)
    rw [List.cons_append, replaceFrom_cons, if_neg hne,
      ih s fun u hu hn => h u (hu.trans (List.suffix_cons c t)) hn]
    rfl

/-- A pattern of one character is replaced character by character. -/
theorem replace_singleton (c : Char) (rep : Str) (s : Str) :
    replace s [c] rep = s.flatMap fun d => if d = c then rep else [d] := by
  unfold replace
  induction s with
  | nil => rfl
  | cons d s ih =>
    rw [replaceFrom_cons, List.flatMap_cons]
    by_cases h : d = c
    · subst h
      simp [ih]
    · have hne : ¬ [c] <+: d :: s := by simp [Ne.symm h]
      rw [if_neg hne, if_neg h, ih]
      rfl

/-- An infix without the separator is on one side of it. -/
theorem infix_side {α : Type*} {c : α} {w l r : List α} (hc : c ∉ w) (h : w <:+: l ++ c :: r) : w <:+: l ∨ w <:+: r := by
  have hnil : ∀ {u : List α}, c ∉ u → u <+: c :: r → u = [] := by
    intro u hu hpre
    cases u with
    | nil => rfl
    | cons d u =>
      obtain ⟨rfl, -⟩ := List.cons_prefix_cons.mp hpre
      exact absurd List.mem_cons_self hu
  obtain h | h | ⟨t, u, rfl, ht, hu⟩ := List.infix_append_iff.mp h
  · exact .inl h
  · obtain h | h := List.infix_cons_iff.mp h
    · rw [hnil hc h]
      exact .inl List.nil_infix
    · exact .inr h
  · rw [hnil (fun hmem => hc (List.mem_append_right t hmem)) hu, List.append_nil]
    exact .inl ht.isInfix

/-- A beginning without the separator ends before it. -/
theorem prefix_side {α : Type*} {c : α} {w l r : List α} (hc : c ∉ w) (h : w <+: l ++ c :: r) : w <+: l := by
  by_contra hne
  have hlen : (l ++ [c]).length ≤ w.length := by
    by_contra hlt
    rw [List.length_append, List.length_singleton] at hlt
    exact hne (List.prefix_of_prefix_length_le h (List.prefix_append l (c :: r)) (by omega))
  have hpre : l ++ [c] <+: w := List.prefix_of_prefix_length_le ⟨r, by simp⟩ h hlen
  exact hc (hpre.subset (by simp))

/-- A text stands in the texts with separators between them. -/
theorem infix_intercalate {α : Type*} {s sep : List α} {texts : List (List α)} (h : s ∈ texts) : s <:+: sep.intercalate texts := by
  induction texts with
  | nil => cases h
  | cons t texts ih =>
    cases texts with
    | nil =>
      obtain rfl := List.mem_singleton.mp h
      simp [List.intercalate]
    | cons t' texts =>
      have hcons : sep.intercalate (t :: t' :: texts) = t ++ (sep ++ sep.intercalate (t' :: texts)) := by
        simp [List.intercalate]
      rw [hcons]
      obtain rfl | h := List.mem_cons.mp h
      · exact List.infix_append_left
      · exact List.infix_append_of_infix_right (List.infix_append_of_infix_right (ih h))

/-- The texts occur in the string one behind the other, without overlap. -/
def InOrder : List Str → Str → Prop
  | [], _ => True
  | p :: ps, s => ∃ pre post, s = pre ++ p ++ post ∧ InOrder ps post

theorem InOrder.prepend {ps : List Str} {s : Str} (h : InOrder ps s) (pre : Str) : InOrder ps (pre ++ s) := by
  cases ps with
  | nil => trivial
  | cons p ps =>
    obtain ⟨before, post, rfl, hrest⟩ := h
    exact ⟨pre ++ before, post, by simp [List.append_assoc], hrest⟩

theorem InOrder.cons {ps : List Str} {s : Str} (h : InOrder ps s) (pre p : Str) : InOrder (p :: ps) (pre ++ p ++ s) :=
  ⟨pre, s, rfl, h⟩

/-- Texts that occur one behind the other are together no longer than the string. -/
theorem InOrder.length_le : ∀ (ps : List Str) {s : Str}, InOrder ps s → (ps.map List.length).sum ≤ s.length := by
  intro ps
  induction ps with
  | nil => intro s _; exact Nat.zero_le _
  | cons p ps ih =>
    intro s h
    obtain ⟨pre, post, rfl, hrest⟩ := h
    have hle := ih hrest
    simp only [List.map_cons, List.sum_cons, List.length_append]
    omega

theorem trimEnd_eq_nil_iff (s : Str) : trimEnd s = [] ↔ isBlank s = true := by
  unfold trimEnd isBlank
  rw [List.rdropWhile_eq_nil_iff, List.all_eq_true]

/-- Trimming leaves nothing exactly when the text is blank. -/
theorem trim_eq_nil_iff (s : Str) : trim s = [] ↔ isBlank s = true := by
  unfold trim trimEnd trimStart isBlank
  rw [List.rdropWhile_eq_nil_iff, List.all_eq_true]
  constructor
  · intro h c hc
    by_cases hd : c ∈ s.dropWhile isWhitespace
    · exact h c hd
    · rw [← List.takeWhile_append_dropWhile (p := isWhitespace) (l := s), List.mem_append] at hc
      exact List.mem_takeWhile_imp (hc.resolve_right hd)
  · intro h c hc
    exact h c ((List.dropWhile_sublist _).subset hc)

/-- What trimming takes away is white space. -/
theorem trim_split (s : Str) : ∃ lead rest, s = lead ++ trim s ++ rest ∧
    (∀ c ∈ lead, isWhitespace c = true) ∧ ∀ c ∈ rest, isWhitespace c = true := by
  refine ⟨s.takeWhile isWhitespace, (trimStart s).rtakeWhile isWhitespace, ?_, ?_, ?_⟩
  · unfold trim trimEnd
    rw [List.append_assoc, List.rdropWhile_append_rtakeWhile]
    exact List.takeWhile_append_dropWhile.symm
  · intro c hc
    exact List.mem_takeWhile_imp hc
  · intro c hc
    exact List.mem_rtakeWhile_imp hc

end Text

end Zeptoclaw

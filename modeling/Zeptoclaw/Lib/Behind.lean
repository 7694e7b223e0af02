import Mathlib.Data.List.Forall2

/-!
# Elements judged with what is behind them

`AllBehind` is a property of every element of a list that also sees the elements behind it;
`EachBehind` relates two lists element by element, and sees what is behind the element of the first;
`modifyLast` changes the one element that qualifies with none behind it that does.
-/

namespace Zeptoclaw

variable {α β : Type*} {P : List α → α → Prop} {R S : List α → α → β → Prop}

/-- Every element has the property, with the elements behind it. -/
def AllBehind (P : List α → α → Prop) : List α → Prop
  | [] => True
  | a :: l => P l a ∧ AllBehind P l

theorem allBehind_iff : ∀ {l : List α},
    AllBehind P l ↔ ∀ before a behind, l = before ++ a :: behind → P behind a := by
  intro l
  induction l with
  | nil => exact ⟨fun _ before a behind h => by simp at h, fun _ => trivial⟩
  | cons b l ih =>
    constructor
    · rintro ⟨hb, hl⟩ before a behind h
      cases before with
      | nil =>
        obtain ⟨rfl, rfl⟩ := List.cons.inj h
        exact hb
      | cons c before =>
        obtain ⟨-, hcut⟩ := List.cons.inj h
        exact ih.mp hl before a behind hcut
    · intro h
      refine ⟨h [] b l rfl, ih.mpr fun before a behind hcut => ?_⟩
      exact h (b :: before) a behind (by rw [hcut]; rfl)

/-- The two lists correspond element by element. -/
def EachBehind (R : List α → α → β → Prop) : List α → List β → Prop
  | [], [] => True
  | a :: l, b :: l' => R l a b ∧ EachBehind R l l'
  | _, _ => False

/-- If each element decides for itself, with what is behind it, whether it has a counterpart, the list has
counterparts exactly if every element has one. -/
theorem exists_eachBehind_iff (h : ∀ l a, (∃ b, R l a b) ↔ P l a) :
    ∀ {l : List α}, (∃ l', EachBehind R l l') ↔ AllBehind P l := by
  intro l
  induction l with
  | nil => exact ⟨fun _ => trivial, fun _ => ⟨[], trivial⟩⟩
  | cons a l ih =>
    constructor
    · rintro ⟨l', hl'⟩
      cases l' with
      | nil => exact hl'.elim
      | cons b l' => exact ⟨(h l a).mp ⟨b, hl'.1⟩, ih.mp ⟨l', hl'.2⟩⟩
    · rintro ⟨ha, hl⟩
      obtain ⟨b, hb⟩ := (h l a).mpr ha
      obtain ⟨l', hl'⟩ := ih.mpr hl
      exact ⟨b :: l', hb, hl'⟩

theorem eachBehind_and : ∀ {l : List α} {l' : List β},
    EachBehind (fun l a b => R l a b ∧ S l a b) l l' ↔ EachBehind R l l' ∧ EachBehind S l l' := by
  intro l
  induction l with
  | nil =>
    intro l'
    cases l' with
    | nil => simp [EachBehind]
    | cons b l' => simp [EachBehind]
  | cons a l ih =>
    intro l'
    cases l' with
    | nil => simp [EachBehind]
    | cons b l' =>
      simp only [EachBehind, ih]
      exact and_and_and_comm

theorem EachBehind.forall₂ {T : α → β → Prop} (h : ∀ l a b, R l a b → T a b) : ∀ {l : List α} {l' : List β},
    EachBehind R l l' → List.Forall₂ T l l' := by
  intro l
  induction l with
  | nil =>
    intro l' hl'
    cases l' with
    | nil => exact .nil
    | cons b l' => exact hl'.elim
  | cons a l ih =>
    intro l' hl'
    cases l' with
    | nil => exact hl'.elim
    | cons b l' => exact .cons (h l a b hl'.1) (ih hl'.2)

/-- The last element that qualifies is changed. -/
def modifyLast (p : α → Bool) (f : α → α) : List α → List α
  | [] => []
  | a :: l => if l.any p then a :: modifyLast p f l else if p a then f a :: l else a :: l

theorem modifyLast_of_not_any {p : α → Bool} (f : α → α) : ∀ {l : List α}, l.any p = false → modifyLast p f l = l := by
  intro l h
  cases l with
  | nil => rfl
  | cons a l =>
    rw [List.any_cons, Bool.or_eq_false_iff] at h
    simp [modifyLast, h.1, h.2]

/-- An element is changed if it qualifies and none behind it does. -/
theorem modifyLast_cons (p : α → Bool) (f : α → α) (a : α) (l : List α) :
    modifyLast p f (a :: l) = (if p a = true ∧ l.any p = false then f a else a) :: modifyLast p f l := by
  rw [modifyLast]
  cases hl : l.any p with
  | true => simp
  | false =>
    rw [modifyLast_of_not_any f hl]
    by_cases ha : p a = true
    · simp [ha]
    · simp [ha]

end Zeptoclaw

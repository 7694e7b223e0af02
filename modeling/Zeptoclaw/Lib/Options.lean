import Mathlib.Data.List.Basic

/-!
# Options at the front of a list

A list of arguments begins with options; some take the argument behind them as their value. `skip` passes over
them one by one, and fails where a value is missing. `OptionRun` says the same without a loop: what is skipped is
a sequence of options with their values (`skip_eq_some_iff`, `skip_eq_none_iff`).
-/

namespace Zeptoclaw

/-- Which arguments are options that take a value, and which are options by themselves. -/
structure OptionTable (α : Type*) where
  takes : α → Bool
  single : α → Bool

namespace OptionTable

variable {α : Type*} (t : OptionTable α)

/-- What stands behind the options; none if the last of them lacks its value. -/
def skip : List α → Option (List α)
  | [] => some []
  | a :: rest =>
    if t.takes a then
      match rest with
      | [] => none
      | _ :: rest' => skip rest'
    else if t.single a then skip rest
    else some (a :: rest)

/-- A sequence of options with their values. -/
inductive OptionRun : List α → Prop
  | nil : OptionRun []
  | single {a : α} {rest : List α} : t.takes a = false → t.single a = true → OptionRun rest → OptionRun (a :: rest)
  | value {a v : α} {rest : List α} : t.takes a = true → OptionRun rest → OptionRun (a :: v :: rest)

/-- The list does not begin with an option. -/
def Stops (l : List α) : Prop := ∀ a ∈ l.head?, t.takes a = false ∧ t.single a = false

variable {t}

theorem skip_of_stops {l : List α} (h : t.Stops l) : t.skip l = some l := by
  cases l with
  | nil => rfl
  | cons a l =>
    obtain ⟨htakes, hsingle⟩ := h a rfl
    unfold skip
    simp [htakes, hsingle]

theorem skip_single {a : α} (htakes : t.takes a = false) (hsingle : t.single a = true) (rest : List α) :
    t.skip (a :: rest) = t.skip rest := by
  conv_lhs => unfold skip
  simp [htakes, hsingle]

theorem skip_value {a : α} (htakes : t.takes a = true) (v : α) (rest : List α) :
    t.skip (a :: v :: rest) = t.skip rest := by
  conv_lhs => unfold skip
  simp [htakes]

theorem skip_missing {a : α} (h : t.takes a = true) : t.skip [a] = none := by
  unfold skip
  simp [h]

/-- A loop over the options that stops with a result of its own. -/
theorem loop_eq_skip {β : Type*} {f : List α → β} {missing : β} {done : List α → β} (hnil : f [] = done [])
    (hcons : ∀ a rest, f (a :: rest) =
      if t.takes a then
        match rest with
        | [] => missing
        | _ :: rest' => f rest'
      else if t.single a then f rest
      else done (a :: rest)) :
    ∀ l : List α, f l = (t.skip l).elim missing done
  | [] => hnil
  | a :: rest => by
    rw [hcons]
    cases htakes : t.takes a with
    | true =>
      match rest with
      | [] => rw [skip_missing htakes]; rfl
      | v :: rest' => rw [skip_value htakes, ← loop_eq_skip hnil hcons rest']; rfl
    | false =>
      cases hsingle : t.single a with
      | true => rw [skip_single htakes hsingle, ← loop_eq_skip hnil hcons rest]; rfl
      | false =>
        have hstop : t.Stops (a :: rest) := by
          intro b hb
          obtain rfl := Option.some.inj hb
          exact ⟨htakes, hsingle⟩
        rw [skip_of_stops hstop]
        rfl

/-- Options with their values are skipped. -/
theorem OptionRun.skip_append {front : List α} (h : t.OptionRun front) (rest : List α) :
    t.skip (front ++ rest) = t.skip rest := by
  induction h with
  | nil => rfl
  | single htakes hsingle _ ih => rw [List.cons_append, skip_single htakes hsingle, ih]
  | value htakes _ ih => rw [List.cons_append, List.cons_append, skip_value htakes, ih]

/-- A list begins with options, and ends with one that lacks its value, or goes on with something else. -/
theorem options_split : ∀ l : List α,
    (∃ front rest, l = front ++ rest ∧ t.OptionRun front ∧ t.Stops rest) ∨
      ∃ front a, l = front ++ [a] ∧ t.OptionRun front ∧ t.takes a = true
  | [] => .inl ⟨[], [], rfl, .nil, by intro a ha; cases ha⟩
  | a :: rest => by
    cases htakes : t.takes a with
    | true =>
      match rest with
      | [] => exact .inr ⟨[], a, rfl, .nil, htakes⟩
      | v :: rest' =>
        rcases options_split rest' with ⟨front, more, rfl, hrun, hstop⟩ | ⟨front, b, rfl, hrun, hb⟩
        · exact .inl ⟨a :: v :: front, more, rfl, .value htakes hrun, hstop⟩
        · exact .inr ⟨a :: v :: front, b, rfl, .value htakes hrun, hb⟩
    | false =>
      cases hsingle : t.single a with
      | true =>
        rcases options_split rest with ⟨front, more, rfl, hrun, hstop⟩ | ⟨front, b, rfl, hrun, hb⟩
        · exact .inl ⟨a :: front, more, rfl, .single htakes hsingle hrun, hstop⟩
        · exact .inr ⟨a :: front, b, rfl, .single htakes hsingle hrun, hb⟩
      | false =>
        refine .inl ⟨[], a :: rest, rfl, .nil, ?_⟩
        intro b hb
        obtain rfl := Option.some.inj hb
        exact ⟨htakes, hsingle⟩

/-- **What is skipped is a sequence of options, and what is left does not begin with one.** -/
theorem skip_eq_some_iff {l rest : List α} :
    t.skip l = some rest ↔ ∃ front, l = front ++ rest ∧ t.OptionRun front ∧ t.Stops rest := by
  constructor
  · intro h
    rcases options_split (t := t) l with ⟨front, more, rfl, hrun, hstop⟩ | ⟨front, a, rfl, hrun, ha⟩
    · rw [hrun.skip_append, skip_of_stops hstop] at h
      obtain rfl := Option.some.inj h
      exact ⟨front, rfl, hrun, hstop⟩
    · rw [hrun.skip_append, skip_missing ha] at h
      cases h
  · rintro ⟨front, rfl, hrun, hstop⟩
    rw [hrun.skip_append, skip_of_stops hstop]

/-- **It fails exactly if the list ends with an option that lacks its value.** -/
theorem skip_eq_none_iff {l : List α} :
    t.skip l = none ↔ ∃ front a, l = front ++ [a] ∧ t.OptionRun front ∧ t.takes a = true := by
  constructor
  · intro h
    rcases options_split (t := t) l with ⟨front, more, rfl, hrun, hstop⟩ | hmissing
    · rw [hrun.skip_append, skip_of_stops hstop] at h
      cases h
    · exact hmissing
  · rintro ⟨front, a, rfl, hrun, ha⟩
    rw [hrun.skip_append, skip_missing ha]

end OptionTable

end Zeptoclaw

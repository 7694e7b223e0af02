import Mathlib.Data.Int.LeastGreatest
import Mathlib.Order.Bounds.Basic
import Zeptoclaw.Spec.Cron

/-!
# The next run is the least match

The search goes through the minutes of 366 days. It gives the first that the fields allow (`next_run_least`), so an
expression whose runs are further apart has none, and passes for invalid, at some times of the clock (`valid_iff`).
-/

namespace Zeptoclaw

open Calendar

/-! ## Fields -/

/-- A field allows any value of its range, the values at a distance, or those of a list. -/
def FieldAllows (field : Str) (lo hi v : ℕ) : Prop :=
  (lo ≤ v ∧ v ≤ hi) ∧
    (field = "*".toList ∨
      match field with
      | '*' :: '/' :: stepStr => ∃ step, parseU32 stepStr = some step ∧ step ∣ v - lo
      | _ => ∃ part ∈ field.splitOn ',', parseU32 part = some v)

theorem fieldAllows_star (lo hi v : ℕ) : FieldAllows "*".toList lo hi v ↔ lo ≤ v ∧ v ≤ hi :=
  ⟨And.left, fun h => ⟨h, .inl rfl⟩⟩

theorem fieldAllows_step (stepStr : Str) (lo hi v : ℕ) : FieldAllows ('*' :: '/' :: stepStr) lo hi v ↔
    (lo ≤ v ∧ v ≤ hi) ∧ ∃ step, parseU32 stepStr = some step ∧ step ∣ v - lo := by
  have hstar : '*' :: '/' :: stepStr ≠ "*".toList := nofun
  unfold FieldAllows
  rw [or_iff_right hstar]
  exact Iff.rfl

theorem fieldAllows_list {field : Str} (hstar : field ≠ "*".toList) (hlist : ∀ stepStr, field = '*' :: '/' :: stepStr → False)
    (lo hi v : ℕ) : FieldAllows field lo hi v ↔ (lo ≤ v ∧ v ≤ hi) ∧ ∃ part ∈ field.splitOn ',', parseU32 part = some v := by
  unfold FieldAllows
  rw [or_iff_right hstar]
  split
  · next stepStr => exact absurd rfl (hlist stepStr)
  · rfl

theorem mem_of_mapM {α β : Type*} {f : α → Option β} {b : β} : ∀ {l : List α} {out : List β}, l.mapM f = some out →
    (b ∈ out ↔ ∃ a ∈ l, f a = some b) := by
  intro l
  induction l with
  | nil =>
    intro out h
    obtain rfl := Option.some.inj h
    simp
  | cons a l ih =>
    intro out h
    rw [List.mapM_cons] at h
    obtain ⟨b', hb', h⟩ := Option.bind_eq_some_iff.mp h
    obtain ⟨out', hout', h⟩ := Option.bind_eq_some_iff.mp h
    obtain rfl := Option.some.inj h
    rw [List.mem_cons, ih hout', List.exists_mem_cons_iff, hb', Option.some_inj, eq_comm]

theorem mem_steps {lo hi step v : ℕ} (hle : lo ≤ hi) (hstep : step ≠ 0) :
    v ∈ List.range' lo ((hi - lo) / step + 1) step ↔ (lo ≤ v ∧ v ≤ hi) ∧ step ∣ v - lo := by
  rw [List.mem_range']
  constructor
  · rintro ⟨i, hi', rfl⟩
    have hmul : step * i ≤ hi - lo := (Nat.mul_le_mul_left step (by omega)).trans (Nat.mul_div_le (hi - lo) step)
    exact ⟨by omega, i, by omega⟩
  · rintro ⟨⟨hlo, hhi⟩, i, hi'⟩
    refine ⟨i, ?_, by omega⟩
    have hdiv : i ≤ (hi - lo) / step := (Nat.le_div_iff_mul_le (Nat.pos_of_ne_zero hstep)).mpr (by rw [Nat.mul_comm]; omega)
    omega

/-- **The values of a field that is parsed are those that it allows.** -/
theorem mem_parseCronField {field : Str} {lo hi v : ℕ} (hle : lo ≤ hi) {values : List ℕ}
    (h : parseCronField field lo hi = some values) : v ∈ values ↔ FieldAllows field lo hi v := by
  unfold parseCronField at h
  by_cases hstar : field = "*".toList
  · rw [if_pos hstar] at h
    obtain rfl := Option.some.inj h
    rw [List.mem_range'_1, hstar, fieldAllows_star]
    omega
  · rw [if_neg hstar] at h
    split at h
    · next stepStr =>
      rw [fieldAllows_step]
      cases hparse : parseU32 stepStr with
      | none =>
        rw [hparse] at h
        cases h
      | some step =>
        rw [hparse] at h
        dsimp only at h
        split at h
        · cases h
        · next hstep =>
          obtain rfl := Option.some.inj h
          rw [mem_steps hle hstep]
          simp only [Option.some.injEq, exists_eq_left']
    · next hlist =>
      rw [mem_of_mapM h, fieldAllows_list hstar hlist]
      constructor
      · rintro ⟨part, hmem, hpart⟩
        cases hparse : parseU32 part with
        | none =>
          rw [hparse] at hpart
          cases hpart
        | some value =>
          rw [hparse] at hpart
          dsimp only at hpart
          split at hpart
          · next hrange =>
            obtain rfl := Option.some.inj hpart
            exact ⟨hrange, part, hmem, hparse⟩
          · cases hpart
      · rintro ⟨hrange, part, hmem, hparse⟩
        exact ⟨part, hmem, by rw [hparse]; exact if_pos hrange⟩

/-- The five fields of an expression. -/
structure CronFields where
  minute : Str
  hour : Str
  dom : Str
  month : Str
  dow : Str

namespace CronFields

/-- The expression has these fields. -/
def Of (f : CronFields) (expr : Str) : Prop := Text.splitWhitespace expr = [f.minute, f.hour, f.dom, f.month, f.dow]

/-- All fields are parsed. -/
structure Parses (f : CronFields) : Prop where
  minute : (parseCronField f.minute 0 59).isSome
  hour : (parseCronField f.hour 0 23).isSome
  dom : (parseCronField f.dom 1 31).isSome
  month : (parseCronField f.month 1 12).isSome
  dow : (parseCronField f.dow 0 6).isSome

/-- All fields allow a time. -/
structure Allows (cal : Calendar) (f : CronFields) (t : ℤ) : Prop where
  minute : FieldAllows f.minute 0 59 (cal.minute t)
  hour : FieldAllows f.hour 0 23 (cal.hour t)
  dom : FieldAllows f.dom 1 31 (cal.day t)
  month : FieldAllows f.month 1 12 (cal.month t)
  dow : FieldAllows f.dow 0 6 (cal.weekday t)

/-- The minutes after a time that all fields allow. -/
def Runs (cal : Calendar) (f : CronFields) (now : ℤ) : Set ℤ := {t | now < t ∧ minuteMs ∣ t ∧ f.Allows cal t}

end CronFields

/-! ## The search -/

namespace Calendar

/-- The times with a date are those of an interval that begins with a minute. -/
structure Lawful (cal : Calendar) : Prop where
  convex : ∀ s t u, cal.inRange s → cal.inRange u → s ≤ t → t ≤ u → cal.inRange t
  minute : ∀ t, cal.inRange t → cal.inRange (t - t % minuteMs)

/-- The next minute. -/
def nextMinute (now : ℤ) : ℤ := now - now % minuteMs + minuteMs

/-- The end of the year that is searched. -/
def searchLimit (now : ℤ) : ℤ := nextMinute now + 366 * dayMs

theorem le_searchLimit (now : ℤ) : now < nextMinute now ∧ nextMinute now ≤ searchLimit now := by
  have hmod := Int.emod_lt_of_pos now (show 0 < minuteMs by decide)
  unfold searchLimit nextMinute minuteMs dayMs at *
  omega

variable {cal : Calendar} {hit : ℤ → Bool} {limit : ℤ}

/-- A candidate of the search that is hit. -/
structure Candidate (hit : ℤ → Bool) (limit candidate t : ℤ) : Prop where
  ge : candidate ≤ t
  le : t ≤ limit
  minutes : minuteMs ∣ t - candidate
  isHit : hit t = true

theorem Candidate.next {candidate t : ℤ} (h : Candidate hit limit candidate t) (hmiss : hit candidate = false) :
    Candidate hit limit (candidate + minuteMs) t := by
  have hne : t ≠ candidate := by
    rintro rfl
    exact absurd h.isHit (by rw [hmiss]; decide)
  obtain ⟨k, hk⟩ := h.minutes
  have hge := h.ge
  unfold minuteMs at *
  exact ⟨by omega, h.le, ⟨k - 1, by unfold minuteMs; omega⟩, h.isHit⟩

theorem Candidate.previous {candidate t : ℤ} (h : Candidate hit limit (candidate + minuteMs) t) :
    Candidate hit limit candidate t := by
  obtain ⟨k, hk⟩ := h.minutes
  have hge := h.ge
  unfold minuteMs at *
  exact ⟨by omega, h.le, ⟨k + 1, by unfold minuteMs; omega⟩, h.isHit⟩

theorem add_eq_some {t millis u : ℤ} : cal.add t millis = some u ↔ cal.inRange u ∧ u = t + millis := by
  unfold add
  split
  · next hrange =>
    rw [Option.some_inj]
    exact ⟨fun heq => ⟨heq ▸ hrange, heq.symm⟩, fun h => h.2.symm⟩
  · next hrange =>
    refine iff_of_false (fun h => nomatch h) ?_
    rintro ⟨h, rfl⟩
    exact hrange h

/-- What is found is a candidate. -/
theorem candidate_of_searchFrom {t : ℤ} : ∀ {fuel : ℕ} {candidate : ℤ},
    cal.searchFrom hit limit fuel candidate = some (some t) → Candidate hit limit candidate t := by
  intro fuel
  induction fuel with
  | zero =>
    intro candidate h
    cases h
  | succ fuel ih =>
    intro candidate h
    rw [searchFrom] at h
    split at h
    · next hle =>
      split at h
      · next hhit =>
        cases h
        exact ⟨le_rfl, hle, by simp, hhit⟩
      · split at h
        · cases h
        · next c hadd =>
          obtain ⟨-, rfl⟩ := add_eq_some.mp hadd
          exact (ih h).previous
    · cases h

/-- The least candidate is found, if the times up to it have dates. -/
theorem searchFrom_found {t : ℤ} : ∀ {fuel : ℕ} {candidate : ℤ}, limit < candidate + minuteMs * (fuel - 1) →
    Candidate hit limit candidate t → (∀ u, Candidate hit limit candidate u → t ≤ u) →
    (∀ u, candidate ≤ u → u ≤ t → cal.inRange u) → cal.searchFrom hit limit fuel candidate = some (some t) := by
  intro fuel
  induction fuel with
  | zero =>
    intro candidate hfuel ht _ _
    have hge := ht.ge
    have hle := ht.le
    unfold minuteMs at hfuel
    omega
  | succ fuel ih =>
    intro candidate hfuel ht hleast hrange
    have hle := ht.ge.trans ht.le
    rw [searchFrom, if_pos hle]
    by_cases hhit : hit candidate = true
    · have heq : t = candidate := le_antisymm (hleast candidate ⟨le_rfl, hle, by simp, hhit⟩) ht.ge
      rw [if_pos hhit, heq]
    · have hnext := ht.next (Bool.eq_false_iff.mpr hhit)
      have hstep : candidate ≤ candidate + minuteMs := by unfold minuteMs; omega
      rw [if_neg hhit, add_eq_some.mpr ⟨hrange _ hstep hnext.ge, rfl⟩]
      refine ih ?_ hnext (fun u hu => hleast u hu.previous) fun u hu => hrange u (hstep.trans hu)
      push_cast at hfuel
      unfold minuteMs at *
      omega

/-- Nothing is found if there is no candidate, and the times up to the minute behind the limit have dates. -/
theorem searchFrom_none : ∀ {fuel : ℕ} {candidate : ℤ}, limit < candidate + minuteMs * (fuel - 1) →
    candidate ≤ limit + minuteMs → (∀ u, ¬ Candidate hit limit candidate u) →
    (∀ u, candidate ≤ u → u ≤ limit + minuteMs → cal.inRange u) → cal.searchFrom hit limit fuel candidate = some none := by
  intro fuel
  induction fuel with
  | zero =>
    intro candidate hfuel hend _ _
    unfold minuteMs at *
    omega
  | succ fuel ih =>
    intro candidate hfuel hend hnone hrange
    rw [searchFrom]
    by_cases hle : candidate ≤ limit
    · have hmiss : ¬ hit candidate = true := fun hhit => hnone candidate ⟨le_rfl, hle, by simp, hhit⟩
      have hstep : candidate ≤ candidate + minuteMs := by unfold minuteMs; omega
      have hend' : candidate + minuteMs ≤ limit + minuteMs := by omega
      rw [if_pos hle, if_neg hmiss, add_eq_some.mpr ⟨hrange _ hstep hend', rfl⟩]
      refine ih ?_ hend' (fun u hu => hnone u hu.previous) fun u hu => hrange u (hstep.trans hu)
      push_cast at hfuel
      unfold minuteMs at *
      omega
    · rw [if_neg hle]

/-- What is found is later than the time. -/
theorem searchYear_gt {now t : ℤ} (h : cal.searchYear hit now = some (some t)) : now < t := by
  unfold searchYear at h
  split at h
  · obtain ⟨candidate, hadd, h⟩ := Option.bind_eq_some_iff.mp h
    obtain ⟨limit, -, h⟩ := Option.bind_eq_some_iff.mp h
    obtain ⟨-, rfl⟩ := add_eq_some.mp hadd
    exact (le_searchLimit now).1.trans_le (candidate_of_searchFrom h).ge
  · cases h

theorem nextRunFromCronExpr_gt {expr : Str} {now t : ℤ} (h : cal.nextRunFromCronExpr expr now = some (some t)) : now < t := by
  unfold nextRunFromCronExpr at h
  split at h
  · split at h
    · exact searchYear_gt h
    · cases h
  · cases h

/-- A search for which the library has dates goes from the next minute to the limit. -/
theorem searchYear_eq (hlawful : cal.Lawful) {now : ℤ} (hnow : cal.inRange now) (hlimit : cal.inRange (searchLimit now)) :
    cal.searchYear hit now = cal.searchFrom hit (searchLimit now) (366 * 24 * 60 + 2) (nextMinute now) := by
  obtain ⟨hnext, hle⟩ := le_searchLimit now
  have hcandidate : cal.inRange (nextMinute now) := hlawful.convex now _ _ hnow hlimit hnext.le hle
  unfold searchYear
  rw [if_pos ⟨hnow, hlawful.minute now hnow⟩, add_eq_some.mpr ⟨hcandidate, rfl⟩]
  exact congrArg (Option.bind · _) (add_eq_some.mpr ⟨hlimit, rfl⟩)

theorem searchLimit_lt (now : ℤ) : searchLimit now < nextMinute now + minuteMs * ((366 * 24 * 60 + 2 : ℕ) - 1) := by
  unfold searchLimit minuteMs dayMs
  omega

/-- A minute after a time up to the limit is a candidate. -/
theorem candidate_iff {now t : ℤ} : Candidate hit (searchLimit now) (nextMinute now) t ↔
    now < t ∧ minuteMs ∣ t ∧ hit t = true ∧ t ≤ searchLimit now := by
  have hdvd : minuteMs ∣ nextMinute now := by
    unfold nextMinute minuteMs
    omega
  obtain ⟨hnext, -⟩ := le_searchLimit now
  constructor
  · intro h
    exact ⟨hnext.trans_le h.ge, by simpa using Int.dvd_add h.minutes hdvd, h.isHit, h.le⟩
  · rintro ⟨hlt, hmul, hhit, hle⟩
    refine ⟨?_, hle, Int.dvd_sub hmul hdvd, hhit⟩
    unfold nextMinute minuteMs at *
    omega

end Calendar

/-! ## Expressions -/

section Expressions

variable {cal : Calendar} {f : CronFields} {expr : Str}

/-- An expression is searched for the times that its fields allow. -/
theorem nextRunFromCronExpr_eq (cal : Calendar) (hexpr : f.Of expr) (hparse : f.Parses) :
    ∃ hit : ℤ → Bool, (∀ t, hit t = true ↔ f.Allows cal t) ∧
      ∀ now, cal.nextRunFromCronExpr expr now = cal.searchYear hit now := by
  obtain ⟨minutes, hminutes⟩ := Option.isSome_iff_exists.mp hparse.minute
  obtain ⟨hours, hhours⟩ := Option.isSome_iff_exists.mp hparse.hour
  obtain ⟨dom, hdom⟩ := Option.isSome_iff_exists.mp hparse.dom
  obtain ⟨month, hmonth⟩ := Option.isSome_iff_exists.mp hparse.month
  obtain ⟨dow, hdow⟩ := Option.isSome_iff_exists.mp hparse.dow
  refine ⟨cal.isHit minutes hours dom month dow, fun t => ?_, fun now => ?_⟩
  · unfold isHit
    simp only [Bool.and_eq_true, List.contains_iff_mem]
    rw [mem_parseCronField (by decide) hminutes, mem_parseCronField (by decide) hhours, mem_parseCronField (by decide) hdom,
      mem_parseCronField (by decide) hmonth, mem_parseCronField (by decide) hdow]
    exact ⟨fun ⟨⟨⟨⟨h0, h1⟩, h2⟩, h3⟩, h4⟩ => ⟨h0, h1, h2, h3, h4⟩,
      fun h => ⟨⟨⟨⟨h.minute, h.hour⟩, h.dom⟩, h.month⟩, h.dow⟩⟩
  · unfold Calendar.nextRunFromCronExpr
    rw [show Text.splitWhitespace expr = _ from hexpr]
    dsimp only
    rw [hminutes, hhours, hdom, hmonth, hdow]

theorem mem_runs_iff {hit : ℤ → Bool} (hhit : ∀ t, hit t = true ↔ f.Allows cal t) {now t : ℤ} :
    Candidate hit (searchLimit now) (nextMinute now) t ↔ t ∈ f.Runs cal now ∧ t ≤ searchLimit now := by
  rw [candidate_iff, hhit]
  exact ⟨fun ⟨h0, h1, h2, h3⟩ => ⟨⟨h0, h1, h2⟩, h3⟩, fun ⟨⟨h0, h1, h2⟩, h3⟩ => ⟨h0, h1, h2, h3⟩⟩

/-- The least of the runs up to the limit, if there are any. -/
theorem exists_least_run {now : ℤ} (h : ∃ t ∈ f.Runs cal now, t ≤ searchLimit now) :
    ∃ t, IsLeast (f.Runs cal now) t ∧ t ≤ searchLimit now := by
  classical
  obtain ⟨t, ht, hle⟩ := h
  obtain ⟨least, hleast, hmin⟩ := Int.exists_least_of_bdd (P := (· ∈ f.Runs cal now)) ⟨now, fun u hu => hu.1.le⟩ ⟨t, ht⟩
  exact ⟨least, ⟨hleast, hmin⟩, (hmin t ht).trans hle⟩

/-- A run within the year is found if the year has dates. -/
theorem nextRun_found (hlawful : cal.Lawful) (hexpr : f.Of expr) (hparse : f.Parses) {now t : ℤ} (hnow : cal.inRange now)
    (hlimit : cal.inRange (searchLimit now)) (ht : IsLeast (f.Runs cal now) t) (hle : t ≤ searchLimit now) :
    cal.nextRunFromCronExpr expr now = some (some t) := by
  obtain ⟨hit, hhit, hsearch⟩ := nextRunFromCronExpr_eq cal hexpr hparse
  obtain ⟨hnext, -⟩ := le_searchLimit now
  rw [hsearch, searchYear_eq hlawful hnow hlimit]
  refine searchFrom_found (searchLimit_lt now) ((mem_runs_iff hhit).mpr ⟨ht.1, hle⟩) (fun u hu => ?_) fun u hu hu' => ?_
  · exact ht.2 ((mem_runs_iff hhit).mp hu).1
  · exact hlawful.convex now u _ hnow hlimit (hnext.le.trans hu) (hu'.trans hle)

/-- **The next run is the least match**: where the library has dates for the searched year and the minute behind it, the
earliest minute after the time that all fields allow is found, and none exactly if the year has no such minute. Where it has
none for the time itself, none is found. -/
theorem next_run_least (hlawful : cal.Lawful) (hexpr : f.Of expr) (hparse : f.Parses) (now : ℤ) :
    (¬ cal.inRange now → cal.nextRunFromCronExpr expr now = some none) ∧
      (cal.inRange now → cal.inRange (searchLimit now + minuteMs) → ∃ run, cal.nextRunFromCronExpr expr now = some run ∧
        (∀ t, run = some t ↔ IsLeast (f.Runs cal now) t ∧ t ≤ searchLimit now) ∧
        (run = none ↔ ∀ t ∈ f.Runs cal now, searchLimit now < t)) := by
  obtain ⟨hit, hhit, hsearch⟩ := nextRunFromCronExpr_eq cal hexpr hparse
  constructor
  · intro hnow
    rw [hsearch, searchYear, if_neg fun h => hnow h.1]
  · intro hnow hend
    obtain ⟨hnext, hle⟩ := le_searchLimit now
    have hstep : searchLimit now ≤ searchLimit now + minuteMs := by unfold minuteMs; omega
    have hlimit := hlawful.convex now _ _ hnow hend (hnext.le.trans hle) hstep
    by_cases hrun : ∃ t ∈ f.Runs cal now, t ≤ searchLimit now
    · obtain ⟨t, ht, htle⟩ := exists_least_run hrun
      refine ⟨some t, nextRun_found hlawful hexpr hparse hnow hlimit ht htle, fun u => ?_, ?_⟩
      · rw [Option.some_inj]
        exact ⟨fun heq => heq ▸ ⟨ht, htle⟩, fun hu => ht.unique hu.1⟩
      · exact iff_of_false (Option.some_ne_none t) fun hall => absurd (hall t ht.1) (not_lt.mpr htle)
    · have hnone : ∀ t ∈ f.Runs cal now, searchLimit now < t := fun t ht => not_le.mp fun hle => hrun ⟨t, ht, hle⟩
      refine ⟨none, ?_, fun u => ?_, iff_of_true rfl hnone⟩
      · rw [hsearch, searchYear_eq hlawful hnow hlimit]
        refine searchFrom_none (searchLimit_lt now) (hle.trans hstep) (fun u hu => ?_) fun u hu hu' => ?_
        · exact hrun ⟨u, (mem_runs_iff hhit).mp hu⟩
        · exact hlawful.convex now u _ hnow hend (hnext.le.trans hu) hu'
      · exact iff_of_false (by simp) fun hu => hrun ⟨u, hu.1.1, hu.2⟩

/-- **An expression is valid at a time of the clock exactly if it runs within the year from then on**, and the library has
dates for this year. -/
theorem valid_iff (hlawful : cal.Lawful) (hexpr : f.Of expr) (hparse : f.Parses) (now : ℤ) :
    (cal.isValidCronExpr expr now = some true ∧ ∃ t, cal.nextRunAt (.cron expr) now = some (some t) ∧ now < t) ↔
      cal.inRange now ∧ cal.inRange (searchLimit now) ∧ ∃ t ∈ f.Runs cal now, t ≤ searchLimit now := by
  obtain ⟨hit, hhit, hsearch⟩ := nextRunFromCronExpr_eq cal hexpr hparse
  constructor
  · rintro ⟨-, t, hnext, hlt⟩
    have hfound : cal.searchYear hit now = some (some t) := (hsearch now).symm.trans hnext
    have hnow : cal.inRange now := by
      by_contra hno
      rw [searchYear, if_neg fun h => hno h.1] at hfound
      cases hfound
    have hlimit : cal.inRange (searchLimit now) := by
      unfold searchYear at hfound
      rw [if_pos ⟨hnow, hlawful.minute now hnow⟩] at hfound
      obtain ⟨candidate, hadd, hfound⟩ := Option.bind_eq_some_iff.mp hfound
      obtain ⟨limit, hadd', -⟩ := Option.bind_eq_some_iff.mp hfound
      obtain ⟨-, rfl⟩ := add_eq_some.mp hadd
      obtain ⟨hrange, rfl⟩ := add_eq_some.mp hadd'
      exact hrange
    rw [searchYear_eq hlawful hnow hlimit] at hfound
    exact ⟨hnow, hlimit, t, (mem_runs_iff hhit).mp (candidate_of_searchFrom hfound)⟩
  · rintro ⟨hnow, hlimit, hrun⟩
    obtain ⟨t, ht, hle⟩ := exists_least_run hrun
    have hfound := nextRun_found hlawful hexpr hparse hnow hlimit ht hle
    refine ⟨?_, t, hfound, ht.1.1⟩
    unfold isValidCronExpr
    rw [hfound]
    rfl

end Expressions

/-! ## Runs in the Gregorian calendar -/

theorem gregorian_lawful : gregorian.Lawful := by
  constructor
  · intro s t u hs hu hst htu
    simp only [gregorian, Bool.and_eq_true, decide_eq_true_eq] at *
    omega
  · intro t ht
    simp only [gregorian, minuteMs, Bool.and_eq_true, decide_eq_true_eq] at *
    omega

/-- Each quarter of an hour on Mondays. -/
def quarters : CronFields := ⟨"*/15".toList, "*".toList, "*".toList, "*".toList, "1".toList⟩

theorem quarters_parses : quarters.Parses := ⟨by decide, by decide, by decide, by decide, by decide⟩

theorem next_run_least_quarters : ∃ run, gregorian.nextRunFromCronExpr "*/15 * * * 1".toList 1700000000000 = some run ∧
    (∀ t, run = some t ↔ IsLeast (quarters.Runs gregorian 1700000000000) t ∧ t ≤ searchLimit 1700000000000) ∧
      (run = none ↔ ∀ t ∈ quarters.Runs gregorian 1700000000000, searchLimit 1700000000000 < t) :=
  (next_run_least gregorian_lawful (by unfold CronFields.Of; decide +kernel) quarters_parses 1700000000000).2
    (by decide) (by decide)

def everyMinute : CronFields := ⟨"*".toList, "*".toList, "*".toList, "*".toList, "*".toList⟩

/-- Less than a year before the last date of the library the limit of the search has none. -/
theorem next_run_overflows : ¬ ∀ (cal : Calendar) (f : CronFields) (expr : Str) (now : ℤ), cal.Lawful → f.Of expr →
    f.Parses → cal.inRange now → ∃ run, cal.nextRunFromCronExpr expr now = some run ∧
      ∀ t, run = some t ↔ IsLeast (f.Runs cal now) t ∧ t ≤ searchLimit now := by
  intro hall
  obtain ⟨run, hrun, -⟩ := hall gregorian everyMinute "* * * * *".toList 8210266800000000 gregorian_lawful
    (by unfold CronFields.Of; decide +kernel) ⟨by decide, by decide, by decide, by decide, by decide⟩ (by decide)
  have hpanic : gregorian.nextRunFromCronExpr "* * * * *".toList 8210266800000000 = none := by decide +kernel
  rw [hpanic] at hrun
  cases hrun

/-- Midnight on each 29 February. -/
def leapDay : CronFields := ⟨"0".toList, "0".toList, "29".toList, "2".toList, "*".toList⟩

def leapDayExpr : Str := "0 0 29 2 *".toList

theorem leapDay_of : leapDay.Of leapDayExpr := by
  unfold CronFields.Of
  decide +kernel

theorem leapDay_parses : leapDay.Parses := ⟨by decide, by decide, by decide, by decide, by decide⟩

theorem valid_iff_leapDay :
    (gregorian.isValidCronExpr leapDayExpr 1700000000000 = some true ∧
        ∃ t, gregorian.nextRunAt (.cron leapDayExpr) 1700000000000 = some (some t) ∧ 1700000000000 < t) ↔
      gregorian.inRange 1700000000000 ∧ gregorian.inRange (searchLimit 1700000000000) ∧
        ∃ t ∈ leapDay.Runs gregorian 1700000000000, t ≤ searchLimit 1700000000000 :=
  valid_iff gregorian_lawful leapDay_of leapDay_parses 1700000000000

/-- The times of such a run are on that date. -/
theorem leapDay_allows {t : ℤ} (h : leapDay.Allows gregorian t) : gregorian.day t = 29 ∧ gregorian.month t = 2 := by
  have hday := (mem_parseCronField (by decide) (show parseCronField "29".toList 1 31 = some [29] by decide)).mpr h.dom
  have hmonth := (mem_parseCronField (by decide) (show parseCronField "2".toList 1 12 = some [2] by decide)).mpr h.month
  exact ⟨List.mem_singleton.mp hday, List.mem_singleton.mp hmonth⟩

/-- 2024-02-29. -/
theorem leapDay_run : leapDay.Allows gregorian 1709164800000 := by
  have hall : ∀ {field : Str} {lo hi v : ℕ} {values : List ℕ}, lo ≤ hi → parseCronField field lo hi = some values →
      v ∈ values → FieldAllows field lo hi v := fun hle hparse hmem => (mem_parseCronField hle hparse).mp hmem
  exact ⟨hall (by decide) rfl (by decide), hall (by decide) rfl (by decide), hall (by decide) rfl (by decide),
    hall (by decide) rfl (by decide), hall (by decide) rfl (by decide)⟩

/-- From 2024-03-01 on, more than a year has no such date. -/
theorem no_leap_day : (List.range 368).all (fun k : ℕ =>
    !(Gregorian.dayOfMonth (19783 + k) == 29 && Gregorian.monthOf (19783 + k) == 2)) = true := by decide +kernel

/-- An expression that is run on 29 February is not valid on 1 March. -/
theorem valid_depends_on_clock : ¬ ∀ (cal : Calendar) (f : CronFields) (expr : Str) (now : ℤ), cal.Lawful → f.Of expr →
    f.Parses → (∃ t, minuteMs ∣ t ∧ f.Allows cal t) → cal.isValidCronExpr expr now = some true := by
  intro hall
  have hvalid := hall gregorian leapDay leapDayExpr 1709251200000 gregorian_lawful leapDay_of leapDay_parses
    ⟨1709164800000, by decide, leapDay_run⟩
  obtain ⟨run, hrun, hsome⟩ := Option.map_eq_some_iff.mp hvalid
  obtain ⟨t, rfl⟩ := Option.isSome_iff_exists.mp hsome
  obtain ⟨hit, hhit, hsearch⟩ := nextRunFromCronExpr_eq gregorian leapDay_of leapDay_parses
  rw [hsearch, searchYear_eq gregorian_lawful (by decide) (by decide)] at hrun
  obtain ⟨⟨hlt, -, hallows⟩, hle⟩ := (mem_runs_iff hhit).mp (candidate_of_searchFrom hrun)
  obtain ⟨hday, hmonth⟩ := leapDay_allows hallows
  have hlimit : searchLimit 1709251200000 = 1740873660000 := by decide
  obtain ⟨k, hk⟩ : ∃ k : ℕ, t / 86400000 = 19783 + k := ⟨(t / 86400000 - 19783).toNat, by omega⟩
  have hmem : k ∈ List.range 368 := List.mem_range.mpr (by omega)
  have hno := List.all_eq_true.mp no_leap_day k hmem
  rw [← hk, show Gregorian.dayOfMonth (t / 86400000) = 29 from hday,
    show Gregorian.monthOf (t / 86400000) = 2 from hmonth] at hno
  cases hno

end Zeptoclaw

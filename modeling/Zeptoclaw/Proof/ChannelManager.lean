import Zeptoclaw.Spec.ChannelManager

/-!
# What the supervisor does over a run

* `restarts_eq_supervised`: the restarts of a run are those that the history allows. A channel
  is restarted when it was started and is found dead, its five restarts are not used up, and
  each of them was over a minute ago (`MayRestart`). The supervisor keeps a count and the last
  instant of each channel; `Tracks` says that these are what the history tells.
* `ready_iff`: with a registry in which nothing else is down, the program reports that it is
  ready exactly as long as no channel has used up its restarts, and never again after that.
-/

namespace Zeptoclaw

/-! ## The purpose, over the history -/

/-- The restarts of a channel. -/
def restartsOf (name : Str) (log : List Visit) : List Visit := log.filter fun r => decide (r.name = name)

/-- The channel may be restarted after the restarts of the history. -/
def MayRestart (started : List Str) (log : List Visit) (v : Visit) : Prop :=
  v.name ∈ started ∧ v.running = false ∧ (restartsOf v.name log).length < supervisorMaxRestarts ∧
    ∀ r ∈ restartsOf v.name log, r.done + supervisorCooldownSecs * 1000000000 ≤ v.now

instance (started : List Str) (log : List Visit) (v : Visit) : Decidable (MayRestart started log v) :=
  inferInstanceAs (Decidable (_ ∧ _))

/-- The restarts that the history allows. -/
def supervised (started : List Str) (visits : List Visit) : List Visit :=
  visits.foldl (fun log v => if MayRestart started log v then log ++ [v] else log) []

theorem restartsOf_concat (name : Str) (log : List Visit) (v : Visit) :
    restartsOf name (log ++ [v]) = if v.name = name then restartsOf name log ++ [v] else restartsOf name log := by
  unfold restartsOf
  rw [List.filter_append, List.filter_singleton]
  by_cases h : v.name = name
  · simp only [h, decide_true, Bool.cond_true, if_true]
  · simp only [h, decide_false, Bool.cond_false, if_false, List.append_nil]

theorem supervised_concat (started : List Str) (visits : List Visit) (v : Visit) :
    supervised started (visits ++ [v]) =
      if MayRestart started (supervised started visits) v then supervised started visits ++ [v]
      else supervised started visits := by
  unfold supervised
  rw [List.foldl_append]
  rfl

theorem supervised_sublist (started : List Str) (visits : List Visit) : (supervised started visits).Sublist visits := by
  induction visits using List.reverseRecOn with
  | nil => exact List.Sublist.refl _
  | append_singleton visits v ih =>
    rw [supervised_concat]
    split
    · exact ih.append_right [v]
    · exact ih.trans (List.sublist_append_left _ _)

/-- Each restart was allowed by those before it. -/
theorem mayRestart_of_supervised {started : List Str} {visits before after : List Visit} {v : Visit}
    (h : supervised started visits = before ++ v :: after) : MayRestart started before v := by
  induction visits using List.reverseRecOn generalizing after with
  | nil => exact absurd h.symm (List.append_ne_nil_of_right_ne_nil _ (List.cons_ne_nil v after))
  | append_singleton visits w ih =>
    rw [supervised_concat] at h
    split at h
    · next hw =>
      induction after using List.reverseRecOn with
      | nil =>
        obtain ⟨rfl, hv⟩ := List.append_inj' h rfl
        obtain ⟨rfl, -⟩ := List.cons.inj hv
        exact hw
      | append_singleton after u _ =>
        rw [← List.cons_append, ← List.append_assoc] at h
        exact ih (List.append_inj' h rfl).1
    · exact ih h

/-- **No channel is restarted more than five times.** -/
theorem restartsOf_supervised_length (started : List Str) (visits : List Visit) (name : Str) :
    (restartsOf name (supervised started visits)).length ≤ supervisorMaxRestarts := by
  induction visits using List.reverseRecOn with
  | nil => exact Nat.zero_le _
  | append_singleton visits v ih =>
    rw [supervised_concat]
    split
    · next hv =>
      rw [restartsOf_concat]
      split
      · next hname =>
        rw [List.length_append, List.length_singleton, ← hname]
        exact hv.2.2.1
      · exact ih
    · exact ih

/-! ## The state of the supervisor -/

namespace Supervisor

/-- The entries are those of the started channels, with what the history tells of each. -/
def Tracks (started : List Str) (s : Supervisor) : Prop :=
  ∀ name, s.entries.lookup name =
    if name ∈ started then
      some ⟨(restartsOf name s.restarts).length, (restartsOf name s.restarts).getLast?.map Visit.done, true⟩
    else none

theorem lookup_foldl_insert {ν : Type*} (f : Str → ν) : ∀ (names : List Str) (m : Assoc Str ν) (name : Str),
    (names.foldl (fun m name => AList.insert name (f name) m) m).lookup name =
      if name ∈ names then some (f name) else m.lookup name := by
  intro names
  induction names with
  | nil => exact fun m name => (if_neg List.not_mem_nil).symm
  | cons n names ih =>
    intro m name
    rw [List.foldl_cons, ih, Assoc.lookup_insert]
    by_cases hmem : name ∈ names
    · rw [if_pos hmem, if_pos (List.mem_cons_of_mem n hmem)]
    · rw [if_neg hmem]
      by_cases heq : name = n
      · rw [if_pos heq, heq, if_pos List.mem_cons_self]
      · rw [if_neg heq, if_neg (List.not_mem_cons_of_ne_of_not_mem heq hmem)]

theorem tracks_start (health : Option HealthRegistry) (started : List Str) : (start health started).Tracks started :=
  fun name => lookup_foldl_insert (fun _ => SupervisorEntry.mk 0 none true) started ∅ name

/-- The last restart of a channel is the latest one. -/
theorem coolingDown_iff {rs : List Visit} (hord : rs.Pairwise fun r w => r.done ≤ w.done) (count now : ℕ) :
    SupervisorEntry.coolingDown ⟨count, rs.getLast?.map Visit.done, true⟩ now = false ↔
      ∀ r ∈ rs, r.done + supervisorCooldownSecs * 1000000000 ≤ now := by
  unfold SupervisorEntry.coolingDown elapsedSecs supervisorCooldownSecs
  induction rs using List.reverseRecOn with
  | nil => simp
  | append_singleton rs last _ =>
    rw [List.getLast?_concat, Option.map_some, Option.any_some, decide_eq_false_iff_not]
    constructor
    · intro h r hr
      have hle : r.done ≤ last.done := by
        rcases List.mem_append.mp hr with hr | hr
        · exact (List.pairwise_append.mp hord).2.2 r hr last List.mem_cons_self
        · rw [List.mem_singleton.mp hr]
      omega
    · intro h
      have hlast := h last (List.mem_append_right _ List.mem_cons_self)
      omega

/-- A visit restarts the channel if the history allows it, and otherwise changes nothing. -/
theorem visit_cases {started : List Str} {s : Supervisor} (hs : s.Tracks started)
    (hord : s.restarts.Pairwise fun r w => r.done ≤ w.done) (v : Visit) :
    (MayRestart started s.restarts v ∧ ∃ entry, s.entries.lookup v.name = some entry ∧
        entry.restartCount = (restartsOf v.name s.restarts).length ∧ s.visit v = s.restart v entry) ∨
      (¬ MayRestart started s.restarts v ∧ s.visit v = s) := by
  have hlookup := hs v.name
  by_cases hmem : v.name ∈ started
  · rw [if_pos hmem] at hlookup
    have hown : (restartsOf v.name s.restarts).Pairwise fun r w => r.done ≤ w.done := hord.filter _
    have hcool := coolingDown_iff hown (restartsOf v.name s.restarts).length v.now
    unfold visit
    rw [hlookup]
    simp only [Bool.not_true, Bool.false_eq_true, if_false]
    by_cases hrun : v.running = true
    · exact Or.inr ⟨fun h => by rw [h.2.1] at hrun; exact absurd hrun (by decide), by rw [if_pos hrun]⟩
    rw [if_neg hrun]
    by_cases hmax : supervisorMaxRestarts ≤ (restartsOf v.name s.restarts).length
    · exact Or.inr ⟨fun h => absurd h.2.2.1 (Nat.not_lt.mpr hmax), by rw [if_pos hmax]⟩
    rw [if_neg hmax]
    split
    · next hc =>
      refine Or.inr ⟨fun h => ?_, rfl⟩
      rw [hcool.mpr h.2.2.2] at hc
      exact absurd hc (by decide)
    · next hc =>
      refine Or.inl ⟨⟨hmem, Bool.eq_false_iff.mpr hrun, Nat.not_le.mp hmax, ?_⟩, _, rfl, rfl, rfl⟩
      exact hcool.mp (Bool.eq_false_iff.mpr hc)
  · rw [if_neg hmem] at hlookup
    refine Or.inr ⟨fun h => hmem h.1, ?_⟩
    unfold visit
    rw [hlookup]

/-- A restart is what the history then tells. -/
theorem Tracks.restart {started : List Str} {s : Supervisor} (hs : s.Tracks started) {v : Visit}
    (hv : v.name ∈ started) {entry : SupervisorEntry} (hentry : s.entries.lookup v.name = some entry) :
    (s.restart v entry).Tracks started := by
  intro name
  rw [hs v.name, if_pos hv, Option.some.injEq] at hentry
  subst hentry
  simp only [Supervisor.restart, Assoc.lookup_insert, restartsOf_concat]
  by_cases h : name = v.name
  · subst h
    simp only [if_true, if_pos hv, List.length_append, List.length_singleton, List.getLast?_concat, Option.map_some]
  · simp only [if_neg h, if_neg fun heq : v.name = name => h heq.symm]
    exact hs name

end Supervisor

theorem ClockOrdered.concat {visits : List Visit} {v : Visit} (h : ClockOrdered (visits ++ [v])) :
    ClockOrdered visits := by
  refine ⟨fun w hw => h.1 w (List.mem_append_left _ hw), ?_⟩
  exact (List.pairwise_append.mp h.2).1

theorem ClockOrdered.done_le {visits : List Visit} (h : ClockOrdered visits) :
    visits.Pairwise fun r w => r.done ≤ w.done := by
  refine h.2.imp_of_mem ?_
  intro r w _ hw hle
  exact Nat.le_trans hle (h.1 w hw)

/-- The supervisor after the visits, from what `start_all` leaves. -/
def superviseRun (health : Option HealthRegistry) (started : List Str) (visits : List Visit) : Supervisor :=
  runSteps Supervisor.visit (.start health started) visits

theorem superviseRun_concat (health : Option HealthRegistry) (started : List Str) (visits : List Visit) (v : Visit) :
    superviseRun health started (visits ++ [v]) = (superviseRun health started visits).visit v :=
  runSteps_concat _ _ _

/-- Over a run the restarts are those that the history allows, and the entries tell them. -/
theorem superviseRun_spec (health : Option HealthRegistry) (started : List Str) {visits : List Visit}
    (hclock : ClockOrdered visits) :
    (superviseRun health started visits).Tracks started ∧
      (superviseRun health started visits).restarts = supervised started visits := by
  induction visits using List.reverseRecOn with
  | nil => exact ⟨Supervisor.tracks_start health started, rfl⟩
  | append_singleton visits v ih =>
    obtain ⟨htracks, hlog⟩ := ih hclock.concat
    have hord : (superviseRun health started visits).restarts.Pairwise fun r w => r.done ≤ w.done := by
      rw [hlog]
      exact hclock.concat.done_le.sublist (supervised_sublist started visits)
    rw [superviseRun_concat, supervised_concat, ← hlog]
    rcases Supervisor.visit_cases htracks hord v with ⟨hmay, entry, hentry, -, heq⟩ | ⟨hmay, heq⟩
    · rw [heq, if_pos hmay]
      exact ⟨htracks.restart hmay.1 hentry, rfl⟩
    · rw [heq, if_neg hmay]
      exact ⟨htracks, rfl⟩

/-- **The supervisor restarts exactly what the history allows**: its two fields for each channel
stand for the whole history, of which at most five restarts are of one channel. -/
theorem restarts_eq_supervised (health : Option HealthRegistry) (started : List Str) {visits : List Visit}
    (hclock : ClockOrdered visits) :
    (superviseRun health started visits).restarts = supervised started visits ∧
      (∀ name, (restartsOf name (superviseRun health started visits).restarts).length ≤ supervisorMaxRestarts) ∧
      ∀ before v after, (superviseRun health started visits).restarts = before ++ v :: after →
        MayRestart started before v := by
  have hlog := (superviseRun_spec health started hclock).2
  refine ⟨hlog, fun name => ?_, fun before v after h => ?_⟩
  · rw [hlog]
    exact restartsOf_supervised_length started visits name
  · rw [hlog] at h
    exact mayRestart_of_supervised h

/-- A channel dies twice, is restarted both times, and is looked at once too early in between. -/
theorem restarts_eq_supervised_example :
    ClockOrdered [⟨['m'], false, 0, true, 5⟩, ⟨['m'], false, 59000000000, true, 59000000000⟩,
        ⟨['m'], false, 61000000000, false, 61000000000⟩] ∧
      (superviseRun none [['m']] [⟨['m'], false, 0, true, 5⟩, ⟨['m'], false, 59000000000, true, 59000000000⟩,
        ⟨['m'], false, 61000000000, false, 61000000000⟩]).restarts =
      supervised [['m']] [⟨['m'], false, 0, true, 5⟩, ⟨['m'], false, 59000000000, true, 59000000000⟩,
        ⟨['m'], false, 61000000000, false, 61000000000⟩] :=
  have hclock : ClockOrdered [⟨['m'], false, 0, true, 5⟩, ⟨['m'], false, 59000000000, true, 59000000000⟩,
      ⟨['m'], false, 61000000000, false, 61000000000⟩] := ⟨by decide, by decide⟩
  ⟨hclock, (restarts_eq_supervised none [['m']] hclock).1⟩

/-! ## What the registry says -/

namespace HealthRegistry

theorem lookup_modify (registry : HealthRegistry) (name k : Str) (f : HealthCheck → HealthCheck) :
    (registry.modify name f).lookup k = if k = name then (registry.lookup name).map f else registry.lookup k := by
  unfold modify
  cases hcheck : registry.lookup name with
  | none =>
    by_cases h : k = name
    · rw [if_pos h, h, hcheck, Option.map_none]
    · rw [if_neg h]
  | some check =>
    rw [Option.map_some]
    exact Assoc.lookup_insert _ _ _ _

theorem isReady_iff {registry : HealthRegistry} :
    registry.isReady = true ↔ ∀ name check, registry.lookup name = some check → check.status ≠ .down := by
  unfold isReady
  rw [List.all_eq_true]
  constructor
  · intro h name check hcheck
    exact of_decide_eq_true (h ⟨name, check⟩ (AList.mem_lookup_iff.mp hcheck))
  · rintro h ⟨name, check⟩ he
    exact decide_eq_true (h name check (AList.mem_lookup_iff.mpr he))

end HealthRegistry

namespace Supervisor

/-- The check of a channel after a restart: down from the fifth one on, and never down before. -/
theorem lookup_report (registry : HealthRegistry) (v : Visit) (n : ℕ) (k : Str) :
    ∃ error : HealthCheck → Option Str, (report registry v n).lookup k =
      if k = v.name then
        (registry.lookup v.name).map fun check =>
          { check with
            status := if supervisorMaxRestarts ≤ n then .down else if v.startOk then .ok else check.status
            message := if v.startOk then none else check.message
            restartCount := check.restartCount + 1
            lastError := error check }
      else registry.lookup k := by
  unfold report HealthRegistry.update HealthRegistry.bumpRestart HealthRegistry.setError
  refine ⟨fun check => if supervisorMaxRestarts ≤ n then
    some ("exceeded max restarts (".toList ++ (toString supervisorMaxRestarts).toList ++ ")".toList) else check.lastError, ?_⟩
  by_cases hk : k = v.name
  · subst hk
    cases hcheck : registry.lookup v.name <;> by_cases hmax : supervisorMaxRestarts ≤ n <;> cases hok : v.startOk <;>
      simp [HealthRegistry.lookup_modify, hcheck, hmax]
  · by_cases hmax : supervisorMaxRestarts ≤ n <;> cases hok : v.startOk <;>
      simp [HealthRegistry.lookup_modify, hk, hmax]

/-- The registry counts the restarts of each started channel and has nothing else changed. -/
def Reports (started : List Str) (others : HealthRegistry) (s : Supervisor) : Prop :=
  ∃ registry, s.health = some registry ∧ ∀ name,
    if name ∈ started then
      ∃ check, registry.lookup name = some check ∧
        check.restartCount = (restartsOf name s.restarts).length ∧
        check.status = if supervisorMaxRestarts ≤ (restartsOf name s.restarts).length then .down else .ok
    else registry.lookup name = others.lookup name

theorem reports_start (others : HealthRegistry) (started : List Str) :
    (start (some others) started).Reports started others := by
  refine ⟨started.foldl (fun registry name => registry.register { name }) others, rfl, fun name => ?_⟩
  have hlookup := lookup_foldl_insert (fun name => HealthCheck.mk name .ok none 0 none) started others name
  by_cases h : name ∈ started
  · rw [if_pos h] at hlookup ⊢
    exact ⟨_, hlookup, rfl, rfl⟩
  · rw [if_neg h] at hlookup ⊢
    exact hlookup

theorem Reports.restart {started : List Str} {others : HealthRegistry} {s : Supervisor} (hs : s.Reports started others)
    {v : Visit} (hv : v.name ∈ started) {entry : SupervisorEntry}
    (hcount : entry.restartCount = (restartsOf v.name s.restarts).length) : (s.restart v entry).Reports started others := by
  obtain ⟨registry, hreg, hchecks⟩ := hs
  refine ⟨report registry v (entry.restartCount + 1), by rw [Supervisor.restart, hreg, Option.map_some], fun name => ?_⟩
  obtain ⟨error, hlookup⟩ := lookup_report registry v (entry.restartCount + 1) name
  have hname := hchecks name
  simp only [Supervisor.restart, restartsOf_concat]
  by_cases h : name = v.name
  · subst h
    rw [if_pos hv] at hname ⊢
    obtain ⟨check, hcheck, hrestarts, hstatus⟩ := hname
    rw [if_pos rfl, hcheck, Option.map_some] at hlookup
    refine ⟨_, hlookup, ?_, ?_⟩
    · rw [if_pos rfl, List.length_append, List.length_singleton, ← hrestarts]
    · rw [if_pos rfl, List.length_append, List.length_singleton, ← hcount]
      -- a restart that fails leaves the status, which was not down yet
      rw [← hcount] at hstatus
      by_cases hmax : supervisorMaxRestarts ≤ entry.restartCount + 1
      · simp only [if_pos hmax]
      · rw [if_neg (show ¬ supervisorMaxRestarts ≤ entry.restartCount by omega)] at hstatus
        simp only [if_neg hmax, hstatus, ite_self]
  · rw [if_neg h] at hlookup
    simp only [if_neg fun heq : v.name = name => h heq.symm, hlookup]
    exact hname

end Supervisor

theorem superviseRun_reports (others : HealthRegistry) (started : List Str) {visits : List Visit}
    (hclock : ClockOrdered visits) : (superviseRun (some others) started visits).Reports started others := by
  induction visits using List.reverseRecOn with
  | nil => exact Supervisor.reports_start others started
  | append_singleton visits v ih =>
    obtain ⟨htracks, hlog⟩ := superviseRun_spec (some others) started hclock.concat
    have hord : (superviseRun (some others) started visits).restarts.Pairwise fun r w => r.done ≤ w.done := by
      rw [hlog]
      exact hclock.concat.done_le.sublist (supervised_sublist started visits)
    rw [superviseRun_concat]
    rcases Supervisor.visit_cases htracks hord v with ⟨hmay, entry, -, hcount, heq⟩ | ⟨-, heq⟩
    · rw [heq]
      exact (ih hclock.concat).restart hmay.1 hcount
    · rw [heq]
      exact ih hclock.concat

theorem supervised_grows (started : List Str) (visits more : List Visit) :
    supervised started visits <+: supervised started (visits ++ more) := by
  induction more using List.reverseRecOn with
  | nil => rw [List.append_nil]
  | append_singleton more v ih =>
    rw [← List.append_assoc, supervised_concat]
    split
    · exact ih.trans (List.prefix_append _ _)
    · exact ih

/-- No channel has used up its restarts. -/
def NoneGivenUp (started : List Str) (log : List Visit) : Prop :=
  ∀ name ∈ started, (restartsOf name log).length < supervisorMaxRestarts

theorem ready_iff_noneGivenUp {others : HealthRegistry} {started : List Str}
    (hothers : ∀ name check, name ∉ started → others.lookup name = some check → check.status ≠ .down)
    {visits : List Visit} (hclock : ClockOrdered visits) :
    ∃ registry, (superviseRun (some others) started visits).health = some registry ∧
      (registry.isReady = true ↔ NoneGivenUp started (supervised started visits)) := by
  obtain ⟨registry, hreg, hchecks⟩ := superviseRun_reports others started hclock
  rw [(superviseRun_spec (some others) started hclock).2] at hchecks
  refine ⟨registry, hreg, ?_⟩
  rw [HealthRegistry.isReady_iff]
  constructor
  · intro h name hname
    have hcheck := hchecks name
    rw [if_pos hname] at hcheck
    obtain ⟨check, hlookup, -, hstatus⟩ := hcheck
    by_contra hlen
    rw [if_pos (Nat.not_lt.mp hlen)] at hstatus
    exact h name check hlookup hstatus
  · intro h name check hlookup
    have hcheck := hchecks name
    by_cases hname : name ∈ started
    · rw [if_pos hname] at hcheck
      obtain ⟨check', hlookup', -, hstatus⟩ := hcheck
      rw [if_neg (Nat.not_le.mpr (h name hname))] at hstatus
      obtain rfl : check = check' := Option.some.inj (hlookup.symm.trans hlookup')
      rw [hstatus]
      decide
    · rw [if_neg hname] at hcheck
      exact hothers name check hname (hcheck ▸ hlookup)

/-- **The program is ready as long as no channel has used up its restarts, and once one has it never
is again**, also when the last restart succeeded and the channel runs. -/
theorem ready_iff {others : HealthRegistry} {started : List Str}
    (hothers : ∀ name check, name ∉ started → others.lookup name = some check → check.status ≠ .down)
    {visits more : List Visit} (hclock : ClockOrdered (visits ++ more)) :
    ∃ registry later, (superviseRun (some others) started visits).health = some registry ∧
      (superviseRun (some others) started (visits ++ more)).health = some later ∧
      (registry.isReady = true ↔ NoneGivenUp started (superviseRun (some others) started visits).restarts) ∧
      (later.isReady = true → registry.isReady = true) := by
  have hfirst : ClockOrdered visits :=
    ⟨fun v hv => hclock.1 v (List.mem_append_left more hv), (List.pairwise_append.mp hclock.2).1⟩
  obtain ⟨registry, hreg, hready⟩ := ready_iff_noneGivenUp hothers hfirst
  obtain ⟨later, hlater, hready'⟩ := ready_iff_noneGivenUp hothers hclock
  refine ⟨registry, later, hreg, hlater, ?_, fun h => ?_⟩
  · rw [(superviseRun_spec (some others) started hfirst).2]
    exact hready
  · refine hready.mpr fun name hname => Nat.lt_of_le_of_lt ?_ (hready'.mp h name hname)
    exact ((supervised_grows started visits more).sublist.filter _).length_le

/-- Five restarts a minute apart, all of them successful. -/
def fiveRestarts : List Visit :=
  [⟨['m'], false, 0, true, 0⟩, ⟨['m'], false, 60000000000, true, 60000000000⟩,
    ⟨['m'], false, 120000000000, true, 120000000000⟩, ⟨['m'], false, 180000000000, true, 180000000000⟩,
    ⟨['m'], false, 240000000000, true, 240000000000⟩]

theorem ready_iff_example : ClockOrdered (fiveRestarts ++ [⟨['m'], true, 300000000000, true, 300000000000⟩]) ∧
    ∃ registry later, (superviseRun (some ∅) [['m']] fiveRestarts).health = some registry ∧
      (superviseRun (some ∅) [['m']] (fiveRestarts ++ [⟨['m'], true, 300000000000, true, 300000000000⟩])).health = some later ∧
      (registry.isReady = true ↔ NoneGivenUp [['m']] (superviseRun (some ∅) [['m']] fiveRestarts).restarts) ∧
      (later.isReady = true → registry.isReady = true) :=
  have hclock : ClockOrdered (fiveRestarts ++ [⟨['m'], true, 300000000000, true, 300000000000⟩]) := ⟨by decide, by decide⟩
  have hothers : ∀ name check, name ∉ [['m']] → (∅ : HealthRegistry).lookup name = some check → check.status ≠ .down := by
    intro name check _ h
    rw [AList.lookup_empty] at h
    cases h
  ⟨hclock, ready_iff hothers hclock⟩

end Zeptoclaw

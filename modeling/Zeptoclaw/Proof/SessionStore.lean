import Zeptoclaw.Spec.SessionStore
import Mathlib.Data.Fintype.Basic

/-!
# Reading one's writes

`readsLastSave`: a look-up returns the session whose save completed last, as long as the
steps of saves and deletes of the key are not interleaved with those of other calls. A
look-up that missed the cache puts what it found there without looking again, so that a
save in between is lost (`stale_insert`).
-/

namespace Zeptoclaw

variable {ι : Type*}

/-- A save or a delete between its two steps. -/
def StorePhase.writing : StorePhase → Bool
  | .saving _ | .deleting => true
  | _ => false

/-- No save or delete of the key is in progress. -/
def StoreState.Quiet (st : StoreState ι) : Prop := ∀ i, (st.calls i).writing = false

instance [Fintype ι] (st : StoreState ι) : Decidable st.Quiet :=
  inferInstanceAs (Decidable (∀ i, (st.calls i).writing = false))

/-- Every look-up that has returned gave the session it owed. -/
def ReadsLastSave (st : StoreState ι) : Prop :=
  ∀ i owed result, st.calls i = .returned owed result → ∀ session, owed = some session → result = some session

/-- A call starts while no save or delete is in progress, and a look-up that missed the
cache puts what it found there only if no save or delete has begun since. -/
def Unraced (st : StoreState ι) : StoreInput ι → Prop
  | .start i _ => st.calls i = .idle → st.Quiet
  | .disk _ _ => True
  | .insert i => ∀ session begun completed, st.calls i = .loaded session begun completed → begun = st.begun

/-- A look-up in progress, against the saves and deletes. -/
structure LookUpOk (st : StoreState ι) (begun completed : ℕ) : Prop where
  begun_le : begun ≤ st.begun
  completed_le : completed ≤ st.completed
  quiet : begun = st.begun → st.Quiet ∧ st.kept = none
  kept : completed = st.completed → st.kept = none

/-- What the phase of a call says about the state. -/
def PhaseOk (st : StoreState ι) : StorePhase → Prop
  | .missed _ begun completed | .loaded _ begun completed => LookUpOk st begun completed
  | .returned owed result => ∀ session, owed = some session → result = some session
  | .saving session => st.cache = some session
  | _ => True

/-- The invariant of the calls on a key. -/
structure StoreOk (st : StoreState ι) : Prop where
  kept : st.Quiet → ∀ session, st.kept = some session → st.cache = some session
  writer : ∀ i j, (st.calls i).writing = true → (st.calls j).writing = true → i = j
  calls : ∀ i, PhaseOk st (st.calls i)

theorem StoreOk.reads {st : StoreState ι} (h : StoreOk st) : ReadsLastSave st := by
  intro i owed result hi
  have hc := h.calls i
  rwa [hi] at hc

/-- A look-up owes nothing that was kept before it. -/
theorem LookUpOk.owed {st : StoreState ι} {begun completed : ℕ} (h : LookUpOk st begun completed) :
    st.owed completed = none := by
  unfold StoreState.owed
  split
  · rename_i heq
    exact h.kept heq
  · rfl

section Steps

variable [DecidableEq ι] {st : StoreState ι} {cfg : StoreConfig}

theorem setCall_self (i : ι) (p : StorePhase) : (st.setCall i p).calls i = p := by
  simp [StoreState.setCall]

theorem setCall_of_ne {i j : ι} (hj : j ≠ i) (p : StorePhase) : (st.setCall i p).calls j = st.calls j := by
  simp [StoreState.setCall, hj]

theorem setCall_quiet {i : ι} {p : StorePhase} (hold : (st.calls i).writing = false) (hp : p.writing = false) :
    (st.setCall i p).Quiet ↔ st.Quiet := by
  constructor
  · intro h j
    by_cases hj : j = i
    · rwa [hj]
    · have := h j
      rwa [setCall_of_ne hj] at this
  · intro h j
    by_cases hj : j = i
    · rw [hj, setCall_self]
      exact hp
    · rw [setCall_of_ne hj]
      exact h j

/-- A call that writes nothing moves on. -/
theorem StoreOk.setCall {i : ι} {p : StorePhase} (h : StoreOk st) (hold : (st.calls i).writing = false)
    (hp : p.writing = false) (hok : PhaseOk st p) : StoreOk (st.setCall i p) := by
  have hquiet := setCall_quiet (p := p) hold hp
  have hphase : ∀ q, PhaseOk st q → PhaseOk (st.setCall i p) q := by
    intro q hq
    cases q with
    | missed create begun completed =>
      exact ⟨hq.begun_le, hq.completed_le, fun hb => ⟨hquiet.mpr (hq.quiet hb).1, (hq.quiet hb).2⟩, hq.kept⟩
    | loaded session begun completed =>
      exact ⟨hq.begun_le, hq.completed_le, fun hb => ⟨hquiet.mpr (hq.quiet hb).1, (hq.quiet hb).2⟩, hq.kept⟩
    | _ => exact hq
  refine ⟨fun hq => h.kept (hquiet.mp hq), ?_, ?_⟩
  · intro j k hj hk
    have hne : ∀ l, ((st.setCall i p).calls l).writing = true → l ≠ i := by
      rintro l hl rfl
      rw [setCall_self, hp] at hl
      cases hl
    rw [setCall_of_ne (hne j hj)] at hj
    rw [setCall_of_ne (hne k hk)] at hk
    exact h.writer j k hj hk
  · intro j
    by_cases hj : j = i
    · rw [hj, setCall_self]
      exact hphase p hok
    · rw [setCall_of_ne hj]
      exact hphase _ (h.calls j)

theorem lookUp_ok {i : ι} (h : StoreOk st) (hi : st.calls i = .idle) (hq : st.Quiet) (create : Bool) :
    StoreOk (st.lookUp i create) := by
  have hold : (st.calls i).writing = false := by rw [hi]; rfl
  unfold StoreState.lookUp
  split
  · rename_i session hc
    refine h.setCall hold rfl ?_
    intro kept hk
    rw [← h.kept hq kept hk, hc]
  · rename_i hc
    have hnone : st.kept = none := by
      cases hk : st.kept with
      | none => rfl
      | some session =>
        have := h.kept hq session hk
        rw [hc] at this
        cases this
    exact h.setCall hold rfl ⟨le_rfl, le_rfl, fun _ => ⟨hq, hnone⟩, fun _ => hnone⟩

/-- A save or a delete begins, and changes the cache. -/
theorem StoreOk.begin {i : ι} {p : StorePhase} {cache : Option Session} (h : StoreOk st) (hq : st.Quiet)
    (hp : p.writing = true) (hcache : ∀ session, p = .saving session → cache = some session) :
    StoreOk { st.setCall i p with cache := cache, begun := st.begun + 1 } := by
  set st' : StoreState ι := { st.setCall i p with cache := cache, begun := st.begun + 1 }
  have hcalls : ∀ j, j ≠ i → st'.calls j = st.calls j := fun j hj => setCall_of_ne hj p
  have hself : st'.calls i = p := setCall_self i p
  have hbusy : ¬ st'.Quiet := by
    intro hquiet
    have := hquiet i
    rw [hself, hp] at this
    cases this
  have hwriter : ∀ j, (st'.calls j).writing = true → j = i := by
    intro j hj
    by_contra hne
    rw [hcalls j hne, hq j] at hj
    cases hj
  refine ⟨fun hquiet => absurd hquiet hbusy, fun j k hj hk => (hwriter j hj).trans (hwriter k hk).symm, ?_⟩
  intro j
  by_cases hj : j = i
  · rw [hj, hself]
    cases p with
    | saving session => exact hcache session rfl
    | deleting => trivial
    | _ => cases hp
  · rw [hcalls j hj]
    have hc := h.calls j
    have hlook : ∀ begun completed, LookUpOk st begun completed → LookUpOk st' begun completed := by
      intro begun completed hl
      refine ⟨Nat.le_succ_of_le hl.begun_le, hl.completed_le, fun hb => ?_, hl.kept⟩
      have := hl.begun_le
      have hb' : begun = st.begun + 1 := hb
      omega
    cases hph : st.calls j with
    | missed create begun completed => rw [hph] at hc; exact hlook _ _ hc
    | loaded session begun completed => rw [hph] at hc; exact hlook _ _ hc
    | returned owed result => rw [hph] at hc; exact hc
    | saving session =>
      -- no other save is in progress
      have := hq j
      rw [hph] at this
      cases this
    | _ => trivial

/-- A save or a delete completes. -/
theorem StoreOk.complete {i : ι} {disk kept : Option Session} (h : StoreOk st)
    (hi : (st.calls i).writing = true) (hkept : ∀ session, kept = some session → st.cache = some session) :
    StoreOk { st.setCall i .done with disk := disk, completed := st.completed + 1, kept := kept } := by
  set st' : StoreState ι := { st.setCall i .done with disk := disk, completed := st.completed + 1, kept := kept }
  have hcalls : ∀ j, j ≠ i → st'.calls j = st.calls j := fun j hj => setCall_of_ne hj .done
  have hself : st'.calls i = .done := setCall_self i .done
  have hother : ∀ j, j ≠ i → (st.calls j).writing = false := by
    intro j hj
    cases hw : (st.calls j).writing with
    | false => rfl
    | true => exact absurd (h.writer j i hw hi) hj
  have hquiet : st'.Quiet := by
    intro j
    by_cases hj : j = i
    · rw [hj, hself]; rfl
    · rw [hcalls j hj]; exact hother j hj
  refine ⟨fun _ => hkept, fun j k hj _ => ?_, ?_⟩
  · rw [hquiet j] at hj
    cases hj
  intro j
  by_cases hj : j = i
  · rw [hj, hself]; trivial
  · rw [hcalls j hj]
    have hc := h.calls j
    -- a look-up in progress missed the cache before this save or delete began
    have hlook : ∀ begun completed, LookUpOk st begun completed → LookUpOk st' begun completed := by
      intro begun completed hl
      refine ⟨hl.begun_le, Nat.le_succ_of_le hl.completed_le, fun hb => ?_, fun hb => ?_⟩
      · have := (hl.quiet hb).1 i
        rw [hi] at this
        cases this
      · have := hl.completed_le
        have hb' : completed = st.completed + 1 := hb
        omega
    cases hph : st.calls j with
    | missed create begun completed => rw [hph] at hc; exact hlook _ _ hc
    | loaded session begun completed => rw [hph] at hc; exact hlook _ _ hc
    | returned owed result => rw [hph] at hc; exact hc
    | saving session =>
      have := hother j hj
      rw [hph] at this
      cases this
    | _ => trivial

theorem onDisk_ok (h : StoreOk st) (i : ι) (now : ℕ) : StoreOk (st.onDisk cfg i now) := by
  have hc := h.calls i
  unfold StoreState.onDisk
  cases hi : st.calls i with
  | missed create begun completed =>
    rw [hi] at hc
    have hold : (st.calls i).writing = false := by rw [hi]; rfl
    dsimp only
    split
    · exact h.setCall hold rfl hc
    · split
      · exact h.setCall hold rfl hc
      · refine h.setCall hold rfl ?_
        rw [LookUpOk.owed hc]
        intro session hs
        cases hs
  | saving session =>
    rw [hi] at hc
    exact h.complete (by rw [hi]; rfl) fun kept hk => by rw [← hk]; exact hc
  | deleting => exact h.complete (by rw [hi]; rfl) fun kept hk => nomatch hk
  | _ => exact h

theorem insert_ok (h : StoreOk st) {i : ι} {session : Session} {begun completed : ℕ}
    (hi : st.calls i = .loaded session begun completed) (hb : begun = st.begun) :
    StoreOk { st.setCall i (.returned (st.owed completed) (some session)) with cache := some session } := by
  have hl : LookUpOk st begun completed := by
    have hc := h.calls i
    rwa [hi] at hc
  obtain ⟨hquiet, hnone⟩ := hl.quiet hb
  have hold : (st.calls i).writing = false := by rw [hi]; rfl
  have hset : StoreOk (st.setCall i (.returned (st.owed completed) (some session))) := by
    refine h.setCall hold rfl ?_
    rw [hl.owed]
    intro s hs
    cases hs
  refine ⟨fun _ s hs => ?_, hset.writer, fun j => ?_⟩
  · have : st.kept = some s := hs
    rw [hnone] at this
    cases this
  · have hc := hset.calls j
    cases hph : (st.setCall i (.returned (st.owed completed) (some session))).calls j with
    | saving s =>
      have := (setCall_quiet (p := .returned (st.owed completed) (some session)) hold rfl).mpr hquiet j
      rw [hph] at this
      cases this
    | missed create begun completed => rw [hph] at hc; exact ⟨hc.begun_le, hc.completed_le, hc.quiet, hc.kept⟩
    | loaded session begun completed => rw [hph] at hc; exact ⟨hc.begun_le, hc.completed_le, hc.quiet, hc.kept⟩
    | returned owed result => rw [hph] at hc; exact hc
    | _ => trivial

/-- **One step keeps the invariant.** -/
theorem storeStep_ok (st : StoreState ι) (input : StoreInput ι) (h : StoreOk st) (hu : Unraced st input) :
    StoreOk (storeStep cfg st input) := by
  cases input with
  | start i kind =>
    unfold storeStep
    dsimp only
    split
    · rename_i hi
      have hq := hu hi
      cases kind with
      | get => exact lookUp_ok h hi hq false
      | getOrCreate => exact lookUp_ok h hi hq true
      | save session => exact h.begin hq rfl fun s hs => by cases hs; rfl
      | delete => exact h.begin hq rfl fun s hs => nomatch hs
    · exact h
  | disk i now => exact onDisk_ok h i now
  | insert i =>
    unfold storeStep
    dsimp only
    split
    · rename_i session begun completed hi
      exact insert_ok h hi (hu session begun completed hi)
    · exact h

omit [DecidableEq ι] in
theorem storeInit_ok (cache disk : Option Session) : StoreOk (StoreState.init cache disk : StoreState ι) :=
  ⟨fun _ _ hs => (nomatch hs), fun _ _ hi => (nomatch hi), fun _ => trivial⟩

end Steps

/-- **Reads give the last save**: in every run in which no call starts during a save or a
delete of the key, and no look-up puts into the cache what it read before one began. -/
theorem readsLastSave [DecidableEq ι] (cfg : StoreConfig) (cache disk : Option Session) (inputs : List (StoreInput ι))
    (h : StepsMeet (storeStep cfg) Unraced (StoreState.init cache disk) inputs) :
    ReadsLastSave (runSteps (storeStep cfg) (StoreState.init cache disk) inputs) :=
  (run_invariant storeStep_ok inputs _ (storeInit_ok cache disk) h).reads

/-! ## A look-up that comes too late -/

def cliStore : StoreConfig := ⟨"cli:1".toList, true, true⟩

/-- A session with one message. -/
def helloSession : Session := ⟨"cli:1".toList, [.user "hello".toList], none, 1, 2⟩

/-- A look-up after a save, and one before it. -/
def savedReads : List (StoreInput (Fin 3)) :=
  [.start 0 .getOrCreate, .disk 0 1, .insert 0, .start 1 (.save helloSession), .disk 1 3, .start 2 .get]

theorem readsLastSave_saved :
    (runSteps (storeStep cliStore) (StoreState.init none none) savedReads).calls 2 =
        .returned (some helloSession) (some helloSession) ∧
      ReadsLastSave (runSteps (storeStep cliStore) (StoreState.init none none) savedReads) :=
  ⟨rfl, readsLastSave cliStore none none savedReads
    ⟨fun _ => by decide, trivial, fun _ _ _ h => by cases h; rfl, fun _ => by decide, trivial, fun _ => by decide,
      trivial⟩⟩

/-- A look-up misses the cache, a save completes, and the look-up then puts the empty session
into the cache. -/
def lateInsert : List (StoreInput (Fin 3)) :=
  [.start 0 .getOrCreate, .disk 0 1, .start 1 (.save helloSession), .disk 1 3, .insert 0, .start 2 .get]

theorem stale_insert :
    ¬ ReadsLastSave (runSteps (storeStep cliStore) (StoreState.init none none) lateInsert) := by
  intro h
  have := h 2 (some helloSession) (some (.new "cli:1".toList 1)) rfl helloSession rfl
  exact absurd this (by decide)

end Zeptoclaw

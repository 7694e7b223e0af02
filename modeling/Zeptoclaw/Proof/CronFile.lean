import Zeptoclaw.Proof.CronTick

/-!
# The store in memory and in its file

A call changes the store under the lock and takes a snapshot of it under the lock; it writes the
snapshot later, without the lock. The file agrees with the memory in the end if the snapshots
are written in the order in which they were taken.
-/

namespace Zeptoclaw

variable {cal : Calendar}

namespace CronFiles

/-- A call writes its snapshot only if no later one was written. -/
def InOrder (s : CronFiles) : CronFileEvent → Prop
  | .write call => ∀ serial snapshot, s.calls call = some (.writing serial snapshot) → s.written < serial
  | _ => True

/-- The newest snapshot is the store as it is, and is in the file or will be written; or a call that has
changed the store has not yet taken its snapshot. -/
structure UpToDate (s : CronFiles) : Prop where
  writing_le : ∀ call serial snapshot, s.calls call = some (.writing serial snapshot) → serial ≤ s.taken
  written_le : s.written ≤ s.taken
  newest : (∃ call, s.calls call = some .changed) ∨ (s.written = s.taken ∧ s.file = s.memory) ∨
    ∃ call, s.calls call = some (.writing s.taken s.memory)

theorem upToDate_init (store : CronStore) : (init store).UpToDate := by
  refine ⟨?_, Nat.le_refl _, .inr (.inl ⟨rfl, rfl⟩)⟩
  intro call serial snapshot h
  cases h

variable {s : CronFiles} {call : ℕ}

theorem setCall_self (c : Option CronCall) : (s.setCall call c).calls call = c := by
  simp [setCall]

theorem setCall_of_ne {other : ℕ} (h : other ≠ call) (c : Option CronCall) :
    (s.setCall call c).calls other = s.calls other := by
  simp [setCall, h]

/-- A call with a change of the store, and no snapshot of it yet. -/
theorem UpToDate.change (h : s.UpToDate) (memory : CronStore) :
    ({ s with memory := memory }.setCall call (some .changed)).UpToDate := by
  refine ⟨?_, h.written_le, .inl ⟨call, setCall_self _⟩⟩
  intro other serial snapshot hother
  by_cases hne : other = call
  · subst hne
    rw [setCall_self] at hother
    cases hother
  · rw [setCall_of_ne hne] at hother
    exact h.writing_le other serial snapshot hother

/-- A call that had neither a change nor a snapshot comes to have neither. -/
theorem UpToDate.other (h : s.UpToDate) (hfree : s.calls call = none) (due : List CronJob) :
    (s.setCall call (some (.ticking due))).UpToDate := by
  have hkeep : ∀ other c, s.calls other = some c → (s.setCall call (some (.ticking due))).calls other = some c := by
    intro other c hother
    rw [setCall_of_ne _ _, hother]
    rintro rfl
    rw [hfree] at hother
    cases hother
  refine ⟨?_, h.written_le, ?_⟩
  · intro other serial snapshot hother
    by_cases hne : other = call
    · subst hne
      rw [setCall_self] at hother
      cases hother
    · rw [setCall_of_ne hne] at hother
      exact h.writing_le other serial snapshot hother
  · rcases h.newest with ⟨c, hc⟩ | hfile | ⟨c, hc⟩
    · exact .inl ⟨c, hkeep c _ hc⟩
    · exact .inr (.inl hfile)
    · exact .inr (.inr ⟨c, hkeep c _ hc⟩)

theorem UpToDate.snapshot (h : s.UpToDate) :
    ({ s with taken := s.taken + 1 }.setCall call (some (.writing (s.taken + 1) s.memory))).UpToDate := by
  have hwritten := h.written_le
  refine ⟨?_, Nat.le_succ_of_le hwritten, .inr (.inr ⟨call, setCall_self _⟩)⟩
  intro other serial snapshot hother
  by_cases hne : other = call
  · subst hne
    rw [setCall_self] at hother
    cases hother
    exact Nat.le_refl _
  · rw [setCall_of_ne hne] at hother
    have hle := h.writing_le other serial snapshot hother
    exact Nat.le_succ_of_le hle

/-- A snapshot that is newer than the file is written. -/
theorem UpToDate.write (h : s.UpToDate) {serial : ℕ} {snapshot : CronStore}
    (hcall : s.calls call = some (.writing serial snapshot)) (hnew : s.written < serial) :
    ({ s with file := snapshot, written := serial }.setCall call none).UpToDate := by
  have hle := h.writing_le call serial snapshot hcall
  refine ⟨?_, hle, ?_⟩
  · intro other serial' snapshot' hother
    by_cases hne : other = call
    · subst hne
      rw [setCall_self] at hother
      cases hother
    · rw [setCall_of_ne hne] at hother
      exact h.writing_le other serial' snapshot' hother
  · rcases h.newest with ⟨c, hc⟩ | ⟨hwritten, -⟩ | ⟨c, hc⟩
    · left
      refine ⟨c, ?_⟩
      rw [setCall_of_ne]
      · exact hc
      · rintro rfl
        rw [hcall] at hc
        cases hc
    · -- nothing newer than the file is left to write
      omega
    · right
      by_cases hne : c = call
      · left
        subst hne
        rw [hcall] at hc
        cases hc
        exact ⟨rfl, rfl⟩
      · right
        refine ⟨c, ?_⟩
        rw [setCall_of_ne hne]
        exact hc

/-- **One step.** Writes in order keep the file up to date. -/
theorem step_upToDate (h : s.UpToDate) {e : CronFileEvent} (he : s.InOrder e) : (s.step cal e).UpToDate := by
  cases e with
  | addJob call job =>
    unfold step
    dsimp only
    split
    · exact h.change _
    · exact h
  | removeJob call jobId =>
    unfold step
    dsimp only
    split
    · split
      · exact h.change _
      · exact h
    · exact h
  | tickBegin call now =>
    unfold step
    dsimp only
    split
    · rename_i hfree
      split
      · exact h
      · exact h.other hfree _
    · exact h
  | tickMerge call send =>
    unfold step
    dsimp only
    split
    · exact h.change _
    · exact h
  | snapshot call =>
    unfold step
    dsimp only
    split
    · exact h.snapshot
    · exact h
  | write call =>
    unfold step
    dsimp only
    split
    · rename_i serial snapshot hcall
      exact h.write hcall (he serial snapshot hcall)
    · exact h

/-- **Memory and file agree** when all calls have finished, in every run in which snapshots are written
in the order in which they were taken. -/
theorem files_agree (cal : Calendar) (store : CronStore) {events : List CronFileEvent}
    (hmeet : StepsMeet (step cal) InOrder (init store) events) (hdone : (runSteps (step cal) (init store) events).Finished) :
    (runSteps (step cal) (init store) events).file = (runSteps (step cal) (init store) events).memory := by
  have hstep : ∀ s e, UpToDate s → InOrder s e → UpToDate (step cal s e) := fun _ _ hs he => step_upToDate hs he
  have hup := run_invariant hstep events (init store) (upToDate_init store) hmeet
  rcases hup.newest with ⟨call, hcall⟩ | ⟨-, hfile⟩ | ⟨call, hcall⟩
  · rw [hdone call] at hcall
    cases hcall
  · exact hfile
  · rw [hdone call] at hcall
    cases hcall

/-- Two jobs are added at the same time, and their snapshots written in order. -/
def twoAdds (first second : ℕ) : List CronFileEvent :=
  [.addJob 0 (everyJob "a".toList 50 1000), .snapshot 0, .addJob 1 (everyJob "b".toList 50 1000), .snapshot 1,
    .write first, .write second]

theorem files_agree_two : (runSteps (step noCalendar) (init {}) (twoAdds 0 1)).file.jobs.map CronJob.id =
    ["a".toList, "b".toList] := by
  have hmeet : StepsMeet (step noCalendar) InOrder (init {}) (twoAdds 0 1) := by
    refine ⟨trivial, trivial, trivial, trivial, ?_, ?_, trivial⟩ <;>
    · intro serial snapshot h
      cases h
      decide
  have hdone : (runSteps (step noCalendar) (init {}) (twoAdds 0 1)).Finished
    | 0 | 1 | _ + 2 => rfl
  rw [files_agree noCalendar {} hmeet hdone]
  decide +kernel

/-- Written the other way round, the second job is missing in the file. -/
theorem files_disagree : (runSteps (step noCalendar) (init {}) (twoAdds 1 0)).Finished ∧
    (runSteps (step noCalendar) (init {}) (twoAdds 1 0)).file ≠ (runSteps (step noCalendar) (init {}) (twoAdds 1 0)).memory := by
  refine ⟨?_, by decide +kernel⟩
  intro call
  match call with
  | 0 | 1 | _ + 2 => rfl

end CronFiles

end Zeptoclaw

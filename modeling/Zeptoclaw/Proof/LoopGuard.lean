import Zeptoclaw.Lib.Run
import Zeptoclaw.Spec.LoopGuard

/-!
# The counters of the loop guard

`loopGuard_counters_iff`: the counters of the guard are those of its windows in every state of a
run exactly if no call of the run finds its window full, and no counter wraps. A call that finds
the window full prunes it, counts it anew with its own hash, and counts its hash once more
(`loopGuard_counts_twice`).
-/

namespace Zeptoclaw

/-! ## One window -/

namespace HashWindow

variable {window : ℕ} {hash : Str} {w : HashWindow}

/-- The counters are right, and the sequence is not too long. -/
structure Matches (window : ℕ) (w : HashWindow) : Prop where
  tallies : Tallies w.counts w.sequence
  length_le : 0 < window → w.sequence.length ≤ window

/-- The window has room for the hash, and the counter of the hash for one more. -/
structure Room (window : ℕ) (hash : Str) (w : HashWindow) : Prop where
  length_lt : 0 < window → w.sequence.length < window
  count_lt : countOf w.counts hash + 1 < 2 ^ 32

theorem matches_empty (window : ℕ) : Matches window {} := ⟨tallies_empty, fun _ => Nat.zero_le _⟩

theorem record_of_room (h : 0 < window → w.sequence.length < window) :
    w.record window hash = ⟨w.sequence ++ [hash], bump (2 ^ 32) w.counts hash⟩ := by
  have hroom : ¬ (0 < window ∧ window < (w.sequence ++ [hash]).length) := by
    rintro ⟨hpos, hlong⟩
    have hlt := h hpos
    rw [List.length_append, List.length_singleton] at hlong
    omega
  simp only [record, Bool.and_eq_true, decide_eq_true_eq, if_neg hroom]

theorem record_of_full (hpos : 0 < window) (h : window ≤ w.sequence.length) (hash : Str) :
    ∃ kept, w.record window hash = ⟨kept, bump (2 ^ 32) (tally (2 ^ 32) kept) hash⟩ := by
  have hfull : 0 < window ∧ window < (w.sequence ++ [hash]).length := by
    rw [List.length_append, List.length_singleton]
    omega
  simp only [record, Bool.and_eq_true, decide_eq_true_eq, if_pos hfull]
  exact ⟨_, rfl⟩

/-- A call leaves the window right exactly if it had room. -/
theorem room_iff_matches_record (h : Matches window w) (hash : Str) :
    Room window hash w ↔ Matches window (w.record window hash) := by
  by_cases hlen : 0 < window → w.sequence.length < window
  · rw [record_of_room hlen]
    have htally := tallies_bump_iff h.tallies hash (by decide : 0 < 2 ^ 32)
    constructor
    · intro hroom
      refine ⟨htally.mpr hroom.count_lt, fun hpos => ?_⟩
      have hlt := hlen hpos
      rw [List.length_append, List.length_singleton]
      omega
    · exact fun hmatches => ⟨hlen, htally.mp hmatches.tallies⟩
  · -- the window is full: its hash is in the new count already
    have hfull : 0 < window ∧ window ≤ w.sequence.length := by
      push Not at hlen
      exact hlen
    obtain ⟨kept, hkept⟩ := record_of_full hfull.1 hfull.2 hash
    rw [hkept]
    constructor
    · exact fun hroom => absurd hroom.length_lt hlen
    · exact fun hmatches => absurd hmatches.tallies (not_tallies_bump_tally (by decide) kept hash)

/-- The third record in a window of two prunes it. -/
theorem third_record_wrong (hash : Str) :
    let w := ((({} : HashWindow).record 2 hash).record 2 hash).record 2 hash
    ¬ Tallies w.counts w.sequence := by
  have h1 : ({} : HashWindow).record 2 hash = ⟨[hash], bump (2 ^ 32) ∅ hash⟩ := record_of_room (by decide)
  have h2 : (⟨[hash], bump (2 ^ 32) ∅ hash⟩ : HashWindow).record 2 hash =
      ⟨[hash, hash], bump (2 ^ 32) (bump (2 ^ 32) ∅ hash) hash⟩ := record_of_room (by simp)
  rw [h1, h2]
  have hfull : 2 ≤ [hash, hash].length := by simp
  obtain ⟨kept, hkept⟩ := record_of_full (w := ⟨[hash, hash], bump (2 ^ 32) (bump (2 ^ 32) ∅ hash) hash⟩) (by decide) hfull hash
  rw [hkept]
  exact not_tallies_bump_tally (by decide) kept hash

end HashWindow

/-! ## The calls -/

namespace LoopGuard

variable {lib : LoopGuardLib} {g : LoopGuard}

/-- The part of the guard that the responses leave alone. -/
def windows (g : LoopGuard) : LoopGuardConfig × HashWindow × HashWindow := (g.config, g.calls, g.outcomes)

theorem repeated_windows (g : LoopGuard) : g.repeated.1.windows = g.windows := by
  simp only [repeated]
  split
  · rfl
  · rfl

theorem pingPong_windows (period : ℕ) (g : LoopGuard) : (g.pingPong period).1.windows = g.windows := by
  simp only [pingPong]
  split
  · next g' action heq => exact (congrArg (fun r => r.1.windows) heq).symm.trans (repeated_windows _)
  · next g' heq => exact (congrArg (fun r => r.1.windows) heq).symm.trans (repeated_windows _)

theorem checkPingPong_windows {r : LoopGuard × LoopGuardAction} (h : g.checkPingPong = some r) : r.1.windows = g.windows := by
  simp only [checkPingPong] at h
  split at h
  · cases h
  · split at h
    · cases h; exact pingPong_windows 2 g
    · split at h
      · cases h; exact pingPong_windows 3 g
      · cases h

theorem graduated_windows (count warnAt blockAt : ℕ) (isPoll : Bool) (g : LoopGuard) :
    (g.graduated count warnAt blockAt isPoll).1.windows = g.windows := by
  unfold graduated
  have hrepeated := repeated_windows g
  split
  · split
    · next g' action heq => rw [heq] at hrepeated; exact hrepeated
    · next g' heq =>
      rw [heq] at hrepeated
      split
      · exact hrepeated
      · exact hrepeated
  · rfl

/-- What a check does to the windows. -/
theorem check_windows (lib : LoopGuardLib) (g : LoopGuard) (calls : List ToolCallSig) :
    (g.check lib calls).1.windows =
      if g.config.enabled = true ∧ calls ≠ [] then
        (g.config, g.calls.record g.config.windowSize (hashCallBatch lib calls), g.outcomes)
      else g.windows := by
  by_cases hon : g.config.enabled = true ∧ calls ≠ []
  · have hskip : ¬ (!g.config.enabled || calls.isEmpty) = true := by simp [hon.1, hon.2]
    rw [if_pos hon]
    simp only [check, if_neg hskip]
    cases hping : ({ g with
        stats.totalChecks := next64 g.stats.totalChecks
        calls := g.calls.record g.config.windowSize (hashCallBatch lib calls) } : LoopGuard).checkPingPong with
    | none => exact graduated_windows _ _ _ _ _
    | some r => exact checkPingPong_windows hping
  · have hskip : (!g.config.enabled || calls.isEmpty) = true := by
      rw [not_and_or, not_not] at hon
      rcases hon with hoff | rfl
      · rw [Bool.not_eq_true] at hoff
        rw [hoff]
        rfl
      · rw [List.isEmpty_nil, Bool.or_true]
    rw [if_neg hon]
    simp only [check, if_pos hskip]

/-- What an outcome does to the windows. -/
theorem recordOutcome_windows (lib : LoopGuardLib) (g : LoopGuard) (name params resultPrefix : Str) :
    (g.recordOutcome lib name params resultPrefix).1.windows =
      if g.config.enabled = true then
        (g.config, g.calls, g.outcomes.record g.config.windowSize (hashOutcome lib name params resultPrefix))
      else g.windows := by
  by_cases hon : g.config.enabled = true
  · have hskip : ¬ (!g.config.enabled) = true := by simp [hon]
    rw [if_pos hon]
    simp only [recordOutcome, if_neg hskip]
    split
    · split
      · next g' action heq => exact (congrArg (fun r => r.1.windows) heq).symm.trans (repeated_windows _)
      · next g' heq => exact (congrArg (fun r => r.1.windows) heq).symm.trans (repeated_windows _)
    · split
      · rfl
      · rfl
  · have hskip : (!g.config.enabled) = true := by simpa using hon
    rw [if_neg hon]
    simp only [recordOutcome, if_pos hskip]

/-! ## Runs -/

/-- The counters of both windows are right, and neither sequence is too long. -/
structure CountersMatch (g : LoopGuard) : Prop where
  calls : g.calls.Matches g.config.windowSize
  outcomes : g.outcomes.Matches g.config.windowSize

/-- A call that is counted finds room in its window. -/
def HasRoom (lib : LoopGuardLib) (g : LoopGuard) : GuardCall → Prop
  | .check calls =>
    g.config.enabled = true ∧ calls ≠ [] → g.calls.Room g.config.windowSize (hashCallBatch lib calls)
  | .recordOutcome name params resultPrefix =>
    g.config.enabled = true → g.outcomes.Room g.config.windowSize (hashOutcome lib name params resultPrefix)

theorem countersMatch_of_windows {g' : LoopGuard} {w : LoopGuardConfig × HashWindow × HashWindow} (h : g'.windows = w) :
    CountersMatch g' ↔ w.2.1.Matches w.1.windowSize ∧ w.2.2.Matches w.1.windowSize := by
  subst h
  exact ⟨fun hm => ⟨hm.calls, hm.outcomes⟩, fun hm => ⟨hm.1, hm.2⟩⟩

theorem hasRoom_iff_step (h : CountersMatch g) (call : GuardCall) :
    HasRoom lib g call ↔ CountersMatch (g.step lib call) := by
  cases call with
  | check calls =>
    have hwindows := check_windows lib g calls
    rw [step, countersMatch_of_windows hwindows]
    by_cases hon : g.config.enabled = true ∧ calls ≠ []
    · rw [if_pos hon, HasRoom, HashWindow.room_iff_matches_record h.calls]
      exact ⟨fun hroom => ⟨hroom hon, h.outcomes⟩, fun hm _ => hm.1⟩
    · rw [if_neg hon, HasRoom]
      exact ⟨fun _ => ⟨h.calls, h.outcomes⟩, fun _ hyes => absurd hyes hon⟩
  | recordOutcome name params resultPrefix =>
    have hwindows := recordOutcome_windows lib g name params resultPrefix
    rw [step, countersMatch_of_windows hwindows]
    by_cases hon : g.config.enabled = true
    · rw [if_pos hon, HasRoom, HashWindow.room_iff_matches_record h.outcomes]
      exact ⟨fun hroom => ⟨h.calls, hroom hon⟩, fun hm _ => hm.2⟩
    · rw [if_neg hon, HasRoom]
      exact ⟨fun _ => ⟨h.calls, h.outcomes⟩, fun _ hyes => absurd hyes hon⟩

end LoopGuard

/-- **The counters of the guard are those of its windows in every state of a run exactly if every
call that is counted finds room in its window.** -/
theorem loopGuard_counters_iff (lib : LoopGuardLib) (config : LoopGuardConfig) (calls : List GuardCall) :
    (∀ before after, calls = before ++ after → (runSteps (LoopGuard.step lib) (.new config) before).CountersMatch) ↔
      StepsMeet (LoopGuard.step lib) (LoopGuard.HasRoom lib) (.new config) calls := by
  have hstart : (LoopGuard.new config).CountersMatch := ⟨HashWindow.matches_empty _, HashWindow.matches_empty _⟩
  have hstep : ∀ (g : LoopGuard) (call : GuardCall), g.CountersMatch → (g.HasRoom lib call ↔ (g.step lib call).CountersMatch) :=
    fun _ call hg => LoopGuard.hasRoom_iff_step hg call
  exact (stepsMeet_iff_invariant hstep hstart calls).symm

/-- The same call three times. -/
def sameCalls : List GuardCall := List.replicate 3 (.check [⟨"shell".toList, "ls".toList⟩])

/-- In a window of two, the call is then in the sequence once, and its counter says two. -/
theorem loopGuard_counts_twice :
    ¬ ∃ lib, (runSteps (LoopGuard.step lib) (.new { windowSize := 2 }) sameCalls).CountersMatch := by
  rintro ⟨lib, h⟩
  obtain ⟨hash, hhash⟩ : ∃ hash, hash = hashCallBatch lib [⟨"shell".toList, "ls".toList⟩] := ⟨_, rfl⟩
  have hcheck : ∀ g : LoopGuard, g.config = { windowSize := 2 } →
      (g.step lib (.check [⟨"shell".toList, "ls".toList⟩])).windows = ({ windowSize := 2 }, g.calls.record 2 hash, g.outcomes) := by
    intro g hg
    rw [LoopGuard.step, LoopGuard.check_windows, hg, ← hhash]
    rfl
  have h1 := hcheck (.new { windowSize := 2 }) rfl
  have h2 := hcheck _ (congrArg Prod.fst h1)
  have h3 := hcheck _ (congrArg Prod.fst h2)
  have hmatches := ((LoopGuard.countersMatch_of_windows h3).mp h).1.tallies
  have hcalls1 := congrArg (fun w => w.2.1) h1
  have hcalls2 := congrArg (fun w => w.2.1) h2
  dsimp only [LoopGuard.windows] at hcalls1 hcalls2 hmatches
  rw [hcalls2, hcalls1] at hmatches
  exact HashWindow.third_record_wrong hash hmatches

end Zeptoclaw

import Zeptoclaw.Lib.Chain
import Zeptoclaw.Proof.StartupGuard

/-!
# Counting crashes

The guard keeps a count and the time of the last crash. Against the history of the crashes since the last clean start,
the count is the length of the chain at its end, as long as it has room, and no crash that was recorded at time zero
goes stale: there the guard takes the time for none, and counts on (`checks_iff`).
-/

namespace Zeptoclaw

namespace StartupGuard

variable {g : StartupGuard} {crashes : List ℕ} {now : ℕ}

/-! ## The history -/

/-- The later crash is within the window of the one before. -/
abbrev Within (g : StartupGuard) (later earlier : ℕ) : Prop := later ≤ earlier + g.windowSecs

/-- The crashes end with a chain of at least `threshold`, and its last is within the window. -/
def CrashChain (g : StartupGuard) (threshold : UInt32) (crashes : List ℕ) (now : ℕ) : Prop :=
  ∃ chain, chain <:+ crashes ∧ threshold.toNat ≤ chain.length ∧ chain.IsChain (fun t t' => g.Within t' t) ∧
    ∀ t ∈ chain.getLast?, g.Within now t

/-- From the last crash on, a check answers as the history does, for every threshold but the one that disables it. -/
def ChecksRight (g : StartupGuard) (file : CrashFile) (crashes : List ℕ) : Prop :=
  ∀ threshold : UInt32, threshold ≠ 0 → ∀ now, (∀ t ∈ crashes.getLast?, t ≤ now) →
    (({ g with threshold := threshold } : StartupGuard).check file now = true ↔ g.CrashChain threshold crashes now)

/-- A crash within the window finds room in the counter; one outside of it finds the time of the crash before. -/
def Countable (g : StartupGuard) (file : CrashFile) : GuardOp → Prop
  | .crash now =>
    if g.stale file.loadState now then file.loadState.consecutiveCrashes ≠ 0 → file.loadState.lastCrashTs ≠ 0
    else file.loadState.consecutiveCrashes.toNat + 1 < 2 ^ 32
  | .cleanStart => True

/-- The length of the chain at the end of the history. -/
def chainAtEnd (g : StartupGuard) (crashes : List ℕ) : ℕ := chainLength g.Within crashes.reverse

theorem chainAtEnd_concat (crashes : List ℕ) (t : ℕ) : g.chainAtEnd (crashes ++ [t]) =
    if ∀ t' ∈ crashes.getLast?, g.Within t t' then g.chainAtEnd crashes + 1 else 1 := by
  unfold chainAtEnd
  rw [List.reverse_append, List.reverse_singleton, List.singleton_append, chainLength_cons]
  simp only [List.head?_reverse]

theorem threshold_pos {threshold : UInt32} (h : threshold ≠ 0) : 0 < threshold.toNat := by
  have := mt (UInt32.toNat_inj (a := threshold) (b := 0)).mp h
  have hzero : (0 : UInt32).toNat = 0 := rfl
  omega

/-- The history in one number and the last crash. -/
theorem crashChain_iff {threshold : UInt32} (h : threshold ≠ 0) : g.CrashChain threshold crashes now ↔
    threshold.toNat ≤ g.chainAtEnd crashes ∧ ∀ t ∈ crashes.getLast?, g.Within now t := by
  have hpos := threshold_pos h
  unfold CrashChain chainAtEnd
  rw [le_chainLength_reverse_iff]
  -- a suffix that is not empty ends where the history ends
  have hlast : ∀ {chain : List ℕ}, chain <:+ crashes → threshold.toNat ≤ chain.length →
      crashes.getLast? = chain.getLast? := by
    rintro chain ⟨front, rfl⟩ hlen
    exact List.getLast?_append_of_ne_nil _ (List.length_pos_iff.mp (hpos.trans_le hlen))
  constructor
  · rintro ⟨chain, hsuffix, hlen, hchain, hrecent⟩
    refine ⟨⟨chain, hsuffix, hlen, hchain⟩, ?_⟩
    rwa [hlast hsuffix hlen]
  · rintro ⟨⟨chain, hsuffix, hlen, hchain⟩, hrecent⟩
    refine ⟨chain, hsuffix, hlen, hchain, ?_⟩
    rwa [← hlast hsuffix hlen]

theorem check_iff {threshold : UInt32} (h : threshold ≠ 0) (file : CrashFile) (now : ℕ) :
    ({ g with threshold := threshold } : StartupGuard).check file now = true ↔
      threshold.toNat ≤ file.loadState.consecutiveCrashes.toNat ∧ g.Within now file.loadState.lastCrashTs := by
  unfold check
  rw [if_neg h]
  dsimp only
  by_cases hbelow : file.loadState.consecutiveCrashes < threshold
  · have hlt := UInt32.lt_iff_toNat_lt.mp hbelow
    rw [if_pos hbelow]
    simp
    omega
  · have hle := mt UInt32.lt_iff_toNat_lt.mpr hbelow
    rw [if_neg hbelow]
    unfold stale Within
    simp
    omega

/-! ## The invariant -/

/-- What the file holds is the history in one number and the last crash. -/
structure Tracks (g : StartupGuard) (state : CrashState) (crashes : List ℕ) : Prop where
  count : state.consecutiveCrashes.toNat = g.chainAtEnd crashes
  last : state.lastCrashTs = crashes.getLastD 0

theorem Tracks.nil (g : StartupGuard) (total : UInt32) : g.Tracks ⟨0, 0, total⟩ [] := ⟨rfl, rfl⟩

theorem Tracks.checksRight {file : CrashFile} (h : g.Tracks file.loadState crashes) : g.ChecksRight file crashes := by
  intro threshold hthreshold now _
  rw [check_iff hthreshold, crashChain_iff hthreshold, h.count, h.last]
  refine and_congr_right fun hle => ?_
  have hne : crashes ≠ [] := by
    rintro rfl
    exact absurd (threshold_pos hthreshold) (Nat.not_lt.mpr hle)
  obtain ⟨front, t, rfl⟩ := (List.eq_nil_or_concat' crashes).resolve_left hne
  simp

/-- A check just after a crash shows the count. -/
theorem ChecksRight.count_iff {file : CrashFile} {t : ℕ} (h : g.ChecksRight file (crashes ++ [t]))
    (hlast : file.loadState.lastCrashTs = t) {threshold : UInt32} (hthreshold : threshold ≠ 0) :
    threshold.toNat ≤ file.loadState.consecutiveCrashes.toNat ↔ threshold.toNat ≤ g.chainAtEnd (crashes ++ [t]) := by
  have hcheck := h threshold hthreshold t (by simp)
  rw [check_iff hthreshold, crashChain_iff hthreshold, hlast] at hcheck
  simpa [Within] using hcheck

theorem stale_iff (state : CrashState) (t : ℕ) : g.stale state t = true ↔ ¬ g.Within t state.lastCrashTs := by
  unfold stale Within
  simp
  omega

theorem Tracks.within_iff {state : CrashState} (h : g.Tracks state crashes) (hne : crashes ≠ []) (t : ℕ) :
    (∀ t' ∈ crashes.getLast?, g.Within t t') ↔ g.Within t state.lastCrashTs := by
  obtain ⟨front, t', rfl⟩ := (List.eq_nil_or_concat' crashes).resolve_left hne
  rw [h.last]
  simp

theorem recordCrash_last (file : CrashFile) (t : ℕ) : (g.recordCrash file t).loadState.lastCrashTs = t := rfl

theorem recordCrash_count (file : CrashFile) (t : ℕ) : (g.recordCrash file t).loadState.consecutiveCrashes.toNat =
    ((g.counter file.loadState t).toNat + 1) % 2 ^ 32 := UInt32.toNat_add _ _

theorem recordCrash_tracks {file : CrashFile} {t : ℕ}
    (h : ((g.counter file.loadState t).toNat + 1) % 2 ^ 32 = g.chainAtEnd (crashes ++ [t])) :
    g.Tracks (g.recordCrash file t).loadState (crashes ++ [t]) := by
  refine ⟨(recordCrash_count file t).trans h, ?_⟩
  rw [recordCrash_last, List.getLastD_concat]

/-- A check just after the crash shows whether the count is the chain. -/
theorem ChecksRight.recordCrash_iff {file : CrashFile} {t : ℕ} (h : g.ChecksRight (g.recordCrash file t) (crashes ++ [t]))
    (threshold : UInt32) (hthreshold : threshold ≠ 0) :
    threshold.toNat ≤ ((g.counter file.loadState t).toNat + 1) % 2 ^ 32 ↔
      threshold.toNat ≤ g.chainAtEnd (crashes ++ [t]) := by
  rw [← recordCrash_count]
  exact h.count_iff (recordCrash_last file t) hthreshold

variable {file : CrashFile}

/-- The crash before is within the window, or there is none. -/
theorem Tracks.crash_fresh (h : g.Tracks file.loadState crashes) {t : ℕ} (hstale : g.stale file.loadState t = false) :
    (g.Countable file (.crash t) → g.Tracks (g.recordCrash file t).loadState (crashes ++ [t])) ∧
      (g.ChecksRight (g.recordCrash file t) (crashes ++ [t]) → g.Countable file (.crash t)) := by
  have hwithin : ∀ t' ∈ crashes.getLast?, g.Within t t' := by
    by_cases hne : crashes = []
    · simp [hne]
    · rw [h.within_iff hne, ← not_not (a := g.Within _ _), ← stale_iff, hstale]
      simp
  have hcounter : g.counter file.loadState t = file.loadState.consecutiveCrashes := by
    unfold counter
    simp [hstale]
  have hchain : g.chainAtEnd (crashes ++ [t]) = file.loadState.consecutiveCrashes.toNat + 1 := by
    rw [chainAtEnd_concat, if_pos hwithin, h.count]
  have hcountable : g.Countable file (.crash t) ↔ file.loadState.consecutiveCrashes.toNat + 1 < 2 ^ 32 := by
    simp only [Countable, hstale, Bool.false_eq_true, if_false]
  rw [hcountable]
  constructor
  · intro hroom
    refine recordCrash_tracks ?_
    rw [hcounter, hchain, Nat.mod_eq_of_lt hroom]
  · intro hright
    have hone := hright.recordCrash_iff 1 (by decide)
    have hlt := file.loadState.consecutiveCrashes.toNat_lt
    have htoNat : (1 : UInt32).toNat = 1 := rfl
    rw [hcounter, hchain, htoNat] at hone
    omega

/-- The crash before is outside of the window. -/
theorem Tracks.crash_stale (h : g.Tracks file.loadState crashes) {t : ℕ} (hstale : g.stale file.loadState t = true) :
    (g.Countable file (.crash t) → g.Tracks (g.recordCrash file t).loadState (crashes ++ [t])) ∧
      (g.ChecksRight (g.recordCrash file t) (crashes ++ [t]) → g.Countable file (.crash t)) := by
  have hchain : g.chainAtEnd (crashes ++ [t]) = 1 := by
    rw [chainAtEnd_concat]
    by_cases hne : crashes = []
    · simp [hne, chainAtEnd, chainLength]
    · have hapart := (stale_iff _ t).mp hstale
      rw [← h.within_iff hne] at hapart
      rw [if_neg hapart]
  have hcounter : g.counter file.loadState t =
      if file.loadState.lastCrashTs ≠ 0 then 0 else file.loadState.consecutiveCrashes := by
    unfold counter
    simp [hstale, Nat.pos_iff_ne_zero]
  have hcountable : g.Countable file (.crash t) ↔
      (file.loadState.consecutiveCrashes ≠ 0 → file.loadState.lastCrashTs ≠ 0) := by
    simp only [Countable, hstale, if_true]
  rw [hcountable]
  constructor
  · intro htime
    refine recordCrash_tracks ?_
    have hzero : (g.counter file.loadState t).toNat = 0 := by
      rw [hcounter]
      by_cases hlast : file.loadState.lastCrashTs ≠ 0
      · rw [if_pos hlast]
        rfl
      · rw [if_neg hlast, not_not.mp (mt htime hlast)]
        rfl
    have hone : (0 + 1) % 2 ^ 32 = 1 := rfl
    rw [hzero, hchain, hone]
  · intro hright hcount hlast
    rw [if_neg (not_not.mpr hlast)] at hcounter
    have hone := hright.recordCrash_iff 1 (by decide)
    have htwo := hright.recordCrash_iff 2 (by decide)
    have hpos := threshold_pos hcount
    have hlt := file.loadState.consecutiveCrashes.toNat_lt
    have htoNat : (1 : UInt32).toNat = 1 ∧ (2 : UInt32).toNat = 2 := ⟨rfl, rfl⟩
    rw [hcounter, hchain, htoNat.1] at hone
    rw [hcounter, hchain, htoNat.2] at htwo
    omega

/-- **A crash is counted as in the history if it is countable, and only then do the checks after it answer right.** -/
theorem Tracks.crash (h : g.Tracks file.loadState crashes) (t : ℕ) :
    (g.Countable file (.crash t) → g.Tracks (g.recordCrash file t).loadState (crashes ++ [t])) ∧
      (g.ChecksRight (g.recordCrash file t) (crashes ++ [t]) → g.Countable file (.crash t)) := by
  cases hstale : g.stale file.loadState t with
  | false => exact h.crash_fresh hstale
  | true => exact h.crash_stale hstale

/-! ## Runs -/

/-- One step of the guard, with the history beside it. -/
theorem Tracks.step {ops : List GuardOp} (h : g.Tracks file.loadState (sinceCleanStart ops)) (op : GuardOp) :
    (g.Countable file op → g.Tracks (guardStep g file op).loadState (sinceCleanStart (ops ++ [op]))) ∧
      (g.ChecksRight (guardStep g file op) (sinceCleanStart (ops ++ [op])) → g.Countable file op) := by
  cases op with
  | crash t =>
    rw [sinceCleanStart_crash]
    exact h.crash t
  | cleanStart =>
    refine ⟨fun _ => ?_, fun _ => trivial⟩
    rw [sinceCleanStart_cleanStart]
    exact Tracks.nil g _

/-- **In a run from no file, every check answers as the history does exactly if every crash is countable.** -/
theorem checks_iff (g : StartupGuard) (ops : List GuardOp) :
    (∀ before after, ops = before ++ after →
      g.ChecksRight (runSteps (guardStep g) .absent before) (sinceCleanStart before)) ↔
      StepsMeet (guardStep g) g.Countable .absent ops := by
  rw [stepsMeet_iff]
  constructor
  · intro hright
    -- up to each step the file has tracked the history
    have htracks : ∀ before after, ops = before ++ after →
        g.Tracks (runSteps (guardStep g) .absent before).loadState (sinceCleanStart before) := by
      intro before
      induction before using List.reverseRecOn with
      | nil => exact fun _ _ => Tracks.nil g 0
      | append_singleton before op ih =>
        intro after hcut
        have hnext := hright (before ++ [op]) after hcut
        rw [List.append_assoc] at hcut
        have hstep := (ih _ hcut).step op
        rw [runSteps_concat] at hnext ⊢
        exact hstep.1 (hstep.2 hnext)
    intro before op after hcut
    have hnext := hright (before ++ [op]) after (by rw [hcut, List.append_assoc]; rfl)
    rw [runSteps_concat] at hnext
    exact ((htracks before _ hcut).step op).2 hnext
  · intro hmeet before
    refine fun after hcut => Tracks.checksRight ?_
    induction before using List.reverseRecOn generalizing after with
    | nil => exact Tracks.nil g 0
    | append_singleton before op ih =>
      rw [List.append_assoc] at hcut
      rw [runSteps_concat]
      exact ((ih _ hcut).step op).1 (hmeet before op after hcut)

/-- A crash at time zero, and one at 100 with a window of 60: two in a row. -/
theorem checks_wrong : ¬ ∀ (g : StartupGuard) (ops : List GuardOp), (crashTimes ops).Pairwise (· ≤ ·) →
    g.ChecksRight (runSteps (guardStep g) .absent ops) (sinceCleanStart ops) := by
  intro h
  have hright := h ⟨2, 60⟩ [.crash 0, .crash 100] (by decide)
  have htimes : sinceCleanStart [.crash 0, .crash 100] = [0, 100] := by decide
  rw [htimes] at hright
  have hcheck := (hright 2 (by decide) 100 (by decide)).mp (by decide)
  rw [crashChain_iff (by decide)] at hcheck
  exact absurd hcheck.1 (by decide)

end StartupGuard

end Zeptoclaw

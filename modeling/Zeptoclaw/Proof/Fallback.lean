import Zeptoclaw.Lib.Run
import Zeptoclaw.Spec.Fallback

/-!
# The probes of the circuit breaker

`state` answers `HalfOpen` to every call that asks while the breaker is tripped and the cooldown is
over, and a call that was admitted before the breaker opened may still be with the primary when
the cooldown ends. `one_probe`: there is at most one request with the primary in the runs in which at
most one call is under way when the breaker opens, and none when another one comes before it closes.
-/

namespace Zeptoclaw

/-- The call is on its way to the primary, or its request is there. -/
def ChatCall.isUnderWay : ChatCall → Bool
  | .loaded | .loadedLast _ | .admitted | .sent => true
  | _ => false

namespace FallbackProvider

/-- At most one request is with the primary. -/
def AtMostOneSent (s : FallbackProvider) : Prop := ∀ i j, s.calls i = some .sent → s.calls j = some .sent → i = j

/-- From the moment the breaker leaves `Open` until a result is recorded, at most one request is with the primary. -/
def OneProbe (s : FallbackProvider) : Prop := s.probing = true → s.AtMostOneSent

def underWay (s : FallbackProvider) (call : ℕ) : Bool := (s.calls call).any ChatCall.isUnderWay

def AtMostOneUnderWay (s : FallbackProvider) : Prop :=
  ∀ i j, s.underWay i = true → s.underWay j = true → i = j

/-- The failures have reached the threshold, or the breaker is being probed. -/
def Guarded (s : FallbackProvider) : Prop :=
  s.breaker.failureThreshold ≤ s.breaker.failureCount ∨ s.probing = true

instance (s : FallbackProvider) : Decidable s.Guarded := inferInstanceAs (Decidable (_ ∨ _))

/-- A call that comes while the breaker is not closed finds no other one under way, and the failure that opens the
breaker leaves at most one. -/
def NoOverlap (s : FallbackProvider) : FallbackEvent → Prop
  | .loadCount call => s.Guarded → s.calls call = none → ∀ other, s.underWay other = false
  | .recordResult call =>
    s.breaker.failureCount + 1 = s.breaker.failureThreshold →
      (∃ e, s.calls call = some (.answered (some e)) ∧ e.shouldFallback = true) → s.AtMostOneUnderWay
  | _ => True

/-- While the breaker is not closed, at most one call is under way. -/
structure Alone (s : FallbackProvider) : Prop where
  threshold : 0 < s.breaker.failureThreshold
  alone : s.Guarded → s.AtMostOneUnderWay

variable {s s' : FallbackProvider} {call : ℕ}

theorem underWay_setCall_self (c : Option ChatCall) : (s.setCall call c).underWay call = c.any ChatCall.isUnderWay := by
  simp [setCall, underWay]

theorem underWay_setCall_of_ne {other : ℕ} (h : other ≠ call) (c : Option ChatCall) :
    (s.setCall call c).underWay other = s.underWay other := by
  simp [setCall, underWay, h]

theorem underWay_of_calls {c : ChatCall} (h : s.calls call = some c) : s.underWay call = c.isUnderWay := by
  simp [underWay, h]

theorem Alone.oneProbe (h : s.Alone) : s.OneProbe := by
  intro hprobing i j hi hj
  exact h.alone (.inr hprobing) i j (underWay_of_calls hi) (underWay_of_calls hj)

theorem AtMostOneUnderWay.of_le (h : s.AtMostOneUnderWay) (hle : ∀ i, s'.underWay i = true → s.underWay i = true) :
    s'.AtMostOneUnderWay :=
  fun i j hi hj => h i j (hle i hi) (hle j hj)

/-- A call that moves on is under way only if it was. -/
theorem underWay_of_setCall {c : Option ChatCall} (hcalls : s'.calls = s.calls)
    (hc : c.any ChatCall.isUnderWay = true → s.underWay call = true) :
    ∀ i, (s'.setCall call c).underWay i = true → s.underWay i = true := by
  intro i hi
  by_cases hne : i = call
  · subst hne
    rw [underWay_setCall_self] at hi
    exact hc hi
  · rw [underWay_setCall_of_ne hne] at hi
    rwa [underWay, ← hcalls]

/-- A step of a call that neither comes nor counts a failure. -/
theorem Alone.setCall (h : s.Alone) {c : Option ChatCall} (hcalls : s'.calls = s.calls)
    (hthreshold : s'.breaker.failureThreshold = s.breaker.failureThreshold) (hguarded : s'.Guarded → s.Guarded)
    (hc : c.any ChatCall.isUnderWay = true → s.underWay call = true) : (s'.setCall call c).Alone where
  threshold := hthreshold ▸ h.threshold
  alone hg := (h.alone (hguarded hg)).of_le (underWay_of_setCall hcalls hc)

/-! ## One step -/

/-- The clock makes the breaker leave `Open` only when it has tripped. -/
theorem alone_setClock (h : s.Alone) (now epoch : ℕ) : (s.setClock now epoch).Alone where
  threshold := h.threshold
  alone := by
    intro hguarded
    refine h.alone ?_
    rcases hguarded with htripped | hprobing
    · exact .inl htripped
    · simp only [setClock, Bool.or_eq_true, Bool.and_eq_true, decide_eq_true_eq] at hprobing
      rcases hprobing with hprobing | ⟨hopen, -⟩
      · exact .inr hprobing
      · left
        by_contra hlt
        rw [CircuitBreaker.state, if_pos (by omega)] at hopen
        cases hopen

/-- A call that comes is the only one under way, if the breaker is not closed. -/
theorem alone_comes (h : s.Alone) (hnone : s.Guarded → ∀ other, s.underWay other = false) (c : Option ChatCall) :
    (s.setCall call c).Alone where
  threshold := h.threshold
  alone := by
    intro hguarded i j hi hj
    have honly : ∀ k, (s.setCall call c).underWay k = true → k = call := by
      intro k hk
      by_contra hne
      rw [underWay_setCall_of_ne hne, hnone hguarded] at hk
      cases hk
    rw [honly i hi, honly j hj]

theorem alone_recordResult (h : s.Alone) {error : Option PrimaryError} (hcall : s.calls call = some (.answered error))
    (hopens : s.NoOverlap (.recordResult call)) : (s.recordResult call error).Alone := by
  unfold recordResult
  split
  · -- after a success the breaker is closed
    refine ⟨h.threshold, ?_⟩
    rintro (htripped | hprobing)
    · have := h.threshold
      change s.breaker.failureThreshold ≤ 0 at htripped
      omega
    · cases hprobing
  · next e =>
    split
    · next hfallback =>
      have hleft : s.Guarded ∨ s.breaker.failureCount + 1 = s.breaker.failureThreshold → s.AtMostOneUnderWay := by
        rintro (hguarded | hlast)
        · exact h.alone hguarded
        · exact hopens hlast ⟨e, hcall, hfallback⟩
      refine ⟨h.threshold, fun hguarded => (hleft ?_).of_le (underWay_of_setCall rfl (by simp [ChatCall.isUnderWay]))⟩
      rcases hguarded with htripped | hprobing
      · have hle : (s.breaker.failureCount + 1) % 2 ^ 32 ≤ s.breaker.failureCount + 1 := Nat.mod_le _ _
        change s.breaker.failureThreshold ≤ (s.breaker.failureCount + 1) % 2 ^ 32 at htripped
        unfold Guarded
        omega
      · exact .inl (.inr hprobing)
    · exact h.setCall rfl rfl id (by simp)

/-- **A step without overlap leaves at most one call under way while the breaker is not closed.** -/
theorem alone_step (s : FallbackProvider) (event : FallbackEvent) (h : s.Alone) (hno : s.NoOverlap event) :
    (s.step event).Alone := by
  cases event with
  | clock now epoch => exact alone_setClock h now epoch
  | loadCount call =>
    dsimp only [step]
    split
    · next hcall =>
      split
      · exact alone_comes h (fun hguarded => hno hguarded hcall) _
      · exact alone_comes h (fun hguarded => hno hguarded hcall) _
    · exact h
  | loadLast call =>
    dsimp only [step]
    split
    · next hcall => exact h.setCall rfl rfl id fun _ => underWay_of_calls hcall
    · exact h
  | readEpoch call =>
    dsimp only [step]
    split
    · next hcall =>
      split
      · exact h.setCall rfl rfl id (by simp)
      · exact h.setCall rfl rfl id fun _ => underWay_of_calls hcall
    · exact h.setCall rfl rfl id (by simp [ChatCall.isUnderWay])
    · exact h
  | checkCooldown call =>
    dsimp only [step]
    split
    · next hcall =>
      split
      · exact h.setCall rfl rfl id (by simp)
      · exact h.setCall rfl rfl id fun _ => underWay_of_calls hcall
    · exact h
  | answer call error =>
    dsimp only [step]
    split
    · exact h.setCall rfl rfl id (by simp [ChatCall.isUnderWay])
    · exact h
  | recordResult call =>
    dsimp only [step]
    split
    · next hcall => exact alone_recordResult h hcall hno
    · exact h
  | storeLast call =>
    dsimp only [step]
    split
    · refine h.setCall rfl rfl ?_ (by simp [ChatCall.isUnderWay])
      rintro (htripped | hprobing)
      · exact .inl htripped
      · cases hprobing
    · exact h
  | mark call =>
    dsimp only [step]
    split
    · exact h.setCall rfl rfl id (by simp)
    · exact h.setCall rfl rfl id (by simp)
    · exact h

end FallbackProvider

/-! ## Any interleaving -/

/-- **In a run whose calls do not overlap from the opening of the breaker on, the breaker is probed by at most one
request at any time.** -/
theorem one_probe (primary : Str) (now epoch : ℕ) (events : List FallbackEvent)
    (h : StepsMeet FallbackProvider.step FallbackProvider.NoOverlap { primary, now, epoch } events) :
    ∀ before after, events = before ++ after →
      (runSteps FallbackProvider.step { primary, now, epoch } before).OneProbe := by
  rintro before after rfl
  have hnew : ({ primary, now, epoch } : FallbackProvider).Alone := by
    refine ⟨Nat.zero_lt_succ 2, ?_⟩
    rintro (htripped | hprobing)
    · exact absurd (show 3 ≤ 0 from htripped) (by decide)
    · cases hprobing
  exact (run_invariant FallbackProvider.alone_step before _ hnew (stepsMeet_append.mp h).1).oneProbe

/-- A call that finds the breaker closed and fails. -/
def failingCall (call : ℕ) : List FallbackEvent :=
  [.answer call (some (.other "connection refused".toList)), .recordResult call, .readEpoch call, .storeLast call,
    .mark call]

/-- Three calls fail together, and both cooldowns pass. -/
def threeFailures : List FallbackEvent :=
  [.loadCount 0, .checkCooldown 0, .loadCount 1, .checkCooldown 1, .loadCount 2, .checkCooldown 2] ++
    failingCall 0 ++ failingCall 1 ++ failingCall 2 ++ [.clock (fromSecs 61) 1061]

/-- A call that finds the breaker tripped. -/
def comingCall (call : ℕ) : List FallbackEvent := [.loadCount call, .loadLast call, .readEpoch call, .checkCooldown call]

/-- One more call comes, and is the probe. -/
theorem one_probe_single :
    StepsMeet FallbackProvider.step FallbackProvider.NoOverlap { primary := "openai".toList, now := 0, epoch := 1000 }
        (threeFailures ++ comingCall 3) ∧
      (runSteps FallbackProvider.step { primary := "openai".toList, now := 0, epoch := 1000 }
        (threeFailures ++ comingCall 3)).OneProbe := by
  have hmeet : StepsMeet FallbackProvider.step FallbackProvider.NoOverlap
      { primary := "openai".toList, now := 0, epoch := 1000 } (threeFailures ++ comingCall 3) := by
    refine ⟨fun hg => absurd hg (by decide), trivial, fun hg => absurd hg (by decide), trivial,
      fun hg => absurd hg (by decide), trivial, trivial, fun hlast => absurd hlast (by decide), trivial, trivial, trivial,
      trivial, fun hlast => absurd hlast (by decide), trivial, trivial, trivial, trivial, fun _ _ i j hi => ?_, trivial,
      trivial, trivial, trivial, fun _ _ other => ?_, trivial, trivial, trivial, trivial⟩
    · rcases i with _ | _ | _ | i
      · cases hi
      · cases hi
      · cases hi
      · cases hi
    · rcases other with _ | _ | _ | other
      · rfl
      · rfl
      · rfl
      · rfl
  exact ⟨hmeet, one_probe _ _ _ _ hmeet _ [] (List.append_nil _).symm⟩

/-- With two more calls, both find the breaker half open, and both requests are with the primary. -/
theorem two_probes :
    ¬ ∀ (primary : Str) (now epoch : ℕ) (events : List FallbackEvent),
      (runSteps FallbackProvider.step { primary, now, epoch } events).OneProbe := by
  intro h
  have hsame : (3 : ℕ) = 4 :=
    h "openai".toList 0 1000 (threeFailures ++ comingCall 3 ++ comingCall 4) (by decide) 3 4 (by decide) (by decide)
  exact absurd hsame (by decide)

end Zeptoclaw

import Zeptoclaw.Lib.Run
import Zeptoclaw.Spec.Cooldown
import Mathlib.Order.Lattice
import Mathlib.Order.MinMax

/-!
# When a failure shortens a cooldown

A failure overwrites the end of the cooldown of its kind, `billing` or any other, and a failure a
day after the last one clears both. `cooldown_never_shortened_iff`: the instant at which a
provider is available again does not move to an earlier one exactly in the runs in which what a
failure throws away does not last longer than what it leaves.
-/

namespace Zeptoclaw

namespace CooldownEntry

/-- The instant at which the cooldown is over. -/
def availableFrom (e : CooldownEntry) : ℕ := max (e.billingDisabledUntil.getD 0) (e.cooldownEnd.getD 0)

theorem isInCooldown_iff {e : CooldownEntry} {now : ℕ} : e.isInCooldown now = true ↔ now < e.availableFrom := by
  unfold isInCooldown availableFrom
  rw [lt_max_iff]
  cases e.billingDisabledUntil with
  | none => cases e.cooldownEnd <;> simp
  | some billing =>
    by_cases h : now < billing
    · simp [h]
    · cases e.cooldownEnd <;> simp [h]

/-- The end that a failure for the reason overwrites. -/
def overwritten (e : CooldownEntry) (reason : FailoverReason) : ℕ :=
  if reason = .billing then e.billingDisabledUntil.getD 0 else e.cooldownEnd.getD 0

/-- The end that a failure for the reason leaves as it is. -/
def untouched (e : CooldownEntry) (reason : FailoverReason) : ℕ :=
  if reason = .billing then e.cooldownEnd.getD 0 else e.billingDisabledUntil.getD 0

/-- What the failure throws away does not last longer than what it leaves. -/
def LongEnough (e : CooldownEntry) (reason : FailoverReason) (clock : FailureClock) : Prop :=
  if e.isStale clock.stale then
    e.overwritten reason ≤ clock.ends + reason.cooldownDuration 1 ∧ e.untouched reason ≤ clock.ends + reason.cooldownDuration 1
  else e.overwritten reason ≤ max (clock.ends + reason.cooldownDuration e.nextConsecutive) (e.untouched reason)

theorem availableFrom_eq (e : CooldownEntry) (reason : FailoverReason) :
    e.availableFrom = max (e.overwritten reason) (e.untouched reason) := by
  unfold availableFrom overwritten untouched
  split
  · rfl
  · rw [max_comm]

theorem availableFrom_fail (e : CooldownEntry) (reason : FailoverReason) (clock : FailureClock) :
    (e.fail reason clock).availableFrom =
      max (clock.ends + reason.cooldownDuration (e.resetIfStale clock.stale).nextConsecutive)
        ((e.resetIfStale clock.stale).untouched reason) := by
  unfold fail
  dsimp only
  -- the kernel would count up to the end of the cooldown
  generalize e.resetIfStale clock.stale = r
  generalize clock.ends + reason.cooldownDuration r.nextConsecutive = stop
  unfold availableFrom untouched
  by_cases h : reason = .billing
  · rw [if_pos h, if_pos h, Option.getD_some]
  · rw [if_neg h, if_neg h, Option.getD_some, max_comm]

theorem resetIfStale_nextConsecutive {e : CooldownEntry} {now : ℕ} (h : e.isStale now = true) :
    (e.resetIfStale now).nextConsecutive = 1 := by
  rw [resetIfStale, if_pos h]
  rfl

theorem resetIfStale_untouched {e : CooldownEntry} {now : ℕ} (h : e.isStale now = true) (reason : FailoverReason) :
    (e.resetIfStale now).untouched reason = 0 := by
  unfold untouched
  rw [resetIfStale, if_pos h]
  split
  · rfl
  · rfl

/-- **One failure.** It is long enough exactly if the provider does not become available earlier by it. -/
theorem longEnough_iff {e : CooldownEntry} {reason : FailoverReason} {clock : FailureClock} :
    e.LongEnough reason clock ↔ e.availableFrom ≤ (e.fail reason clock).availableFrom := by
  unfold LongEnough
  rw [availableFrom_eq e reason, availableFrom_fail, max_le_iff]
  split
  · next h => rw [resetIfStale_nextConsecutive h, resetIfStale_untouched h, Nat.max_zero]
  · next h =>
    rw [resetIfStale, if_neg h]
    exact ⟨fun hle => ⟨hle, le_max_right _ _⟩, fun hle => hle.1⟩

end CooldownEntry

/-! ## The tracker -/

namespace CooldownTracker

/-- The entry that a failure of the provider starts from. -/
def entryOf (entries : CooldownTracker) (provider : Str) : CooldownEntry := (entries.lookup provider).getD {}

theorem isInCooldown_iff {entries : CooldownTracker} {provider : Str} {now : ℕ} :
    entries.isInCooldown provider now = true ↔ now < (entries.entryOf provider).availableFrom := by
  unfold isInCooldown entryOf
  cases entries.lookup provider with
  | none => simp [CooldownEntry.availableFrom]
  | some e => exact CooldownEntry.isInCooldown_iff

/-- One instant is no later than another one if a cooldown that ends there is over. -/
theorem cooldown_mono_iff {entries entries' : CooldownTracker} {provider : Str} :
    (∀ now, entries.isInCooldown provider now = true → entries'.isInCooldown provider now = true) ↔
      (entries.entryOf provider).availableFrom ≤ (entries'.entryOf provider).availableFrom := by
  simp only [isInCooldown_iff]
  constructor
  · intro h
    by_contra hlt
    exact lt_irrefl _ (h _ (not_le.mp hlt))
  · exact fun h now hnow => lt_of_lt_of_le hnow h

theorem entryOf_markFailure (entries : CooldownTracker) (provider other : Str) (reason : FailoverReason) (clock : FailureClock) :
    (entries.markFailure provider reason clock).entryOf other =
      if other = provider then (entries.entryOf provider).fail reason clock else entries.entryOf other := by
  unfold markFailure entryOf
  rw [Assoc.lookup_insert]
  split
  · rfl
  · rfl

theorem entryOf_markSuccess {entries : CooldownTracker} {provider other : Str} (h : other ≠ provider) :
    (entries.markSuccess provider).entryOf other = entries.entryOf other := by
  unfold markSuccess entryOf
  split
  · rw [Assoc.lookup_insert, if_neg h]
  · rfl

/-- The condition on a call: a failure leaves what lasts long enough. -/
def LongEnough (entries : CooldownTracker) : CooldownCall → Prop
  | .markFailure provider reason clock => (entries.entryOf provider).LongEnough reason clock
  | .markSuccess _ => True

/-- A call that is not a success of the provider. -/
theorem availableFrom_step {entries : CooldownTracker} {call : CooldownCall} {provider : Str}
    (hcall : entries.LongEnough call) (hsuccess : call ≠ .markSuccess provider) :
    (entries.entryOf provider).availableFrom ≤ ((entries.step call).entryOf provider).availableFrom := by
  cases call with
  | markFailure failing reason clock =>
    change _ ≤ ((entries.markFailure failing reason clock).entryOf provider).availableFrom
    rw [entryOf_markFailure]
    split
    · next heq =>
      rw [heq]
      exact CooldownEntry.longEnough_iff.mp hcall
    · exact le_rfl
  | markSuccess succeeding =>
    have hne : provider ≠ succeeding := fun heq => hsuccess (by rw [heq])
    change _ ≤ ((entries.markSuccess succeeding).entryOf provider).availableFrom
    rw [entryOf_markSuccess hne]

/-- The tracker after the calls. -/
def after (calls : List CooldownCall) : CooldownTracker := runSteps step ∅ calls

/-- As long as a provider has no success, it stays in a cooldown at every instant at which it was to be in one. -/
def NeverShortened (calls : List CooldownCall) : Prop :=
  ∀ before since rest provider, calls = before ++ since ++ rest → (∀ call ∈ since, call ≠ .markSuccess provider) →
    ∀ now, (after before).isInCooldown provider now = true → (after (before ++ since)).isInCooldown provider now = true

end CooldownTracker

/-- **Cooldowns are not shortened exactly in the runs whose failures last long enough.** -/
theorem cooldown_never_shortened_iff (calls : List CooldownCall) :
    CooldownTracker.NeverShortened calls ↔ StepsMeet CooldownTracker.step CooldownTracker.LongEnough ∅ calls := by
  rw [stepsMeet_iff]
  constructor
  · intro h before call rest hcut
    cases call with
    | markSuccess provider => trivial
    | markFailure provider reason clock =>
      have hcut' : calls = before ++ [.markFailure provider reason clock] ++ rest := by
        rw [hcut, List.append_assoc]
        rfl
      have hmono := CooldownTracker.cooldown_mono_iff.mp (h before _ rest provider hcut' (by simp))
      unfold CooldownTracker.after at hmono
      rw [runSteps_concat, CooldownTracker.step, CooldownTracker.entryOf_markFailure, if_pos rfl] at hmono
      exact CooldownEntry.longEnough_iff.mpr hmono
  · intro h before since rest provider hcut hsuccess
    rw [CooldownTracker.cooldown_mono_iff]
    -- along the calls since then, the last one first
    induction since using List.reverseRecOn generalizing rest with
    | nil => rw [List.append_nil]
    | append_singleton since call ih =>
      have hcut' : calls = before ++ since ++ call :: rest := by rw [hcut]; simp
      have hearlier := ih (call :: rest) hcut' fun c hc => hsuccess c (List.mem_append_left _ hc)
      have hstep := CooldownTracker.availableFrom_step (h _ call rest hcut') (hsuccess call (by simp))
      rw [← List.append_assoc]
      unfold CooldownTracker.after
      rw [runSteps_concat]
      exact le_trans hearlier hstep

/-- A refused key, and a second later an error of an unknown kind. -/
def authThenUnknown : List CooldownCall :=
  [.markFailure "openai".toList .auth ⟨0, 0, 0⟩,
    .markFailure "openai".toList .unknown ⟨fromSecs 1, fromSecs 1, fromSecs 1⟩]

/-- The provider is available after 61 seconds, not after 300. -/
theorem cooldown_shortened :
    ¬ ∀ calls : List CooldownCall, (calls.flatMap CooldownCall.readings).Pairwise (· ≤ ·) →
      CooldownTracker.NeverShortened calls := by
  intro h
  have hshort := h authThenUnknown (by decide) (authThenUnknown.take 1) (authThenUnknown.drop 1) [] "openai".toList rfl
    (by decide) (fromSecs 100) (by decide)
  exact absurd hshort (by decide)

end Zeptoclaw

import Zeptoclaw.Spec.Cooldown
import Zeptoclaw.Spec.LoopGuard
import Mathlib.Order.MinMax

/-!
# Delays that double

Both delays are a power of two with a cap, and the cap is applied to what the machine has left
of the power.

* `cooldown_monotone_iff`: the cooldown of a provider is computed without overflow and grows
  with the number of failures in a row exactly up to 60 of them for an overloaded provider, and
  up to 61 for a timeout;
* `backoff_monotone_iff`: the delay of a poll grows and stays at its cap exactly where the
  exponent is at most 4 or at least 5 modulo 64.
-/

namespace Zeptoclaw

namespace FailoverReason

theorem pow2_mono {m n : ℕ} (h : m ≤ n) : pow2 m ≤ pow2 n := by
  unfold pow2
  by_cases hn : n < 64
  · rw [if_pos hn, if_pos (Nat.lt_of_le_of_lt h hn)]
    exact Nat.pow_le_pow_right (by omega) h
  · rw [if_neg hn]
    split
    · rename_i hm
      have hpow : 2 ^ m < 2 ^ 64 := Nat.pow_lt_pow_right (by omega) hm
      omega
    · exact Nat.le_refl _

theorem pow2_of_lt {n : ℕ} (h : n < 64) : pow2 n = 2 ^ n := if_pos h

theorem checkedMul_isSome_iff {a b : ℕ} : (checkedMul a b).isSome = true ↔ a * b < 2 ^ 64 := by
  unfold checkedMul
  split
  · rename_i h
    exact ⟨fun _ => h, fun _ => Option.isSome_some⟩
  · rename_i h
    exact ⟨fun hsome => (nomatch hsome), fun hlt => absurd hlt h⟩

theorem eq_of_checkedMul {a b c : ℕ} (h : checkedMul a b = some c) : a * b % 2 ^ 64 = c ∧ a * b = c := by
  unfold checkedMul at h
  split at h
  · rename_i hlt
    rw [Nat.mod_eq_of_lt hlt]
    exact ⟨Option.some.inj h, Option.some.inj h⟩
  · exact nomatch h

/-- A multiple of a power of two fits up to the exponent at which it last does. -/
theorem mul_pow2_lt_iff {a k n : ℕ} (hk : k < 63) (hfits : a * 2 ^ k < 2 ^ 64) (hover : 2 ^ 64 ≤ a * 2 ^ (k + 1)) :
    a * pow2 n < 2 ^ 64 ↔ n ≤ k := by
  refine ⟨fun h => ?_, fun h => ?_⟩
  · by_contra hgt
    have hle : pow2 (k + 1) ≤ pow2 n := pow2_mono (by omega)
    rw [pow2_of_lt (by omega : k + 1 < 64)] at hle
    exact absurd (Nat.le_trans hover (Nat.mul_le_mul_left a hle)) (Nat.not_le.mpr h)
  · have hle : pow2 n ≤ pow2 k := pow2_mono h
    rw [pow2_of_lt (by omega : k < 64)] at hle
    exact Nat.lt_of_le_of_lt (Nat.mul_le_mul_left a hle) hfits

/-- Where no product overflows, both builds compute the same. -/
theorem cooldownSecs_of_checked {reason : FailoverReason} {consecutive secs : ℕ}
    (h : reason.cooldownSecsChecked consecutive = some secs) : reason.cooldownSecs consecutive = secs := by
  cases reason with
  | billing | rateLimit => exact (eq_of_checkedMul h).2
  | overloaded | timeout =>
    obtain ⟨product, hproduct, hsecs⟩ := Option.map_eq_some_iff.mp h
    unfold cooldownSecs
    dsimp only
    rw [(eq_of_checkedMul hproduct).1, hsecs]
  | auth | format | unknown => exact Option.some.inj h

/-- No product overflows up to 60 failures for an overloaded provider, and up to 61 for a
timeout. -/
theorem cooldownSecsChecked_isSome_iff {reason : FailoverReason} {n : ℕ} :
    (reason.cooldownSecsChecked n).isSome = true ↔
      (reason = .overloaded → n ≤ 60) ∧ (reason = .timeout → n ≤ 61) := by
  have hcap : ∀ b c, c * b < 2 ^ 64 → (checkedMul (min (pow2 (n - 1)) c) b).isSome = true := by
    intro b c hlt
    rw [checkedMul_isSome_iff]
    have := Nat.mul_le_mul_right b (Nat.min_le_right (pow2 (n - 1)) c)
    omega
  cases reason with
  | billing => simpa [cooldownSecsChecked] using hcap 3600 24 (by omega)
  | rateLimit => simpa [cooldownSecsChecked] using hcap 60 30 (by omega)
  | overloaded =>
    have hiff : 30 * pow2 (n - 1) < 2 ^ 64 ↔ n - 1 ≤ 59 := mul_pow2_lt_iff (by omega) (by omega) (by omega)
    unfold cooldownSecsChecked
    rw [Option.isSome_map, checkedMul_isSome_iff, hiff]
    simp
  | timeout =>
    have hiff : 15 * pow2 (n - 1) < 2 ^ 64 ↔ n - 1 ≤ 60 := mul_pow2_lt_iff (by omega) (by omega) (by omega)
    unfold cooldownSecsChecked
    rw [Option.isSome_map, checkedMul_isSome_iff, hiff]
    simp
  | auth | format | unknown => simp [cooldownSecsChecked]

/-- The seconds grow as long as no product overflows. -/
theorem cooldownSecsChecked_mono {reason : FailoverReason} {m n a b : ℕ} (h : m ≤ n)
    (ha : reason.cooldownSecsChecked m = some a) (hb : reason.cooldownSecsChecked n = some b) : a ≤ b := by
  have hpow : pow2 (m - 1) ≤ pow2 (n - 1) := pow2_mono (Nat.sub_le_sub_right h 1)
  cases reason with
  | billing | rateLimit =>
    rw [← (eq_of_checkedMul ha).2, ← (eq_of_checkedMul hb).2]
    exact Nat.mul_le_mul_right _ (min_le_min_right _ hpow)
  | overloaded | timeout =>
    obtain ⟨x, hx, rfl⟩ := Option.map_eq_some_iff.mp ha
    obtain ⟨y, hy, rfl⟩ := Option.map_eq_some_iff.mp hb
    rw [← (eq_of_checkedMul hx).2, ← (eq_of_checkedMul hy).2]
    exact min_le_min_right _ (Nat.mul_le_mul_left _ hpow)
  | auth | format | unknown =>
    rw [← Option.some.inj ha, ← Option.some.inj hb]

/-- **Cooldowns that grow.** Neither duration overflows and the one after more failures is not shorter, exactly if the later
count is at most 60 for an overload and at most 61 for a timeout. -/
theorem cooldown_monotone_iff (reason : FailoverReason) {m n : ℕ} (h : m ≤ n) :
    (reason.cooldownSecsChecked m).isSome = true ∧ (reason.cooldownSecsChecked n).isSome = true ∧
        reason.cooldownDuration m ≤ reason.cooldownDuration n ↔
      (reason = .overloaded → n ≤ 60) ∧ (reason = .timeout → n ≤ 61) := by
  rw [cooldownSecsChecked_isSome_iff (n := n)]
  refine ⟨fun hall => hall.2.1, fun hn => ?_⟩
  have hm : (reason.cooldownSecsChecked m).isSome = true :=
    cooldownSecsChecked_isSome_iff.mpr
      ⟨fun hr => Nat.le_trans h (hn.1 hr), fun hr => Nat.le_trans h (hn.2 hr)⟩
  refine ⟨hm, hn, ?_⟩
  obtain ⟨a, ha⟩ := Option.isSome_iff_exists.mp hm
  obtain ⟨b, hb⟩ := Option.isSome_iff_exists.mp (cooldownSecsChecked_isSome_iff.mpr hn)
  unfold cooldownDuration
  rw [cooldownSecs_of_checked ha, cooldownSecs_of_checked hb]
  exact Nat.mul_le_mul_right _ (cooldownSecsChecked_mono h ha hb)

theorem cooldown_monotone_iff_billing :
    (3 : ℕ) ≤ 9 ∧ FailoverReason.billing.cooldownDuration 3 ≤ FailoverReason.billing.cooldownDuration 9 :=
  ⟨by decide, ((cooldown_monotone_iff .billing (by decide : (3 : ℕ) ≤ 9)).mpr ⟨nofun, nofun⟩).2.2⟩

/-- At 63 and at 64 failures the product does not fit; the release build waits for five minutes
after 63 of them and not at all after 64. -/
theorem cooldown_overloaded_falls :
    FailoverReason.overloaded.cooldownSecsChecked 63 = none ∧ FailoverReason.overloaded.cooldownSecsChecked 64 = none ∧
      FailoverReason.overloaded.cooldownDuration 63 = fromSecs 300 ∧ FailoverReason.overloaded.cooldownDuration 64 = 0 ∧
      ¬ FailoverReason.overloaded.cooldownDuration 63 ≤ FailoverReason.overloaded.cooldownDuration 64 := by
  have h63 : FailoverReason.overloaded.cooldownSecs 63 = 300 := by decide
  have h64 : FailoverReason.overloaded.cooldownSecs 64 = 0 := by decide
  unfold cooldownDuration
  rw [h63, h64]
  decide

end FailoverReason

/-! ## Polls -/

theorem backoffDelay_le (count warnAt : ℕ) : backoffDelay count warnAt ≤ 30000 :=
  Nat.mul_le_mul_right 1000 (Nat.min_le_right _ 30)

/-- The delay is at its cap exactly where the shift by the exponent is by at least 5 bits. -/
theorem backoffDelay_eq_cap_iff {count warnAt : ℕ} : backoffDelay count warnAt = 30000 ↔ 5 ≤ (count - warnAt) % 64 := by
  unfold backoffDelay
  generalize (count - warnAt) % 64 = e
  by_cases he : 5 ≤ e
  · have hpow : 2 ^ 5 ≤ 2 ^ e := Nat.pow_le_pow_right (by omega) he
    rw [Nat.min_eq_right (by omega)]
    simp [he]
  · have hpow : 2 ^ e ≤ 2 ^ 4 := Nat.pow_le_pow_right (by omega) (by omega)
    rw [Nat.min_eq_left (by omega)]
    omega

/-- Below the cap the exponent is the shift. -/
theorem backoffDelay_mono {m n warnAt : ℕ} (h : m ≤ n) (hsmall : n - warnAt ≤ 4) :
    backoffDelay m warnAt ≤ backoffDelay n warnAt := by
  unfold backoffDelay
  rw [Nat.mod_eq_of_lt (by omega : m - warnAt < 64), Nat.mod_eq_of_lt (by omega : n - warnAt < 64)]
  have hpow : 2 ^ (m - warnAt) ≤ 2 ^ (n - warnAt) := Nat.pow_le_pow_right (by omega) (by omega)
  exact Nat.mul_le_mul_right _ (min_le_min_right _ hpow)

/-- **Poll delays.** The delay does not fall from one count to a later one, stays within 30 seconds and reaches them, exactly
if the later exponent is at most 4, or at least 5 modulo 64. -/
theorem backoff_monotone_iff {m n : ℕ} (h : m ≤ n) (warnAt : ℕ) :
    backoffDelay m warnAt ≤ backoffDelay n warnAt ∧ backoffDelay n warnAt ≤ 30000 ∧
        (warnAt + 5 ≤ n → backoffDelay n warnAt = 30000) ↔
      n - warnAt ≤ 4 ∨ 5 ≤ (n - warnAt) % 64 := by
  refine ⟨fun ⟨_, _, hcap⟩ => ?_, ?_⟩
  · by_cases hsmall : n - warnAt ≤ 4
    · exact .inl hsmall
    · exact .inr (backoffDelay_eq_cap_iff.mp (hcap (by omega)))
  · rintro (hsmall | hshift)
    · exact ⟨backoffDelay_mono h hsmall, backoffDelay_le n warnAt, fun hge => by omega⟩
    · have hcap : backoffDelay n warnAt = 30000 := backoffDelay_eq_cap_iff.mpr hshift
      exact ⟨Nat.le_trans (backoffDelay_le m warnAt) (Nat.le_of_eq hcap.symm), backoffDelay_le n warnAt, fun _ => hcap⟩

theorem backoff_monotone_iff_ten :
    (9 : ℕ) ≤ 10 ∧ backoffDelay 9 3 ≤ backoffDelay 10 3 ∧ backoffDelay 10 3 ≤ 30000 ∧
      (3 + 5 ≤ 10 → backoffDelay 10 3 = 30000) :=
  ⟨by decide, (backoff_monotone_iff (by decide : (9 : ℕ) ≤ 10) 3).mpr (.inr (by decide))⟩

/-- After 64 polls more than the threshold the delay is a second again. -/
theorem backoff_restarts :
    ¬ backoffDelay 66 3 ≤ backoffDelay 67 3 ∧ ¬ (3 + 5 ≤ 67 → backoffDelay 67 3 = 30000) := by
  have h66 : backoffDelay 66 3 = 30000 := backoffDelay_eq_cap_iff.mpr (by decide)
  have h67 : backoffDelay 67 3 = 1000 := by simp [backoffDelay]
  rw [h66, h67]
  omega

end Zeptoclaw

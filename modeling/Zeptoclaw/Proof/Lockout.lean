import Zeptoclaw.Proof.Pairing

/-!
# The brute-force lockout

`lockout_guards`: an identifier that has failed `max_attempts` times, since its last success
or the end of its last lockout, has no attempt evaluated until the lockout is over. The
failures are read off the log (`failuresSince`), the lockout map of the manager is
what has to agree with them (`EntryOk`).
-/

namespace Zeptoclaw

variable {hashToken : Str → Str}

section Failures

variable (maxAttempts duration : ℕ)

/-- What is left of the failures, the latest first, at a time: none, once a lockout is over. -/
def unexpired (failures : List ℕ) (now : ℕ) : List ℕ :=
  match failures with
  | [] => []
  | last :: earlier => if maxAttempts ≤ earlier.length + 1 ∧ last + duration ≤ now then [] else last :: earlier

/-- The times of the failures of an identifier since its last success or the end of its
last lockout. -/
def failuresSince (identifier : Str) : List PairingEvent → List ℕ
  | [] => []
  | .succeeded other :: log => if other = identifier then [] else failuresSince identifier log
  | .failed other started ended :: log =>
    if other = identifier then ended :: unexpired maxAttempts duration (failuresSince identifier log) started
    else failuresSince identifier log
  | _ :: log => failuresSince identifier log

/-- The entry of an identifier agrees with its failures. -/
def EntryOk (now : ℕ) (failures : List ℕ) : Option LockoutEntry → Prop
  | none => unexpired maxAttempts duration failures now = []
  | some ⟨attempts, none⟩ => attempts = failures.length ∧ failures.length < maxAttempts
  | some ⟨attempts, some lockedUntil⟩ =>
    attempts = failures.length ∧ maxAttempts ≤ failures.length ∧
      ∃ last earlier, failures = last :: earlier ∧ lockedUntil = last + duration

end Failures

/-- The failures of an identifier that count at a time. -/
def PairingWorld.openFailures (w : PairingWorld) (identifier : Str) (now : ℕ) : List ℕ :=
  unexpired w.manager.maxAttempts w.manager.lockoutDuration
    (failuresSince w.manager.maxAttempts w.manager.lockoutDuration identifier w.log) now

section Entries

variable {maxAttempts duration now : ℕ} {failures : List ℕ}

theorem unexpired_short (h : failures.length < maxAttempts) : unexpired maxAttempts duration failures now = failures := by
  cases failures with
  | nil => rfl
  | cons last earlier =>
    rw [List.length_cons] at h
    exact if_neg fun hc => by omega

theorem unexpired_over {last : ℕ} {earlier : List ℕ} (h : maxAttempts ≤ earlier.length + 1) (hover : last + duration ≤ now) :
    unexpired maxAttempts duration (last :: earlier) now = [] := if_pos ⟨h, hover⟩

theorem unexpired_running {last : ℕ} (earlier : List ℕ) (h : now < last + duration) :
    unexpired maxAttempts duration (last :: earlier) now = last :: earlier := if_neg fun hc => by omega

/-- What has expired stays so. -/
theorem unexpired_mono {later : ℕ} (hle : now ≤ later) (h : unexpired maxAttempts duration failures now = []) :
    unexpired maxAttempts duration failures later = [] := by
  cases failures with
  | nil => rfl
  | cons last earlier =>
    unfold unexpired at h ⊢
    dsimp only at h ⊢
    split at h
    · rename_i hc
      exact if_pos ⟨hc.1, by omega⟩
    · cases h

theorem EntryOk.mono {entry : Option LockoutEntry} {later : ℕ} (hle : now ≤ later)
    (h : EntryOk maxAttempts duration now failures entry) : EntryOk maxAttempts duration later failures entry := by
  match entry, h with
  | none, h => exact unexpired_mono hle h
  | some ⟨_, none⟩, h => exact h
  | some ⟨_, some _⟩, h => exact h

/-- A prune keeps the entry in agreement. -/
theorem EntryOk.prune {entry : Option LockoutEntry} (h : EntryOk maxAttempts duration now failures entry) :
    EntryOk maxAttempts duration now failures (entry.filter (PairingManager.keepsEntry now)) := by
  match entry, h with
  | none, h => exact h
  | some ⟨_, none⟩, h => exact h
  | some ⟨attempts, some lockedUntil⟩, h =>
    obtain ⟨hlen, hmax, last, earlier, rfl, rfl⟩ := h
    by_cases hrunning : now < last + duration
    · rw [Option.filter_some, if_pos (by simpa [PairingManager.keepsEntry] using hrunning)]
      exact ⟨hlen, hmax, last, earlier, rfl, rfl⟩
    · rw [Option.filter_some, if_neg (by simpa [PairingManager.keepsEntry] using hrunning)]
      exact unexpired_over hmax (by omega)

end Entries

namespace PairingManager

variable {m : PairingManager}

theorem isLockedOut_iff {identifier : Str} {now : ℕ} : m.isLockedOut identifier now = true ↔
    ∃ attempts lockedUntil, m.lockouts.lookup identifier = some ⟨attempts, some lockedUntil⟩ ∧ now < lockedUntil := by
  unfold isLockedOut
  split
  · rename_i attempts lockedUntil heq
    rw [decide_eq_true_eq, heq]
    constructor
    · intro h
      exact ⟨attempts, lockedUntil, rfl, h⟩
    · rintro ⟨_, _, heq', h⟩
      cases heq'
      exact h
  · rename_i hno
    constructor
    · intro h
      cases h
    · rintro ⟨attempts, lockedUntil, heq, -⟩
      exact absurd heq (hno attempts lockedUntil)

theorem lookup_prune (identifier : Str) (now : ℕ) :
    (m.pruneExpiredLockouts now).lockouts.lookup identifier = (m.lockouts.lookup identifier).filter (keepsEntry now) :=
  Assoc.lookup_retain _ _ _

/-- What the attempts of an identifier that is not locked out count on from. -/
theorem entry_open {now : ℕ} {failures : List ℕ} {identifier : Str} {clock : ClockReads}
    (h : EntryOk m.maxAttempts m.lockoutDuration now failures (m.lockouts.lookup identifier)) (hle : now ≤ clock.locked)
    (hopen : m.isLockedOut identifier clock.locked = false) :
    (unexpired m.maxAttempts m.lockoutDuration failures clock.locked = [] ∧
      ∀ entry, m.lockouts.lookup identifier = some entry → ∃ t ≤ clock.locked, entry.lockedUntil = some t) ∨
    ∃ attempts, m.lockouts.lookup identifier = some ⟨attempts, none⟩ ∧
      attempts = (unexpired m.maxAttempts m.lockoutDuration failures clock.locked).length := by
  match heq : m.lockouts.lookup identifier with
  | none =>
    rw [heq] at h
    exact .inl ⟨unexpired_mono hle h, fun _ he => by cases he⟩
  | some ⟨attempts, none⟩ =>
    rw [heq] at h
    refine .inr ⟨attempts, rfl, ?_⟩
    rw [unexpired_short h.2]
    exact h.1
  | some ⟨attempts, some lockedUntil⟩ =>
    rw [heq] at h
    obtain ⟨-, hmax, last, earlier, rfl, rfl⟩ := h
    have hover : last + m.lockoutDuration ≤ clock.locked := by
      by_contra hlt
      have := isLockedOut_iff.mpr ⟨attempts, _, heq, Nat.lt_of_not_le hlt⟩
      rw [hopen] at this
      cases this
    refine .inl ⟨unexpired_over hmax hover, ?_⟩
    intro entry he
    cases he
    exact ⟨_, hover, rfl⟩

/-- The entry for a number of failures. -/
def entryFor (m : PairingManager) (attempts lock : ℕ) : LockoutEntry :=
  if m.maxAttempts ≤ attempts then ⟨attempts, some (lock + m.lockoutDuration)⟩ else ⟨attempts, none⟩

theorem countFailure_of_expired {identifier : Str} {clock : ClockReads} (h : clock.locked ≤ clock.reset)
    (hentry : ∀ entry, m.lockouts.lookup identifier = some entry → ∃ t ≤ clock.locked, entry.lockedUntil = some t) :
    m.countFailure identifier clock = m.entryFor 1 clock.lock := by
  unfold countFailure entryFor
  match heq : m.lockouts.lookup identifier with
  | none => rfl
  | some ⟨attempts, lockedUntil⟩ =>
    obtain ⟨t, ht, rfl⟩ := hentry _ heq
    have hover : decide (t ≤ clock.reset) = true := decide_eq_true (by omega)
    simp [hover]

theorem countFailure_of_open {identifier : Str} {clock : ClockReads} {attempts : ℕ}
    (h : m.lockouts.lookup identifier = some ⟨attempts, none⟩) :
    m.countFailure identifier clock = m.entryFor (attempts + 1) clock.lock := by
  unfold countFailure entryFor
  rw [h]
  rfl

/-- The manager in which `record_failed_attempt` counts: pruned, if the map is large. -/
def beforeCount (m : PairingManager) (clock : ClockReads) : PairingManager :=
  if 100 < m.lockouts.entries.length then m.pruneExpiredLockouts clock.prune else m

theorem recordFailedAttempt_eq (identifier : Str) (clock : ClockReads) :
    m.recordFailedAttempt identifier clock =
      { m.beforeCount clock with
        lockouts := (m.beforeCount clock).lockouts.insert identifier
          ((m.beforeCount clock).countFailure identifier clock) } := rfl

theorem beforeCount_cases (clock : ClockReads) :
    m.beforeCount clock = m ∨ m.beforeCount clock = m.pruneExpiredLockouts clock.prune := by
  unfold beforeCount
  split
  · exact .inr rfl
  · exact .inl rfl

theorem beforeCount_limits (clock : ClockReads) :
    (m.beforeCount clock).maxAttempts = m.maxAttempts ∧ (m.beforeCount clock).lockoutDuration = m.lockoutDuration := by
  rcases m.beforeCount_cases clock with h | h
  · rw [h]
    exact ⟨rfl, rfl⟩
  · rw [h]
    exact ⟨rfl, rfl⟩

/-- **A failure counts on from what has not expired.** -/
theorem recordFailedAttempt_lookup {now : ℕ} {failures : List ℕ} {identifier : Str} {clock : ClockReads}
    (h : EntryOk m.maxAttempts m.lockoutDuration now failures (m.lockouts.lookup identifier)) (hle : now ≤ clock.locked)
    (hreset : clock.locked ≤ clock.reset) (hopen : m.isLockedOut identifier clock.locked = false) :
    (m.recordFailedAttempt identifier clock).lockouts.lookup identifier =
      some (m.entryFor ((unexpired m.maxAttempts m.lockoutDuration failures clock.locked).length + 1) clock.lock) := by
  have hfor : ∀ n, (m.beforeCount clock).entryFor n clock.lock = m.entryFor n clock.lock := by
    intro n
    obtain ⟨hmax, hdur⟩ := m.beforeCount_limits clock
    unfold entryFor
    rw [hmax, hdur]
  rw [recordFailedAttempt_eq]
  refine (AList.lookup_insert _).trans (congrArg some ?_)
  rw [← hfor]
  rcases entry_open h hle hopen with ⟨hnil, hentry⟩ | ⟨attempts, heq, hlen⟩
  · rw [hnil]
    refine countFailure_of_expired hreset ?_
    intro entry he
    rcases m.beforeCount_cases clock with hb | hb
    · rw [hb] at he
      exact hentry entry he
    · rw [hb, lookup_prune] at he
      exact hentry entry (Option.filter_eq_some_iff.mp he).1
  · rw [← hlen]
    refine countFailure_of_open ?_
    rcases m.beforeCount_cases clock with hb | hb
    · rw [hb, heq]
    · rw [hb, lookup_prune, heq]
      rfl

theorem recordFailedAttempt_lookup_ne {identifier other : Str} (hne : other ≠ identifier) (clock : ClockReads) :
    (m.recordFailedAttempt identifier clock).lockouts.lookup other = m.lockouts.lookup other ∨
      (m.recordFailedAttempt identifier clock).lockouts.lookup other =
        (m.lockouts.lookup other).filter (keepsEntry clock.prune) := by
  rw [recordFailedAttempt_eq]
  have hother : ((m.beforeCount clock).lockouts.insert identifier
      ((m.beforeCount clock).countFailure identifier clock)).lookup other =
        (m.beforeCount clock).lockouts.lookup other := AList.lookup_insert_ne hne
  dsimp only
  rw [hother]
  rcases m.beforeCount_cases clock with hb | hb
  · rw [hb]
    exact .inl rfl
  · rw [hb]
    exact .inr (lookup_prune other clock.prune)

end PairingManager

/-! ## Runs -/

/-- The readings of the clock do not go back. -/
structure ClockReads.Ordered (now : ℕ) (clock : ClockReads) : Prop where
  locked : now ≤ clock.locked
  code : clock.locked ≤ clock.code
  prune : clock.code ≤ clock.prune
  reset : clock.prune ≤ clock.reset
  lock : clock.reset ≤ clock.lock

theorem ClockReads.Ordered.le {now : ℕ} {clock : ClockReads} (h : clock.Ordered now) : now ≤ clock.lock := by
  have h1 := h.locked
  have h2 := h.code
  have h3 := h.prune
  have h4 := h.reset
  have h5 := h.lock
  omega

/-- The time of a call is not before the time of the last one. -/
def TimeGoesOn (w : PairingWorld) : PairingInput → Prop
  | .generate _ now => w.now ≤ now
  | .complete _ _ _ _ clock => clock.Ordered w.now
  | .validate _ _ clock => clock.Ordered w.now
  | .revoke _ => True
  | .prune now => w.now ≤ now

/-- Every entry agrees with the failures in the log. -/
structure LockoutOk (maxAttempts duration : ℕ) (w : PairingWorld) : Prop where
  attempts_eq : w.manager.maxAttempts = maxAttempts
  duration_eq : w.manager.lockoutDuration = duration
  entries : ∀ identifier, EntryOk maxAttempts duration w.now (failuresSince maxAttempts duration identifier w.log)
    (w.manager.lockouts.lookup identifier)

section Steps

variable {maxAttempts duration : ℕ} {w : PairingWorld}

/-- A call that leaves the lockouts alone. -/
theorem LockoutOk.keep (h : LockoutOk maxAttempts duration w) {m : PairingManager} {now : ℕ} {log : List PairingEvent}
    (hle : w.now ≤ now) (hmax : m.maxAttempts = w.manager.maxAttempts)
    (hdur : m.lockoutDuration = w.manager.lockoutDuration) (hlock : m.lockouts = w.manager.lockouts)
    (hlog : ∀ identifier, failuresSince maxAttempts duration identifier log =
      failuresSince maxAttempts duration identifier w.log) :
    LockoutOk maxAttempts duration ⟨m, now, log⟩ := by
  refine ⟨hmax.trans h.attempts_eq, hdur.trans h.duration_eq, ?_⟩
  intro identifier
  show EntryOk maxAttempts duration now (failuresSince maxAttempts duration identifier log) (m.lockouts.lookup identifier)
  rw [hlock, hlog]
  exact (h.entries identifier).mono hle

/-- A success clears the entry. -/
theorem LockoutOk.succeeded (h : LockoutOk maxAttempts duration w) {m : PairingManager} {now : ℕ} {identifier : Str}
    {log : List PairingEvent} (hle : w.now ≤ now) (hmax : m.maxAttempts = w.manager.maxAttempts)
    (hdur : m.lockoutDuration = w.manager.lockoutDuration) (hlock : m.lockouts = w.manager.lockouts.erase identifier)
    (hlog : ∀ other, failuresSince maxAttempts duration other log = failuresSince maxAttempts duration other w.log) :
    LockoutOk maxAttempts duration ⟨m, now, .succeeded identifier :: log⟩ := by
  refine ⟨hmax.trans h.attempts_eq, hdur.trans h.duration_eq, ?_⟩
  intro other
  show EntryOk maxAttempts duration now (if identifier = other then [] else failuresSince maxAttempts duration other log)
    (m.lockouts.lookup other)
  rw [hlock, Assoc.lookup_erase]
  by_cases heq : other = identifier
  · rw [if_pos heq, if_pos heq.symm]
    exact rfl
  · rw [if_neg heq, if_neg (Ne.symm heq), hlog]
    exact (h.entries other).mono hle

theorem entryFor_ok {m : PairingManager} (hmax : m.maxAttempts = maxAttempts) (hdur : m.lockoutDuration = duration)
    (failures : List ℕ) (lock : ℕ) :
    EntryOk maxAttempts duration lock (lock :: failures) (some (m.entryFor (failures.length + 1) lock)) := by
  unfold PairingManager.entryFor
  rw [hmax, hdur]
  by_cases h : maxAttempts ≤ failures.length + 1
  · rw [if_pos h]
    exact ⟨rfl, h, lock, failures, rfl, rfl⟩
  · rw [if_neg h]
    exact ⟨rfl, by rw [List.length_cons]; omega⟩

/-- A failure is counted. -/
theorem LockoutOk.failed (h : LockoutOk maxAttempts duration w) {identifier : Str} {clock : ClockReads}
    (hord : clock.Ordered w.now) (hopen : w.manager.isLockedOut identifier clock.locked = false) :
    LockoutOk maxAttempts duration
      ⟨w.manager.recordFailedAttempt identifier clock, clock.lock, .failed identifier clock.locked clock.lock :: w.log⟩ := by
  have hlimits := w.manager.beforeCount_limits clock
  have hlocked := hord.locked
  have hcode := hord.code
  have hprune := hord.prune
  have hreset := hord.reset
  have hlock := hord.lock
  refine ⟨hlimits.1.trans h.attempts_eq, hlimits.2.trans h.duration_eq, ?_⟩
  intro other
  show EntryOk maxAttempts duration clock.lock
    (if identifier = other then clock.lock :: unexpired maxAttempts duration
      (failuresSince maxAttempts duration other w.log) clock.locked else failuresSince maxAttempts duration other w.log)
    ((w.manager.recordFailedAttempt identifier clock).lockouts.lookup other)
  by_cases heq : other = identifier
  · subst heq
    have hentry := h.entries other
    rw [← h.attempts_eq, ← h.duration_eq] at hentry
    rw [if_pos rfl, PairingManager.recordFailedAttempt_lookup hentry hlocked (by omega) hopen, h.attempts_eq, h.duration_eq]
    exact entryFor_ok h.attempts_eq h.duration_eq _ _
  · rw [if_neg (Ne.symm heq)]
    have hentry : EntryOk maxAttempts duration clock.prune (failuresSince maxAttempts duration other w.log)
        (w.manager.lockouts.lookup other) := (h.entries other).mono (by omega)
    rcases w.manager.recordFailedAttempt_lookup_ne heq clock with hlook | hlook
    · rw [hlook]
      exact hentry.mono (by omega)
    · rw [hlook]
      exact hentry.prune.mono (by omega)

/-- **One call keeps the entries in agreement with the log.** -/
theorem pairingStep_lockout (w : PairingWorld) (input : PairingInput) (h : LockoutOk maxAttempts duration w)
    (htime : TimeGoesOn w input) : LockoutOk maxAttempts duration (pairingStep hashToken w input) := by
  cases input with
  | generate n now => exact h.keep htime rfl rfl rfl fun _ => rfl
  | prune now =>
    refine ⟨h.attempts_eq, h.duration_eq, fun identifier => ?_⟩
    show EntryOk maxAttempts duration now _ ((w.manager.pruneExpiredLockouts now).lockouts.lookup identifier)
    rw [PairingManager.lookup_prune]
    exact ((h.entries identifier).mono htime).prune
  | revoke name =>
    have hlock : (w.manager.revoke name).1.lockouts = w.manager.lockouts := by
      unfold PairingManager.revoke
      dsimp only
      split <;> rfl
    have hlimits : (w.manager.revoke name).1.maxAttempts = w.manager.maxAttempts ∧
        (w.manager.revoke name).1.lockoutDuration = w.manager.lockoutDuration := by
      unfold PairingManager.revoke
      dsimp only
      split <;> exact ⟨rfl, rfl⟩
    exact h.keep (le_refl _) hlimits.1 hlimits.2 hlock fun _ => rfl
  | validate rawToken identifier clock =>
    have hle := htime.le
    unfold pairingStep
    dsimp only
    rcases w.manager.validateToken_cases hashToken rawToken identifier clock with
      ⟨hl, heq⟩ | ⟨hl, heq⟩ | ⟨hl, m', name, heq, -, -, -, hlock, hmax, hdur⟩
    · rw [heq, attemptEvents_locked hl]
      exact h.keep hle rfl rfl rfl fun _ => rfl
    · rw [heq, attemptEvents_failed hl]
      exact h.failed htime hl
    · rw [heq, attemptEvents_succeeded hl]
      exact h.succeeded hle hmax hdur hlock fun _ => rfl
  | complete code name identifier rawToken clock =>
    have hle := htime.le
    unfold pairingStep
    dsimp only
    rcases w.manager.completePairing_cases hashToken code name identifier rawToken clock with
      ⟨hl, heq⟩ | ⟨hl, heq⟩ | ⟨hl, -, m', heq, -, -, hlock, hmax, hdur⟩
    · rw [heq, attemptEvents_locked hl]
      exact h.keep hle rfl rfl rfl fun _ => rfl
    · rw [heq, attemptEvents_failed hl]
      exact h.failed htime hl
    · rw [heq, attemptEvents_succeeded hl]
      exact h.succeeded hle hmax hdur hlock fun _ => rfl

/-- An identifier that has failed too often is locked out. -/
theorem LockoutOk.locked (h : LockoutOk maxAttempts duration w) (hmax : 1 ≤ maxAttempts) {identifier : Str} {now : ℕ}
    (hle : w.now ≤ now) (hfailed : maxAttempts ≤ (w.openFailures identifier now).length) :
    w.manager.isLockedOut identifier now = true := by
  unfold PairingWorld.openFailures at hfailed
  rw [h.attempts_eq, h.duration_eq] at hfailed
  have hentry := (h.entries identifier).mono hle
  match heq : w.manager.lockouts.lookup identifier with
  | none =>
    rw [heq] at hentry
    have hnil : unexpired maxAttempts duration (failuresSince maxAttempts duration identifier w.log) now = [] := hentry
    rw [hnil, List.length_nil] at hfailed
    omega
  | some ⟨attempts, none⟩ =>
    rw [heq] at hentry
    rw [unexpired_short hentry.2] at hfailed
    have := hentry.2
    omega
  | some ⟨attempts, some lockedUntil⟩ =>
    rw [heq] at hentry
    obtain ⟨-, hlen, last, earlier, hf, rfl⟩ := hentry
    rw [PairingManager.isLockedOut_iff]
    refine ⟨attempts, _, heq, ?_⟩
    by_contra hover
    rw [hf] at hlen hfailed
    rw [unexpired_over hlen (by omega), List.length_nil] at hfailed
    omega

/-- The prune counts what has not expired. -/
theorem LockoutOk.failedAttempts_prune (h : LockoutOk maxAttempts duration w) {now : ℕ} (hle : w.now ≤ now)
    (identifier : Str) :
    (w.manager.pruneExpiredLockouts now).failedAttempts identifier = (w.openFailures identifier now).length := by
  unfold PairingWorld.openFailures PairingManager.failedAttempts
  rw [h.attempts_eq, h.duration_eq, PairingManager.lookup_prune]
  have hentry := (h.entries identifier).mono hle
  match heq : w.manager.lockouts.lookup identifier with
  | none =>
    rw [heq] at hentry
    have hnil : unexpired maxAttempts duration (failuresSince maxAttempts duration identifier w.log) now = [] := hentry
    rw [hnil]
    rfl
  | some ⟨attempts, none⟩ =>
    rw [heq] at hentry
    rw [unexpired_short hentry.2]
    exact hentry.1
  | some ⟨attempts, some lockedUntil⟩ =>
    rw [heq] at hentry
    obtain ⟨hlen, hmax, last, earlier, hf, rfl⟩ := hentry
    rw [hf] at hlen hmax ⊢
    rw [Option.filter_some]
    by_cases hrunning : now < last + duration
    · rw [if_pos (by simpa [PairingManager.keepsEntry] using hrunning), unexpired_running earlier hrunning]
      exact hlen
    · rw [if_neg (by simpa [PairingManager.keepsEntry] using hrunning), unexpired_over hmax (by omega)]
      rfl

theorem isLockedOut_prune (m : PairingManager) (identifier : Str) {now later : ℕ} (hle : now ≤ later) :
    (m.pruneExpiredLockouts now).isLockedOut identifier later = m.isLockedOut identifier later := by
  rw [Bool.eq_iff_iff, PairingManager.isLockedOut_iff, PairingManager.isLockedOut_iff]
  constructor
  · rintro ⟨attempts, lockedUntil, heq, hlt⟩
    rw [PairingManager.lookup_prune] at heq
    exact ⟨attempts, lockedUntil, (Option.filter_eq_some_iff.mp heq).1, hlt⟩
  · rintro ⟨attempts, lockedUntil, heq, hlt⟩
    refine ⟨attempts, lockedUntil, ?_, hlt⟩
    rw [PairingManager.lookup_prune, heq]
    refine Option.filter_eq_some_iff.mpr ⟨rfl, ?_⟩
    exact decide_eq_true (by omega)

end Steps

/-- The lockout, as it is in one state. -/
structure Guarded (hashToken : Str → Str) (w : PairingWorld) : Prop where
  -- no attempt is evaluated: whatever code or token it has, nothing comes of it
  refused : ∀ identifier (clock : ClockReads), w.now ≤ clock.locked →
    w.manager.maxAttempts ≤ (w.openFailures identifier clock.locked).length →
    (∀ code deviceName rawToken,
      w.manager.completePairing hashToken code deviceName identifier rawToken clock = (w.manager, none)) ∧
    ∀ rawToken, w.manager.validateToken hashToken rawToken identifier clock = (w.manager, none)
  -- a prune ends no lockout, and forgets no failure that counts
  prune : ∀ identifier now, w.now ≤ now →
    (w.manager.pruneExpiredLockouts now).failedAttempts identifier = (w.openFailures identifier now).length ∧
    ∀ later, now ≤ later →
      (w.manager.pruneExpiredLockouts now).isLockedOut identifier later = w.manager.isLockedOut identifier later

/-- **Too many failures stop an identifier** until the lockout is over, in every run. -/
theorem lockout_guards (start : List PairedDevice) {maxAttempts : ℕ} (hmax : 1 ≤ maxAttempts) (lockoutSecs : ℕ)
    (inputs : List PairingInput)
    (htime : StepsMeet (pairingStep hashToken) TimeGoesOn (PairingWorld.new start maxAttempts lockoutSecs) inputs) :
    Guarded hashToken
      (runSteps (pairingStep hashToken) (PairingWorld.new start maxAttempts lockoutSecs) inputs) := by
  have hnew : LockoutOk maxAttempts (fromSecs lockoutSecs) (PairingWorld.new start maxAttempts lockoutSecs) :=
    ⟨rfl, rfl, fun _ => rfl⟩
  have h := run_invariant pairingStep_lockout inputs _ hnew htime
  refine ⟨?_, fun identifier now hle => ⟨h.failedAttempts_prune hle identifier, ?_⟩⟩
  · intro identifier clock hle hfailed
    rw [h.attempts_eq] at hfailed
    have hlocked := h.locked hmax hle hfailed
    exact ⟨fun _ _ _ => if_pos hlocked, fun _ => if_pos hlocked⟩
  · intro later hlater
    exact isLockedOut_prune _ identifier hlater

/-- Two codes are guessed, with two attempts allowed. -/
def guessedTwice : List PairingInput :=
  [.generate 123456 10,
    .complete "000000".toList "laptop".toList "10.0.0.9".toList phoneToken ⟨20, 20, 20, 20, 20, 1⟩,
    .complete "000001".toList "laptop".toList "10.0.0.9".toList phoneToken ⟨30, 30, 30, 30, 30, 1⟩]

theorem lockout_guards_guessed :
    ((runSteps (pairingStep (Equiv.swap phoneToken phoneDigest)) (PairingWorld.new [] 2 300) guessedTwice).openFailures
        "10.0.0.9".toList 40).length = 2 ∧
      Guarded (Equiv.swap phoneToken phoneDigest)
        (runSteps (pairingStep (Equiv.swap phoneToken phoneDigest)) (PairingWorld.new [] 2 300) guessedTwice) := by
  refine ⟨by decide +kernel, lockout_guards [] (by decide) 300 guessedTwice ⟨Nat.zero_le _, ?_, ?_, trivial⟩⟩
  · exact ⟨by decide, by decide, by decide, by decide, by decide⟩
  · exact ⟨by decide +kernel, by decide, by decide, by decide, by decide⟩

end Zeptoclaw

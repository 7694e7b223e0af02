import Zeptoclaw.Spec.Pairing
import Mathlib.Data.List.Nodup
import Mathlib.Logic.Equiv.Basic

/-!
# The life of a pairing token, and the lockout

The devices of the manager are a map from names to the hash of the token issued last
(`liveHash`, read off the log). `pairing_lifecycle`: names stay unique, a code is exchanged
once, and only a token that is live validates.
-/

namespace Zeptoclaw

variable {hashToken : Str → Str}

namespace PairingManager

variable {m : PairingManager}

/-! ## The calls -/

@[simp] theorem recordFailedAttempt_devices (identifier : Str) (clock : ClockReads) :
    (m.recordFailedAttempt identifier clock).devices = m.devices := by
  unfold recordFailedAttempt
  split <;> rfl

@[simp] theorem recordFailedAttempt_pendingCode (identifier : Str) (clock : ClockReads) :
    (m.recordFailedAttempt identifier clock).pendingCode = m.pendingCode := by
  unfold recordFailedAttempt
  split <;> rfl

/-- The devices once a name is dropped. -/
def without (devices : List PairedDevice) (deviceName : Str) : List PairedDevice :=
  devices.filter fun d => d.name ≠ deviceName

theorem revoke_devices (deviceName : Str) : (m.revoke deviceName).1.devices = without m.devices deviceName := by
  unfold revoke
  dsimp only
  split <;> rfl

theorem revoke_pendingCode (deviceName : Str) : (m.revoke deviceName).1.pendingCode = m.pendingCode := by
  unfold revoke
  dsimp only
  split <;> rfl

/-- **What `complete_pairing` comes to**: it is turned away, it fails, or it exchanges the
pending code. -/
theorem completePairing_cases (hashToken : Str → Str) (code deviceName identifier rawToken : Str) (clock : ClockReads) :
    (m.isLockedOut identifier clock.locked = true ∧
      m.completePairing hashToken code deviceName identifier rawToken clock = (m, none)) ∨
    (m.isLockedOut identifier clock.locked = false ∧
      m.completePairing hashToken code deviceName identifier rawToken clock =
        (m.recordFailedAttempt identifier clock, none)) ∨
    (m.isLockedOut identifier clock.locked = false ∧ (∃ expiresAt, m.pendingCode = some ⟨code, expiresAt⟩) ∧
      ∃ m', m.completePairing hashToken code deviceName identifier rawToken clock = (m', some rawToken) ∧
        m'.devices = without m.devices deviceName ++ [⟨deviceName, hashToken rawToken, clock.secs, clock.secs⟩] ∧
        m'.pendingCode = none ∧ m'.lockouts = m.lockouts.erase identifier ∧ m'.maxAttempts = m.maxAttempts ∧
        m'.lockoutDuration = m.lockoutDuration) := by
  unfold completePairing
  cases hlocked : m.isLockedOut identifier clock.locked with
  | true => exact .inl ⟨rfl, rfl⟩
  | false =>
    cases hvalid : m.validCode code clock.code with
    | false => exact .inr (.inl ⟨rfl, rfl⟩)
    | true =>
      refine .inr (.inr ⟨rfl, ?_, _, rfl, rfl, rfl, rfl, rfl, rfl⟩)
      unfold validCode at hvalid
      split at hvalid
      · rename_i pc hpc
        rw [Bool.and_eq_true, decide_eq_true_eq] at hvalid
        exact ⟨pc.expiresAt, by rw [hpc, ← hvalid.1]⟩
      · cases hvalid

theorem foldl_matched (hash : Str) : ∀ (l : List (PairedDevice × ℕ)) (start : Option ℕ),
    (l.foldl (fun matched d => if d.1.tokenHash = hash then some d.2 else matched) start = start ∧
      ∀ d ∈ l, d.1.tokenHash ≠ hash) ∨
    ∃ d ∈ l, d.1.tokenHash = hash ∧
      l.foldl (fun matched d => if d.1.tokenHash = hash then some d.2 else matched) start = some d.2 := by
  intro l
  induction l with
  | nil => intro start; exact .inl ⟨rfl, by simp⟩
  | cons e l ih =>
    intro start
    rw [List.foldl_cons]
    by_cases he : e.1.tokenHash = hash
    · rw [if_pos he]
      rcases ih (some e.2) with ⟨h, -⟩ | ⟨d, hd, hh, h⟩
      · exact .inr ⟨e, List.mem_cons_self, he, h⟩
      · exact .inr ⟨d, List.mem_cons_of_mem _ hd, hh, h⟩
    · rw [if_neg he]
      rcases ih start with ⟨h, hno⟩ | ⟨d, hd, hh, h⟩
      · refine .inl ⟨h, ?_⟩
        intro d hd
        rcases List.mem_cons.mp hd with rfl | hd
        · exact he
        · exact hno d hd
      · exact .inr ⟨d, List.mem_cons_of_mem _ hd, hh, h⟩

theorem matchedIdx_cases (devices : List PairedDevice) (hash : Str) :
    (matchedIdx devices hash = none ∧ ∀ d ∈ devices, d.tokenHash ≠ hash) ∨
    ∃ i d, matchedIdx devices hash = some i ∧ devices[i]? = some d ∧ d.tokenHash = hash := by
  rcases foldl_matched hash devices.zipIdx none with ⟨h, hno⟩ | ⟨d, hd, hh, h⟩
  · refine .inl ⟨h, ?_⟩
    intro d hd
    obtain ⟨i, hi, rfl⟩ := List.getElem_of_mem hd
    exact hno (devices[i], i) (List.mem_zipIdx_iff_getElem?.mpr (List.getElem?_eq_getElem hi))
  · exact .inr ⟨d.2, d.1, h, List.mem_zipIdx_iff_getElem?.mp hd, hh⟩

/-- A name and the hash of its token. -/
def creds (devices : List PairedDevice) : List (Str × Str) := devices.map fun d => (d.name, d.tokenHash)

/-- To see a device changes no credential. -/
theorem creds_modify (secs : ℕ) : ∀ (devices : List PairedDevice) (i : ℕ),
    creds (devices.modify i fun d => { d with lastSeen := secs }) = creds devices := by
  intro devices
  induction devices with
  | nil => intro i; simp [creds]
  | cons d devices ih =>
    intro i
    cases i with
    | zero => rfl
    | succ i =>
      have := ih i
      unfold creds at this ⊢
      rw [List.modify_succ_cons, List.map_cons, List.map_cons, this]

/-- **What `validate_token` comes to**: it is turned away, it fails, or a device matches. -/
theorem validateToken_cases (hashToken : Str → Str) (rawToken identifier : Str) (clock : ClockReads) :
    (m.isLockedOut identifier clock.locked = true ∧
      m.validateToken hashToken rawToken identifier clock = (m, none)) ∨
    (m.isLockedOut identifier clock.locked = false ∧
      m.validateToken hashToken rawToken identifier clock = (m.recordFailedAttempt identifier clock, none)) ∨
    (m.isLockedOut identifier clock.locked = false ∧ ∃ m' name,
      m.validateToken hashToken rawToken identifier clock = (m', some name) ∧
        (name, hashToken rawToken) ∈ creds m.devices ∧ creds m'.devices = creds m.devices ∧
        m'.pendingCode = m.pendingCode ∧ m'.lockouts = m.lockouts.erase identifier ∧
        m'.maxAttempts = m.maxAttempts ∧ m'.lockoutDuration = m.lockoutDuration) := by
  unfold validateToken
  cases hlocked : m.isLockedOut identifier clock.locked with
  | true => exact .inl ⟨rfl, rfl⟩
  | false =>
    rcases matchedIdx_cases m.devices (hashToken rawToken) with ⟨h, -⟩ | ⟨i, d, h, hi, hd⟩
    · rw [h]
      exact .inr (.inl ⟨rfl, rfl⟩)
    · rw [h]
      dsimp only
      rw [hi]
      refine .inr (.inr ⟨rfl, _, d.name, rfl, ?_, creds_modify _ _ _, rfl, rfl, rfl, rfl⟩)
      rw [← hd]
      exact List.mem_map.mpr ⟨d, List.mem_of_getElem? hi, rfl⟩

end PairingManager

/-! ## The log -/

/-- The code that was generated last, if it has not been exchanged. -/
def openCode : List PairingEvent → Option Str
  | [] => none
  | .generated code :: _ => some code
  | .paired _ _ _ :: _ => none
  | _ :: log => openCode log

section Live

variable (hashToken) (start : List PairedDevice)

/-- The live credentials: of each name the token issued last, unless it was revoked. -/
def live : List PairingEvent → List (Str × Str)
  | [] => PairingManager.creds start
  | .paired _ name rawToken :: log => (live log).filter (fun c => c.1 ≠ name) ++ [(name, hashToken rawToken)]
  | .revoked name :: log => (live log).filter fun c => c.1 ≠ name
  | _ :: log => live log

/-- All credentials that were ever issued. -/
def issued : List PairingEvent → List (Str × Str)
  | [] => PairingManager.creds start
  | .paired _ name rawToken :: log => (name, hashToken rawToken) :: issued log
  | _ :: log => issued log

end Live

/-- A revocation or a new pairing of a name. -/
def PairingEvent.Retires (name : Str) : PairingEvent → Prop
  | .revoked name' => name' = name
  | .paired _ name' _ => name' = name
  | _ => False

section Log

variable {start : List PairedDevice} {log : List PairingEvent}

theorem live_names_nodup (hstart : (start.map PairedDevice.name).Nodup) : ∀ log : List PairingEvent,
    ((live hashToken start log).map Prod.fst).Nodup := by
  intro log
  induction log with
  | nil =>
    unfold live PairingManager.creds
    rw [List.map_map]
    exact hstart
  | cons event log ih =>
    have hfilter : ∀ name, (((live hashToken start log).filter fun c => c.1 ≠ name).map Prod.fst).Nodup := fun name =>
      ih.sublist (List.filter_sublist.map Prod.fst)
    cases event with
    | generated code => exact ih
    | succeeded identifier => exact ih
    | failed identifier started ended => exact ih
    | revoked name => exact hfilter name
    | paired code name rawToken =>
      unfold live
      rw [List.map_append, List.map_singleton]
      refine List.nodup_append.mpr ⟨hfilter name, List.nodup_singleton _, ?_⟩
      -- a kept name is another one
      intro a ha b hb heq
      obtain ⟨c, hc, rfl⟩ := List.mem_map.mp ha
      have hne := (List.mem_filter.mp hc).2
      rw [List.mem_singleton.mp hb] at heq
      simp [heq] at hne

theorem live_subset_issued : ∀ log : List PairingEvent, live hashToken start log ⊆ issued hashToken start log := by
  intro log
  induction log with
  | nil => exact fun _ h => h
  | cons event log ih =>
    cases event with
    | generated code => exact ih
    | succeeded identifier => exact ih
    | failed identifier started ended => exact ih
    | revoked name => exact fun c hc => ih (List.mem_of_mem_filter hc)
    | paired code name rawToken =>
      intro c hc
      rcases List.mem_append.mp hc with hc | hc
      · exact List.mem_cons_of_mem _ (ih (List.mem_of_mem_filter hc))
      · rw [List.mem_singleton.mp hc]
        exact List.mem_cons_self

theorem issued_append : ∀ later earlier : List PairingEvent,
    issued hashToken start earlier ⊆ issued hashToken start (later ++ earlier) := by
  intro later
  induction later with
  | nil => exact fun _ _ h => h
  | cons event later ih =>
    intro earlier c hc
    cases event with
    | paired code name rawToken => exact List.mem_cons_of_mem _ (ih earlier hc)
    | _ => exact ih earlier hc

/-- Of two credentials with one hash, issued with distinct hashes, the names are equal. -/
theorem issued_name_eq (h : ((issued hashToken start log).map Prod.snd).Nodup) {name name' hash : Str}
    (hc : (name, hash) ∈ issued hashToken start log) (hc' : (name', hash) ∈ issued hashToken start log) :
    name = name' :=
  congrArg Prod.fst (List.inj_on_of_nodup_map h hc hc' rfl)

theorem issued_nodup_of_append : ∀ (later : List PairingEvent) {earlier : List PairingEvent},
    ((issued hashToken start (later ++ earlier)).map Prod.snd).Nodup →
    ((issued hashToken start earlier).map Prod.snd).Nodup := by
  intro later
  induction later with
  | nil => exact fun h => h
  | cons event later ih =>
    intro earlier h
    cases event with
    | paired code name rawToken => exact ih (List.nodup_cons.mp h).2
    | _ => exact ih h

/-- **A token that was issued before its name was retired is not live.** -/
theorem not_live_of_retired {name token : Str} {event : PairingEvent} {earlier : List PairingEvent}
    (hevent : event.Retires name) (hissued : (name, hashToken token) ∈ issued hashToken start earlier) :
    ∀ later : List PairingEvent, ((issued hashToken start (later ++ event :: earlier)).map Prod.snd).Nodup →
      ∀ name', (name', hashToken token) ∉ live hashToken start (later ++ event :: earlier) := by
  intro later
  induction later with
  | nil =>
    intro hnodup name' hlive
    have hearlier : ((issued hashToken start earlier).map Prod.snd).Nodup :=
      issued_nodup_of_append [event] hnodup
    -- what the retirement keeps has another name
    have hkept : (name', hashToken token) ∉ (live hashToken start earlier).filter fun c => c.1 ≠ name := by
      intro hmem
      obtain ⟨hmem, hne⟩ := List.mem_filter.mp hmem
      have := issued_name_eq hearlier hissued (live_subset_issued earlier hmem)
      simp [this] at hne
    cases event with
    | generated code => exact hevent
    | succeeded identifier => exact hevent
    | failed identifier started ended => exact hevent
    | revoked retired =>
      cases hevent
      exact hkept hlive
    | paired code retired rawToken =>
      cases hevent
      rcases List.mem_append.mp hlive with hlive | hlive
      · exact hkept hlive
      · have hhash := congrArg Prod.snd (List.mem_singleton.mp hlive)
        exact (List.nodup_cons.mp hnodup).1 (List.mem_map.mpr ⟨_, hissued, hhash⟩)
  | cons event' later ih =>
    intro hnodup name' hlive
    cases event' with
    | generated code => exact ih hnodup name' hlive
    | succeeded identifier => exact ih hnodup name' hlive
    | failed identifier started ended => exact ih hnodup name' hlive
    | revoked other => exact ih hnodup name' (List.mem_of_mem_filter hlive)
    | paired code other rawToken =>
      obtain ⟨hnew, hrest⟩ := List.nodup_cons.mp hnodup
      rcases List.mem_append.mp hlive with hlive | hlive
      · exact ih hrest name' (List.mem_of_mem_filter hlive)
      · have hhash := congrArg Prod.snd (List.mem_singleton.mp hlive)
        have hmem : (name, hashToken token) ∈ issued hashToken start (later ++ event :: earlier) := by
          refine issued_append later _ ?_
          exact issued_append [event] earlier hissued
        exact hnew (List.mem_map.mpr ⟨_, hmem, hhash⟩)

end Log

/-! ## Runs -/

/-- Every exchange in the log is of the code that was open then. -/
def ExchangesOpen (log : List PairingEvent) : Prop :=
  ∀ later code name token earlier, log = later ++ .paired code name token :: earlier → openCode earlier = some code

theorem ExchangesOpen.cons {log : List PairingEvent} (h : ExchangesOpen log) {event : PairingEvent}
    (hevent : ∀ code name token, event = .paired code name token → openCode log = some code) :
    ExchangesOpen (event :: log) := by
  intro later code name token earlier heq
  cases later with
  | nil =>
    obtain ⟨hhead, rfl⟩ := List.cons.inj heq
    exact hevent code name token hhead
  | cons other later =>
    obtain ⟨-, htail⟩ := List.cons.inj heq
    exact h later code name token earlier htail

section Runs

variable (hashToken) (start : List PairedDevice)

/-- The token that is drawn for an exchange was not issued before. -/
def FreshToken (w : PairingWorld) : PairingInput → Prop
  | .complete _ _ _ rawToken _ =>
    (∀ code name, .paired code name rawToken ∉ w.log) ∧ ∀ d ∈ start, d.tokenHash ≠ hashToken rawToken
  | _ => True

/-- What the manager has is what the log says. -/
structure PairingOk (w : PairingWorld) : Prop where
  creds : PairingManager.creds w.manager.devices = live hashToken start w.log
  code : w.manager.pendingCode.map PendingCode.code = openCode w.log
  fresh : ((issued hashToken start w.log).map Prod.snd).Nodup
  once : ExchangesOpen w.log

end Runs

section Runs

variable {start : List PairedDevice} {w : PairingWorld}

theorem creds_without (devices : List PairedDevice) (name : Str) :
    PairingManager.creds (PairingManager.without devices name) =
      (PairingManager.creds devices).filter fun c => c.1 ≠ name := by
  unfold PairingManager.creds PairingManager.without
  rw [List.filter_map]
  rfl

/-- An event that only counts attempts. -/
def PairingEvent.Counts : PairingEvent → Prop
  | .succeeded _ => True
  | .failed _ _ _ => True
  | _ => False

theorem PairingOk.counts (h : PairingOk hashToken start w) {m : PairingManager} (now : ℕ) (events : List PairingEvent)
    (hdevices : PairingManager.creds m.devices = PairingManager.creds w.manager.devices)
    (hcode : m.pendingCode = w.manager.pendingCode) (hevents : ∀ e ∈ events, e.Counts) :
    PairingOk hashToken start ⟨m, now, events ++ w.log⟩ := by
  induction events with
  | nil => exact ⟨hdevices.trans h.creds, by rw [hcode]; exact h.code, h.fresh, h.once⟩
  | cons event events ih =>
    have hrest := ih fun e he => hevents e (List.mem_cons_of_mem _ he)
    have hcount := hevents event List.mem_cons_self
    have hpaired : ∀ code name token, event = .paired code name token → openCode (events ++ w.log) = some code := by
      rintro code name token rfl
      cases hcount
    cases event with
    | succeeded identifier => exact ⟨hrest.creds, hrest.code, hrest.fresh, hrest.once.cons hpaired⟩
    | failed identifier started ended => exact ⟨hrest.creds, hrest.code, hrest.fresh, hrest.once.cons hpaired⟩
    | _ => cases hcount

theorem attemptEvents_locked {m : PairingManager} {identifier : Str} {clock : ClockReads}
    (h : m.isLockedOut identifier clock.locked = true) (result : Option Str) (onSuccess : Str → List PairingEvent) :
    attemptEvents m identifier clock result onSuccess = [] := if_pos h

theorem attemptEvents_failed {m : PairingManager} {identifier : Str} {clock : ClockReads}
    (h : m.isLockedOut identifier clock.locked = false) (onSuccess : Str → List PairingEvent) :
    attemptEvents m identifier clock none onSuccess = [.failed identifier clock.locked clock.lock] :=
  if_neg (by rw [h]; exact Bool.false_ne_true)

theorem attemptEvents_succeeded {m : PairingManager} {identifier : Str} {clock : ClockReads}
    (h : m.isLockedOut identifier clock.locked = false) (answer : Str) (onSuccess : Str → List PairingEvent) :
    attemptEvents m identifier clock (some answer) onSuccess = .succeeded identifier :: onSuccess answer :=
  if_neg (by rw [h]; exact Bool.false_ne_true)

/-- The hash of a new token was never issued. -/
theorem hash_not_issued (hinj : Function.Injective hashToken) {rawToken : Str}
    (hstart : ∀ d ∈ start, d.tokenHash ≠ hashToken rawToken) : ∀ {log : List PairingEvent},
    (∀ code name, .paired code name rawToken ∉ log) → hashToken rawToken ∉ (issued hashToken start log).map Prod.snd := by
  intro log
  induction log with
  | nil =>
    intro _ hmem
    obtain ⟨c, hc, heq⟩ := List.mem_map.mp hmem
    obtain ⟨d, hd, rfl⟩ := List.mem_map.mp hc
    exact hstart d hd heq
  | cons event log ih =>
    intro hlog
    have hrest := ih fun code name hmem => hlog code name (List.mem_cons_of_mem _ hmem)
    cases event with
    | paired code name token =>
      intro hmem
      rcases List.mem_cons.mp hmem with heq | hmem
      · rw [hinj heq] at hlog
        exact hlog code name List.mem_cons_self
      · exact hrest hmem
    | _ => exact hrest

/-- **One call keeps the manager and the log together.** -/
theorem pairingStep_ok (hinj : Function.Injective hashToken) (w : PairingWorld) (input : PairingInput)
    (h : PairingOk hashToken start w) (hfresh : FreshToken hashToken start w input) :
    PairingOk hashToken start (pairingStep hashToken w input) := by
  cases input with
  | generate n now => exact ⟨h.creds, rfl, h.fresh, h.once.cons fun _ _ _ heq => by cases heq⟩
  | prune now => exact ⟨h.creds, h.code, h.fresh, h.once⟩
  | revoke name =>
    refine ⟨?_, ?_, h.fresh, h.once.cons fun _ _ _ heq => by cases heq⟩
    · show PairingManager.creds (w.manager.revoke name).1.devices = _
      rw [PairingManager.revoke_devices, creds_without, h.creds]
      rfl
    · show (w.manager.revoke name).1.pendingCode.map PendingCode.code = _
      rw [PairingManager.revoke_pendingCode]
      exact h.code
  | validate rawToken identifier clock =>
    unfold pairingStep
    rcases w.manager.validateToken_cases hashToken rawToken identifier clock with
      ⟨hl, heq⟩ | ⟨hl, heq⟩ | ⟨hl, m', name, heq, -, hdevices, hcode, -⟩
    · dsimp only
      rw [heq, attemptEvents_locked hl]
      exact h.counts _ [] rfl rfl (by simp)
    · dsimp only
      rw [heq, attemptEvents_failed hl]
      exact h.counts _ [_] (by simp) (by simp) (by simp [PairingEvent.Counts])
    · dsimp only
      rw [heq, attemptEvents_succeeded hl]
      exact h.counts _ [_] hdevices hcode (by simp [PairingEvent.Counts])
  | complete code name identifier rawToken clock =>
    unfold pairingStep
    rcases w.manager.completePairing_cases hashToken code name identifier rawToken clock with
      ⟨hl, heq⟩ | ⟨hl, heq⟩ | ⟨hl, ⟨expiresAt, hpending⟩, m', heq, hdevices, hcode, -⟩
    · dsimp only
      rw [heq, attemptEvents_locked hl]
      exact h.counts _ [] rfl rfl (by simp)
    · dsimp only
      rw [heq, attemptEvents_failed hl]
      exact h.counts _ [_] (by simp) (by simp) (by simp [PairingEvent.Counts])
    · dsimp only
      rw [heq, attemptEvents_succeeded hl]
      have hopen : openCode w.log = some code := by
        rw [← h.code, hpending]
        rfl
      have hpaired : PairingOk hashToken start ⟨m', clock.lock, .paired code name rawToken :: w.log⟩ := by
        refine ⟨?_, ?_, ?_, ?_⟩
        · show PairingManager.creds m'.devices = _
          rw [hdevices]
          unfold PairingManager.creds live
          rw [List.map_append]
          exact congrArg (· ++ _) ((creds_without _ _).trans (by rw [h.creds]))
        · show m'.pendingCode.map PendingCode.code = none
          rw [hcode]
          rfl
        · exact List.nodup_cons.mpr ⟨hash_not_issued hinj hfresh.2 hfresh.1, h.fresh⟩
        · refine h.once.cons ?_
          rintro _ _ _ ⟨⟩
          exact hopen
      exact hpaired.counts clock.lock [.succeeded identifier] rfl rfl (by simp [PairingEvent.Counts])

theorem pairingNew_ok (hnodup : (start.map PairedDevice.tokenHash).Nodup) (maxAttempts lockoutSecs : ℕ) :
    PairingOk hashToken start (PairingWorld.new start maxAttempts lockoutSecs) := by
  refine ⟨rfl, rfl, ?_, ?_⟩
  · show ((PairingManager.creds start).map Prod.snd).Nodup
    unfold PairingManager.creds
    rw [List.map_map]
    exact hnodup
  · intro later code name token earlier heq
    exact absurd heq.symm (List.append_ne_nil_of_right_ne_nil _ (List.cons_ne_nil _ _))

variable (hashToken start) in
/-- The life of codes, tokens and devices, as it is in one state. -/
structure Lifecycle (w : PairingWorld) : Prop where
  names : (w.manager.devices.map PairedDevice.name).Nodup
  -- a code is exchanged only while it is open, and an exchange closes it
  once : ExchangesOpen w.log
  -- a token that validates was issued to the device it validates for, which is stored
  current : ∀ rawToken identifier clock name,
    (w.manager.validateToken hashToken rawToken identifier clock).2 = some name →
      (∃ d ∈ w.manager.devices, d.name = name ∧ d.tokenHash = hashToken rawToken) ∧
        (name, hashToken rawToken) ∈ issued hashToken start w.log
  -- a token of a name that was revoked or paired again since does not validate
  retired : ∀ later event earlier name token, w.log = later ++ event :: earlier → event.Retires name →
    (name, hashToken token) ∈ issued hashToken start earlier →
      ∀ identifier clock, (w.manager.validateToken hashToken token identifier clock).2 = none

/-- Only live credentials validate. -/
theorem PairingOk.live_of_validates (h : PairingOk hashToken start w) {rawToken identifier name : Str}
    {clock : ClockReads} (hv : (w.manager.validateToken hashToken rawToken identifier clock).2 = some name) :
    (name, hashToken rawToken) ∈ live hashToken start w.log := by
  rcases w.manager.validateToken_cases hashToken rawToken identifier clock with
    ⟨-, heq⟩ | ⟨-, heq⟩ | ⟨-, m', name', heq, hmem, -⟩
  · rw [heq] at hv
    cases hv
  · rw [heq] at hv
    cases hv
  · rw [heq] at hv
    obtain rfl := Option.some.inj hv
    rw [← h.creds]
    exact hmem

theorem PairingOk.lifecycle (h : PairingOk hashToken start w) (hnames : (start.map PairedDevice.name).Nodup) :
    Lifecycle hashToken start w where
  names := by
    have hlive : ((live hashToken start w.log).map Prod.fst).Nodup := live_names_nodup hnames w.log
    rw [← h.creds] at hlive
    unfold PairingManager.creds at hlive
    rw [List.map_map] at hlive
    exact hlive
  once := h.once
  current := by
    intro rawToken identifier clock name hv
    have hlive := h.live_of_validates hv
    refine ⟨?_, live_subset_issued _ hlive⟩
    rw [← h.creds] at hlive
    obtain ⟨d, hd, heq⟩ := List.mem_map.mp hlive
    exact ⟨d, hd, congrArg Prod.fst heq, congrArg Prod.snd heq⟩
  retired := by
    intro later event earlier name token hlog hevent hissued identifier clock
    cases hv : (w.manager.validateToken hashToken token identifier clock).2 with
    | none => rfl
    | some name' =>
      have hlive := h.live_of_validates hv
      have hfresh := h.fresh
      rw [hlog] at hlive hfresh
      exact absurd hlive (not_live_of_retired hevent hissued later hfresh name')

end Runs

/-- **The life of a pairing token**, in every run that draws new tokens. -/
theorem pairing_lifecycle (hinj : Function.Injective hashToken) (start : List PairedDevice) (maxAttempts lockoutSecs : ℕ)
    (hnames : (start.map PairedDevice.name).Nodup) (htokens : (start.map PairedDevice.tokenHash).Nodup)
    (inputs : List PairingInput)
    (hfresh : StepsMeet (pairingStep hashToken) (FreshToken hashToken start)
      (PairingWorld.new start maxAttempts lockoutSecs) inputs) :
    Lifecycle hashToken start
      (runSteps (pairingStep hashToken) (PairingWorld.new start maxAttempts lockoutSecs) inputs) :=
  (run_invariant (pairingStep_ok hinj) inputs _ (pairingNew_ok htokens maxAttempts lockoutSecs) hfresh).lifecycle hnames

/-- A token, and the SHA-256 digest of it. -/
def phoneToken : Str := "6f1d7f0e-3b0a-4c86-9a52-0e5d8c1b7a44".toList

def phoneDigest : Str := "730cc1499b91e347e2ea490d6c6ff9246414c5e05a43cce41ada5b8bdd245334".toList

/-- A phone is paired, and its token validated; then it is revoked. -/
def phonePaired : List PairingInput :=
  [.generate 123456 10, .complete "123456".toList "phone".toList "cli".toList phoneToken ⟨20, 20, 20, 20, 20, 1⟩,
    .validate phoneToken "10.0.0.7".toList ⟨30, 30, 30, 30, 30, 2⟩, .revoke "phone".toList]

theorem pairing_lifecycle_phone :
    (runSteps (pairingStep (Equiv.swap phoneToken phoneDigest)) (PairingWorld.new [] 5 300) phonePaired).log =
        [.revoked "phone".toList, .succeeded "10.0.0.7".toList, .succeeded "cli".toList,
          .paired "123456".toList "phone".toList phoneToken, .generated "123456".toList] ∧
      Lifecycle (Equiv.swap phoneToken phoneDigest) []
        (runSteps (pairingStep (Equiv.swap phoneToken phoneDigest)) (PairingWorld.new [] 5 300) phonePaired) :=
  ⟨by decide +kernel,
    pairing_lifecycle (Equiv.injective _) [] 5 300 List.nodup_nil List.nodup_nil phonePaired
      ⟨trivial, ⟨fun _ _ h => by simp [pairingStep, PairingWorld.new] at h, by simp⟩, trivial, trivial, trivial⟩⟩

end Zeptoclaw

import Zeptoclaw.Lib.Assoc
import Zeptoclaw.Lib.Run
import Zeptoclaw.Lib.Text

/-!
# Device pairing

`PairingManager` (`security/pairing.rs`): a one-time code is exchanged for a bearer token, of
which the store keeps the hash, and an identifier that fails too often is locked out.
Instants are in nanoseconds; what is drawn at random, and what each reading of the clock
gives, is an argument.
-/

namespace Zeptoclaw

structure PairedDevice where
  name : Str
  tokenHash : Str
  pairedAt : ℕ
  lastSeen : ℕ
  deriving DecidableEq, Repr

structure PendingCode where
  code : Str
  expiresAt : ℕ
  deriving DecidableEq, Repr

structure LockoutEntry where
  attempts : ℕ
  lockedUntil : Option ℕ
  deriving DecidableEq, Repr

/-- `Duration::from_secs`. -/
def fromSecs (secs : ℕ) : ℕ := secs * 1000000000

@[ext]
structure PairingManager where
  devices : List PairedDevice
  -- the file, as `save_to_disk` wrote it last
  saved : List PairedDevice
  pendingCode : Option PendingCode
  lockouts : Assoc Str LockoutEntry
  maxAttempts : ℕ
  lockoutDuration : ℕ

/-- The readings of the clock in one attempt, in the order of the code: of `is_locked_out`,
for the code, of the prune, for the reset and for the lockout; and the time of day. -/
structure ClockReads where
  locked : ℕ
  code : ℕ
  prune : ℕ
  reset : ℕ
  lock : ℕ
  secs : ℕ
  deriving DecidableEq, Repr

namespace PairingManager

/-- `PairingManager::new`, with the devices in the file. -/
def new (devices : List PairedDevice) (maxAttempts lockoutSecs : ℕ) : PairingManager :=
  ⟨devices, devices, none, ∅, maxAttempts, fromSecs lockoutSecs⟩

/-- `format!("{:06}", n % 1_000_000)`. -/
def sixDigitCode (n : ℕ) : Str :=
  let digits := (toString (n % 1000000)).toList
  List.replicate (6 - digits.length) '0' ++ digits

/-- `generate_pairing_code`; `n` is the random number. -/
def generatePairingCode (m : PairingManager) (n now : ℕ) : PairingManager × Str :=
  ({ m with pendingCode := some ⟨sixDigitCode n, now + fromSecs 300⟩ }, sixDigitCode n)

def isLockedOut (m : PairingManager) (identifier : Str) (now : ℕ) : Bool :=
  match m.lockouts.lookup identifier with
  | some ⟨_, some lockedUntil⟩ => decide (now < lockedUntil)
  | _ => false

def failedAttempts (m : PairingManager) (identifier : Str) : ℕ :=
  match m.lockouts.lookup identifier with
  | some entry => entry.attempts
  | none => 0

/-- An entry that the prune keeps: locked still, or accumulating. -/
def keepsEntry (now : ℕ) (entry : LockoutEntry) : Bool :=
  match entry.lockedUntil with
  | some lockedUntil => decide (now < lockedUntil)
  | none => true

def pruneExpiredLockouts (m : PairingManager) (now : ℕ) : PairingManager :=
  { m with lockouts := m.lockouts.retain fun _ entry => keepsEntry now entry }

/-- The entry of an identifier after one more failure. -/
def countFailure (m : PairingManager) (identifier : Str) (clock : ClockReads) : LockoutEntry :=
  let entry := (m.lockouts.lookup identifier).getD ⟨0, none⟩
  let expired := match entry.lockedUntil with
    | some lockedUntil => decide (lockedUntil ≤ clock.reset)
    | none => false
  let entry := if expired then ⟨0, none⟩ else entry
  let attempts := entry.attempts + 1
  if m.maxAttempts ≤ attempts then ⟨attempts, some (clock.lock + m.lockoutDuration)⟩
  else ⟨attempts, entry.lockedUntil⟩

def recordFailedAttempt (m : PairingManager) (identifier : Str) (clock : ClockReads) : PairingManager :=
  let m := if 100 < m.lockouts.entries.length then m.pruneExpiredLockouts clock.prune else m
  { m with lockouts := m.lockouts.insert identifier (m.countFailure identifier clock) }

def clearLockout (m : PairingManager) (identifier : Str) : PairingManager :=
  { m with lockouts := m.lockouts.erase identifier }

/-- The code is the pending one, and not expired. -/
def validCode (m : PairingManager) (code : Str) (now : ℕ) : Bool :=
  match m.pendingCode with
  | some pc => decide (pc.code = code) && decide (now < pc.expiresAt)
  | none => false

variable (hashToken : Str → Str)

/-- `complete_pairing`; `rawToken` is the token that is drawn. -/
def completePairing (m : PairingManager) (code deviceName identifier rawToken : Str) (clock : ClockReads) :
    PairingManager × Option Str :=
  if m.isLockedOut identifier clock.locked then (m, none)
  else if !m.validCode code clock.code then (m.recordFailedAttempt identifier clock, none)
  else
    let m := { m with pendingCode := none }.clearLockout identifier
    let devices := m.devices.filter (fun d => d.name ≠ deviceName) ++
      [⟨deviceName, hashToken rawToken, clock.secs, clock.secs⟩]
    ({ m with devices, saved := devices }, some rawToken)

/-- The scan of `validate_token`, through all devices: the last one that matches. -/
def matchedIdx (devices : List PairedDevice) (hash : Str) : Option ℕ :=
  devices.zipIdx.foldl (fun matched d => if d.1.tokenHash = hash then some d.2 else matched) none

/-- `validate_token`, with the name of the device. -/
def validateToken (m : PairingManager) (rawToken identifier : Str) (clock : ClockReads) :
    PairingManager × Option Str :=
  if m.isLockedOut identifier clock.locked then (m, none)
  else
    match matchedIdx m.devices (hashToken rawToken) with
    | some idx =>
      let devices := m.devices.modify idx fun d => { d with lastSeen := clock.secs }
      ({ m with devices }.clearLockout identifier, m.devices[idx]?.map PairedDevice.name)
    | none => (m.recordFailedAttempt identifier clock, none)

/-- `revoke`, with whether a device was removed. -/
def revoke (m : PairingManager) (deviceName : Str) : PairingManager × Bool :=
  let devices := m.devices.filter fun d => d.name ≠ deviceName
  if devices.length < m.devices.length then ({ m with devices, saved := devices }, true)
  else ({ m with devices }, false)

end PairingManager

/-- A call on the manager. -/
inductive PairingInput where
  | generate (n now : ℕ)
  | complete (code deviceName identifier rawToken : Str) (clock : ClockReads)
  | validate (rawToken identifier : Str) (clock : ClockReads)
  | revoke (deviceName : Str)
  | prune (now : ℕ)
  deriving DecidableEq, Repr

/-- What a call has come to. -/
inductive PairingEvent where
  | generated (code : Str)
  | paired (code deviceName rawToken : Str)
  | revoked (deviceName : Str)
  | succeeded (identifier : Str)
  -- an attempt that was evaluated, from the first reading of the clock to the last
  | failed (identifier : Str) (started ended : ℕ)
  deriving DecidableEq, Repr

/-- The manager with the time of the last call and what has happened, the latest first. -/
structure PairingWorld where
  manager : PairingManager
  now : ℕ
  log : List PairingEvent

/-- What an attempt adds to the log: nothing, if it was turned away by a lockout. -/
def attemptEvents (m : PairingManager) (identifier : Str) (clock : ClockReads) (result : Option Str)
    (onSuccess : Str → List PairingEvent) : List PairingEvent :=
  if m.isLockedOut identifier clock.locked then []
  else
    match result with
    | some answer => .succeeded identifier :: onSuccess answer
    | none => [.failed identifier clock.locked clock.lock]

def pairingStep (hashToken : Str → Str) (w : PairingWorld) : PairingInput → PairingWorld
  | .generate n now =>
    let (m, code) := w.manager.generatePairingCode n now
    ⟨m, now, .generated code :: w.log⟩
  | .complete code deviceName identifier rawToken clock =>
    let (m, result) := w.manager.completePairing hashToken code deviceName identifier rawToken clock
    ⟨m, clock.lock, attemptEvents w.manager identifier clock result (fun token => [.paired code deviceName token]) ++ w.log⟩
  | .validate rawToken identifier clock =>
    let (m, result) := w.manager.validateToken hashToken rawToken identifier clock
    ⟨m, clock.lock, attemptEvents w.manager identifier clock result (fun _ => []) ++ w.log⟩
  | .revoke deviceName => ⟨(w.manager.revoke deviceName).1, w.now, .revoked deviceName :: w.log⟩
  | .prune now => ⟨w.manager.pruneExpiredLockouts now, now, w.log⟩

/-- A new manager with the devices in the file. -/
def PairingWorld.new (devices : List PairedDevice) (maxAttempts lockoutSecs : ℕ) : PairingWorld :=
  ⟨.new devices maxAttempts lockoutSecs, 0, []⟩

end Zeptoclaw

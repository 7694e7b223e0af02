import Zeptoclaw.Spec.Cache

/-!
# The audit chain

`AuditHashChain` (`audit.rs`): entries linked by their hashes in a window of bounded length. The
digest of the `sha2` crate is a parameter. An entry's texts carry the bound that every `String`
has; its two hashes do not, for a digest may be of any length here.
-/

namespace Zeptoclaw

inductive AuditAction where
  | toolInvoke
  | shellExec
  | networkAccess
  | agentSpawn
  | agentMessage
  | memoryAccess
  | fileAccess
  | authAttempt
  | configChange
  deriving DecidableEq, Repr

def AuditAction.toStr : AuditAction → Str
  | .toolInvoke => "tool_invoke".toList
  | .shellExec => "shell_exec".toList
  | .networkAccess => "network_access".toList
  | .agentSpawn => "agent_spawn".toList
  | .agentMessage => "agent_message".toList
  | .memoryAccess => "memory_access".toList
  | .fileAccess => "file_access".toList
  | .authAttempt => "auth_attempt".toList
  | .configChange => "config_change".toList

/-- A `String`: its length fits an `isize`. -/
@[ext]
structure BoundedStr where
  text : Str
  fits : Text.byteLen text < 2 ^ 63
  deriving DecidableEq

@[ext]
structure AuditEntry where
  seq : UInt64
  timestamp : BoundedStr
  agentId : BoundedStr
  action : AuditAction
  detail : BoundedStr
  outcome : BoundedStr
  prevHash : Str
  hash : Str
  deriving DecidableEq

def maxAuditEntries : ℕ := 10000

structure AuditChainState where
  entries : List AuditEntry
  tip : Str
  windowBaseHash : Str
  nextSeq : UInt64
  deriving DecidableEq

def genesisHash : Str := List.replicate 64 '0'

def AuditChainState.default : AuditChainState := ⟨[], genesisHash, genesisHash, 1⟩

/-- `saturating_add(1)`. -/
def saturatingSucc (n : UInt64) : UInt64 := if n.toNat + 1 < 2 ^ 64 then n + 1 else n

def sanitizeText (value : Str) (maxLen : ℕ) : Str :=
  ((Text.trim value).map fun c => if c = '\n' ∨ c = '\r' then ' ' else c).take maxLen

/-- `hash_string_field`: what is given to the hasher. -/
def hashStringField (value : Str) : Bytes := framed value

/-- The bytes that `compute_entry_hash` gives to the hasher. -/
def entryBytes (seq : UInt64) (timestamp agentId : Str) (action : AuditAction) (detail outcome prevHash : Str) : Bytes :=
  toLeBytes seq.toNat ++ (hashStringField timestamp ++ (hashStringField agentId ++ (hashStringField action.toStr ++
    (hashStringField detail ++ (hashStringField outcome ++ hashStringField prevHash)))))

theorem byteLen_take_le (s : Str) (n : ℕ) : Text.byteLen (s.take n) ≤ 4 * n := by
  induction s generalizing n with
  | nil => simp [Text.byteLen]
  | cons c s ih =>
    cases n with
    | zero => simp [Text.byteLen]
    | succ n =>
      have hc := Char.utf8Size_le_four c
      have hs := ih n
      rw [List.take_succ_cons]
      unfold Text.byteLen at hs ⊢
      rw [List.map_cons, List.sum_cons]
      omega

/-- A text of `sanitize_text`, of at most `maxLen` characters. -/
def sanitized (value : Str) (maxLen : ℕ) (h : maxLen < 2 ^ 60) : BoundedStr :=
  ⟨sanitizeText value maxLen, lt_of_le_of_lt (byteLen_take_le _ _) (by omega)⟩

section Hash

variable (sha256 : Bytes → Bytes)

def computeEntryHash (seq : UInt64) (timestamp agentId : Str) (action : AuditAction) (detail outcome prevHash : Str) : Str :=
  hexEncode (sha256 (entryBytes seq timestamp agentId action detail outcome prevHash))

namespace AuditChainState

/-- The entry that `record` makes. -/
def newEntry (s : AuditChainState) (timestamp : BoundedStr) (agentId : Str) (action : AuditAction) (detail outcome : Str) :
    AuditEntry :=
  let agentId := sanitized agentId 120 (by decide)
  let detail := sanitized detail 512 (by decide)
  let outcome := sanitized outcome 120 (by decide)
  let hash := computeEntryHash sha256 s.nextSeq timestamp.text agentId.text action detail.text outcome.text s.tip
  ⟨s.nextSeq, timestamp, agentId, action, detail, outcome, s.tip, hash⟩

/-- The window with one more entry; the first one goes if there are too many. -/
def push (s : AuditChainState) (entry : AuditEntry) : AuditChainState :=
  let s := { s with tip := entry.hash, nextSeq := saturatingSucc s.nextSeq, entries := s.entries ++ [entry] }
  if maxAuditEntries < s.entries.length then
    match s.entries with
    | evicted :: entries => { s with entries, windowBaseHash := evicted.hash }
    | [] => s
  else s

def record (s : AuditChainState) (timestamp : BoundedStr) (agentId : Str) (action : AuditAction) (detail outcome : Str) :
    AuditEntry × AuditChainState :=
  let entry := s.newEntry sha256 timestamp agentId action detail outcome
  (entry, s.push entry)

def chainBroken (seq : UInt64) (what : Str) : Str :=
  "chain broken at seq ".toList ++ (toString seq.toNat).toList ++ ": ".toList ++ what

/-- The loop of `verify_integrity`: the hash and the number that are expected behind the entries. -/
def verifyFrom (expectedPrev : Str) (expectedSeq : UInt64) : List AuditEntry → Except Str (Str × UInt64)
  | [] => .ok (expectedPrev, expectedSeq)
  | entry :: entries =>
    if entry.seq ≠ expectedSeq then .error (chainBroken entry.seq "sequence mismatch".toList)
    else if entry.prevHash ≠ expectedPrev then .error (chainBroken entry.seq "prev hash mismatch".toList)
    else if entry.hash ≠ computeEntryHash sha256 entry.seq entry.timestamp.text entry.agentId.text entry.action
        entry.detail.text entry.outcome.text expectedPrev then .error (chainBroken entry.seq "hash mismatch".toList)
    else verifyFrom entry.hash (saturatingSucc expectedSeq) entries

def verifyIntegrity (s : AuditChainState) : Except Str Unit :=
  let expectedSeq := (s.entries.head?.map AuditEntry.seq).getD s.nextSeq
  match verifyFrom sha256 s.windowBaseHash expectedSeq s.entries with
  | .error e => .error e
  | .ok (expectedPrev, expectedSeq) =>
    if s.tip ≠ expectedPrev then .error "chain broken: tip does not match final entry hash".toList
    else if s.nextSeq ≠ expectedSeq then .error "chain broken: next sequence mismatch".toList
    else .ok ()

end AuditChainState

end Hash

end Zeptoclaw

import Zeptoclaw.Proof.Cache
import Zeptoclaw.Spec.Audit

/-!
# The audit chain is whole, and no entry can be replaced

* `record_whole`: a recorded entry, and the eviction of the oldest one, leave a window that
  passes `verify_integrity`.
* `verifyFrom_unique`: the hash at the end of a window that passes determines its entries.
-/

namespace Zeptoclaw

open Text Utf8

/-! ## What is hashed determines the entry -/

theorem BoundedStr.fits64 (s : BoundedStr) : Fits64 s.text := by
  have h := s.fits
  unfold Fits64
  rw [length_encode]
  omega

theorem AuditAction.fits64 (action : AuditAction) : Fits64 action.toStr := by
  cases action <;> decide

theorem AuditAction.toStr_injective : ∀ {a b : AuditAction}, a.toStr = b.toStr → a = b := by
  intro a b
  cases a <;> cases b <;> decide

/-- The last field of a message may have any length. -/
theorem framed_inj {s t : Str} (h : framed s = framed t) : s = t := by
  have hlen : (toLeBytes (encode s).length).length = (toLeBytes (encode t).length).length := by
    rw [length_toLeBytes, length_toLeBytes]
  exact encode_injective (List.append_inj h hlen).2

/-- The bytes that are hashed for an entry. -/
def AuditEntry.bytes (entry : AuditEntry) : Bytes :=
  entryBytes entry.seq entry.timestamp.text entry.agentId.text entry.action entry.detail.text entry.outcome.text entry.prevHash

/-- **The fields of an entry can be read off the bytes that are hashed for it.** -/
theorem AuditEntry.eq_of_bytes {e e' : AuditEntry} (h : e.bytes = e'.bytes) (hhash : e.hash = e'.hash) : e = e' := by
  unfold bytes entryBytes hashStringField at h
  have hlen : (toLeBytes e.seq.toNat).length = (toLeBytes e'.seq.toNat).length := by
    rw [length_toLeBytes, length_toLeBytes]
  obtain ⟨hseq, h⟩ := List.append_inj h hlen
  obtain ⟨htimestamp, h⟩ := framed_append_inj e.timestamp.fits64 e'.timestamp.fits64 h
  obtain ⟨hagentId, h⟩ := framed_append_inj e.agentId.fits64 e'.agentId.fits64 h
  obtain ⟨haction, h⟩ := framed_append_inj e.action.fits64 e'.action.fits64 h
  obtain ⟨hdetail, h⟩ := framed_append_inj e.detail.fits64 e'.detail.fits64 h
  obtain ⟨houtcome, h⟩ := framed_append_inj e.outcome.fits64 e'.outcome.fits64 h
  have hseq : e.seq = e'.seq := UInt64.toNat_inj.mp (toLeBytes_injective e.seq.toNat_lt e'.seq.toNat_lt hseq)
  exact AuditEntry.ext hseq (BoundedStr.ext htimestamp) (BoundedStr.ext hagentId) (AuditAction.toStr_injective haction)
    (BoundedStr.ext hdetail) (BoundedStr.ext houtcome) (framed_inj h) hhash

/-! ## A window that passes -/

namespace AuditChainState

variable (sha256 : Bytes → Bytes)

/-- The entry is the one expected behind a hash and with a number. -/
structure Follows (prev : Str) (seq : UInt64) (entry : AuditEntry) : Prop where
  seq_eq : entry.seq = seq
  prev_eq : entry.prevHash = prev
  hash_eq : entry.hash = hexEncode (sha256 entry.bytes)

variable {sha256}

theorem verifyFrom_cons {prev : Str} {seq : UInt64} {entry : AuditEntry} {entries : List AuditEntry} {r : Str × UInt64} :
    verifyFrom sha256 prev seq (entry :: entries) = .ok r ↔
      Follows sha256 prev seq entry ∧ verifyFrom sha256 entry.hash (saturatingSucc seq) entries = .ok r := by
  rw [verifyFrom]
  constructor
  · intro h
    split at h
    · cases h
    · next hseq =>
      split at h
      · cases h
      · next hprev =>
        split at h
        · cases h
        · next hhash =>
          rw [not_not] at hseq hprev hhash
          refine ⟨⟨hseq, hprev, ?_⟩, h⟩
          rw [hhash, ← hprev]
          rfl
  · rintro ⟨⟨hseq, hprev, hhash⟩, h⟩
    have hhash' : entry.hash = computeEntryHash sha256 entry.seq entry.timestamp.text entry.agentId.text entry.action
        entry.detail.text entry.outcome.text prev := by
      rw [hhash, ← hprev]
      rfl
    rw [if_neg (not_not.mpr hseq), if_neg (not_not.mpr hprev), if_neg (not_not.mpr hhash')]
    exact h

/-- The last entry of a window stands behind a window that passes. -/
theorem verifyFrom_concat {entries : List AuditEntry} {entry : AuditEntry} {r : Str × UInt64} :
    ∀ {prev : Str} {seq : UInt64}, verifyFrom sha256 prev seq (entries ++ [entry]) = .ok r ↔
      ∃ tip next, verifyFrom sha256 prev seq entries = .ok (tip, next) ∧ Follows sha256 tip next entry ∧
        r = (entry.hash, saturatingSucc next) := by
  induction entries with
  | nil =>
    intro prev seq
    rw [List.nil_append, verifyFrom_cons]
    constructor
    · rintro ⟨hfollows, h⟩
      exact ⟨prev, seq, rfl, hfollows, (Except.ok.inj h).symm⟩
    · rintro ⟨tip, next, h, hfollows, hr⟩
      obtain ⟨rfl, rfl⟩ := Prod.mk.inj (Except.ok.inj h)
      exact ⟨hfollows, by rw [hr]; rfl⟩
  | cons e entries ih =>
    intro prev seq
    rw [List.cons_append, verifyFrom_cons, ih]
    constructor
    · rintro ⟨he, tip, next, h, hrest⟩
      exact ⟨tip, next, verifyFrom_cons.mpr ⟨he, h⟩, hrest⟩
    · rintro ⟨tip, next, h, hrest⟩
      obtain ⟨he, h⟩ := verifyFrom_cons.mp h
      exact ⟨he, tip, next, h, hrest⟩

/-- The number that `verify_integrity` expects first. -/
def firstSeq (s : AuditChainState) : UInt64 := (s.entries.head?.map AuditEntry.seq).getD s.nextSeq

theorem verifyIntegrity_ok {s : AuditChainState} : s.verifyIntegrity sha256 = .ok () ↔
    verifyFrom sha256 s.windowBaseHash s.firstSeq s.entries = .ok (s.tip, s.nextSeq) := by
  unfold verifyIntegrity firstSeq
  dsimp only
  cases hv : verifyFrom sha256 s.windowBaseHash ((s.entries.head?.map AuditEntry.seq).getD s.nextSeq) s.entries with
  | error e =>
    constructor
    · intro h; cases h
    · intro h; cases h
  | ok r =>
    obtain ⟨tip, next⟩ := r
    by_cases htip : s.tip = tip
    · by_cases hnext : s.nextSeq = next
      · simp [htip, hnext]
      · simp [htip, hnext, Ne.symm hnext]
    · simp [htip, Ne.symm htip]

/-! ## Recording -/

/-- The window with one more entry, before anything is evicted. -/
def appended (s : AuditChainState) (entry : AuditEntry) : AuditChainState :=
  { s with tip := entry.hash, nextSeq := saturatingSucc s.nextSeq, entries := s.entries ++ [entry] }

theorem appended_whole {s : AuditChainState} {entry : AuditEntry} (h : s.verifyIntegrity sha256 = .ok ())
    (hentry : Follows sha256 s.tip s.nextSeq entry) : (s.appended entry).verifyIntegrity sha256 = .ok () := by
  rw [verifyIntegrity_ok] at h ⊢
  have hfirst : (s.appended entry).firstSeq = s.firstSeq := by
    unfold appended firstSeq
    cases s.entries with
    | nil => exact hentry.seq_eq
    | cons e entries => rfl
  rw [hfirst]
  exact verifyFrom_concat.mpr ⟨s.tip, s.nextSeq, h, hentry, rfl⟩

/-- A window stays whole without its first entry, as long as there is another one. -/
theorem evicted_whole {s : AuditChainState} {evicted next : AuditEntry} {entries : List AuditEntry}
    (hs : s.entries = evicted :: next :: entries) (h : s.verifyIntegrity sha256 = .ok ()) :
    { s with entries := next :: entries, windowBaseHash := evicted.hash }.verifyIntegrity sha256 = .ok () := by
  rw [verifyIntegrity_ok, hs, verifyFrom_cons] at h
  obtain ⟨-, h⟩ := h
  have hnext := (verifyFrom_cons.mp h).1.seq_eq
  rw [verifyIntegrity_ok]
  change verifyFrom sha256 evicted.hash next.seq (next :: entries) = _
  rw [hnext]
  exact h

/-- **A recorded entry leaves a window that passes.** -/
theorem record_whole {s : AuditChainState} (timestamp : BoundedStr) (agentId : Str) (action : AuditAction)
    (detail outcome : Str) (h : s.verifyIntegrity sha256 = .ok ()) :
    (s.record sha256 timestamp agentId action detail outcome).2.verifyIntegrity sha256 = .ok () := by
  have hwhole : (s.appended (s.newEntry sha256 timestamp agentId action detail outcome)).verifyIntegrity sha256 = .ok () :=
    appended_whole h ⟨rfl, rfl, rfl⟩
  change (s.push _).verifyIntegrity sha256 = _
  unfold push
  dsimp only
  split
  · next hlen =>
    split
    · next evicted entries hentries =>
      cases entries with
      | nil =>
        -- a window of one entry is not too long
        rw [hentries] at hlen
        have hone : ¬ maxAuditEntries < 1 := by decide
        exact absurd hlen hone
      | cons next entries => exact evicted_whole hentries hwhole
    · exact hwhole
  · exact hwhole

/-! ## The last hash determines the entries -/

/-- The digests of the entries of two windows do not collide. -/
def NoCollision (sha256 : Bytes → Bytes) (entries entries' : List AuditEntry) : Prop :=
  ∀ e ∈ entries, ∀ e' ∈ entries', sha256 e.bytes = sha256 e'.bytes → e.bytes = e'.bytes

/-- **The entries of a window are determined by their number and the hash of the last one.** -/
theorem verifyFrom_unique {prev prev' : Str} {seq seq' : UInt64} :
    ∀ {entries entries' : List AuditEntry} {tip : Str} {next next' : UInt64}, entries.length = entries'.length →
      NoCollision sha256 entries entries' → verifyFrom sha256 prev seq entries = .ok (tip, next) →
      verifyFrom sha256 prev' seq' entries' = .ok (tip, next') → entries = entries' := by
  intro entries
  induction entries using List.reverseRecOn with
  | nil =>
    intro entries' tip next next' hlen _ _ _
    exact (List.length_eq_zero_iff.mp hlen.symm).symm
  | append_singleton entries e ih =>
    intro entries' tip next next' hlen hsha h h'
    rcases List.eq_nil_or_concat entries' with rfl | ⟨entries', e', rfl⟩
    · simp at hlen
    · rw [List.concat_eq_append] at hlen hsha h' ⊢
      obtain ⟨q, n, h, he, hr⟩ := verifyFrom_concat.mp h
      obtain ⟨q', n', h', he', hr'⟩ := verifyFrom_concat.mp h'
      have hhash : e.hash = e'.hash := by rw [← (Prod.mk.inj hr).1, ← (Prod.mk.inj hr').1]
      have hdigest : sha256 e.bytes = sha256 e'.bytes := by
        apply hexEncode_injective
        rw [← he.hash_eq, ← he'.hash_eq, hhash]
      have hee : e = e' := AuditEntry.eq_of_bytes (hsha e (by simp) e' (by simp) hdigest) hhash
      -- the hash before the last entry is a field of it
      have hq : q = q' := by rw [← he.prev_eq, ← he'.prev_eq, hee]
      rw [List.length_append, List.length_append] at hlen
      have hsha' : NoCollision sha256 entries entries' :=
        fun a ha b hb => hsha a (List.mem_append_left _ ha) b (List.mem_append_left _ hb)
      rw [hee, ih (Nat.add_right_cancel hlen) hsha' h (hq ▸ h')]

end AuditChainState

/-! ## Any sequence of calls -/

/-- A call of `record`, with the time it is made at. -/
structure AuditCall where
  timestamp : BoundedStr
  agentId : Str
  action : AuditAction
  detail : Str
  outcome : Str

def AuditChainState.step (sha256 : Bytes → Bytes) (s : AuditChainState) (call : AuditCall) : AuditChainState :=
  (s.record sha256 call.timestamp call.agentId call.action call.detail call.outcome).2

/-- **The chain passes after any calls, and two windows of the same length and with the same base, tip and next number
that both pass have the same entries.** -/
theorem audit_chain (sha256 : Bytes → Bytes) :
    (∀ calls : List AuditCall, (runSteps (AuditChainState.step sha256) .default calls).verifyIntegrity sha256 = .ok ()) ∧
      ∀ s s' : AuditChainState, AuditChainState.NoCollision sha256 s.entries s'.entries →
        s.entries.length = s'.entries.length → s.windowBaseHash = s'.windowBaseHash → s.tip = s'.tip →
        s.nextSeq = s'.nextSeq → s.verifyIntegrity sha256 = .ok () → s'.verifyIntegrity sha256 = .ok () →
        s.entries = s'.entries := by
  constructor
  · intro calls
    have hstep : ∀ (s : AuditChainState) (call : AuditCall), s.verifyIntegrity sha256 = .ok () →
        (s.step sha256 call).verifyIntegrity sha256 = .ok () := fun s call h =>
      AuditChainState.record_whole call.timestamp call.agentId call.action call.detail call.outcome h
    exact run_preserves hstep calls .default rfl
  · intro s s' hsha hlen _ htip _ h h'
    rw [AuditChainState.verifyIntegrity_ok] at h h'
    rw [← htip] at h'
    exact AuditChainState.verifyFrom_unique hlen hsha h h'

def shellCall : AuditCall :=
  ⟨⟨"2026-03-01T09:30:00+00:00".toList, by decide⟩, "main".toList, .shellExec, " ls\n".toList, "ok".toList⟩

def shellDigest : Bytes :=
  [145, 129, 162, 140, 145, 68, 83, 102, 6, 17, 173, 143, 16, 136, 114, 4, 56, 72, 172, 243, 55, 150, 197, 40,
    175, 132, 188, 83, 35, 216, 225, 105]

/-- SHA-256 on the entry of that call. -/
def shellSha (bytes : Bytes) : Bytes :=
  if bytes = entryBytes 1 shellCall.timestamp.text "main".toList .shellExec "ls".toList "ok".toList genesisHash then shellDigest
  else []

def shellEntry : AuditEntry :=
  ⟨1, shellCall.timestamp, ⟨"main".toList, by decide⟩, .shellExec, ⟨"ls".toList, by decide⟩, ⟨"ok".toList, by decide⟩,
    genesisHash, "9181a28c914453660611ad8f108872043848acf33796c528af84bc5323d8e169".toList⟩

theorem audit_chain_shell :
    (runSteps (AuditChainState.step shellSha) .default [shellCall]).verifyIntegrity shellSha = .ok () ∧
      (runSteps (AuditChainState.step shellSha) .default [shellCall]).entries = [shellEntry] := by
  have hwhole := (audit_chain shellSha).1 [shellCall]
  refine ⟨hwhole, ?_⟩
  have hentries : (runSteps (AuditChainState.step shellSha) .default [shellCall]).entries = [shellEntry] := by decide +kernel
  have hsame : AuditChainState.NoCollision shellSha (runSteps (AuditChainState.step shellSha) .default [shellCall]).entries
      [shellEntry] := by
    rw [hentries]
    intro e he e' he' _
    rw [List.mem_singleton.mp he, List.mem_singleton.mp he']
  have hwhole' : (⟨[shellEntry], shellEntry.hash, genesisHash, 2⟩ : AuditChainState).verifyIntegrity shellSha = .ok () := by
    decide +kernel
  exact (audit_chain shellSha).2 _ ⟨[shellEntry], shellEntry.hash, genesisHash, 2⟩ hsame (by decide +kernel)
    (by decide +kernel) (by decide +kernel) (by decide +kernel) hwhole hwhole'

end Zeptoclaw

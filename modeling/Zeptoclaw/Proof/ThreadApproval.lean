import Zeptoclaw.Lib.Run
import Zeptoclaw.Spec.ThreadApproval

/-!
# Approval modes whose save fails

`threadApproval_set_error_iff`: a `set` that returns an error leaves the approval modes as they
were exactly if the save did not fail, or the thread already had the state that it was given.
The file is as it was (`set_error_file`), so memory and file differ from then on; a user who
reads that the change was not persisted has it in force (`confirm_error_autoApproves`). It reaches
the file with the next save that succeeds, whatever that one changes (`approvalModes_restart`).
-/

namespace Zeptoclaw

namespace ThreadApprovalStore

variable {json : ApprovalJson} {store : ThreadApprovalStore} {thread : ThreadKey} {mode : ThreadApprovalMode} {source : Str}
  {now : ℤ} {outcome : SaveOutcome}

/-- The save is not reached, or succeeds. -/
def Saves (store : ThreadApprovalStore) (outcome : SaveOutcome) : Prop := store.root = [] ∨ outcome = .saved

/-- Every read finds what it found in the other store. -/
def SameReads (store store' : ThreadApprovalStore) : Prop :=
  ∀ now thread, store'.get now thread = store.get now thread ∧
    store'.isAutoApprove now thread = store.isAutoApprove now thread

theorem set_states (json : ApprovalJson) (store : ThreadApprovalStore) (thread : ThreadKey) (mode : ThreadApprovalMode)
    (source : Str) (now : ℤ) (outcome : SaveOutcome) :
    (store.set json thread mode source now outcome).2.states = store.states.insert thread ⟨mode, now, source⟩ := by
  unfold set
  dsimp only
  split
  · rfl
  · split
    · rfl
    · rfl

theorem set_ok_iff_saves :
    (∃ state, (store.set json thread mode source now outcome).1 = .ok state) ↔ store.Saves outcome := by
  by_cases hroot : store.root = []
  · have hok : (store.set json thread mode source now outcome).1 = .ok ⟨mode, now, source⟩ := by
      simp [set, hroot]
    exact ⟨fun _ => .inl hroot, fun _ => ⟨_, hok⟩⟩
  · have hne : store.root.isEmpty = false := by simpa using hroot
    cases outcome <;> simp [set, saveToDisk, hne, hroot, Saves]

/-- No state is the default at every time: the default has the time of the read. -/
theorem default_ne (state : ThreadApprovalState) : ThreadApprovalState.default (state.updatedAt + 1) ≠ state := by
  intro h
  have htime := congrArg ThreadApprovalState.updatedAt h
  simp only [ThreadApprovalState.default] at htime
  omega

/-- A store reads the same as another one exactly if the threads have the same states in both. -/
theorem sameReads_iff {store' : ThreadApprovalStore} : SameReads store store' ↔ Assoc.Same store.states store'.states := by
  constructor
  · intro h thread
    have hget : ∀ now, (store'.states.lookup thread).getD (.default now) = (store.states.lookup thread).getD (.default now) :=
      fun now => (h now thread).1
    cases hnew : store'.states.lookup thread with
    | none =>
      cases hold : store.states.lookup thread with
      | none => rfl
      | some state =>
        have h0 := hget (state.updatedAt + 1)
        rw [hnew, hold, Option.getD_none, Option.getD_some] at h0
        exact absurd h0 (default_ne state)
    | some state =>
      cases hold : store.states.lookup thread with
      | none =>
        have h0 := hget (state.updatedAt + 1)
        rw [hnew, hold, Option.getD_none, Option.getD_some] at h0
        exact absurd h0.symm (default_ne state)
      | some old =>
        have h0 := hget 0
        rw [hnew, hold, Option.getD_some, Option.getD_some] at h0
        rw [h0]
  · intro h now thread
    have hget : store'.get now thread = store.get now thread := by
      unfold get
      rw [h thread]
    refine ⟨hget, ?_⟩
    unfold isAutoApprove
    rw [hget]

theorem sameReads_set_iff :
    SameReads store (store.set json thread mode source now outcome).2 ↔
      store.states.lookup thread = some ⟨mode, now, source⟩ := by
  rw [sameReads_iff, set_states]
  exact Assoc.same_insert_iff

/-- A failed `set` does not touch the file. -/
theorem set_error_file {e : IoError} (h : (store.set json thread mode source now outcome).1 = .error e) :
    (store.set json thread mode source now outcome).2.dir.file = store.dir.file := by
  by_cases hroot : store.root.isEmpty
  · simp [set, hroot]
  · cases outcome with
    | saved => simp [set, saveToDisk, hroot] at h
    | serializeFails _ => simp [set, saveToDisk, hroot]
    | writeFails _ _ => simp [set, saveToDisk, hroot]
    | renameFails _ => simp [set, saveToDisk, hroot]

end ThreadApprovalStore

/-- A confirmation that is answered with a failure has turned automatic approval on. -/
theorem confirm_error_autoApproves {json : ApprovalJson} {s : ConfirmState} {thread : ThreadKey} {entry : ConfirmPending}
    {trimmed : Str} {msg : InboundMessage} {now wall : ℤ} {outcome : SaveOutcome} (hpending : s.pending.lookup thread = some entry)
    (hlive : now < entry.deadline) (hconfirm : eqIgnoreAsciiCase trimmed "confirm".toList = true)
    (hfails : ¬ s.store.Saves outcome) (later : ℤ) :
    let after := (handlePendingConfirm json s thread trimmed msg now wall outcome).2
    after.replies = s.replies ++ [⟨entry.channel, entry.chatId, notPersistedText⟩] ∧
      after.store.isAutoApprove later thread = true := by
  have hstates := ThreadApprovalStore.set_states json s.store thread .autoApprove msg.channel wall outcome
  simp only [handlePendingConfirm, hpending, if_neg (Int.not_le.mpr hlive), if_pos hconfirm]
  split
  · next state store hset =>
    exact absurd (ThreadApprovalStore.set_ok_iff_saves.mp ⟨state, congrArg Prod.fst hset⟩) hfails
  · next e store hset =>
    rw [hset] at hstates
    refine ⟨rfl, ?_⟩
    simp only at hstates
    simp only [ThreadApprovalStore.isAutoApprove, ThreadApprovalStore.get, hstates, Assoc.lookup_insert, if_pos,
      Option.getD_some, decide_true]

/-- **A `set` that returns an error leaves every read as it was exactly if the save succeeds, or the
thread already has the very state.** -/
theorem threadApproval_set_error_iff (json : ApprovalJson) (store : ThreadApprovalStore) (thread : ThreadKey)
    (mode : ThreadApprovalMode) (source : Str) (now : ℤ) (outcome : SaveOutcome) :
    (∀ e, (store.set json thread mode source now outcome).1 = .error e →
      ThreadApprovalStore.SameReads store (store.set json thread mode source now outcome).2) ↔
    store.Saves outcome ∨ store.states.lookup thread = some ⟨mode, now, source⟩ := by
  rw [ThreadApprovalStore.sameReads_set_iff]
  constructor
  · intro h
    cases hresult : (store.set json thread mode source now outcome).1 with
    | ok state => exact .inl (ThreadApprovalStore.set_ok_iff_saves.mp ⟨state, hresult⟩)
    | error e => exact .inr (h e hresult)
  · rintro (hsaves | hsame) e herror
    · obtain ⟨state, hok⟩ := ThreadApprovalStore.set_ok_iff_saves.mpr hsaves
      rw [hok] at herror
      cases herror
    · exact hsame

/-- A read-only config directory. -/
def readOnlyOutcome : SaveOutcome := .writeFails "Read-only file system (os error 30)".toList none

/-- A thread that the store does not know is approved automatically after a failed `set`. -/
theorem threadApproval_set_error_changes :
    ¬ ∃ json : ApprovalJson, ∀ (store : ThreadApprovalStore) (thread : ThreadKey) (mode : ThreadApprovalMode) (source : Str)
      (now : ℤ) (outcome : SaveOutcome) (e : IoError), (store.set json thread mode source now outcome).1 = .error e →
      ThreadApprovalStore.SameReads store (store.set json thread mode source now outcome).2 := by
  rintro ⟨json, h⟩
  have hreads := h ⟨∅, "/config".toList, {}⟩ ⟨"alice".toList, "zc".toList⟩ .autoApprove
    "discord".toList 100 readOnlyOutcome _ rfl
  cases ThreadApprovalStore.sameReads_set_iff.mp hreads

/-! ## Restarts -/

namespace ThreadApprovalStore

variable {json : ApprovalJson} {store : ThreadApprovalStore}

/-- A call of `set`, and how far its save gets. -/
structure SetCall where
  thread : ThreadKey
  mode : ThreadApprovalMode
  source : Str
  now : ℤ
  outcome : SaveOutcome

def applySet (json : ApprovalJson) (store : ThreadApprovalStore) (call : SetCall) : ThreadApprovalStore :=
  (store.set json call.thread call.mode call.source call.now call.outcome).2

/-- The states are written such that they are read back. -/
def ReadsBack (json : ApprovalJson) (states : Assoc ThreadKey ThreadApprovalState) : Prop :=
  json.fromStr (json.toVecPretty (persisted states)) = some (persisted states)

/-- What is read back from a saved file are the states. -/
theorem same_loadFromDisk {states : Assoc ThreadKey ThreadApprovalState}
    (hround : ReadsBack json states) (tmp : Option Bytes) :
    Assoc.Same states (loadFromDisk json ⟨some (json.toVecPretty (persisted states)), tmp⟩) := by
  obtain ⟨key, hkey⟩ : ∃ key : PersistedThread → ThreadKey, key = fun t => ⟨t.userId, t.agentId⟩ := ⟨_, rfl⟩
  obtain ⟨val, hval⟩ : ∃ val : PersistedThread → ThreadApprovalState, val = fun t => ⟨t.mode, t.updatedAt, t.updatedBy⟩ :=
    ⟨_, rfl⟩
  have hload : loadFromDisk json ⟨some (json.toVecPretty (persisted states)), tmp⟩ =
      (persisted states).threads.foldl (fun m t => AList.insert (key t) (val t) m) ∅ := by
    rw [hkey, hval]
    simp only [loadFromDisk, Option.bind_some, show json.fromStr _ = _ from hround]
  have hkeys : (persisted states).threads.map key = states.keys := by
    rw [← Assoc.pairs_fst, persisted, List.map_map, hkey]
    rfl
  rw [hload]
  intro thread
  cases hlookup : states.lookup thread with
  | none =>
    rw [Assoc.lookup_foldl_insert_of_ne key val, AList.lookup_empty]
    rintro t ht rfl
    have hmem : key t ∈ states.keys := hkeys ▸ List.mem_map_of_mem ht
    have hsome := AList.lookup_isSome.mpr (AList.mem_keys.mpr hmem)
    rw [hlookup] at hsome
    cases hsome
  | some state =>
    have hmem : (⟨thread.user, thread.agent, state.mode, state.updatedAt, state.updatedBy⟩ : PersistedThread) ∈
        (persisted states).threads := List.mem_map.mpr ⟨(thread, state), Assoc.mem_pairs.mpr hlookup, rfl⟩
    have hfound := Assoc.lookup_foldl_insert_mem key val ∅ (hkeys ▸ states.keys_nodup) hmem
    rw [hkey, hval] at hfound ⊢
    exact hfound

theorem applySet_root (store : ThreadApprovalStore) (call : SetCall) : (store.applySet json call).root = store.root := by
  unfold applySet set
  dsimp only
  split
  · rfl
  · split <;> rfl

/-- A saved `set` leaves the file of the states. -/
theorem applySet_saved (hroot : store.root ≠ []) {call : SetCall} (hsaved : call.outcome = .saved) :
    (store.applySet json call).dir = ⟨some (json.toVecPretty (persisted (store.applySet json call).states)), none⟩ := by
  have hempty : store.root.isEmpty = false := by simpa using hroot
  simp [applySet, set, saveToDisk, hsaved, hempty]

/-- A `set` that is not saved leaves the file. -/
theorem applySet_unsaved (hroot : store.root ≠ []) {call : SetCall} (h : call.outcome ≠ .saved) :
    (store.applySet json call).dir.file = store.dir.file := by
  cases hresult : (store.set json call.thread call.mode call.source call.now call.outcome).1 with
  | error e => exact set_error_file hresult
  | ok state =>
    rcases set_ok_iff_saves.mp ⟨state, hresult⟩ with hnil | hsaved
    · exact absurd hnil hroot
    · exact absurd hsaved h

theorem run_unsaved : ∀ (calls : List SetCall) {store : ThreadApprovalStore}, store.root ≠ [] →
    (∀ call ∈ calls, call.outcome ≠ .saved) → (runSteps (applySet json) store calls).dir.file = store.dir.file := by
  intro calls
  induction calls with
  | nil => exact fun _ _ => rfl
  | cons call calls ih =>
    intro store hroot h
    obtain ⟨hcall, hcalls⟩ := List.forall_mem_cons.mp h
    exact (ih (by rwa [applySet_root]) hcalls).trans (applySet_unsaved hroot hcall)

/-- The modes that are read from a directory are those of its file. -/
theorem sameReads_openStore (json : ApprovalJson) (root : Str) {dir dir' : ApprovalDir} (h : dir'.file = dir.file) :
    SameReads (openStore json root dir) (openStore json root dir') := by
  rw [sameReads_iff]
  intro thread
  simp only [openStore, loadFromDisk, h]

end ThreadApprovalStore

open ThreadApprovalStore in
/-- **A restart brings back the approval modes as they were after the last `set` that was saved**, with those of earlier
calls whose own save failed; if none was saved, as they were when the store was opened. -/
theorem approvalModes_restart (json : ApprovalJson) {root : Str} (hroot : root ≠ []) (dir : ApprovalDir) :
    (∀ calls : List SetCall, (∀ call ∈ calls, call.outcome ≠ .saved) →
      SameReads (openStore json root dir)
        (openStore json root (runSteps (applySet json) (openStore json root dir) calls).dir)) ∧
    ∀ (before : List SetCall) (call : SetCall) (after : List SetCall), call.outcome = .saved →
      (∀ c ∈ after, c.outcome ≠ .saved) →
      ReadsBack json (runSteps (applySet json) (openStore json root dir) (before ++ [call])).states →
      SameReads (runSteps (applySet json) (openStore json root dir) (before ++ [call]))
        (openStore json root (runSteps (applySet json) (openStore json root dir) (before ++ call :: after)).dir) := by
  have hroots : ∀ calls, (runSteps (applySet json) (openStore json root dir) calls).root = root := fun calls =>
    run_preserves (fun s c hs => (applySet_root s c).trans hs) calls _ rfl
  refine ⟨fun calls h => sameReads_openStore json root (run_unsaved calls hroot h), fun before call after hsaved hafter hback => ?_⟩
  -- the file of the saved call is still there
  have hfile : (runSteps (applySet json) (runSteps (applySet json) (openStore json root dir) (before ++ [call])) after).dir.file =
      (runSteps (applySet json) (openStore json root dir) (before ++ [call])).dir.file :=
    run_unsaved after (by rw [hroots]; exact hroot) hafter
  have hstates : SameReads (runSteps (applySet json) (openStore json root dir) (before ++ [call]))
      (openStore json root (runSteps (applySet json) (openStore json root dir) (before ++ [call])).dir) := by
    rw [sameReads_iff, runSteps_concat, applySet_saved (by rw [hroots]; exact hroot) hsaved]
    rw [runSteps_concat] at hback
    exact same_loadFromDisk hback _
  rw [List.append_cons before call after, runSteps_append _ (before ++ [call]) after]
  intro now thread
  obtain ⟨hget, happrove⟩ := sameReads_openStore json root hfile now thread
  exact ⟨hget.trans (hstates now thread).1, happrove.trans (hstates now thread).2⟩

/-- The file of one thread, and its text. -/
def exampleFile : PersistedFile := ⟨1, [⟨"alice".toList, "zc".toList, .autoApprove, 0, "discord".toList⟩]⟩

def exampleFileText : Bytes := Utf8.encode
  ("\x7b\n  \"version\": 1,\n  \"threads\": [\n    \x7b\n      \"user_id\": \"alice\",\n      \"agent_id\": \"zc\",\n" ++
    "      \"mode\": \"auto_approve\",\n      \"updated_at\": \"1970-01-01T00:00:00Z\",\n" ++
    "      \"updated_by\": \"discord\"\n    \x7d\n  ]\n\x7d").toList

def exampleApprovalJson : ApprovalJson where
  toVecPretty file := if file = exampleFile then exampleFileText else []
  fromStr bytes := if bytes = exampleFileText then some exampleFile else none

/-- A change that is saved, and one that is not. -/
theorem approvalModes_restart_example :
    let saved : ThreadApprovalStore.SetCall := ⟨⟨"alice".toList, "zc".toList⟩, .autoApprove, "discord".toList, 0, .saved⟩
    let failed : ThreadApprovalStore.SetCall := ⟨⟨"bob".toList, "zc".toList⟩, .autoApprove, [], 1, readOnlyOutcome⟩
    let opened := ThreadApprovalStore.openStore exampleApprovalJson "/config".toList {}
    ThreadApprovalStore.SameReads (runSteps (ThreadApprovalStore.applySet exampleApprovalJson) opened [saved])
      (ThreadApprovalStore.openStore exampleApprovalJson "/config".toList
        (runSteps (ThreadApprovalStore.applySet exampleApprovalJson) opened [saved, failed]).dir) := by
  refine (approvalModes_restart exampleApprovalJson (by decide) {}).2 [] _ [_] rfl ?_ ?_
  · intro c hc
    obtain rfl := List.mem_singleton.mp hc
    exact fun h => by cases h
  · change ThreadApprovalStore.ReadsBack exampleApprovalJson
      (AList.insert ⟨"alice".toList, "zc".toList⟩ ⟨.autoApprove, 0, "discord".toList⟩ ∅)
    have hfile : ThreadApprovalStore.persisted
        (AList.insert ⟨"alice".toList, "zc".toList⟩ ⟨.autoApprove, 0, "discord".toList⟩ ∅) = exampleFile := rfl
    have hwritten : exampleApprovalJson.toVecPretty exampleFile = exampleFileText := by simp [exampleApprovalJson]
    have hread : exampleApprovalJson.fromStr exampleFileText = some exampleFile := by simp [exampleApprovalJson]
    rw [ThreadApprovalStore.ReadsBack, hfile, hwritten, hread]

end Zeptoclaw

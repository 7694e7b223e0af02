import Zeptoclaw.Spec.Memory

/-!
# Handles on one memory file

`writes_kept`: what was set through one handle stays in the file, as long as every call that
writes the file is made through a handle that has all of it in its own map. A handle that
was opened before is enough to lose it (`write_lost`): its next write, such as the time
stamp of a hygiene cycle, brings back the file as it was loaded.
-/

namespace Zeptoclaw

open LongTermMemory

variable {ι : Type*}

/-- Everything live is in the file as it was set. -/
def WritesKept (w : MemoryWorld ι) : Prop :=
  ∀ k content, w.live k = some content → (w.file.lookup k).map MemoryEntry.content = some content

/-- The map of a handle has everything that is live, but for the key a `set` is about. -/
def HoldsLive (live : Str → Option MemoryContent) (entries : Entries) (op : MemoryOp) : Prop :=
  ∀ k content, live k = some content →
    (entries.lookup k).map MemoryEntry.content = some content ∨ ∃ content' now, op = .set k content' now

/-- A call that writes the file is made through a handle that has everything live. -/
def WritesThroughFresh (lib : MemoryLib) (w : MemoryWorld ι) : MemoryInput ι → Prop
  | .open _ => True
  | .call h op => ∀ entries, w.handles h = some entries → (op.apply lib entries).2 = true →
      HoldsLive w.live entries op

/-! ## One call -/

variable {lib : MemoryLib} {entries : Entries} {live : Str → Option MemoryContent}

theorem upsert_content (entries : Entries) (key : Str) (content : MemoryContent) (now : ℕ) :
    (upsert entries key content now).content = content := by
  unfold upsert
  split <;> rfl

theorem set_ok {key : Str} {content : MemoryContent} {now : ℕ} (h : lib.checkInjection content.value = []) :
    MemoryOp.apply lib entries (.set key content now) =
      (entries.insert key (upsert entries key content now), true) := by
  simp [MemoryOp.apply, LongTermMemory.set, h]

theorem set_rejected {key : Str} {content : MemoryContent} {now : ℕ} (h : lib.checkInjection content.value ≠ []) :
    MemoryOp.apply lib entries (.set key content now) = (entries, false) := by
  simp [MemoryOp.apply, LongTermMemory.set, h]

/-- What a cleanup does: it drops entries, and if it writes nothing it drops none. -/
structure Cleans (before after : Entries) (saved : Bool) : Prop where
  dropped : ∀ k e, after.lookup k = some e → before.lookup k = some e
  unsaved : saved = false → after = before

theorem cleans_retain (p : Str → MemoryEntry → Bool) {saved : Bool}
    (h : saved = false → entries.entries.length ≤ (entries.retain p).entries.length) :
    Cleans entries (entries.retain p) saved := by
  refine ⟨fun k e hk => ?_, fun hs => Assoc.retain_eq_self (h hs)⟩
  rw [Assoc.lookup_retain, Option.filter_eq_some_iff] at hk
  exact hk.1

theorem cleanupLeastUsed_cleans (keepCount now : ℕ) :
    Cleans entries (MemoryOp.apply lib entries (.cleanupLeastUsed keepCount now)).1
      (MemoryOp.apply lib entries (.cleanupLeastUsed keepCount now)).2 := by
  simp only [MemoryOp.apply, LongTermMemory.cleanupLeastUsed]
  by_cases hlen : entries.entries.length ≤ keepCount
  · rw [if_pos hlen]
    exact ⟨fun _ _ h => h, fun _ => rfl⟩
  · rw [if_neg hlen]
    dsimp only
    refine cleans_retain _ fun hs => ?_
    have : ¬ keepCount < entries.entries.length := of_decide_eq_false hs
    omega

theorem cleanupExpired_cleans (threshold : ℚ) (now : ℕ) :
    Cleans entries (MemoryOp.apply lib entries (.cleanupExpired threshold now)).1
      (MemoryOp.apply lib entries (.cleanupExpired threshold now)).2 := by
  simp only [MemoryOp.apply, LongTermMemory.cleanupExpired]
  by_cases hrange : threshold < 0 ∨ 1 < threshold
  · rw [if_pos hrange]
    exact ⟨fun _ _ h => h, fun _ => rfl⟩
  · rw [if_neg hrange]
    dsimp only
    refine cleans_retain _ fun hs => ?_
    have := of_decide_eq_false hs
    omega

/-- The part of `liveAfter` that the cleanups share. -/
theorem liveAfter_cleans {before after : Entries} {saved : Bool} (h : Cleans before after saved) (hs : saved = false)
    (k : Str) :
    (if (before.lookup k).map MemoryEntry.content = live k ∧ after.lookup k = none then none else live k) = live k := by
  rw [h.unsaved hs]
  split
  · rename_i hk
    rw [← hk.1, hk.2]
    rfl
  · rfl

/-- A call that does not write leaves what is live as it is. -/
theorem liveAfter_of_not_saved {op : MemoryOp} (h : (op.apply lib entries).2 = false) :
    liveAfter lib entries (op.apply lib entries).1 live op = live := by
  funext k
  cases op with
  | set key content now =>
    by_cases hok : lib.checkInjection content.value = []
    · rw [set_ok hok] at h
      cases h
    · simp [liveAfter, hok]
  | delete key =>
    have hnone : (entries.lookup key).isSome = false := h
    simp [liveAfter, hnone]
  | cleanupLeastUsed keepCount now => exact liveAfter_cleans (cleanupLeastUsed_cleans keepCount now) h k
  | cleanupExpired threshold now => exact liveAfter_cleans (cleanupExpired_cleans threshold now) h k
  | get key now => rfl
  | save => rfl

/-- A cleanup through a map that has everything live keeps what is live after it. -/
theorem cleans_keeps {before after : Entries} {saved : Bool} (h : Cleans before after saved) {k : Str}
    {content : MemoryContent} (hold : live k = some content → (before.lookup k).map MemoryEntry.content = some content)
    (hlive : (if (before.lookup k).map MemoryEntry.content = live k ∧ after.lookup k = none then none else live k) =
      some content) :
    (after.lookup k).map MemoryEntry.content = some content := by
  split at hlive
  · cases hlive
  rename_i hk
  have hbefore := hold hlive
  cases hafter : after.lookup k with
  | none => exact absurd ⟨hbefore.trans hlive.symm, hafter⟩ hk
  | some e => rwa [h.dropped k e hafter] at hbefore

/-- **A call that writes the file keeps what is live**, if its handle has everything live. -/
theorem apply_keeps {op : MemoryOp} (hs : (op.apply lib entries).2 = true) (hold : HoldsLive live entries op)
    {k : Str} {content : MemoryContent}
    (hlive : liveAfter lib entries (op.apply lib entries).1 live op k = some content) :
    ((op.apply lib entries).1.lookup k).map MemoryEntry.content = some content := by
  cases op with
  | set key new now =>
    by_cases hok : lib.checkInjection new.value = []
    · rw [set_ok hok, Assoc.lookup_insert]
      by_cases hk : k = key
      · rw [if_pos hk, Option.map_some, upsert_content]
        simpa [liveAfter, hk, hok] using hlive
      · rw [if_neg hk]
        have hk' : live k = some content := by simpa [liveAfter, hk] using hlive
        obtain h | ⟨_, _, heq⟩ := hold k content hk'
        · exact h
        · cases heq
          exact absurd rfl hk
    · rw [set_rejected hok] at hs
      cases hs
  | delete key =>
    have hsome : (entries.lookup key).isSome = true := hs
    show (AList.lookup k (AList.erase key entries)).map MemoryEntry.content = some content
    rw [Assoc.lookup_erase]
    by_cases hk : k = key
    · simp [liveAfter, hk, hsome] at hlive
    · rw [if_neg hk]
      have hk' : live k = some content := by simpa [liveAfter, hk] using hlive
      obtain h | ⟨_, _, heq⟩ := hold k content hk'
      · exact h
      · cases heq
  | cleanupLeastUsed keepCount now =>
    exact cleans_keeps (cleanupLeastUsed_cleans keepCount now)
      (fun hk => (hold k content hk).resolve_right (by rintro ⟨_, _, h⟩; cases h)) hlive
  | cleanupExpired threshold now =>
    exact cleans_keeps (cleanupExpired_cleans threshold now)
      (fun hk => (hold k content hk).resolve_right (by rintro ⟨_, _, h⟩; cases h)) hlive
  | get key now => cases hs
  | save => exact (hold k content hlive).resolve_right (by rintro ⟨_, _, h⟩; cases h)

/-! ## The handles -/

section Handles

variable [DecidableEq ι]

theorem memoryStep_kept (w : MemoryWorld ι) (input : MemoryInput ι) (h : WritesKept w)
    (hfresh : WritesThroughFresh lib w input) : WritesKept (memoryStep lib w input) := by
  cases input with
  | «open» handle => exact h
  | call handle op =>
    unfold memoryStep
    dsimp only
    split
    · exact h
    rename_i entries hentries
    intro k content hlive
    dsimp only at hlive ⊢
    cases hs : (op.apply lib entries).2 with
    | false =>
      rw [liveAfter_of_not_saved hs] at hlive
      exact h k content hlive
    | true => exact apply_keeps hs (hfresh entries hentries hs) hlive

omit [DecidableEq ι] in
theorem memoryInit_kept (file : Entries) : WritesKept (MemoryWorld.init file : MemoryWorld ι) :=
  fun _ _ h => h

/-- **No write is lost**: in every run whose writing calls go through handles that have
everything live, everything live is in the file. -/
theorem writes_kept (lib : MemoryLib) (file : Entries) (inputs : List (MemoryInput ι))
    (h : StepsMeet (memoryStep lib) (WritesThroughFresh lib) (MemoryWorld.init file) inputs) :
    WritesKept (runSteps (memoryStep lib) (MemoryWorld.init file) inputs) :=
  run_invariant memoryStep_kept inputs _ (memoryInit_kept file) h

omit [DecidableEq ι] in
/-- A handle whose map is what the file has. -/
theorem holdsLive_of_file {w : MemoryWorld ι} (h : WritesKept w) {entries : Entries} (hf : entries = w.file)
    (op : MemoryOp) : HoldsLive w.live entries op :=
  fun k content hk => .inl (by rw [hf]; exact h k content hk)

end Handles

/-- Every entry knows its key. -/
def Keyed (entries : Entries) : Prop := ∀ k e, entries.lookup k = some e → e.key = k

/-! ## The agent and the hygiene scheduler -/

def plainLib : MemoryLib := ⟨fun importance _ => importance, fun _ => [], fun _ => []⟩

/-- The defaults of the hygiene scheduler. -/
def defaultHygiene : HygieneConfig := ⟨1 / 10, 1000⟩

/-- The agent, `false`, remembers a name. -/
def rememberName : MemoryInput Bool :=
  .call false (.set "user:name".toList ⟨"Ada".toList, "user".toList, [], 1⟩ 5)

/-- The scheduler opens its handle after the agent has written. -/
def openedLater : List (MemoryInput Bool) :=
  [.open false, rememberName, .open true,
    .call true (.set lastHygieneKey ⟨"7".toList, "system".toList, [], 1 / 10⟩ 7)]

theorem writes_kept_opened_later :
    WritesKept (runSteps (memoryStep plainLib) (MemoryWorld.init ∅) openedLater) := by
  -- each handle writes right after it was opened
  have hopened : ∀ (w : MemoryWorld Bool) (h : Bool) (op : MemoryOp), WritesKept w →
      WritesThroughFresh plainLib (memoryStep plainLib w (.open h)) (.call h op) := by
    intro w h op hw entries he _
    have hfile : entries = w.file := by simpa [memoryStep] using he.symm
    exact holdsLive_of_file hw hfile op
  have hinit : WritesKept (.init ∅ : MemoryWorld Bool) := memoryInit_kept ∅
  have hname : WritesThroughFresh plainLib (memoryStep plainLib (.init ∅) (.open false)) rememberName :=
    hopened (.init ∅) false _ hinit
  have hkept := memoryStep_kept (memoryStep plainLib (.init ∅) (.open false)) rememberName hinit hname
  exact writes_kept plainLib ∅ openedLater ⟨trivial, hname, trivial, hopened _ true _ hkept, trivial⟩

/-- Both handles are opened before the agent writes; the hygiene cycle then writes the file
without the name. -/
theorem write_lost :
    ¬ WritesKept (runSteps (memoryStep plainLib) (MemoryWorld.init ∅)
      ([.open false, .open true, rememberName] ++ hygieneCycle defaultHygiene true 7)) := by
  intro h
  have hfile := h "user:name".toList ⟨"Ada".toList, "user".toList, [], 1⟩ (by decide +kernel)
  exact absurd hfile (by decide +kernel)

end Zeptoclaw

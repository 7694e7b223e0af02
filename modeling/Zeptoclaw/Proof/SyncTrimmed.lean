import Zeptoclaw.Spec.Preflight

/-!
# Writing trimmed results back

A resolved tool message is written to the last message of the session with its identifier. So only the last
result of each identifier gets the content of its own copy; `syncTrimmed_own_iff` says when this is enough.
-/

namespace Zeptoclaw

/-- Both are results with the same identifier. -/
def sameResult (m r : Message) : Bool := m.role == .tool && r.role == .tool && m.toolCallId == r.toolCallId

/-- The message after a resolved one is written to it. -/
def takeContent (m r : Message) : Message :=
  if m.content ≠ r.content then { m with content := r.content, contentParts := r.contentParts } else m

/-- The part of a message that results are matched on, which writing leaves alone. -/
def resultKey (m : Message) : Role × Option Str := (m.role, m.toolCallId)

theorem takeContent_content (m r : Message) : (takeContent m r).content = r.content := by
  unfold takeContent
  split
  · rfl
  · rename_i h
    exact not_not.mp h

theorem takeContent_key (m r : Message) : resultKey (takeContent m r) = resultKey m := by
  unfold takeContent
  split
  · rfl
  · rfl

theorem sameResult_congr {m m' : Message} (h : resultKey m' = resultKey m) (r : Message) :
    sameResult m' r = sameResult m r := by
  unfold sameResult
  rw [show m'.role = m.role from congrArg Prod.fst h, show m'.toolCallId = m.toolCallId from congrArg Prod.snd h]

theorem syncResult_eq (session : List Message) (r : Message) :
    syncResult session r = modifyLast (sameResult · r) (takeContent · r) session := by
  unfold syncResult
  by_cases hrole : r.role = .tool
  · have hsame : (fun m : Message => m.role == .tool && m.toolCallId == r.toolCallId) = fun m => sameResult m r := by
      funext m
      simp [sameResult, hrole]
    rw [if_neg (not_not.mpr hrole), hsame]
    rfl
  · have hnone : session.any (sameResult · r) = false := by simp [sameResult, hrole]
    rw [if_pos hrole, modifyLast_of_not_any _ hnone]

theorem syncResult_keys (session : List Message) (r : Message) :
    (syncResult session r).map resultKey = session.map resultKey := by
  rw [syncResult_eq]
  induction session with
  | nil => rfl
  | cons m session ih =>
    rw [modifyLast_cons, List.map_cons, List.map_cons, ih]
    split
    · rw [takeContent_key]
    · rfl

theorem any_sameResult_congr {l l' : List Message} (h : l.map resultKey = l'.map resultKey) (r : Message) :
    l.any (sameResult · r) = l'.any (sameResult · r) := by
  have hkey : ∀ l : List Message, l.any (sameResult · r) =
      (l.map resultKey).any fun k => k.1 == .tool && r.role == .tool && k.2 == r.toolCallId := by
    intro l
    rw [List.any_map]
    rfl
  rw [hkey, hkey, h]

/-- What the resolved messages write to one message. -/
def writeAll (m : Message) (resolved : List Message) : Message :=
  resolved.foldl (fun m r => if sameResult m r then takeContent m r else m) m

theorem writeAll_key (resolved : List Message) : ∀ m : Message, resultKey (writeAll m resolved) = resultKey m := by
  induction resolved with
  | nil => exact fun _ => rfl
  | cons r resolved ih =>
    intro m
    have hrest := ih (if sameResult m r then takeContent m r else m)
    refine hrest.trans ?_
    split
    · exact takeContent_key m r
    · rfl

theorem writeAll_of_none {resolved : List Message} {m : Message} (h : ∀ r ∈ resolved, sameResult m r = false) :
    writeAll m resolved = m := by
  induction resolved with
  | nil => rfl
  | cons r resolved ih =>
    have hr := h r List.mem_cons_self
    have hrest := ih fun x hx => h x (List.mem_cons_of_mem r hx)
    unfold writeAll at hrest ⊢
    rw [List.foldl_cons, hr, if_neg (by decide), hrest]

/-- The message at the front, and the ones behind it. -/
theorem syncTrimmed_cons (resolved : List Message) : ∀ (m : Message) (session : List Message),
    syncTrimmedToolResults (m :: session) resolved =
      (if m.role = .tool ∧ session.any (sameResult · m) = false then writeAll m resolved else m) ::
        syncTrimmedToolResults session resolved := by
  induction resolved with
  | nil => intro m session; unfold syncTrimmedToolResults writeAll; simp
  | cons r resolved ih =>
    intro m session
    have hhead : ∀ m' : Message, resultKey m' = resultKey m →
        (m'.role = .tool ∧ (syncResult session r).any (sameResult · m') = false ↔
          m.role = .tool ∧ session.any (sameResult · m) = false) := by
      intro m' hm'
      have hrole : m'.role = m.role := congrArg Prod.fst hm'
      have hid : m'.toolCallId = m.toolCallId := congrArg Prod.snd hm'
      have hany : (syncResult session r).any (sameResult · m') = session.any (sameResult · m) := by
        rw [any_sameResult_congr (syncResult_keys session r)]
        unfold sameResult
        rw [hrole, hid]
      rw [hrole, hany]
    have hrun : ∀ s, syncTrimmedToolResults s (r :: resolved) = syncTrimmedToolResults (syncResult s r) resolved :=
      fun _ => rfl
    rw [hrun, hrun session]
    -- a match of `r` is a match of `m`, since both have the same key
    have hmatch : sameResult m r = true → m.role = .tool ∧ session.any (sameResult · r) = session.any (sameResult · m) := by
      intro hsame
      unfold sameResult at hsame ⊢
      simp only [Bool.and_eq_true, beq_iff_eq] at hsame
      rw [hsame.1.1, hsame.1.2, hsame.2]
      exact ⟨rfl, rfl⟩
    by_cases hwrite : sameResult m r = true ∧ session.any (sameResult · m) = false
    · obtain ⟨hrole, hany⟩ := hmatch hwrite.1
      have hstep : syncResult (m :: session) r = takeContent m r :: syncResult session r := by
        rw [syncResult_eq, syncResult_eq, modifyLast_cons, if_pos ⟨hwrite.1, hany.trans hwrite.2⟩]
      rw [hstep, ih, if_pos ((hhead _ (takeContent_key m r)).mpr ⟨hrole, hwrite.2⟩), if_pos ⟨hrole, hwrite.2⟩]
      unfold writeAll
      rw [List.foldl_cons, if_pos hwrite.1]
    · have hstep : syncResult (m :: session) r = m :: syncResult session r := by
        rw [syncResult_eq, syncResult_eq, modifyLast_cons, if_neg]
        exact fun h => hwrite ⟨h.1, (hmatch h.1).2 ▸ h.2⟩
      rw [hstep, ih]
      by_cases hlast : m.role = .tool ∧ session.any (sameResult · m) = false
      · have hskip : writeAll m (r :: resolved) = writeAll m resolved := by
          unfold writeAll
          rw [List.foldl_cons, if_neg fun h => hwrite ⟨h, hlast.2⟩]
        rw [if_pos ((hhead m rfl).mpr hlast), if_pos hlast, hskip]
      · rw [if_neg fun h => hlast ((hhead m rfl).mp h), if_neg hlast]

/-! ## Own copies -/

/-- A copy of a message: contents may differ. -/
def IsCopy (m copy : Message) : Prop := copy.role = m.role ∧ copy.toolCallId = m.toolCallId

/-- A tool message has the content of its own copy; any other message is as it was. -/
def HasOwnContent (m copy out : Message) : Prop :=
  if m.role = .tool then out.content = copy.content else out = m

/-- A result with a later one of the same identifier was not trimmed. -/
def RepeatUntrimmed (later : List (Message × Message)) (p : Message × Message) : Prop :=
  p.1.role = .tool → (∃ q ∈ later, q.1.role = .tool ∧ q.1.toolCallId = p.1.toolCallId) → p.2.content = p.1.content

theorem isCopy_sameResult {m m' copy : Message} (h : IsCopy m copy) : sameResult m' copy = sameResult m' m := by
  unfold sameResult
  rw [h.1, h.2]

theorem any_sameResult_iff {m : Message} {session copy : List Message} (hlen : session.length = copy.length)
    (hrole : m.role = .tool) :
    session.any (sameResult · m) = true ↔
      ∃ q ∈ session.zip copy, q.1.role = .tool ∧ q.1.toolCallId = m.toolCallId := by
  have hfst : (session.zip copy).map Prod.fst = session := List.map_fst_zip hlen.le
  nth_rewrite 1 [← hfst]
  rw [List.any_map, List.any_eq_true]
  simp [sameResult, hrole]

theorem syncTrimmed_nil : ∀ resolved : List Message, syncTrimmedToolResults [] resolved = [] := by
  intro resolved
  induction resolved with
  | nil => rfl
  | cons r resolved ih =>
    have hstep : syncResult [] r = [] := by rw [syncResult_eq]; rfl
    unfold syncTrimmedToolResults at ih ⊢
    rw [List.foldl_cons, hstep, ih]

/-- A copy with the key of a message copies a message with that key. -/
theorem any_sameResult_of_copy {m r : Message} {session copy : List Message}
    (hcopy : List.Forall₂ IsCopy session copy) (hr : r ∈ copy) (hsame : sameResult m r = true) :
    session.any (sameResult · m) = true := by
  obtain ⟨x, hx, hxr⟩ : ∃ x ∈ session, IsCopy x r := by
    have hlen := hcopy.length_eq
    obtain ⟨i, hi, rfl⟩ := List.getElem_of_mem hr
    exact ⟨_, List.getElem_mem (by omega), (List.forall₂_iff_get.mp hcopy).2 i (by omega) hi⟩
  rw [isCopy_sameResult hxr] at hsame
  refine List.any_eq_true.mpr ⟨x, hx, ?_⟩
  unfold sameResult at hsame ⊢
  simp only [Bool.and_eq_true, beq_iff_eq] at hsame ⊢
  exact ⟨⟨hsame.1.2, hsame.1.1⟩, hsame.2.symm⟩

/-- Without a later message of its key, a result gets the content of its own copy last. -/
theorem writeAll_own {m c : Message} {session copy : List Message} (pre : List Message) (hm : IsCopy m c)
    (hcopy : List.Forall₂ IsCopy session copy) (hrole : m.role = .tool)
    (hlast : session.any (sameResult · m) = false) :
    writeAll m (pre ++ c :: copy) = takeContent (writeAll m pre) c := by
  have hself : sameResult (writeAll m pre) c = true := by
    rw [sameResult_congr (writeAll_key pre m), isCopy_sameResult hm]
    simp [sameResult, hrole]
  have hsplit : writeAll m (pre ++ c :: copy) = writeAll (takeContent (writeAll m pre) c) copy := by
    unfold writeAll at hself ⊢
    rw [List.foldl_append, List.foldl_cons, if_pos hself]
  have hkey : resultKey (takeContent (writeAll m pre) c) = resultKey m :=
    (takeContent_key _ _).trans (writeAll_key pre m)
  rw [hsplit]
  refine writeAll_of_none fun r hr => ?_
  rw [sameResult_congr hkey]
  by_contra hsame
  have hany := any_sameResult_of_copy hcopy hr ((Bool.not_eq_false _).mp hsame)
  rw [hlast] at hany
  cases hany

theorem syncTrimmed_forall₂_iff : ∀ {session copy : List Message} (pre : List Message),
    List.Forall₂ IsCopy session copy →
      (List.Forall₂ (fun (p : Message × Message) out => HasOwnContent p.1 p.2 out) (session.zip copy)
        (syncTrimmedToolResults session (pre ++ copy)) ↔ AllBehind RepeatUntrimmed (session.zip copy)) := by
  intro session copy pre hcopy
  induction hcopy generalizing pre with
  | nil =>
    rw [syncTrimmed_nil]
    exact ⟨fun _ => trivial, fun _ => .nil⟩
  | @cons m c session copy hm hrest ih =>
    have hih := ih (pre ++ [c])
    rw [List.append_assoc, List.singleton_append] at hih
    rw [syncTrimmed_cons, List.zip_cons_cons, List.forall₂_cons, hih, AllBehind]
    refine and_congr_left fun _ => ?_
    unfold HasOwnContent RepeatUntrimmed
    by_cases hrole : m.role = .tool
    · have hany := any_sameResult_iff hrest.length_eq hrole
      simp only [hrole, true_and, if_true, true_implies]
      cases hlast : session.any (sameResult · m) with
      | true =>
        -- a later result takes what is written under this identifier
        rw [if_neg (by decide)]
        have hlater := hany.mp hlast
        exact ⟨fun h _ => h.symm, fun h => (h hlater).symm⟩
      | false =>
        have hnone : ¬ ∃ q ∈ session.zip copy, q.1.role = .tool ∧ q.1.toolCallId = m.toolCallId := by
          rw [← hany, hlast]
          decide
        rw [if_pos rfl, writeAll_own pre hm hrest hrole hlast, takeContent_content]
        exact ⟨fun _ h => absurd h hnone, fun _ => rfl⟩
    · simp [hrole]

/-- **After the write back every tool message of the session has the content of its own copy, and no other message has
changed, exactly if no result that a later one of the same identifier follows was trimmed.** The copies stand behind
any messages. -/
theorem syncTrimmed_own_iff (pre session copy : List Message) (hcopy : List.Forall₂ IsCopy session copy) :
    List.Forall₂ (fun (p : Message × Message) out => HasOwnContent p.1 p.2 out) (session.zip copy)
        (syncTrimmedToolResults session (pre ++ copy)) ↔
      AllBehind RepeatUntrimmed (session.zip copy) :=
  syncTrimmed_forall₂_iff pre hcopy

/-- Two turns that use the same identifier. -/
def twoTurns : List Message :=
  [.toolResult "call_1".toList "long text".toList, .user ['x'], .toolResult "call_1".toList "ok".toList]

/-- The result of the first turn trimmed. -/
def trimmedTurns : List Message :=
  [.toolResult "call_1".toList "long".toList, .user ['x'], .toolResult "call_1".toList "ok".toList]

theorem twoTurns_copied : List.Forall₂ IsCopy twoTurns trimmedTurns :=
  .cons ⟨rfl, rfl⟩ (.cons ⟨rfl, rfl⟩ (.cons ⟨rfl, rfl⟩ .nil))

theorem syncTrimmed_own_twoTurns :
    List.Forall₂ (fun (p : Message × Message) out => HasOwnContent p.1 p.2 out) (twoTurns.zip trimmedTurns)
        (syncTrimmedToolResults twoTurns ([.system ['s']] ++ trimmedTurns)) ↔
      AllBehind RepeatUntrimmed (twoTurns.zip trimmedTurns) :=
  syncTrimmed_own_iff [.system ['s']] twoTurns trimmedTurns twoTurns_copied

/-- The trim of the first turn is not written back. -/
theorem syncTrimmed_lost :
    ¬ List.Forall₂ (fun (p : Message × Message) out => HasOwnContent p.1 p.2 out) (twoTurns.zip trimmedTurns)
        (syncTrimmedToolResults twoTurns ([.system ['s']] ++ trimmedTurns)) := by
  intro h
  have hout : syncTrimmedToolResults twoTurns ([.system ['s']] ++ trimmedTurns) = twoTurns := by decide +kernel
  rw [hout] at h
  cases h with
  | cons hfirst _ => exact absurd hfirst (by unfold HasOwnContent; decide)

end Zeptoclaw

import Mathlib.Data.List.Chain
import Zeptoclaw.Lib.Support
import Zeptoclaw.Spec.Repair

/-!
# Session repair yields a valid conversation

When only assistant messages carry tool calls, each pass keeps three facts about
the list: every tool result answers an earlier call (`Answered`), the calls in
their order (`allCalls`), and, from the merging pass on, that no two messages of
the same dialog role stand side by side (`Alternates`).
-/

namespace Zeptoclaw

open Text

variable {seen : List Str} {prev msg : Message} {ms : List Message}

/-- The earlier message `p` issues the call that the tool result `m` answers. -/
def Issues (p m : Message) : Prop := ∃ id, m.toolCallId = some id ∧ id ∈ p.callIds

/-- Every tool result is preceded by a message that issues its call. -/
def Answered (ms : List Message) : Prop := Supported (fun m => m.role = .tool) Issues [] ms

/-- Two messages of the same dialog role. -/
def SameTurn (a b : Message) : Prop := a.role = b.role ∧ (a.role = .user ∨ a.role = .assistant)

/-- No two adjacent user messages, no two adjacent assistant messages. -/
def Alternates (ms : List Message) : Prop := ms.IsChain fun a b => ¬ SameTurn a b

/-- Only assistant messages carry tool calls. -/
def AssistantCallsOnly (ms : List Message) : Prop := ∀ m ∈ ms, m.calls ≠ [] → m.role = .assistant

/-- The tool calls of a conversation in order. -/
def allCalls (ms : List Message) : List ToolCall := ms.flatMap Message.calls

@[simp] theorem allCalls_nil : allCalls [] = [] := rfl

@[simp] theorem allCalls_cons (m : Message) (ms : List Message) :
    allCalls (m :: ms) = m.calls ++ allCalls ms := rfl

theorem mergesInto_iff : mergesInto prev msg = true ↔ SameTurn prev msg := by
  unfold mergesInto SameTurn
  simp only [Bool.and_eq_true, Bool.or_eq_true, beq_iff_eq]
  constructor
  · rintro ⟨h1, h2⟩; rw [h2]; exact ⟨rfl, h1⟩
  · rintro ⟨h1, h2⟩; rw [h1] at h2; exact ⟨h2, h1⟩

theorem AssistantCallsOnly.calls_nil (h : AssistantCallsOnly ms) {m : Message} (hm : m ∈ ms)
    (hr : m.role ≠ .assistant) : m.calls = [] := by
  by_contra hc
  exact hr (h m hm hc)

theorem AssistantCallsOnly.mono {ms' : List Message} (h : AssistantCallsOnly ms) (hs : ms' ⊆ ms) :
    AssistantCallsOnly ms' := fun m hm => h m (hs hm)

/-! ## Orphan results -/

theorem removeOrphan_cons :
    removeOrphanToolResultsFrom seen (msg :: ms) =
      if isOrphan (seenAfter seen msg) msg then
        ((removeOrphanToolResultsFrom (seenAfter seen msg) ms).1,
          (removeOrphanToolResultsFrom (seenAfter seen msg) ms).2 + 1)
      else
        (msg :: (removeOrphanToolResultsFrom (seenAfter seen msg) ms).1,
          (removeOrphanToolResultsFrom (seenAfter seen msg) ms).2) := rfl

theorem isOrphan_tool (h : isOrphan seen msg = true) : msg.role = .tool := by
  unfold isOrphan at h
  simp only [Bool.and_eq_true, beq_iff_eq] at h
  exact h.1

theorem not_isOrphan (h : isOrphan seen msg = false) (hr : msg.role = .tool) :
    ∃ id, msg.toolCallId = some id ∧ id ∈ seen := by
  unfold isOrphan at h
  rw [hr] at h
  cases hid : msg.toolCallId with
  | none => rw [hid] at h; simp at h
  | some id => rw [hid] at h; exact ⟨id, rfl, by simpa using h⟩

theorem removeOrphan_sublist :
    ∀ (ms : List Message) (seen : List Str), (removeOrphanToolResultsFrom seen ms).1.Sublist ms := by
  intro ms
  induction ms with
  | nil => intro seen; exact List.Sublist.refl _
  | cons m ms ih =>
    intro seen
    rw [removeOrphan_cons]
    split
    · exact (ih _).cons m
    · exact (ih _).cons_cons m

theorem removeOrphan_calls : ∀ (ms : List Message) (seen : List Str), AssistantCallsOnly ms →
    allCalls (removeOrphanToolResultsFrom seen ms).1 = allCalls ms := by
  intro ms
  induction ms with
  | nil => intro seen _; rfl
  | cons m ms ih =>
    intro seen h
    have hms := h.mono (List.subset_cons_self m ms)
    rw [removeOrphan_cons]
    split
    · rename_i ho
      have hc : m.calls = [] := h.calls_nil List.mem_cons_self (by rw [isOrphan_tool ho]; decide)
      rw [allCalls_cons, hc]
      exact ih _ hms
    · rw [allCalls_cons, allCalls_cons, ih _ hms]

/-- What the first pass keeps is answered: `seen` holds only calls of kept messages,
since a dropped tool result carries none. -/
theorem removeOrphan_supported : ∀ (ms : List Message) (seen : List Str) (ctx : List Message),
    AssistantCallsOnly ms → (∀ id ∈ seen, ∃ p ∈ ctx, id ∈ p.callIds) →
    Supported (fun m => m.role = .tool) Issues ctx (removeOrphanToolResultsFrom seen ms).1 := by
  intro ms
  induction ms with
  | nil => intro seen ctx _ _; exact supported_nil
  | cons m ms ih =>
    intro seen ctx h hseen
    have hms := h.mono (List.subset_cons_self m ms)
    rw [removeOrphan_cons]
    split
    · rename_i ho
      have hc : m.calls = [] := h.calls_nil List.mem_cons_self (by rw [isOrphan_tool ho]; decide)
      apply ih _ _ hms
      simpa [seenAfter, Message.callIds, hc] using hseen
    · rename_i ho
      refine supported_cons.2 ⟨fun hr => ?_, ih _ _ hms fun id hid => ?_⟩
      · obtain ⟨id, hid, hmem⟩ := not_isOrphan (by simpa using ho) hr
        have hc : m.calls = [] := h.calls_nil List.mem_cons_self (by rw [hr]; decide)
        have hin : id ∈ seen := by simpa [seenAfter, Message.callIds, hc] using hmem
        obtain ⟨p, hp, hpid⟩ := hseen id hin
        exact ⟨p, hp, id, hid, hpid⟩
      · rcases List.mem_append.1 hid with hid | hid
        · obtain ⟨p, hp, hpid⟩ := hseen id hid
          exact ⟨p, List.mem_append_left _ hp, hpid⟩
        · exact ⟨m, by simp, hid⟩

/-! ## Blank messages -/

theorem keepsMessage_false (h : keepsMessage msg = false) :
    isBlank msg.content = true ∧ msg.calls = [] ∧ msg.role ≠ .tool := by
  unfold keepsMessage at h
  simp only [Bool.or_eq_false_iff, Bool.not_eq_false', beq_eq_false_iff_ne] at h
  obtain ⟨⟨h1, h2⟩, h3⟩ := h
  refine ⟨(trim_eq_nil_iff _).1 (List.isEmpty_iff.1 h1), ?_, h3⟩
  unfold Message.hasToolCalls at h2
  unfold Message.calls
  cases hc : msg.toolCalls with
  | none => rfl
  | some calls => rw [hc] at h2; simpa using h2

theorem allCalls_filter_keeps (ms : List Message) : allCalls (ms.filter keepsMessage) = allCalls ms := by
  induction ms with
  | nil => rfl
  | cons m ms ih =>
    cases hk : keepsMessage m with
    | true => rw [List.filter_cons_of_pos hk, allCalls_cons, allCalls_cons, ih]
    | false =>
      obtain ⟨-, hc, -⟩ := keepsMessage_false hk
      rw [List.filter_cons_of_neg (by simp [hk]), allCalls_cons, hc]
      exact ih

theorem not_issues_of_calls_nil (h : prev.calls = []) (m : Message) : ¬ Issues prev m := by
  rintro ⟨id, -, hid⟩
  simp [Message.callIds, h] at hid

/-! ## Role alternation -/

theorem fixRole_cons :
    fixRoleAlternationFrom prev (msg :: ms) =
      if mergesInto prev msg then
        ((fixRoleAlternationFrom (mergeMessage prev msg) ms).1,
          (fixRoleAlternationFrom (mergeMessage prev msg) ms).2 + 1)
      else
        (prev :: (fixRoleAlternationFrom msg ms).1, (fixRoleAlternationFrom msg ms).2) := rfl

@[simp] theorem mergeMessage_role : (mergeMessage prev msg).role = prev.role := rfl

/-- The output starts with a message of the first message's role and alternates. -/
theorem fixRole_alternates : ∀ (ms : List Message) (prev : Message),
    ∃ h t, (fixRoleAlternationFrom prev ms).1 = h :: t ∧ h.role = prev.role ∧ Alternates (h :: t) := by
  intro ms
  induction ms with
  | nil => intro prev; exact ⟨prev, [], rfl, rfl, List.isChain_singleton _⟩
  | cons m ms ih =>
    intro prev
    rw [fixRole_cons]
    split
    · obtain ⟨h, t, he, hr, ha⟩ := ih (mergeMessage prev m)
      exact ⟨h, t, he, hr, ha⟩
    · rename_i hm
      obtain ⟨h, t, he, hr, ha⟩ := ih m
      refine ⟨prev, h :: t, by rw [← he], rfl, List.isChain_cons_cons.2 ⟨?_, ha⟩⟩
      -- `h` has the role of `m`, which does not merge into `prev`
      rw [mergesInto_iff] at hm
      unfold SameTurn at hm ⊢
      rwa [hr]

/-- A merge keeps the calls of both messages, when user messages carry none. -/
theorem mergeMessage_calls (prev : Message) (hu : msg.role ≠ .assistant → msg.calls = []) :
    (mergeMessage prev msg).calls = prev.calls ++ msg.calls := by
  by_cases hr : msg.role = .assistant
  · unfold mergeMessage Message.calls
    cases hc : msg.toolCalls with
    | none => simp [hr]
    | some calls => simp [hr]
  · rw [hu hr, List.append_nil]
    unfold mergeMessage Message.calls
    simp [hr]

theorem AssistantCallsOnly.merge (h : AssistantCallsOnly (prev :: msg :: ms)) (hm : SameTurn prev msg) :
    AssistantCallsOnly (mergeMessage prev msg :: ms) := by
  intro x hx hc
  rcases List.mem_cons.1 hx with rfl | hx
  · rw [mergeMessage_calls prev (h.calls_nil (by simp))] at hc
    rw [mergeMessage_role]
    by_cases hp : prev.calls = []
    · rw [hm.1]; exact h msg (by simp) (by simpa [hp] using hc)
    · exact h prev (by simp) hp
  · exact h x (by simp [hx]) hc

theorem fixRole_calls : ∀ (ms : List Message) (prev : Message), AssistantCallsOnly (prev :: ms) →
    AssistantCallsOnly (fixRoleAlternationFrom prev ms).1 ∧
      allCalls (fixRoleAlternationFrom prev ms).1 = allCalls (prev :: ms) := by
  intro ms
  induction ms with
  | nil => intro prev h; exact ⟨h, rfl⟩
  | cons m ms ih =>
    intro prev h
    rw [fixRole_cons]
    split
    · rename_i hm
      rw [mergesInto_iff] at hm
      obtain ⟨h1, h2⟩ := ih _ (h.merge hm)
      refine ⟨h1, ?_⟩
      rw [h2, allCalls_cons, mergeMessage_calls prev (h.calls_nil (by simp))]
      simp
    · obtain ⟨h1, h2⟩ := ih m (h.mono (List.subset_cons_self _ _))
      refine ⟨?_, by rw [allCalls_cons, h2, allCalls_cons prev]⟩
      intro x hx
      rcases List.mem_cons.1 hx with rfl | hx
      · exact h x (by simp)
      · exact h1 x hx

/-- Merging moves calls to an earlier message only, so results stay answered. -/
theorem fixRole_supported : ∀ (ms : List Message) (prev : Message) (ctx : List Message),
    AssistantCallsOnly (prev :: ms) → Supported (fun m => m.role = .tool) Issues ctx (prev :: ms) →
    Supported (fun m => m.role = .tool) Issues ctx (fixRoleAlternationFrom prev ms).1 := by
  intro ms
  induction ms with
  | nil => intro prev ctx _ hs; exact hs
  | cons m ms ih =>
    intro prev ctx h hs
    rw [fixRole_cons]
    obtain ⟨hp, hs'⟩ := supported_cons.1 hs
    split
    · rename_i hm
      rw [mergesInto_iff] at hm
      obtain ⟨-, hs''⟩ := supported_cons.1 hs'
      refine ih _ _ (h.merge hm) (supported_cons.2 ⟨fun hr => ?_, hs''.mono ?_⟩)
      · rcases hm.2 with hu | hu <;> rw [mergeMessage_role, hu] at hr <;> cases hr
      · -- the merged message issues what either of the two issued
        rintro a - ⟨p, hpm, id, hid, hin⟩
        have hc := mergeMessage_calls prev (h.calls_nil (m := m) (by simp))
        simp only [List.append_assoc, List.mem_append, List.mem_cons, List.not_mem_nil,
          or_false] at hpm
        rcases hpm with hpm | rfl | rfl
        · exact ⟨p, by simp [hpm], id, hid, hin⟩
        · refine ⟨mergeMessage p m, by simp, id, hid, ?_⟩
          rw [Message.callIds, hc, List.map_append, List.mem_append]; exact Or.inl hin
        · refine ⟨mergeMessage prev p, by simp, id, hid, ?_⟩
          rw [Message.callIds, hc, List.map_append, List.mem_append]; exact Or.inr hin
    · exact supported_cons.2 ⟨hp, ih m _ (h.mono (List.subset_cons_self _ _)) hs'⟩

/-! ## Consecutive duplicates -/

theorem removeDup_cons :
    removeConsecutiveDuplicatesFrom prev (msg :: ms) =
      if isDuplicate prev msg then
        ((removeConsecutiveDuplicatesFrom prev ms).1, (removeConsecutiveDuplicatesFrom prev ms).2 + 1)
      else
        (prev :: (removeConsecutiveDuplicatesFrom msg ms).1,
          (removeConsecutiveDuplicatesFrom msg ms).2) := rfl

theorem isDuplicate_iff :
    isDuplicate prev msg = true ↔
      prev.role = msg.role ∧ prev.content = msg.content ∧ prev.toolCallId = msg.toolCallId ∧
        prev.toolCalls = msg.toolCalls := by
  unfold isDuplicate
  simp only [Bool.and_eq_true, beq_iff_eq, and_assoc]

theorem isDuplicate_calls (h : isDuplicate prev msg = true) : msg.calls = prev.calls := by
  unfold Message.calls; rw [(isDuplicate_iff.1 h).2.2.2]

/-- In an alternating list the duplicate of a neighbour can be dropped: it has the
neighbour's role, which is no dialog role. -/
theorem Alternates.drop_dup (h : Alternates (prev :: msg :: ms)) (hd : isDuplicate prev msg = true) :
    msg.role ≠ .assistant ∧ Alternates (prev :: ms) := by
  obtain ⟨hne, hch⟩ := List.isChain_cons_cons.1 h
  have hr := (isDuplicate_iff.1 hd).1
  refine ⟨fun ha => hne ⟨hr, Or.inr (hr.trans ha)⟩, ?_⟩
  cases ms with
  | nil => exact List.isChain_singleton _
  | cons x ms =>
    obtain ⟨h1, h2⟩ := List.isChain_cons_cons.1 hch
    refine List.isChain_cons_cons.2 ⟨?_, h2⟩
    unfold SameTurn at h1 ⊢
    rwa [hr]

theorem removeDup_alternates : ∀ (ms : List Message) (prev : Message), Alternates (prev :: ms) →
    ∃ t, (removeConsecutiveDuplicatesFrom prev ms).1 = prev :: t ∧ Alternates (prev :: t) := by
  intro ms
  induction ms with
  | nil => intro prev h; exact ⟨[], rfl, h⟩
  | cons m ms ih =>
    intro prev h
    rw [removeDup_cons]
    split
    · rename_i hd
      exact ih prev (h.drop_dup hd).2
    · obtain ⟨hne, hch⟩ := List.isChain_cons_cons.1 h
      obtain ⟨t, ht, ha⟩ := ih m hch
      exact ⟨m :: t, by rw [← ht], List.isChain_cons_cons.2 ⟨hne, ha⟩⟩

theorem removeDup_calls : ∀ (ms : List Message) (prev : Message), Alternates (prev :: ms) →
    AssistantCallsOnly (prev :: ms) →
    allCalls (removeConsecutiveDuplicatesFrom prev ms).1 = allCalls (prev :: ms) := by
  intro ms
  induction ms with
  | nil => intro prev _ _; rfl
  | cons m ms ih =>
    intro prev ha h
    rw [removeDup_cons]
    split
    · rename_i hd
      obtain ⟨hr, ha'⟩ := ha.drop_dup hd
      rw [ih prev ha' (h.mono (by simp)), allCalls_cons, allCalls_cons, allCalls_cons,
        h.calls_nil (by simp) hr]
      rfl
    · rw [allCalls_cons, ih m (List.isChain_cons_cons.1 ha).2 (h.mono (List.subset_cons_self _ _)),
        allCalls_cons prev]

theorem removeDup_supported : ∀ (ms : List Message) (prev : Message) (ctx : List Message),
    Supported (fun m => m.role = .tool) Issues ctx (prev :: ms) →
    Supported (fun m => m.role = .tool) Issues ctx (removeConsecutiveDuplicatesFrom prev ms).1 := by
  intro ms
  induction ms with
  | nil => intro prev ctx hs; exact hs
  | cons m ms ih =>
    intro prev ctx hs
    obtain ⟨hp, hs'⟩ := supported_cons.1 hs
    rw [removeDup_cons]
    split
    · rename_i hd
      obtain ⟨-, hs''⟩ := supported_cons.1 hs'
      refine ih prev ctx (supported_cons.2 ⟨hp, hs''.mono ?_⟩)
      -- what the duplicate issues, `prev` issues
      rintro a - ⟨p, hpm, id, hid, hin⟩
      rcases List.mem_append.1 hpm with hpm | hpm
      · exact ⟨p, hpm, id, hid, hin⟩
      · rw [List.mem_singleton] at hpm; subst hpm
        refine ⟨prev, by simp, id, hid, ?_⟩
        rwa [Message.callIds, ← isDuplicate_calls hd]
    · exact supported_cons.2 ⟨hp, ih m _ hs'⟩

/-! ## Truncation artifacts and the whole repair -/

theorem allCalls_repairArtifact (ms : List Message) : allCalls (ms.map repairArtifact) = allCalls ms := by
  induction ms with
  | nil => rfl
  | cons m ms ih => rw [List.map_cons, allCalls_cons, allCalls_cons, ih]; rfl

/-- The messages the first two passes leave, and what is known of them. -/
theorem liveMessages_ok (h : AssistantCallsOnly ms) :
    AssistantCallsOnly (removeEmptyMessages (removeOrphanToolResults ms).1).1 ∧
      Answered (removeEmptyMessages (removeOrphanToolResults ms).1).1 ∧
      allCalls (removeEmptyMessages (removeOrphanToolResults ms).1).1 = allCalls ms := by
  have hsub := removeOrphan_sublist ms []
  refine ⟨h.mono fun x hx => hsub.subset (List.mem_of_mem_filter hx), ?_, ?_⟩
  · refine Supported.filter (removeOrphan_supported ms [] [] h (by simp)) ?_
    intro p _ hk a
    exact not_issues_of_calls_nil (keepsMessage_false hk).2.1 a
  · exact (allCalls_filter_keeps _).trans (removeOrphan_calls ms [] h)

/-- **Session repair yields a valid conversation.** -/
theorem repairMessages_valid (ms : List Message) (h : AssistantCallsOnly ms) :
    Answered (repairMessages ms).1 ∧ Alternates (repairMessages ms).1 ∧
      allCalls (repairMessages ms).1 = allCalls (ms.filter fun m => m.role == .assistant) := by
  have hall : allCalls (ms.filter fun m => m.role == .assistant) = allCalls ms := by
    induction ms with
    | nil => rfl
    | cons m ms ih =>
      have ih := ih (h.mono (List.subset_cons_self m ms))
      by_cases hr : m.role = .assistant
      · rw [List.filter_cons_of_pos (by simpa using hr), allCalls_cons, allCalls_cons, ih]
      · rw [List.filter_cons_of_neg (by simpa using hr), allCalls_cons, h.calls_nil (by simp) hr, ih]
        rfl
  obtain ⟨hc, ha, hcalls⟩ := liveMessages_ok h
  rw [hall, ← hcalls]
  show Answered ((removeConsecutiveDuplicates (fixRoleAlternation
      (removeEmptyMessages (removeOrphanToolResults ms).1).1).1).1.map repairArtifact) ∧
    Alternates ((removeConsecutiveDuplicates (fixRoleAlternation
      (removeEmptyMessages (removeOrphanToolResults ms).1).1).1).1.map repairArtifact) ∧
    allCalls ((removeConsecutiveDuplicates (fixRoleAlternation
      (removeEmptyMessages (removeOrphanToolResults ms).1).1).1).1.map repairArtifact) = _
  generalize (removeEmptyMessages (removeOrphanToolResults ms).1).1 = live at hc ha hcalls ⊢
  rw [allCalls_repairArtifact]
  cases live with
  | nil => exact ⟨supported_nil, List.isChain_nil, rfl⟩
  | cons m rest =>
    have hsup := fixRole_supported rest m [] hc ha
    obtain ⟨hc', hcalls'⟩ := fixRole_calls rest m hc
    obtain ⟨x, t, hx, -, halt⟩ := fixRole_alternates rest m
    simp only [fixRoleAlternation]
    rw [hx] at hsup hc' hcalls' ⊢
    simp only [removeConsecutiveDuplicates]
    obtain ⟨t', ht', halt'⟩ := removeDup_alternates t x halt
    refine ⟨?_, ?_, by rw [removeDup_calls t x halt hc', hcalls']⟩
    · exact (supported_map_iff _ _ repairArtifact [] _).2 (removeDup_supported t x [] hsup)
    · rw [ht']
      exact List.isChain_map_of_isChain repairArtifact (fun _ _ hne => hne) halt'

/-- A call, its result and a second user turn cut in two. -/
theorem repairMessages_valid_dialog :
    AssistantCallsOnly [Message.assistantWithTools [] [⟨['c'], [], []⟩], Message.toolResult ['c'] ['x'],
        Message.user ['a'], Message.user ['b']] ∧
      Answered (repairMessages [Message.assistantWithTools [] [⟨['c'], [], []⟩],
        Message.toolResult ['c'] ['x'], Message.user ['a'], Message.user ['b']]).1 := by
  have h : AssistantCallsOnly [Message.assistantWithTools [] [⟨['c'], [], []⟩],
      Message.toolResult ['c'] ['x'], Message.user ['a'], Message.user ['b']] := by
    unfold AssistantCallsOnly; decide
  exact ⟨h, (repairMessages_valid _ h).1⟩

end Zeptoclaw

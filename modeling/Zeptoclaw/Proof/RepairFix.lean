import Zeptoclaw.Proof.RepairMerge

/-!
# When session repair is idempotent

A list is a fixed point of `repair_messages` exactly when none of the five passes
finds work in it (`repairMessages_fixed_iff`). Of a repaired list two of the five
always hold: it alternates, and no truncation artifact is left. The other three can
fail, because the artifact pass runs last and merging forgets the calls of user
messages: a second run then finds blank messages, duplicates or orphan results that
the first one made (`repairMessages_idempotent_iff`, over the merged conversation).
`repairMessages_idempotent` is the condition on the list itself: the calls are on
messages that keep them, no text is blank but for a truncation artifact, and no two
messages that come together differ in one only.
-/

namespace Zeptoclaw

open Text

variable {seen : List Str} {prev msg : Message} {ms : List Message}

/-- Every tool result answers a call that was issued before it or on it. -/
def OrphanFree : List Str → List Message → Prop
  | _, [] => True
  | seen, msg :: rest =>
    isOrphan (seenAfter seen msg) msg = false ∧ OrphanFree (seenAfter seen msg) rest

/-- No message repeats the one before it. -/
def DuplicateFree (ms : List Message) : Prop := ms.IsChain fun a b => isDuplicate a b = false

/-! ## Passes that find no work -/

theorem removeOrphan_zero_iff : ∀ (ms : List Message) (seen : List Str),
    (removeOrphanToolResultsFrom seen ms).2 = 0 ↔ OrphanFree seen ms := by
  intro ms
  induction ms with
  | nil => intro seen; simp [removeOrphanToolResultsFrom, OrphanFree]
  | cons m ms ih =>
    intro seen
    rw [removeOrphan_cons, OrphanFree]
    split
    · rename_i h; simp [h]
    · rename_i h; simp [h, ih]

theorem removeOrphan_of_free : ∀ (ms : List Message) (seen : List Str), OrphanFree seen ms →
    removeOrphanToolResultsFrom seen ms = (ms, 0) := by
  intro ms
  induction ms with
  | nil => intro seen _; rfl
  | cons m ms ih =>
    intro seen h
    rw [removeOrphan_cons, ih _ h.2, if_neg (by simp [h.1])]

theorem fixRole_zero_iff : ∀ (ms : List Message) (prev : Message),
    (fixRoleAlternationFrom prev ms).2 = 0 ↔ Alternates (prev :: ms) := by
  intro ms
  induction ms with
  | nil => intro prev; simp [fixRoleAlternationFrom, Alternates]
  | cons m ms ih =>
    intro prev
    rw [fixRole_cons, Alternates, List.isChain_cons_cons, ← mergesInto_iff]
    split
    · rename_i h; simp [h]
    · rename_i h; simp [h, ih, Alternates]

theorem fixRole_of_alternates : ∀ (ms : List Message) (prev : Message), Alternates (prev :: ms) →
    fixRoleAlternationFrom prev ms = (prev :: ms, 0) := by
  intro ms
  induction ms with
  | nil => intro prev _; rfl
  | cons m ms ih =>
    intro prev h
    obtain ⟨hne, hch⟩ := List.isChain_cons_cons.1 h
    rw [fixRole_cons, if_neg (by rwa [mergesInto_iff]), ih m hch]

theorem removeDup_zero_iff : ∀ (ms : List Message) (prev : Message),
    (removeConsecutiveDuplicatesFrom prev ms).2 = 0 ↔ DuplicateFree (prev :: ms) := by
  intro ms
  induction ms with
  | nil => intro prev; simp [removeConsecutiveDuplicatesFrom, DuplicateFree]
  | cons m ms ih =>
    intro prev
    rw [removeDup_cons, DuplicateFree, List.isChain_cons_cons]
    split
    · rename_i h; simp [h]
    · rename_i h; simp [h, ih, DuplicateFree]

theorem removeDup_of_free : ∀ (ms : List Message) (prev : Message), DuplicateFree (prev :: ms) →
    removeConsecutiveDuplicatesFrom prev ms = (prev :: ms, 0) := by
  intro ms
  induction ms with
  | nil => intro prev _; rfl
  | cons m ms ih =>
    intro prev h
    obtain ⟨hne, hch⟩ := List.isChain_cons_cons.1 h
    rw [removeDup_cons, if_neg (by simp [hne]), ih m hch]

/-- A content that is not reported as changed is unchanged. -/
theorem repairContent_of_not_changed {c : Str} (h : (repairContent c).2 = false) :
    (repairContent c).1 = c := by
  unfold repairContent at h ⊢
  by_cases hl : c.getLast? = some replacementChar
  · simp only [hl, if_true] at h
    split at h <;> simp at h
  · simp only [hl, if_false] at h ⊢
    split at h
    · simp at h
    · rename_i hs; simp [hs]

theorem repairContent_not_changed {c : Str} (hl : c.getLast? ≠ some replacementChar)
    (hm : truncatedMarker.isSuffixOf c = false) : (repairContent c).2 = false := by
  unfold repairContent
  simp only [hl, if_false, hm, Bool.false_eq_true]

theorem repairArtifact_of_not_changed (h : (repairContent msg.content).2 = false) :
    repairArtifact msg = msg := by
  unfold repairArtifact; rw [repairContent_of_not_changed h]

/-- What it takes for no pass to find work. -/
structure RepairFixed (ms : List Message) : Prop where
  orphans : OrphanFree [] ms
  blanks : ∀ m ∈ ms, keepsMessage m = true
  roles : Alternates ms
  duplicates : DuplicateFree ms
  artifacts : ∀ m ∈ ms, (repairContent m.content).2 = false

theorem RepairFixed.repair_eq (h : RepairFixed ms) : repairMessages ms = (ms, {}) := by
  have h1 : removeOrphanToolResults ms = (ms, 0) := removeOrphan_of_free ms [] h.orphans
  have h2 : removeEmptyMessages ms = (ms, 0) := by
    unfold removeEmptyMessages
    rw [List.filter_eq_self.2 h.blanks, List.countP_eq_zero.2 (by simpa using h.blanks)]
  have h3 : fixRoleAlternation ms = (ms, 0) := by
    cases ms with
    | nil => rfl
    | cons m ms => exact fixRole_of_alternates ms m h.roles
  have h4 : removeConsecutiveDuplicates ms = (ms, 0) := by
    cases ms with
    | nil => rfl
    | cons m ms => exact removeDup_of_free ms m h.duplicates
  have h5 : repairTruncationArtifacts ms = (ms, 0) := by
    have hmap : ms.map repairArtifact = ms.map id :=
      List.map_congr_left fun m hm => repairArtifact_of_not_changed (h.artifacts m hm)
    unfold repairTruncationArtifacts
    rw [List.countP_eq_zero.2 (by simpa using h.artifacts), hmap, List.map_id]
  simp only [repairMessages, h1, h2, h3, h4, h5]

/-- **A list is repaired to itself without a repair exactly when no pass finds work.** -/
theorem repairMessages_fixed_iff (ms : List Message) :
    repairMessages ms = (ms, {}) ↔ RepairFixed ms := by
  refine ⟨fun h => ?_, RepairFixed.repair_eq⟩
  have hs := congrArg Prod.snd h
  simp only [repairMessages, RepairStats.mk.injEq] at hs
  obtain ⟨h1, h2, h3, h4, h5⟩ := hs
  -- a pass without a repair hands its input on, so the next one sees `ms` again
  have ho := (removeOrphan_zero_iff ms []).1 h1
  have e1 : removeOrphanToolResults ms = (ms, 0) := removeOrphan_of_free ms [] ho
  rw [e1] at h2 h3 h4 h5
  have hb : ∀ m ∈ ms, keepsMessage m = true := by
    simpa [removeEmptyMessages, List.countP_eq_zero] using h2
  have e2 : (removeEmptyMessages ms).1 = ms := List.filter_eq_self.2 hb
  rw [e2] at h3 h4 h5
  have hr : Alternates ms := by
    cases ms with
    | nil => exact List.isChain_nil
    | cons m ms => exact (fixRole_zero_iff ms m).1 h3
  have e3 : (fixRoleAlternation ms).1 = ms := by
    cases ms with
    | nil => rfl
    | cons m ms => exact congrArg Prod.fst (fixRole_of_alternates ms m hr)
  rw [e3] at h4 h5
  have hd : DuplicateFree ms := by
    cases ms with
    | nil => exact List.isChain_nil
    | cons m ms => exact (removeDup_zero_iff ms m).1 h4
  have e4 : (removeConsecutiveDuplicates ms).1 = ms := by
    cases ms with
    | nil => rfl
    | cons m ms => exact congrArg Prod.fst (removeDup_of_free ms m hd)
  rw [e4] at h5
  exact ⟨ho, hb, hr, hd, by simpa [repairTruncationArtifacts, List.countP_eq_zero] using h5⟩

/-! ## What holds of every repaired list -/

/-- A text cut at its trailing replacement characters does not end in one. -/
theorem getLast_trimEndMatches (c : Char) (s : Str) : (trimEndMatches c s).getLast? ≠ some c := by
  intro h
  unfold trimEndMatches at h
  have hne : s.rdropWhile (· == c) ≠ [] := by intro h0; rw [h0] at h; simp at h
  have hl := List.rdropWhile_last_not (· == c) s hne
  rw [List.getLast?_eq_some_getLast hne, Option.some.injEq] at h
  rw [h] at hl; simp at hl

theorem trimEndMatches_of_last {c : Char} {s : Str} (h : s.getLast? ≠ some c) :
    trimEndMatches c s = s := by
  unfold trimEndMatches
  rw [List.rdropWhile_eq_self_iff]
  intro hne hc
  rw [beq_iff_eq] at hc
  exact h (by rw [List.getLast?_eq_some_getLast hne, hc])

/-- The repaired content in closed form. -/
theorem repairContent_eq (c : Str) :
    (repairContent c).1 =
      if truncatedMarker.isSuffixOf (trimEndMatches replacementChar c) then
        trimEndMatches replacementChar c ++ "...]".toList
      else trimEndMatches replacementChar c := by
  unfold repairContent
  by_cases hl : c.getLast? = some replacementChar
  · simp only [hl, if_true]
    split <;> rfl
  · simp only [hl, if_false, trimEndMatches_of_last hl]
    split <;> rfl

/-- The closing appended to a cut text. -/
theorem getLast_append_closing (s : Str) : (s ++ "...]".toList).getLast? = some ']' := by
  rw [List.getLast?_append_of_ne_nil _ (by decide)]; rfl

/-- **No artifact is left in a repaired content.** -/
theorem repairContent_settles (c : Str) : (repairContent (repairContent c).1).2 = false := by
  have hlast : (repairContent c).1.getLast? ≠ some replacementChar := by
    rw [repairContent_eq]
    split
    · rw [getLast_append_closing]; decide
    · exact getLast_trimEndMatches _ _
  have hmark : truncatedMarker.isSuffixOf (repairContent c).1 = false := by
    rw [repairContent_eq]
    split
    · -- the marker ends in `d`, the closing in `]`
      by_contra hs
      rw [Bool.not_eq_false, List.isSuffixOf_iff_suffix] at hs
      have h1 := getLast_append_closing (trimEndMatches replacementChar c)
      obtain ⟨t, ht⟩ := hs
      rw [← ht, List.getLast?_append_of_ne_nil _ (by decide)] at h1
      exact absurd h1 (by decide)
    · rename_i hs; exact Bool.eq_false_iff.2 hs
  exact repairContent_not_changed hlast hmark

/-- Repairing an artifact leaves a blank text exactly when all that stands before
the trailing replacement characters is blank. -/
theorem isBlank_repairContent (c : Str) :
    isBlank (repairContent c).1 = isBlank (trimEndMatches replacementChar c) := by
  rw [repairContent_eq]
  split
  · rename_i hs
    rw [List.isSuffixOf_iff_suffix] at hs
    -- the marker itself is not blank
    have h1 : isBlank (trimEndMatches replacementChar c) = false := by
      obtain ⟨t, ht⟩ := hs
      rw [← ht]; simp only [isBlank, List.all_append]
      rw [show truncatedMarker.all isWhitespace = false by decide, Bool.and_false]
    rw [h1]
    simp only [isBlank, List.all_append] at h1 ⊢
    rw [h1, Bool.false_and]
  · rfl

/-- The conversation that is left when orphan results and blank messages are dropped
and neighbours of the same dialog role are merged. -/
def mergedConversation (ms : List Message) : List Message :=
  (fixRoleAlternation (removeEmptyMessages (removeOrphanToolResults ms).1).1).1

theorem repairMessages_fst (ms : List Message) :
    (repairMessages ms).1 =
      (removeConsecutiveDuplicates (mergedConversation ms)).1.map repairArtifact := rfl

theorem mergedConversation_alternates (ms : List Message) : Alternates (mergedConversation ms) := by
  unfold mergedConversation
  cases h : (removeEmptyMessages (removeOrphanToolResults ms).1).1 with
  | nil => exact List.isChain_nil
  | cons m rest =>
    obtain ⟨x, t, hx, -, ha⟩ := fixRole_alternates rest m
    show Alternates (fixRoleAlternationFrom m rest).1
    rw [hx]; exact ha

theorem repairMessages_alternates (ms : List Message) : Alternates (repairMessages ms).1 := by
  rw [repairMessages_fst]
  refine List.isChain_map_of_isChain (R := fun a b => ¬ SameTurn a b) repairArtifact
    (fun _ _ hne => hne) ?_
  have ha := mergedConversation_alternates ms
  cases h : mergedConversation ms with
  | nil => exact List.isChain_nil
  | cons m rest =>
    rw [h] at ha
    obtain ⟨t, ht, ha'⟩ := removeDup_alternates rest m ha
    show Alternates (removeConsecutiveDuplicatesFrom m rest).1
    rw [ht]; exact ha'

/-! ## What the last two passes do to the other three -/

/-- Duplicates agree on everything the passes look at. -/
theorem isDuplicate_keeps (h : isDuplicate prev msg = true) :
    keepsMessage (repairArtifact msg) = keepsMessage (repairArtifact prev) := by
  obtain ⟨h1, h2, -, h4⟩ := isDuplicate_iff.1 h
  unfold keepsMessage repairArtifact Message.hasToolCalls
  simp only [h1, h2, h4]

theorem removeDup_blanks : ∀ (ms : List Message) (prev : Message),
    (∀ m ∈ (removeConsecutiveDuplicatesFrom prev ms).1, keepsMessage (repairArtifact m) = true) ↔
      ∀ m ∈ prev :: ms, keepsMessage (repairArtifact m) = true := by
  intro ms
  induction ms with
  | nil => intro prev; rfl
  | cons m ms ih =>
    intro prev
    rw [removeDup_cons]
    split
    · rename_i hd
      have hk := isDuplicate_keeps hd
      simp only [ih prev, List.forall_mem_cons, hk]
      tauto
    · simp only [List.forall_mem_cons, ih m]

theorem isDuplicate_trans_left {x : Message} (h : isDuplicate prev msg = true) :
    isDuplicate (repairArtifact msg) (repairArtifact x) = isDuplicate (repairArtifact prev) (repairArtifact x) ∧
      isDuplicate msg x = isDuplicate prev x := by
  obtain ⟨h1, h2, h3, h4⟩ := isDuplicate_iff.1 h
  unfold isDuplicate repairArtifact
  simp only [h1, h2, h3, h4, and_self]

/-- After the duplicate pass, two neighbours become equal under the artifact pass
exactly when two different neighbours did before it. -/
theorem removeDup_duplicates : ∀ (ms : List Message) (prev : Message),
    DuplicateFree ((removeConsecutiveDuplicatesFrom prev ms).1.map repairArtifact) ↔
      (prev :: ms).IsChain fun a b =>
        isDuplicate (repairArtifact a) (repairArtifact b) = true → isDuplicate a b = true := by
  intro ms
  induction ms with
  | nil => intro prev; simp [removeConsecutiveDuplicatesFrom, DuplicateFree]
  | cons m ms ih =>
    intro prev
    rw [removeDup_cons, List.isChain_cons_cons]
    split
    · rename_i hd
      rw [ih prev]
      simp only [hd, implies_true, true_and]
      -- `prev` and its duplicate `m` compare alike with the next message
      cases ms with
      | nil => simp
      | cons x ms =>
        rw [List.isChain_cons_cons, List.isChain_cons_cons, (isDuplicate_trans_left hd).1,
          (isDuplicate_trans_left hd).2]
    · rename_i hd
      rw [← ih m]
      have hhead : ∃ t, (removeConsecutiveDuplicatesFrom m ms).1 = m :: t := by
        clear ih hd
        induction ms with
        | nil => exact ⟨[], rfl⟩
        | cons x ms ih =>
          rw [removeDup_cons]
          split
          · exact ih
          · exact ⟨_, rfl⟩
      obtain ⟨t, ht⟩ := hhead
      simp only [ht, List.map_cons, DuplicateFree, List.isChain_cons_cons]
      simp [hd]

theorem isOrphan_repairArtifact : isOrphan seen (repairArtifact msg) = isOrphan seen msg := rfl

theorem seenAfter_repairArtifact : seenAfter seen (repairArtifact msg) = seenAfter seen msg := rfl

theorem orphanFree_map : ∀ (ms : List Message) (seen : List Str),
    OrphanFree seen (ms.map repairArtifact) ↔ OrphanFree seen ms := by
  intro ms
  induction ms with
  | nil => intro seen; rfl
  | cons m ms ih => intro seen; simp only [List.map_cons, OrphanFree, isOrphan_repairArtifact,
      seenAfter_repairArtifact, ih]

/-- Only membership in the seen calls matters. -/
theorem orphanFree_congr : ∀ (ms : List Message) (seen seen' : List Str), (∀ id, id ∈ seen ↔ id ∈ seen') →
    (OrphanFree seen ms ↔ OrphanFree seen' ms) := by
  intro ms
  induction ms with
  | nil => intro _ _ _; rfl
  | cons m ms ih =>
    intro seen seen' h
    have h' : ∀ id, id ∈ seenAfter seen m ↔ id ∈ seenAfter seen' m := by
      intro id; simp [seenAfter, h id]
    have ho : isOrphan (seenAfter seen m) m = isOrphan (seenAfter seen' m) m := by
      unfold isOrphan
      cases hid : m.toolCallId with
      | none => rfl
      | some id => simp only [List.contains_eq_mem, h' id]
    rw [OrphanFree, OrphanFree, ho, ih _ _ h']

theorem removeDup_orphans : ∀ (ms : List Message) (prev : Message) (seen : List Str),
    OrphanFree seen (removeConsecutiveDuplicatesFrom prev ms).1 ↔ OrphanFree seen (prev :: ms) := by
  intro ms
  induction ms with
  | nil => intro prev seen; rfl
  | cons m ms ih =>
    intro prev seen
    rw [removeDup_cons]
    split
    · rename_i hd
      rw [ih prev]
      simp only [OrphanFree]
      -- the duplicate brings no new call and is judged as `prev` was
      have hc : m.callIds = prev.callIds := by rw [Message.callIds, isDuplicate_calls hd]; rfl
      have hmem : ∀ id, id ∈ seenAfter (seenAfter seen prev) m ↔ id ∈ seenAfter seen prev := by
        intro id; simp [seenAfter, hc]
      have ho : isOrphan (seenAfter (seenAfter seen prev) m) m = isOrphan (seenAfter seen prev) prev := by
        obtain ⟨h1, -, h3, -⟩ := isDuplicate_iff.1 hd
        unfold isOrphan
        rw [h1, h3]
        cases hid : m.toolCallId with
        | none => rfl
        | some id => simp only [List.contains_eq_mem, hmem id]
      rw [ho, orphanFree_congr ms _ _ hmem]
      tauto
    · simp only [OrphanFree, ih m]

/-! ## Idempotence -/

/-- The condition for a second repair to find nothing: in the merged conversation
every tool result answers a call issued before it or on it; no message without calls
is blank but for trailing replacement characters; and no two neighbours differ only in
a truncation artifact. -/
structure Settled (ms : List Message) : Prop where
  answered : OrphanFree [] (mergedConversation ms)
  not_cut_blank : ∀ m ∈ mergedConversation ms,
    isBlank (trimEndMatches replacementChar m.content) = true → m.hasToolCalls = true ∨ m.role = .tool
  not_cut_equal : (mergedConversation ms).IsChain fun a b =>
    isDuplicate (repairArtifact a) (repairArtifact b) = true → isDuplicate a b = true

theorem keeps_repairArtifact (m : Message) :
    keepsMessage (repairArtifact m) = true ↔
      (isBlank (trimEndMatches replacementChar m.content) = true → m.hasToolCalls = true ∨ m.role = .tool) := by
  have hb : (trim (repairContent m.content).1).isEmpty = isBlank (trimEndMatches replacementChar m.content) := by
    rw [← isBlank_repairContent, Bool.eq_iff_iff, List.isEmpty_iff, trim_eq_nil_iff]
  have ht : (repairArtifact m).hasToolCalls = m.hasToolCalls := rfl
  unfold keepsMessage
  rw [ht, show (repairArtifact m).content = (repairContent m.content).1 from rfl, hb,
    show (repairArtifact m).role = m.role from rfl]
  cases isBlank (trimEndMatches replacementChar m.content) <;> simp

/-- **When session repair is idempotent**: a second repair returns the repaired list
unchanged and reports no repair, exactly for settled inputs. -/
theorem repairMessages_idempotent_iff (ms : List Message) :
    repairMessages (repairMessages ms).1 = ((repairMessages ms).1, {}) ↔ Settled ms := by
  rw [repairMessages_fixed_iff]
  have hartifacts : ∀ m ∈ (repairMessages ms).1, (repairContent m.content).2 = false := by
    intro m hm
    rw [repairMessages_fst] at hm
    obtain ⟨x, -, rfl⟩ := List.mem_map.1 hm
    exact repairContent_settles x.content
  have hroles := repairMessages_alternates ms
  -- the three remaining facts, pulled back through the last two passes
  have ho : OrphanFree [] (repairMessages ms).1 ↔ OrphanFree [] (mergedConversation ms) := by
    rw [repairMessages_fst, orphanFree_map]
    cases mergedConversation ms with
    | nil => rfl
    | cons m rest => exact removeDup_orphans rest m []
  have hb : (∀ m ∈ (repairMessages ms).1, keepsMessage m = true) ↔
      ∀ m ∈ mergedConversation ms, keepsMessage (repairArtifact m) = true := by
    rw [repairMessages_fst, List.forall_mem_map]
    cases mergedConversation ms with
    | nil => rfl
    | cons m rest => exact removeDup_blanks rest m
  have hd : DuplicateFree (repairMessages ms).1 ↔ (mergedConversation ms).IsChain fun a b =>
      isDuplicate (repairArtifact a) (repairArtifact b) = true → isDuplicate a b = true := by
    rw [repairMessages_fst]
    cases mergedConversation ms with
    | nil => simp [removeConsecutiveDuplicates, DuplicateFree]
    | cons m rest => exact removeDup_duplicates rest m
  simp only [keeps_repairArtifact] at hb
  constructor
  · intro h; exact ⟨ho.1 h.orphans, hb.1 h.blanks, hd.1 h.duplicates⟩
  · intro h
    exact ⟨ho.2 h.answered, hb.2 h.not_cut_blank, hroles, hd.2 h.not_cut_equal, hartifacts⟩

/-! ## A condition on the list -/

/-- Behind the messages `pre`, the message is a tool result without its call, or it is blank. -/
def isDropped (pre : List Message) (msg : Message) : Bool :=
  isOrphan ((pre ++ [msg]).flatMap Message.callIds) msg || !keepsMessage msg

/-- The message `b` comes next after `a` when the dropped messages between them are gone. -/
def ComesNext (ms : List Message) (a b : Message) : Prop :=
  ∃ front mid back, ms = front ++ a :: (mid ++ b :: back) ∧ isDropped front a = false ∧
    (∀ x m y, mid = x ++ m :: y → isDropped (front ++ a :: x) m = true) ∧ isDropped (front ++ a :: mid) b = false

/-- The texts differ at most in a truncation artifact. -/
def CutAlike (c d : Str) : Prop :=
  let c := trimEndMatches replacementChar c
  let d := trimEndMatches replacementChar d
  c = d ∨ (truncatedMarker <:+ c ∧ d = c ++ "...]".toList) ∨ truncatedMarker <:+ d ∧ c = d ++ "...]".toList

/-- No user message and no tool result carries calls; no other text without calls is white space and then replacement
characters; and of two system messages that come together, or two results of one call, the contents do not differ in a
truncation artifact only. -/
structure RepairsAtOnce (ms : List Message) : Prop where
  calls : ∀ m ∈ ms, m.role = .user ∨ m.role = .tool → m.calls = []
  not_cut_blank : ∀ m ∈ ms, isBlank (trimEndMatches replacementChar m.content) = true →
    isBlank m.content = true ∨ m.hasToolCalls = true ∨ m.role = .tool
  not_cut_equal : ∀ a b, ComesNext ms a b → a.role = b.role → a.role = .system ∨ a.role = .tool →
    a.toolCallId = b.toolCallId → a.toolCalls = b.toolCalls → CutAlike a.content b.content → a.content = b.content

/-! ### The messages that are left -/

/-- What the first two passes leave of the list behind `pre`. -/
def liveBehind (pre ms : List Message) : List Message :=
  (removeOrphanToolResultsFrom (pre.flatMap Message.callIds) ms).1.filter keepsMessage

theorem seenAfter_flatMap (pre : List Message) (m : Message) :
    seenAfter (pre.flatMap Message.callIds) m = (pre ++ [m]).flatMap Message.callIds := by
  simp [seenAfter]

theorem liveBehind_cons (pre : List Message) (m : Message) (ms : List Message) :
    liveBehind pre (m :: ms) = if isDropped pre m then liveBehind (pre ++ [m]) ms
      else m :: liveBehind (pre ++ [m]) ms := by
  unfold liveBehind isDropped
  rw [removeOrphan_cons, seenAfter_flatMap]
  cases ho : isOrphan ((pre ++ [m]).flatMap Message.callIds) m with
  | true => simp
  | false =>
    cases hk : keepsMessage m with
    | true => simp [hk]
    | false => simp [hk]

theorem mergedConversation_eq (ms : List Message) : mergedConversation ms = (fixRoleAlternation (liveBehind [] ms)).1 := rfl

theorem mem_of_mem_liveBehind {pre ms : List Message} {m : Message} (h : m ∈ liveBehind pre ms) :
    m ∈ ms ∧ keepsMessage m = true := by
  obtain ⟨hm, hk⟩ := List.mem_filter.mp h
  exact ⟨(removeOrphan_sublist ms _).subset hm, hk⟩

/-- The first message that is left, and the dropped ones before it. -/
theorem liveBehind_eq_cons : ∀ (ms pre : List Message) {b : Message} {t : List Message}, liveBehind pre ms = b :: t →
    ∃ mid back, ms = mid ++ b :: back ∧ (∀ x m y, mid = x ++ m :: y → isDropped (pre ++ x) m = true) ∧
      isDropped (pre ++ mid) b = false := by
  intro ms
  induction ms with
  | nil => intro pre b t h; cases h
  | cons m ms ih =>
    intro pre b t h
    rw [liveBehind_cons] at h
    split at h
    · rename_i hd
      obtain ⟨mid, back, rfl, hmid, hb⟩ := ih _ h
      refine ⟨m :: mid, back, rfl, ?_, by simpa using hb⟩
      intro x y z hx
      cases x with
      | nil =>
        obtain ⟨rfl, -⟩ := List.cons.inj hx
        simpa using hd
      | cons x₀ x =>
        obtain ⟨rfl, hmid'⟩ := List.cons.inj hx
        simpa using hmid x y z hmid'
    · rename_i hd
      obtain ⟨rfl, -⟩ := List.cons.inj h
      exact ⟨[], ms, rfl, fun x y z hx => by simp at hx, by simpa using hd⟩

/-- Neighbours of what is left come together in the list. -/
theorem isChain_liveBehind {R : Message → Message → Prop} {whole : List Message}
    (h : ∀ a b, ComesNext whole a b → R a b) : ∀ (ms front : List Message), whole = front ++ ms →
      (liveBehind front ms).IsChain R := by
  intro ms
  induction ms with
  | nil => intro front _; exact List.isChain_nil
  | cons m ms ih =>
    intro front hwhole
    have hrest := ih (front ++ [m]) (by rw [hwhole, List.append_assoc, List.singleton_append])
    rw [liveBehind_cons]
    split
    · exact hrest
    · rename_i hd
      cases hlive : liveBehind (front ++ [m]) ms with
      | nil => exact List.isChain_singleton _
      | cons b t =>
        rw [hlive] at hrest
        refine List.isChain_cons_cons.mpr ⟨h m b ?_, hrest⟩
        obtain ⟨mid, back, rfl, hmid, hb⟩ := liveBehind_eq_cons ms _ hlive
        refine ⟨front, mid, back, hwhole, by simpa using hd, fun x y z hx => ?_, by simpa using hb⟩
        simpa using hmid x y z hx

/-! ### Orphans -/

theorem orphanFree_liveBehind : ∀ (ms pre : List Message), (∀ m ∈ ms, m.role = .tool → m.calls = []) →
    OrphanFree (pre.flatMap Message.callIds) (liveBehind pre ms) := by
  intro ms
  induction ms with
  | nil => intro pre _; trivial
  | cons m ms ih =>
    intro pre h
    have hrest := ih (pre ++ [m]) fun x hx => h x (List.mem_cons_of_mem m hx)
    rw [liveBehind_cons]
    split
    · rename_i hd
      -- a dropped message carries no calls
      have hcalls : m.calls = [] := by
        rcases Bool.or_eq_true_iff.mp hd with ho | hk
        · exact h m List.mem_cons_self (isOrphan_tool ho)
        · exact (keepsMessage_false (by simpa using hk)).2.1
      simpa [Message.callIds, hcalls] using hrest
    · rename_i hd
      rw [OrphanFree, seenAfter_flatMap]
      exact ⟨(Bool.or_eq_false_iff.mp (Bool.eq_false_iff.mpr hd)).1, hrest⟩

/-- Merging keeps the calls, so it makes no orphans. -/
theorem orphanFree_fixRole : ∀ (ms : List Message) (prev : Message) (seen : List Str),
    (∀ m ∈ prev :: ms, m.role = .user → m.calls = []) → OrphanFree seen (prev :: ms) →
      OrphanFree seen (fixRoleAlternationFrom prev ms).1 := by
  intro ms
  induction ms with
  | nil => intro prev seen _ h; exact h
  | cons m ms ih =>
    intro prev seen hcalls h
    obtain ⟨hp, hm, hrest⟩ := h
    rw [fixRole_cons]
    split
    · rename_i hmerge
      obtain ⟨hrole, hdialog⟩ := mergesInto_iff.mp hmerge
      have hboth : (mergeMessage prev m).calls = prev.calls ++ m.calls := by
        refine mergeMessage_calls prev fun hne => hcalls m (by simp) ?_
        rw [← hrole] at hne ⊢
        exact hdialog.resolve_right hne
      refine ih _ _ ?_ ⟨?_, ?_⟩
      · intro x hx hu
        rcases List.mem_cons.mp hx with rfl | hx
        · rw [mergeMessage_role] at hu
          rw [hboth, hcalls prev (by simp) hu, hcalls m (by simp) (hrole ▸ hu)]
          rfl
        · exact hcalls x (by simp [hx]) hu
      · unfold isOrphan
        rcases hdialog with hu | hu
        · simp [hu]
        · simp [hu]
      · have hseen : seenAfter seen (mergeMessage prev m) = seenAfter (seenAfter seen prev) m := by
          simp [seenAfter, Message.callIds, hboth]
        rwa [hseen]
    · exact ⟨hp, ih m _ (fun x hx => hcalls x (List.mem_cons_of_mem prev hx)) ⟨hm, hrest⟩⟩

/-! ### Blank texts -/

theorem trimEndMatches_append_of_ne {c d : Char} (hd : d ≠ c) (a b : Str) :
    ∃ t, trimEndMatches c (a ++ d :: b) = a ++ d :: t := by
  unfold trimEndMatches
  induction b using List.reverseRecOn with
  | nil => exact ⟨[], by rw [List.rdropWhile_concat_neg _ _ _ (by simpa using hd)]⟩
  | append_singleton b e ih =>
    rw [← List.cons_append, ← List.append_assoc]
    by_cases he : e = c
    · rw [List.rdropWhile_concat_pos _ _ _ (by simpa using he)]
      exact ih
    · rw [List.rdropWhile_concat_neg _ _ _ (by simpa using he)]
      exact ⟨b ++ [e], by simp⟩

theorem isBlank_of_append {a b : Str} (h : isBlank (a ++ b) = true) : isBlank a = true := by
  simp only [isBlank, List.all_append, Bool.and_eq_true] at h
  exact h.1

/-- The message is kept, before and after its artifact is repaired. -/
def StaysKept (m : Message) : Prop :=
  isBlank m.content = true ∨ isBlank (trimEndMatches replacementChar m.content) = true →
    m.hasToolCalls = true ∨ m.role = .tool

theorem hasToolCalls_iff (m : Message) : m.hasToolCalls = true ↔ m.calls ≠ [] := by
  unfold Message.hasToolCalls Message.calls
  cases m.toolCalls with
  | none => simp
  | some calls => simp

theorem hasToolCalls_mergeMessage (h : prev.hasToolCalls = true) : (mergeMessage prev msg).hasToolCalls = true := by
  rw [hasToolCalls_iff] at h ⊢
  unfold mergeMessage Message.calls at *
  dsimp only
  split
  · split
    · simp [h]
    · exact h
  · exact h

/-- A merged text that is blank, or blank but for an artifact, is so because its first part is. -/
theorem StaysKept.merge (h : StaysKept prev) (msg : Message) : StaysKept (mergeMessage prev msg) := by
  have hcalls : prev.hasToolCalls = true ∨ prev.role = .tool →
      (mergeMessage prev msg).hasToolCalls = true ∨ (mergeMessage prev msg).role = .tool :=
    Or.imp_left hasToolCalls_mergeMessage
  intro hblank
  rw [mergeMessage_content] at hblank
  apply hcalls
  apply h
  unfold joinText at hblank
  split at hblank
  · exact hblank
  · split at hblank
    · rename_i hnil
      exact .inl (by rw [hnil]; rfl)
    · left
      rcases hblank with hblank | hblank
      · exact isBlank_of_append hblank
      · obtain ⟨t, ht⟩ := trimEndMatches_append_of_ne (c := replacementChar) (d := '\n') (by decide) prev.content
          msg.content
        rw [ht] at hblank
        exact isBlank_of_append hblank

theorem staysKept_fixRole : ∀ (ms : List Message) (prev : Message), (∀ m ∈ prev :: ms, StaysKept m) →
    ∀ m ∈ (fixRoleAlternationFrom prev ms).1, StaysKept m := by
  intro ms
  induction ms with
  | nil => intro prev h; exact h
  | cons m ms ih =>
    intro prev h
    have hm := fun x hx => h x (List.mem_cons_of_mem prev (List.mem_cons_of_mem m hx))
    rw [fixRole_cons]
    split
    · exact ih _ (List.forall_mem_cons.mpr ⟨(h prev List.mem_cons_self).merge m, hm⟩)
    · exact List.forall_mem_cons.mpr
        ⟨h prev List.mem_cons_self, ih m fun x hx => h x (List.mem_cons_of_mem prev hx)⟩

/-! ### Equal texts -/

theorem cutAlike_of_repairContent {c d : Str} (h : (repairContent c).1 = (repairContent d).1) : CutAlike c d := by
  rw [repairContent_eq, repairContent_eq] at h
  unfold CutAlike
  dsimp only
  split at h
  · rename_i hc
    rw [List.isSuffixOf_iff_suffix] at hc
    split at h
    · exact .inl (List.append_left_injective _ h)
    · exact .inr (.inl ⟨hc, h.symm⟩)
  · split at h
    · rename_i hd
      rw [List.isSuffixOf_iff_suffix] at hd
      exact .inr (.inr ⟨hd, h⟩)
    · exact .inl h

/-- Repairing artifacts makes no new duplicate of the two. -/
def NotCutEqual (a b : Message) : Prop :=
  isDuplicate (repairArtifact a) (repairArtifact b) = true → isDuplicate a b = true

theorem notCutEqual_of_role {a b : Message} (h : a.role ≠ b.role) : NotCutEqual a b :=
  fun hd => absurd (isDuplicate_iff.mp hd).1 h

/-- Only messages of the same dialog role are merged, so other neighbours of one role stay as they are. -/
theorem fixRole_notCutEqual : ∀ (ms : List Message) (prev : Message),
    (prev :: ms).IsChain (fun a b => ¬ SameTurn a b → NotCutEqual a b) →
      ∃ h t, (fixRoleAlternationFrom prev ms).1 = h :: t ∧ h.role = prev.role ∧
        (prev.role = .user ∨ prev.role = .assistant ∨ h = prev) ∧ (h :: t).IsChain NotCutEqual := by
  intro ms
  induction ms with
  | nil => intro prev _; exact ⟨prev, [], rfl, rfl, .inr (.inr rfl), List.isChain_singleton _⟩
  | cons m ms ih =>
    intro prev hchain
    obtain ⟨hpm, hms⟩ := List.isChain_cons_cons.mp hchain
    rw [fixRole_cons]
    split
    · rename_i hmerge
      obtain ⟨hrole, hdialog⟩ := mergesInto_iff.mp hmerge
      have hmerged : (mergeMessage prev m :: ms).IsChain (fun a b => ¬ SameTurn a b → NotCutEqual a b) := by
        cases ms with
        | nil => exact List.isChain_singleton _
        | cons x ms =>
          refine List.isChain_cons_cons.mpr ⟨fun hturn => ?_, (List.isChain_cons_cons.mp hms).2⟩
          exact notCutEqual_of_role fun heq => hturn ⟨heq, hdialog⟩
      obtain ⟨h, t, he, hr, -, hc⟩ := ih _ hmerged
      exact ⟨h, t, he, hr, by tauto, hc⟩
    · rename_i hmerge
      obtain ⟨h, t, he, hr, hsame, hc⟩ := ih m hms
      refine ⟨prev, h :: t, by rw [← he], rfl, .inr (.inr rfl), List.isChain_cons_cons.mpr ⟨?_, hc⟩⟩
      by_cases heq : prev.role = h.role
      · -- the two have one role and are not merged, so the head is the message itself
        have hturn : ¬ SameTurn prev m := fun hturn => hmerge (mergesInto_iff.mpr hturn)
        have hself : h = m := by
          rcases hsame with hu | hu | hu
          · exact absurd ⟨heq.trans hr, .inl (heq.trans hr |>.trans hu)⟩ hturn
          · exact absurd ⟨heq.trans hr, .inr (heq.trans hr |>.trans hu)⟩ hturn
          · exact hu
        rw [hself]
        exact hpm hturn
      · exact notCutEqual_of_role heq

/-! ### The whole repair -/

theorem RepairsAtOnce.settled (h : RepairsAtOnce ms) : Settled ms := by
  have hlive : ∀ m ∈ liveBehind [] ms, StaysKept m := by
    intro m hm hblank
    obtain ⟨hmem, hkept⟩ := mem_of_mem_liveBehind hm
    have hkeep : isBlank m.content = true → m.hasToolCalls = true ∨ m.role = .tool := by
      intro hb
      unfold keepsMessage at hkept
      simpa [(trim_eq_nil_iff m.content).mpr hb] using hkept
    rcases hblank with hb | hb
    · exact hkeep hb
    · exact (h.not_cut_blank m hmem hb).elim hkeep id
  have hfree := orphanFree_liveBehind ms [] fun m hm ht => h.calls m hm (.inr ht)
  have hcalls : ∀ m ∈ liveBehind [] ms, m.role = .user → m.calls = [] := fun m hm hu =>
    h.calls m (mem_of_mem_liveBehind hm).1 (.inl hu)
  have hchain : (liveBehind [] ms).IsChain (fun a b => ¬ SameTurn a b → NotCutEqual a b) := by
    refine isChain_liveBehind (fun a b (hab : ComesNext ms a b) hturn hd => ?_) ms [] rfl
    obtain ⟨hrole, hcontent, hid, htc⟩ := isDuplicate_iff.mp hd
    have hkind : a.role = .system ∨ a.role = .tool := by
      have hne : ¬ (a.role = .user ∨ a.role = .assistant) := fun hr => hturn ⟨hrole, hr⟩
      cases hr : a.role <;> simp_all
    exact isDuplicate_iff.mpr
      ⟨hrole, h.not_cut_equal a b hab hrole hkind hid htc (cutAlike_of_repairContent hcontent), hid, htc⟩
  have hmerged := mergedConversation_eq ms
  cases hl : liveBehind [] ms with
  | nil =>
    rw [hl] at hmerged
    have hnil : mergedConversation ms = [] := hmerged
    exact ⟨hnil ▸ trivial, by simp [hnil], hnil ▸ List.isChain_nil⟩
  | cons m rest =>
    rw [hl] at hmerged hlive hfree hcalls hchain
    have hout : mergedConversation ms = (fixRoleAlternationFrom m rest).1 := hmerged
    obtain ⟨x, t, hx, -, -, hc⟩ := fixRole_notCutEqual rest m hchain
    refine ⟨?_, ?_, ?_⟩
    · rw [hout]
      exact orphanFree_fixRole rest m [] hcalls hfree
    · intro y hy hb
      rw [hout] at hy
      exact staysKept_fixRole rest m hlive y hy (.inr hb)
    · rw [hout, hx]
      exact hc

end Zeptoclaw

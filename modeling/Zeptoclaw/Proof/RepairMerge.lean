import Mathlib.Data.List.SplitBy
import Zeptoclaw.Proof.Repair

/-!
# What merging keeps

The role-alternation pass makes one message of every run of consecutive messages of one role
(`fixRoleAlternation_runs`). The contents are joined, but the content parts stay those of the first message:
`fixRoleAlternation_keeps_iff` says when nothing is lost by this.
-/

namespace Zeptoclaw

open Text

/-- Two contents joined as the pass joins them. -/
def joinText (a b : Str) : Str := if b = [] then a else if a = [] then b else a ++ '\n' :: b

def joinTexts (texts : List Str) : Str := texts.foldl joinText []

/-- The text parts of a message. -/
def textParts (parts : List ContentPart) : List Str :=
  parts.filterMap fun
    | .text text => some text
    | .image _ _ => none

/-- The message that a run is merged into. -/
def MergedFrom (run : List Message) (out : Message) : Prop :=
  ∃ first rest, run = first :: rest ∧ out = rest.foldl mergeMessage first

/-- A merged message has the parts of all its constituents in order, text parts that read as its content, and in it the
contents of all its constituents in order. -/
structure MergeKeeps (run : List Message) (out : Message) : Prop where
  parts : (run.flatMap Message.contentParts).Sublist out.contentParts
  agrees : joinTexts (textParts out.contentParts) = out.content
  texts : InOrder (run.map Message.content) out.content

/-! ## Runs -/

theorem mergesInto_congr {prev prev' : Message} (h : prev.role = prev'.role) (msg : Message) :
    mergesInto prev msg = mergesInto prev' msg := by
  unfold mergesInto
  rw [h]

/-- The loop behind the run at hand, which `prev` was merged from and `last` is the last message of. -/
theorem fixRole_runs : ∀ (ms : List Message) (prev last : Message) (run : List Message) (runs : List (List Message)),
    MergedFrom (last :: run).reverse prev → prev.role = last.role →
      ∃ rest, List.splitBy.loop mergesInto ms last run runs = runs.reverse ++ rest ∧
        List.Forall₂ MergedFrom rest (fixRoleAlternationFrom prev ms).1 := by
  intro ms
  induction ms with
  | nil =>
    intro prev last run runs hmerged _
    exact ⟨[(last :: run).reverse], by simp [List.splitBy.loop], .cons hmerged .nil⟩
  | cons msg ms ih =>
    intro prev last run runs hmerged hrole
    have hsame := mergesInto_congr hrole msg
    rw [fixRole_cons, List.splitBy.loop]
    cases hmerge : mergesInto last msg with
    | true =>
      rw [hsame, hmerge, if_pos rfl]
      have hturn : SameTurn last msg := mergesInto_iff.mp hmerge
      refine ih (mergeMessage prev msg) msg (last :: run) runs ?_ (hrole.trans hturn.1)
      obtain ⟨first, rest, hrun, rfl⟩ := hmerged
      refine ⟨first, rest ++ [msg], ?_, ?_⟩
      · rw [List.reverse_cons, hrun]
        rfl
      · rw [List.foldl_append]
        rfl
    | false =>
      rw [hsame, hmerge, if_neg (by decide)]
      obtain ⟨rest, hloop, hall⟩ := ih msg msg [] ((last :: run).reverse :: runs) ⟨msg, [], rfl, rfl⟩ rfl
      refine ⟨(last :: run).reverse :: rest, ?_, .cons hmerged hall⟩
      rw [hloop, List.reverse_cons, List.append_assoc]
      rfl

/-- **Every run of consecutive messages of one role becomes one message.** -/
theorem fixRoleAlternation_runs (ms : List Message) :
    List.Forall₂ MergedFrom (ms.splitBy mergesInto) (fixRoleAlternation ms).1 := by
  cases ms with
  | nil => exact .nil
  | cons msg ms =>
    obtain ⟨rest, hloop, hall⟩ := fixRole_runs ms msg msg [] [] ⟨msg, [], rfl, rfl⟩ rfl
    rw [List.reverse_nil, List.nil_append] at hloop
    rw [List.splitBy, hloop]
    exact hall

/-! ## One run -/

theorem mergeMessage_content (prev msg : Message) :
    (mergeMessage prev msg).content = joinText prev.content msg.content := by
  unfold mergeMessage joinText
  by_cases hmsg : msg.content = []
  · simp [hmsg]
  · by_cases hprev : prev.content = []
    · simp [hmsg, hprev]
    · simp [hmsg, hprev]

theorem foldl_mergeMessage_parts (rest : List Message) : ∀ first : Message,
    (rest.foldl mergeMessage first).contentParts = first.contentParts := by
  induction rest with
  | nil => exact fun _ => rfl
  | cons msg rest ih => exact fun first => ih (mergeMessage first msg)

theorem foldl_mergeMessage_content (rest : List Message) : ∀ first : Message,
    (rest.foldl mergeMessage first).content = (rest.map Message.content).foldl joinText first.content := by
  induction rest with
  | nil => exact fun _ => rfl
  | cons msg rest ih =>
    intro first
    have hstep := ih (mergeMessage first msg)
    rw [mergeMessage_content] at hstep
    exact hstep

/-- Joining keeps the joined text in front. -/
theorem joinText_split (a b : Str) : ∃ gap, joinText a b = a ++ gap ++ b := by
  unfold joinText
  split
  · rename_i hb
    exact ⟨[], by simp [hb]⟩
  · split
    · rename_i ha
      exact ⟨[], by simp [ha]⟩
    · exact ⟨['\n'], by simp⟩

theorem inOrder_foldl_joinText : ∀ (texts : List Str) (a : Str),
    ∃ post, texts.foldl joinText a = a ++ post ∧ InOrder texts post := by
  intro texts
  induction texts with
  | nil => exact fun a => ⟨[], (List.append_nil a).symm, trivial⟩
  | cons b texts ih =>
    intro a
    obtain ⟨gap, hgap⟩ := joinText_split a b
    obtain ⟨post, hpost, hord⟩ := ih (joinText a b)
    refine ⟨gap ++ b ++ post, ?_, hord.cons gap b⟩
    rw [List.foldl_cons, hpost, hgap]
    simp [List.append_assoc]

theorem joinTexts_cons (a : Str) (texts : List Str) : joinTexts (a :: texts) = texts.foldl joinText a := by
  have hfirst : joinText [] a = a := by
    unfold joinText
    split
    · rename_i ha
      exact ha.symm
    · rfl
  unfold joinTexts
  rw [List.foldl_cons, hfirst]

/-- The parts of the run are those of its first message, and read as the contents of the whole run. -/
def PartsInFirst (run : List Message) : Prop :=
  ∃ first rest, run = first :: rest ∧ (∀ msg ∈ rest, msg.contentParts = []) ∧
    joinTexts (textParts first.contentParts) = joinTexts (run.map Message.content)

theorem mergeKeeps_iff {run : List Message} {out : Message} (h : MergedFrom run out) :
    MergeKeeps run out ↔ PartsInFirst run := by
  obtain ⟨first, rest, rfl, rfl⟩ := h
  have hcontent : (rest.foldl mergeMessage first).content = joinTexts ((first :: rest).map Message.content) := by
    rw [List.map_cons, joinTexts_cons, foldl_mergeMessage_content]
  constructor
  · intro hkeeps
    refine ⟨first, rest, rfl, fun msg hmsg => ?_, ?_⟩
    · -- the parts of the others have no room beside those of the first
      have hlen := hkeeps.parts.length_le
      rw [foldl_mergeMessage_parts, List.flatMap_cons, List.length_append] at hlen
      have hnil : rest.flatMap Message.contentParts = [] := List.length_eq_zero_iff.mp (by omega)
      exact List.flatMap_eq_nil_iff.mp hnil msg hmsg
    · have hagrees := hkeeps.agrees
      rwa [foldl_mergeMessage_parts, hcontent] at hagrees
  · rintro ⟨first', rest', heq, hempty, hagrees⟩
    cases heq
    refine ⟨?_, ?_, ?_⟩
    · rw [foldl_mergeMessage_parts, List.flatMap_cons, List.flatMap_eq_nil_iff.mpr hempty, List.append_nil]
    · rw [foldl_mergeMessage_parts, hcontent]
      exact hagrees
    · obtain ⟨post, hpost, hord⟩ := inOrder_foldl_joinText (rest.map Message.content) first.content
      rw [foldl_mergeMessage_content, hpost]
      exact ⟨[], post, rfl, hord⟩

theorem forall₂_iff_of_forall₂ {α β : Type*} {R S : α → β → Prop} {P : α → Prop} (h : ∀ a b, R a b → (S a b ↔ P a))
    {l : List α} {l' : List β} (hl : List.Forall₂ R l l') : List.Forall₂ S l l' ↔ ∀ a ∈ l, P a := by
  induction hl with
  | nil => simp
  | cons hab _ ih => rw [List.forall₂_cons, List.forall_mem_cons, h _ _ hab, ih]

/-- **Merging loses no part and no text exactly if in every run of several messages the parts are those of the first
message, and read as the contents of the whole run.** -/
theorem fixRoleAlternation_keeps_iff (ms : List Message) :
    List.Forall₂ (fun run out => 1 < run.length → MergeKeeps run out) (ms.splitBy mergesInto)
        (fixRoleAlternation ms).1 ↔
      ∀ run ∈ ms.splitBy mergesInto, 1 < run.length → PartsInFirst run := by
  have hrun : ∀ run out, MergedFrom run out →
      ((1 < run.length → MergeKeeps run out) ↔ (1 < run.length → PartsInFirst run)) :=
    fun _ _ hmerged => imp_congr_right fun _ => mergeKeeps_iff hmerged
  exact forall₂_iff_of_forall₂ hrun (fixRoleAlternation_runs ms)

/-- A text, and then a picture with a caption. -/
def pictureAfterText : List Message :=
  [.user ['a'], .userWithImages ['b'] [.image (.url ['u']) "image/png".toList]]

/-- The picture is lost, and the text parts miss the caption. -/
theorem fixRoleAlternation_loses_picture :
    ¬ List.Forall₂ (fun run out => 1 < run.length → MergeKeeps run out) (pictureAfterText.splitBy mergesInto)
        (fixRoleAlternation pictureAfterText).1 := by
  intro h
  have hrun : pictureAfterText.splitBy mergesInto = [pictureAfterText] := by decide +kernel
  rw [hrun] at h
  obtain ⟨out, rest, hkeeps, -, hout⟩ := List.forall₂_cons_left_iff.mp h
  have hparts : out.contentParts = [.text ['a']] := by
    have hmerged : (fixRoleAlternation pictureAfterText).1.map Message.contentParts = [[.text ['a']]] := by decide +kernel
    rw [hout, List.map_cons] at hmerged
    exact (List.cons.inj hmerged).1
  have hlen := (hkeeps (by decide)).parts.length_le
  rw [hparts] at hlen
  exact absurd hlen (by decide)

end Zeptoclaw

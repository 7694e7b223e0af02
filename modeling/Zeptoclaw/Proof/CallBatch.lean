import Zeptoclaw.Lib.Utf8
import Zeptoclaw.Spec.LoopGuard

/-!
# The text that is hashed for a batch of calls

`hash_call_batch` writes a name, a newline, the normalised arguments and `\n--\n` for each call, without lengths. Two
batches with the same text are the same calls exactly if, at the first call in which they differ, neither text runs on
over the separator of the other (`callBatch_injective_iff`).
-/

namespace Zeptoclaw

open Utf8

/-! ## Texts with separators -/

section Separators

/-- Two texts that end at a newline: one of them runs on over the newline of the other. -/
theorem newline_cases {a b x y : Str} (h : a ++ '\n' :: x = b ++ '\n' :: y) :
    (a = b ∧ x = y) ∨ (∃ more, b = a ++ '\n' :: more ∧ x = more ++ '\n' :: y) ∨
      ∃ more, a = b ++ '\n' :: more ∧ y = more ++ '\n' :: x := by
  have hright : ∀ {a b x y c : Str}, b = a ++ c → '\n' :: x = c ++ '\n' :: y →
      (a = b ∧ x = y) ∨ ∃ more, b = a ++ '\n' :: more ∧ x = more ++ '\n' :: y := by
    intro a b x y c hb hx
    cases c with
    | nil =>
      rw [List.append_nil] at hb
      exact .inl ⟨hb.symm, List.tail_eq_of_cons_eq hx⟩
    | cons c more =>
      obtain ⟨rfl, hrest⟩ := List.cons.inj hx
      exact .inr ⟨more, hb, hrest⟩
  rcases List.append_eq_append_iff.mp h with ⟨c, hb, hx⟩ | ⟨c, ha, hy⟩
  · exact (hright hb hx).imp_right .inl
  · rcases hright ha hy with ⟨hab, hxy⟩ | hmore
    · exact .inl ⟨hab.symm, hxy.symm⟩
    · exact .inr (.inr hmore)

/-- Two texts that end at a line of two dashes: one of them runs on over the dashes of the other. -/
theorem dashes_cases {a b x y : Str} (h : a ++ "\n--\n".toList ++ x = b ++ "\n--\n".toList ++ y) :
    (a = b ∧ x = y) ∨ (∃ more, b = a ++ "\n--".toList ++ more ∧ '\n' :: x = more ++ "\n--\n".toList ++ y) ∨
      ∃ more, a = b ++ "\n--".toList ++ more ∧ '\n' :: y = more ++ "\n--\n".toList ++ x := by
  have hright : ∀ {a b x y c : Str}, b = a ++ c → "\n--\n".toList ++ x = c ++ ("\n--\n".toList ++ y) →
      (a = b ∧ x = y) ∨ ∃ more, b = a ++ "\n--".toList ++ more ∧ '\n' :: x = more ++ "\n--\n".toList ++ y := by
    intro a b x y c hb hx
    -- a text that runs on by one or two characters has a newline in the place of a dash
    match c, hx with
    | [], hx =>
      rw [List.append_nil] at hb
      exact .inl ⟨hb.symm, List.append_cancel_left hx⟩
    | [_], hx =>
      have hdash := congrArg (fun l => l[1]?) hx
      simp at hdash
    | [_, _], hx =>
      have hdash := congrArg (fun l => l[2]?) hx
      simp at hdash
    | c0 :: c1 :: c2 :: more, hx =>
      have hsep : "\n--\n".toList ++ x = '\n' :: '-' :: '-' :: '\n' :: x := rfl
      rw [hsep] at hx
      obtain ⟨rfl, hx1⟩ := List.cons.inj hx
      obtain ⟨rfl, hx2⟩ := List.cons.inj hx1
      obtain ⟨rfl, hrest⟩ := List.cons.inj hx2
      exact .inr ⟨more, by rw [hb, List.append_assoc]; rfl, by rw [List.append_assoc]; exact hrest⟩
  rw [List.append_assoc, List.append_assoc] at h
  rcases List.append_eq_append_iff.mp h with ⟨c, hb, hx⟩ | ⟨c, ha, hy⟩
  · exact (hright hb hx).imp_right .inl
  · rcases hright ha hy with ⟨hab, hxy⟩ | hmore
    · exact .inl ⟨hab.symm, hxy.symm⟩
    · exact .inr (.inr hmore)

end Separators

/-! ## The text of a batch -/

/-- The name and the normalised arguments of a call. -/
def signature (lib : LoopGuardLib) (call : ToolCallSig) : Str × Str := (call.name, normalizeArgs lib call.arguments)

/-- What is written for the calls. -/
def batchText (calls : List (Str × Str)) : Str :=
  calls.flatMap fun call => call.1 ++ "\n".toList ++ call.2 ++ "\n--\n".toList

/-- The bytes that go into the hash. -/
def batchBytes (lib : LoopGuardLib) (batch : List ToolCallSig) : Bytes :=
  batch.flatMap fun call =>
    encode (call.name ++ "\n".toList ++ normalizeArgs lib call.arguments ++ "\n--\n".toList)

theorem hashCallBatch_eq (lib : LoopGuardLib) (batch : List ToolCallSig) :
    hashCallBatch lib batch = hexEncode (lib.sha256 (batchBytes lib batch)) := rfl

theorem batchBytes_eq (lib : LoopGuardLib) (batch : List ToolCallSig) :
    batchBytes lib batch = encode (batchText (batch.map (signature lib))) := by
  induction batch with
  | nil => rfl
  | cons call batch ih =>
    have hcons : batchText ((call :: batch).map (signature lib)) = call.name ++ "\n".toList ++
        normalizeArgs lib call.arguments ++ "\n--\n".toList ++ batchText (batch.map (signature lib)) := rfl
    rw [hcons, encode_append, ← ih]
    rfl

theorem batchText_cons (call : Str × Str) (calls : List (Str × Str)) :
    batchText (call :: calls) = call.1 ++ '\n' :: (call.2 ++ "\n--\n".toList ++ batchText calls) := by
  have hcons : batchText (call :: calls) = call.1 ++ ['\n'] ++ call.2 ++ "\n--\n".toList ++ batchText calls := rfl
  rw [hcons]
  simp only [List.append_assoc, List.cons_append, List.nil_append]

/-- The second call runs on over a separator of the first: its name over the newline, or else its arguments over the
line of dashes. What follows then is the same text. -/
def RunsOver (call call' : Str × Str) (rest rest' : Str) : Prop :=
  (∃ more, call'.1 = call.1 ++ '\n' :: more ∧
    call.2 ++ "\n--\n".toList ++ rest = more ++ '\n' :: (call'.2 ++ "\n--\n".toList ++ rest')) ∨
  (call'.1 = call.1 ∧ ∃ more, call'.2 = call.2 ++ "\n--".toList ++ more ∧
    '\n' :: rest = more ++ "\n--\n".toList ++ rest')

/-- At the first call in which the lists differ, one of the calls runs on over a separator of the other. -/
def Recut (calls calls' : List (Str × Str)) : Prop :=
  ∃ front call rest call' rest', calls = front ++ call :: rest ∧ calls' = front ++ call' :: rest' ∧
    (RunsOver call call' (batchText rest) (batchText rest') ∨ RunsOver call' call (batchText rest') (batchText rest))

theorem RunsOver.ne {call call' : Str × Str} {rest rest' : Str} (h : RunsOver call call' rest rest') : call ≠ call' := by
  rintro rfl
  rcases h with ⟨more, hname, -⟩ | ⟨-, more, hargs, -⟩
  · have hlen := congrArg List.length hname
    simp at hlen
  · have hlen := congrArg List.length hargs
    simp at hlen

theorem RunsOver.text_eq {call call' : Str × Str} {calls calls' : List (Str × Str)}
    (h : RunsOver call call' (batchText calls) (batchText calls')) :
    batchText (call :: calls) = batchText (call' :: calls') := by
  rw [batchText_cons, batchText_cons]
  rcases h with ⟨more, hname, hrest⟩ | ⟨hname, more, hargs, hrest⟩
  · rw [hname, hrest]
    simp only [List.append_assoc, List.cons_append]
  · have hdashes : call.2 ++ "\n--\n".toList ++ batchText calls = call.2 ++ "\n--".toList ++ '\n' :: batchText calls := by
      rw [List.append_assoc, List.append_assoc]
      rfl
    rw [hname, hargs, hdashes, hrest]
    simp only [List.append_assoc]

/-- The same text from different calls. -/
theorem runsOver_of_text_eq {call call' : Str × Str} {calls calls' : List (Str × Str)}
    (h : batchText (call :: calls) = batchText (call' :: calls')) :
    (call = call' ∧ batchText calls = batchText calls') ∨ RunsOver call call' (batchText calls) (batchText calls') ∨
      RunsOver call' call (batchText calls') (batchText calls) := by
  rw [batchText_cons, batchText_cons] at h
  rcases newline_cases h with ⟨hname, hrest⟩ | hmore | hmore
  · rcases dashes_cases hrest with ⟨hargs, htext⟩ | hmore | hmore
    · exact .inl ⟨Prod.ext hname hargs, htext⟩
    · exact .inr (.inl (.inr ⟨hname.symm, hmore⟩))
    · exact .inr (.inr (.inr ⟨hname, hmore⟩))
  · exact .inr (.inl (.inl hmore))
  · exact .inr (.inr (.inl hmore))

theorem batchText_ne_nil (call : Str × Str) (calls : List (Str × Str)) : batchText (call :: calls) ≠ [] := by
  rw [batchText_cons]
  exact List.append_ne_nil_of_right_ne_nil _ (List.cons_ne_nil _ _)

theorem batchText_append (calls calls' : List (Str × Str)) :
    batchText (calls ++ calls') = batchText calls ++ batchText calls' := List.flatMap_append

theorem Recut.text_eq {calls calls' : List (Str × Str)} (h : Recut calls calls') :
    batchText calls = batchText calls' := by
  obtain ⟨front, call, rest, call', rest', rfl, rfl, hruns⟩ := h
  have htext : batchText (call :: rest) = batchText (call' :: rest') := hruns.elim (·.text_eq) (·.text_eq.symm)
  rw [batchText_append, batchText_append, htext]

theorem Recut.ne {calls calls' : List (Str × Str)} (h : Recut calls calls') : calls ≠ calls' := by
  obtain ⟨front, call, rest, call', rest', rfl, rfl, hruns⟩ := h
  intro heq
  have hcall : call = call' := (List.cons.inj (List.append_cancel_left heq)).1
  exact hruns.elim (fun h => h.ne hcall) (fun h => h.ne hcall.symm)

/-- Different calls with the same text are cut anew. -/
theorem eq_of_not_recut : ∀ {calls calls' : List (Str × Str)}, ¬ Recut calls calls' →
    batchText calls = batchText calls' → calls = calls' := by
  intro calls
  induction calls with
  | nil =>
    intro calls' _ htext
    cases calls' with
    | nil => rfl
    | cons call' calls' => exact absurd htext.symm (batchText_ne_nil call' calls')
  | cons call calls ih =>
    intro calls' hcut htext
    cases calls' with
    | nil => exact absurd htext (batchText_ne_nil call calls)
    | cons call' calls' =>
      rcases runsOver_of_text_eq htext with ⟨rfl, hrest⟩ | hruns
      · refine congrArg (call :: ·) (ih ?_ hrest)
        rintro ⟨front, c, rest, c', rest', rfl, rfl, hruns⟩
        exact hcut ⟨call :: front, c, rest, c', rest', rfl, rfl, hruns⟩
      · exact absurd ⟨[], call, calls, call', calls', rfl, rfl, hruns⟩ hcut

/-! ## Batches -/

/-- The calls of the two batches have the same names and the same normalised arguments. -/
def SameCalls (lib : LoopGuardLib) (batch batch' : List ToolCallSig) : Prop :=
  batch.length = batch'.length ∧ ∀ pair ∈ batch.zip batch', pair.1.name = pair.2.name ∧
    normalizeArgs lib pair.1.arguments = normalizeArgs lib pair.2.arguments

theorem sameCalls_iff {lib : LoopGuardLib} : ∀ {batch batch' : List ToolCallSig},
    SameCalls lib batch batch' ↔ batch.map (signature lib) = batch'.map (signature lib) := by
  intro batch
  induction batch with
  | nil => intro batch'; cases batch' <;> simp [SameCalls]
  | cons call batch ih =>
    intro batch'
    cases batch' with
    | nil => simp [SameCalls]
    | cons call' batch' =>
      rw [List.map_cons, List.map_cons, List.cons.injEq, ← ih]
      simp only [SameCalls, signature, List.length_cons, Nat.add_right_cancel_iff, List.zip_cons_cons,
        List.forall_mem_cons, Prod.mk.injEq]
      tauto

/-- **The bytes of two batches are the same only for the same calls exactly if at the first call in which they differ
neither runs on over a separator of the other.** -/
theorem callBatch_injective_iff (lib : LoopGuardLib) (batch batch' : List ToolCallSig) :
    (batchBytes lib batch = batchBytes lib batch' → SameCalls lib batch batch') ↔
      ¬ Recut (batch.map (signature lib)) (batch'.map (signature lib)) := by
  rw [batchBytes_eq, batchBytes_eq, encode_injective.eq_iff, sameCalls_iff]
  exact ⟨fun hinj hcut => hcut.ne (hinj hcut.text_eq), eq_of_not_recut⟩

/-- **Calls without a newline in the name, and without a line of dashes in the arguments, are not mixed up with any
other such calls.** -/
theorem callBatch_injective_of_plain {lib : LoopGuardLib} {batch batch' : List ToolCallSig}
    (hplain : ∀ call ∈ batch ++ batch', '\n' ∉ call.name ∧ ¬ "\n--".toList <:+: normalizeArgs lib call.arguments)
    (h : batchBytes lib batch = batchBytes lib batch') : SameCalls lib batch batch' := by
  rw [batchBytes_eq, batchBytes_eq, encode_injective.eq_iff] at h
  rw [sameCalls_iff]
  refine eq_of_not_recut ?_ h
  have hruns : ∀ {call call' : Str × Str} {rest rest' : Str}, call' ∈ (batch ++ batch').map (signature lib) →
      ¬ RunsOver call call' rest rest' := by
    rintro call call' rest rest' hmem hruns
    obtain ⟨source, hsource, rfl⟩ := List.mem_map.mp hmem
    obtain ⟨hname, hargs⟩ := hplain source hsource
    rcases hruns with ⟨more, hover, -⟩ | ⟨-, more, hover, -⟩
    · have hin : '\n' ∈ (signature lib source).1 := by simp [hover]
      exact hname hin
    · exact hargs ⟨call.2, more, hover.symm⟩
  rintro ⟨front, call, rest, call', rest', hcalls, hcalls', hover | hover⟩
  · exact hruns (by simp [List.map_append, hcalls']) hover
  · exact hruns (by simp [List.map_append, hcalls]) hover

/-- Arguments that are not JSON, with a line of dashes. -/
theorem callBatch_collides :
    let lib : LoopGuardLib := ⟨id, fun _ => none, id⟩
    let one : List ToolCallSig := [⟨"a".toList, "b\n--\nc\nd".toList⟩]
    let two : List ToolCallSig := [⟨"a".toList, "b".toList⟩, ⟨"c".toList, "d".toList⟩]
    ¬ (batchBytes lib one = batchBytes lib two → SameCalls lib one two) := by
  intro lib one two h
  have hbytes : batchBytes lib one = batchBytes lib two := by decide +kernel
  exact absurd (h hbytes).1 (by decide)

end Zeptoclaw

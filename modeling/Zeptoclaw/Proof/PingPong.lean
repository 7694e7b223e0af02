import Zeptoclaw.Proof.LoopGuard

/-!
# Ping-pong detection

`hasPeriodicPattern` compares the tail of the sequence cycle by cycle with its first cycle. This is the same as
that the sequence ends in copies of one block (`hasPeriodicPattern_iff`), and a check reports a ping-pong
exactly in that case (`pingPong_exact`).
-/

namespace Zeptoclaw

/-! ## Copies of a block -/

section Copies

variable {α : Type*} {block : List α}

/-- The list ends in copies of a block of the given length that is not constant. -/
def EndsInCopies (period copies : ℕ) (l : List α) : Prop :=
  ∃ front block, block.length = period ∧ l = front ++ (List.replicate copies block).flatten ∧
    ¬ ∃ h, ∀ x ∈ block, x = h

theorem length_copies (block : List α) (copies : ℕ) :
    (List.replicate copies block).flatten.length = block.length * copies := by
  simp [Nat.mul_comm]

theorem getElem?_copies {copies cycle i : ℕ} (hcycle : cycle < copies) (hi : i < block.length) :
    (List.replicate copies block).flatten[cycle * block.length + i]? = block[i]? := by
  induction copies generalizing cycle with
  | zero => omega
  | succ copies ih =>
    rw [List.replicate_succ, List.flatten_cons]
    cases cycle with
    | zero => rw [Nat.zero_mul, Nat.zero_add, List.getElem?_append_left hi]
    | succ cycle =>
      have hpos : (cycle + 1) * block.length + i = block.length + (cycle * block.length + i) := by
        rw [Nat.add_mul, Nat.one_mul]
        omega
      rw [hpos, List.getElem?_append_right (Nat.le_add_right _ _), Nat.add_sub_cancel_left]
      exact ih (by omega)

/-- A list that agrees with the block in every cycle is made of copies of it. -/
theorem eq_copies : ∀ {copies : ℕ} {l : List α}, l.length = block.length * copies →
    (∀ cycle < copies, ∀ i < block.length, l[cycle * block.length + i]? = block[i]?) →
      l = (List.replicate copies block).flatten := by
  intro copies
  induction copies with
  | zero =>
    intro l hlen _
    rw [Nat.mul_zero] at hlen
    rw [List.length_eq_zero_iff.mp hlen]
    rfl
  | succ copies ih =>
    intro l hlen hcycles
    rw [Nat.mul_succ] at hlen
    have hfirst : l.take block.length = block := by
      refine List.ext_getElem? fun i => ?_
      by_cases hi : i < block.length
      · have h0 := hcycles 0 (by omega) i hi
        rw [Nat.zero_mul, Nat.zero_add] at h0
        rw [List.getElem?_take_of_lt hi, h0]
      · rw [List.getElem?_eq_none (by rw [List.length_take]; omega), List.getElem?_eq_none (by omega)]
    have hrest : l.drop block.length = (List.replicate copies block).flatten := by
      refine ih (by rw [List.length_drop, hlen, Nat.add_sub_cancel]) fun cycle hcycle i hi => ?_
      have hnext := hcycles (cycle + 1) (by omega) i hi
      rw [List.getElem?_drop, ← hnext, Nat.add_mul, Nat.one_mul]
      congr 1
      omega
    have hsplit := (List.take_append_drop block.length l).symm
    rw [hfirst, hrest] at hsplit
    rw [List.replicate_succ, List.flatten_cons]
    exact hsplit

theorem take_copies {copies : ℕ} (hcopies : 1 ≤ copies) :
    (List.replicate copies block).flatten.take block.length = block := by
  obtain ⟨n, rfl⟩ := Nat.exists_eq_add_of_le' hcopies
  rw [List.replicate_succ, List.flatten_cons, List.take_left]

/-- Only the end of the list can be the copies, and only its beginning can be the block. -/
theorem endsInCopies_iff {period copies : ℕ} {l tail : List α} (hcopies : 1 ≤ copies)
    (hlen : period * copies ≤ l.length) (htail : l.drop (l.length - period * copies) = tail) :
    EndsInCopies period copies l ↔
      tail = (List.replicate copies (tail.take period)).flatten ∧ ¬ ∃ h, ∀ x ∈ tail.take period, x = h := by
  subst htail
  constructor
  · rintro ⟨front, block, rfl, rfl, hconst⟩
    have hfront : (front ++ (List.replicate copies block).flatten).length - block.length * copies = front.length := by
      rw [List.length_append, length_copies]
      omega
    rw [hfront, List.drop_left, take_copies hcopies]
    exact ⟨rfl, hconst⟩
  · rintro ⟨heq, hconst⟩
    refine ⟨l.take (l.length - period * copies), _, ?_, ?_, hconst⟩
    · have hle := Nat.le_mul_of_pos_right period hcopies
      rw [List.length_take, List.length_drop]
      omega
    · rw [← heq, List.take_append_drop]

end Copies

/-! ## The detection -/

theorem all_head_iff {pattern : List Str} (hne : pattern ≠ []) :
    (pattern.all fun h => some h = pattern.head?) = true ↔ ∃ h, ∀ x ∈ pattern, x = h := by
  obtain ⟨a, rest, rfl⟩ := List.exists_cons_of_ne_nil hne
  rw [List.all_eq_true]
  constructor
  · intro h
    exact ⟨a, fun x hx => Option.some.inj (of_decide_eq_true (h x hx))⟩
  · rintro ⟨b, hb⟩ x hx
    rw [decide_eq_true_eq, List.head?_cons, hb x hx, hb a List.mem_cons_self]

/-- The comparison of the later cycles with the first one. -/
theorem cycles_agree_iff {tail : List Str} {period copies : ℕ} (hcopies : 1 ≤ copies)
    (hlen : tail.length = period * copies) :
    ((List.range' 1 (copies - 1)).all fun cycle => (List.range period).all fun i =>
      tail[cycle * period + i]? = (tail.take period)[i]?) = true ↔
    tail = (List.replicate copies (tail.take period)).flatten := by
  have hblock : (tail.take period).length = period := by
    have hle := Nat.le_mul_of_pos_right period hcopies
    rw [List.length_take]
    omega
  constructor
  · intro h
    refine eq_copies (by rw [hblock, hlen]) fun cycle hcycle i hi => ?_
    rw [hblock] at hi ⊢
    cases cycle with
    | zero => rw [Nat.zero_mul, Nat.zero_add, List.getElem?_take_of_lt hi]
    | succ cycle =>
      have hall := List.all_eq_true.mp h (cycle + 1) (List.mem_range'_1.mpr (by omega))
      exact of_decide_eq_true (List.all_eq_true.mp hall i (List.mem_range.mpr hi))
  · intro h
    refine List.all_eq_true.mpr fun cycle hcycle => List.all_eq_true.mpr fun i hi => ?_
    rw [List.mem_range'_1] at hcycle
    rw [List.mem_range, ← hblock] at hi
    have hlt : cycle < copies := by omega
    have hagree := getElem?_copies hlt hi
    rw [← h, hblock] at hagree
    exact decide_eq_true hagree

/-- **The sequence has a periodic pattern exactly if it ends in copies of a block of that period that is not
constant.** -/
theorem hasPeriodicPattern_iff {seq : List Str} {period minRepeats : ℕ} (hmin : 1 ≤ minRepeats) :
    hasPeriodicPattern seq period minRepeats = true ↔ EndsInCopies period minRepeats seq := by
  by_cases hperiod : period = 0
  · -- an empty block is constant
    subst hperiod
    have hnone : ¬ EndsInCopies 0 minRepeats seq := by
      rintro ⟨-, block, hblock, -, hconst⟩
      rw [List.length_eq_zero_iff.mp hblock] at hconst
      exact hconst ⟨[], by simp⟩
    simp [hasPeriodicPattern, hnone]
  have hskip : ¬ (period = 0 || minRepeats = 0) = true := by
    simp only [Bool.or_eq_true, decide_eq_true_eq]
    omega
  simp only [hasPeriodicPattern, if_neg hskip]
  by_cases hlen : seq.length < period * minRepeats
  · rw [if_pos hlen]
    refine ⟨fun h => absurd h (by decide), ?_⟩
    rintro ⟨front, block, rfl, rfl, -⟩
    rw [List.length_append, length_copies] at hlen
    omega
  · rw [if_neg hlen]
    obtain ⟨tail, htail⟩ : ∃ tail, seq.drop (seq.length - period * minRepeats) = tail := ⟨_, rfl⟩
    have htailLen : tail.length = period * minRepeats := by
      rw [← htail, List.length_drop]
      omega
    have hle := Nat.le_mul_of_pos_right period hmin
    have hne : tail.take period ≠ [] := by
      rw [← List.length_pos_iff, List.length_take]
      omega
    rw [htail, endsInCopies_iff hmin (by omega) htail, ← cycles_agree_iff hmin htailLen, ← all_head_iff hne]
    split
    · rename_i hconst
      exact ⟨fun h => absurd h (by decide), fun h => absurd hconst h.2⟩
    · rename_i hconst
      exact ⟨fun h => ⟨h, hconst⟩, fun h => h.1⟩

namespace LoopGuard

/-- The guard after the hash of the calls went into its window. -/
def recorded (lib : LoopGuardLib) (g : LoopGuard) (calls : List ToolCallSig) : LoopGuard :=
  { g with
    stats.totalChecks := next64 g.stats.totalChecks
    calls := g.calls.record g.config.windowSize (hashCallBatch lib calls) }

theorem repeated_detections (g : LoopGuard) :
    g.repeated.1.stats.pingPongDetections = g.stats.pingPongDetections := by
  simp only [repeated]
  split
  · rfl
  · rfl

theorem pingPong_detections (period : ℕ) (g : LoopGuard) :
    (g.pingPong period).1.stats.pingPongDetections = next64 g.stats.pingPongDetections := by
  simp only [pingPong]
  split
  · next g' action heq => exact (congrArg (fun r => r.1.stats.pingPongDetections) heq).symm.trans (repeated_detections _)
  · next g' heq => exact (congrArg (fun r => r.1.stats.pingPongDetections) heq).symm.trans (repeated_detections _)

theorem graduated_detections (count warnAt blockAt : ℕ) (isPoll : Bool) (g : LoopGuard) :
    (g.graduated count warnAt blockAt isPoll).1.stats.pingPongDetections = g.stats.pingPongDetections := by
  have hrepeated := repeated_detections g
  unfold graduated
  split
  · split
    · next g' action heq => rw [heq] at hrepeated; exact hrepeated
    · next g' heq =>
      rw [heq] at hrepeated
      split
      · exact hrepeated
      · exact hrepeated
  · rfl

theorem next64_ne (n : ℕ) : next64 n ≠ n := by
  unfold next64
  omega

/-- The detection of the guard. -/
theorem checkPingPong_eq (g : LoopGuard) [Decidable (EndsInCopies 2 g.config.pingPongMinRepeats g.calls.sequence)]
    [Decidable (EndsInCopies 3 g.config.pingPongMinRepeats g.calls.sequence)] :
    g.checkPingPong =
      if g.config.pingPongMinRepeats = 0 then none
      else if EndsInCopies 2 g.config.pingPongMinRepeats g.calls.sequence then some (g.pingPong 2)
      else if EndsInCopies 3 g.config.pingPongMinRepeats g.calls.sequence then some (g.pingPong 3)
      else none := by
  simp only [checkPingPong]
  split
  · rfl
  · rename_i hmin
    have hlong : ∀ period, hasPeriodicPattern g.calls.sequence period g.config.pingPongMinRepeats = true →
        period * g.config.pingPongMinRepeats ≤ g.calls.sequence.length := by
      intro period h
      obtain ⟨front, block, rfl, hseq, -⟩ := (hasPeriodicPattern_iff (by omega)).mp h
      rw [hseq, List.length_append, length_copies]
      omega
    have hguard : ∀ period, ((decide (period * g.config.pingPongMinRepeats ≤ g.calls.sequence.length) &&
        hasPeriodicPattern g.calls.sequence period g.config.pingPongMinRepeats) = true) ↔
        EndsInCopies period g.config.pingPongMinRepeats g.calls.sequence := by
      intro period
      rw [← hasPeriodicPattern_iff (by omega), Bool.and_eq_true, decide_eq_true_eq]
      exact ⟨fun h => h.2, fun h => ⟨hlong period h, h⟩⟩
    simp only [hguard]

/-- A check of calls that are counted. -/
theorem check_eq (lib : LoopGuardLib) {g : LoopGuard} {calls : List ToolCallSig} (hon : g.config.enabled = true)
    (hcalls : calls ≠ []) : ∃ count warnAt blockAt isPoll, g.check lib calls =
      (g.recorded lib calls).checkPingPong.getD ((g.recorded lib calls).graduated count warnAt blockAt isPoll) := by
  have hskip : ¬ (!g.config.enabled || calls.isEmpty) = true := by simp [hon, hcalls]
  simp only [check, if_neg hskip]
  exact ⟨_, _, _, _, rfl⟩

theorem check_skipped {lib : LoopGuardLib} {g : LoopGuard} {calls : List ToolCallSig}
    (h : ¬ (g.config.enabled = true ∧ calls ≠ [])) : g.check lib calls = (g, .allow) := by
  have hskip : (!g.config.enabled || calls.isEmpty) = true := by
    rw [not_and_or, not_not] at h
    rcases h with hoff | rfl
    · simp [hoff]
    · simp
  simp only [check, if_pos hskip]

end LoopGuard

end Zeptoclaw

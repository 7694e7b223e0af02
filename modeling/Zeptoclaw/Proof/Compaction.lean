import Zeptoclaw.Lib.Support
import Zeptoclaw.Spec.Compaction

/-!
# Compaction and tool results

Up to shortened contents, what the recovery returns is a suffix of the history, with
at most one system message in front (`recoverContext_suffix`). How long the suffix is
depends on the tier alone (`recentKept`), and is one of two numbers of the configuration
(`cutLengths`). The cut is made by count and can fall between an assistant message and
the results of its calls: a result is orphaned exactly if all the messages that issue its
call stand before the cut (`drop_paired_iff`, `recoverContext_paired`).
-/

namespace Zeptoclaw

variable {fits : List Message → Bool} {ms ms' : List Message} {k : ℕ}

/-- The assistant message `p` issues the call that the tool result `m` answers. -/
def AssistantIssues (p m : Message) : Prop :=
  p.role = .assistant ∧ ∃ id, m.toolCallId = some id ∧ id ∈ p.callIds

/-- Every tool result is preceded by an assistant message that issues its call. -/
def Paired (ms : List Message) : Prop := Supported (fun m => m.role = .tool) AssistantIssues [] ms

/-- The part of a message that calls and results are matched on. -/
def Message.skeleton (m : Message) : Role × Option Str × Option (List ToolCall) :=
  (m.role, m.toolCallId, m.toolCalls)

/-- Pairing does not look at contents. -/
theorem paired_congr (h : ms.map Message.skeleton = ms'.map Message.skeleton) :
    Paired ms ↔ Paired ms' := by
  let P : Role × Option Str × Option (List ToolCall) → Prop := fun s => s.1 = .tool
  let R : Role × Option Str × Option (List ToolCall) → Role × Option Str × Option (List ToolCall) → Prop :=
    fun p s => p.1 = .assistant ∧ ∃ id, s.2.1 = some id ∧ id ∈ (p.2.2.getD []).map ToolCall.id
  have key : ∀ l : List Message, Paired l ↔ Supported P R [] (l.map Message.skeleton) := fun l =>
    (supported_map_iff P R Message.skeleton [] l).symm
  rw [key, key, h]

/-- A system message in front changes nothing. -/
theorem paired_cons_system {m : Message} (h : m.role = .system) : Paired (m :: ms) ↔ Paired ms := by
  refine supported_cons_inert (by rw [h]; decide) ?_
  rintro b - ⟨hr, -⟩
  rw [h] at hr; cases hr

/-! ## What the recovery keeps -/

/-- `l` is a suffix of length `k` of `ms`, or all of it if it is shorter, up to contents
and with at most one system message in front. -/
def KeepsRecent (ms : List Message) (k : ℕ) (l : List Message) : Prop :=
  ∃ s, s.map Message.skeleton = (ms.drop (ms.length - k)).map Message.skeleton ∧
    (l = s ∨ ∃ m, m.role = .system ∧ l = m :: s)

theorem KeepsRecent.paired_iff {l : List Message} (h : KeepsRecent ms k l) :
    Paired l ↔ Paired (ms.drop (ms.length - k)) := by
  obtain ⟨s, hs, rfl | ⟨m, hm, rfl⟩⟩ := h
  · exact paired_congr hs
  · rw [paired_cons_system hm, paired_congr hs]

theorem KeepsRecent.all (ms : List Message) : KeepsRecent ms ms.length ms :=
  ⟨ms, by simp, Or.inl rfl⟩

theorem truncateMessages_keeps (ms : List Message) (k : ℕ) : KeepsRecent ms k (truncateMessages ms k) := by
  unfold truncateMessages
  split
  · rename_i h
    exact ⟨ms, by rw [Nat.sub_eq_zero_of_le h, List.drop_zero], Or.inl rfl⟩
  · rename_i h
    cases ms with
    | nil => exact ⟨[], by simp, Or.inl rfl⟩
    | cons first rest =>
      simp only [List.length_cons] at h ⊢
      have hdrop : rest.length + 1 - k = rest.length - k + 1 := by omega
      have hrest : (first :: rest).drop (rest.length + 1 - k) = rest.drop (rest.length - k) := by
        rw [hdrop, List.drop_succ_cons]
      split
      · rename_i hk
        have hnil : (first :: rest).drop (rest.length + 1 - k) = [] := by subst hk; simp
        refine ⟨[], by rw [List.length_cons, hnil], ?_⟩
        split
        · rename_i hs; exact Or.inr ⟨first, hs, rfl⟩
        · exact Or.inl rfl
      · split
        · rename_i hs
          exact ⟨rest.drop (rest.length - k), by rw [List.length_cons, hrest], Or.inr ⟨first, hs, rfl⟩⟩
        · exact ⟨_, rfl, Or.inl rfl⟩

theorem shrinkMessage_skeleton {b : ℕ} {m m' : Message} (h : shrinkMessage b m = some m') :
    m'.skeleton = m.skeleton := by
  unfold shrinkMessage at h
  split at h
  · rw [Option.some.inj h]
  · obtain ⟨cut, -, rfl⟩ := Option.map_eq_some_iff.1 h
    rfl

theorem shrinkFrom_skeleton {total recent target : ℕ} : ∀ (ms : List Message) (pos : ℕ) {l : List Message},
    shrinkFrom total recent target pos ms = some l → l.map Message.skeleton = ms.map Message.skeleton := by
  intro ms
  induction ms with
  | nil => intro pos l h; rw [← Option.some.inj h]
  | cons m ms ih =>
    intro pos l h
    unfold shrinkFrom at h
    split at h
    · obtain ⟨m', hm, h⟩ := Option.bind_eq_some_iff.1 h
      obtain ⟨l', hl, h⟩ := Option.bind_eq_some_iff.1 h
      rw [← Option.some.inj h, List.map_cons, List.map_cons, shrinkMessage_skeleton hm, ih _ hl]
    · obtain ⟨l', hl, h⟩ := Option.bind_eq_some_iff.1 h
      rw [← Option.some.inj h, List.map_cons, List.map_cons, ih _ hl]

theorem shrink_skeleton {target recent : ℕ} {l : List Message}
    (h : shrinkToolResultsProgressive ms target recent = some l) :
    l.map Message.skeleton = ms.map Message.skeleton := by
  simp only [shrinkToolResultsProgressive] at h
  split at h
  · rw [Option.some.inj h]
  · exact shrinkFrom_skeleton ms 0 h

/-- Shrinking contents keeps the shape of what was kept. -/
theorem KeepsRecent.shrink {l l' : List Message} (h : KeepsRecent ms k l)
    (hl : l'.map Message.skeleton = l.map Message.skeleton) : KeepsRecent ms k l' := by
  obtain ⟨s, hs, rfl | ⟨m, hm, rfl⟩⟩ := h
  · exact ⟨l', hl.trans hs, Or.inl rfl⟩
  · cases l' with
    | nil => simp at hl
    | cons m' s' =>
      simp only [List.map_cons, List.cons.injEq] at hl
      refine ⟨s', hl.2.trans hs, Or.inr ⟨m', ?_, rfl⟩⟩
      rw [← hm]; exact congrArg Prod.fst hl.1

/-- Truncating what was kept keeps the shorter of the two suffixes. The message in
front of the new suffix, if any, may be a system message of the history's middle. -/
theorem KeepsRecent.truncate {l : List Message} (h : KeepsRecent ms k l) (j : ℕ) :
    KeepsRecent ms (min k j) (truncateMessages l j) := by
  obtain ⟨s, hs, hl⟩ := h
  obtain ⟨s', hs', hl'⟩ := truncateMessages_keeps l j
  have hlen : s.length = min k ms.length := by
    have := congrArg List.length hs
    simp only [List.length_map, List.length_drop] at this
    omega
  by_cases hj : l.length ≤ j
  · -- nothing is cut
    have hid : truncateMessages l j = l := by unfold truncateMessages; rw [if_pos hj]
    have hsl : s.length ≤ j := by
      rcases hl with rfl | ⟨m, -, rfl⟩
      · exact hj
      · simp only [List.length_cons] at hj; omega
    have hdrop : ms.length - min k j = ms.length - k := by omega
    rw [hid]
    exact ⟨s, by rw [hs, hdrop], hl⟩
  · push Not at hj
    -- the new suffix lies inside the old one
    have hlast : (l.drop (l.length - j)).map Message.skeleton =
        (ms.drop (ms.length - min k j)).map Message.skeleton := by
      have h1 : l.drop (l.length - j) = s.drop (s.length - j) := by
        rcases hl with rfl | ⟨m, -, rfl⟩
        · rfl
        · simp only [List.length_cons] at hj ⊢
          rw [show s.length + 1 - j = s.length - j + 1 by omega, List.drop_succ_cons]
      have h2 : (s.drop (s.length - j)).map Message.skeleton =
          ((ms.drop (ms.length - k)).drop (s.length - j)).map Message.skeleton := by
        rw [List.map_drop, hs, ← List.map_drop]
      rw [h1, h2, List.drop_drop]
      congr 2
      have : j ≤ s.length := by
        rcases hl with rfl | ⟨m, -, rfl⟩
        · omega
        · simp only [List.length_cons] at hj; omega
      omega
    exact ⟨s', hs'.trans hlast, hl'⟩

/-! ## The number of recent messages kept -/

/-- How many recent messages the tiers keep: the first cut's number if the messages
then fit, with or without shrinking, and at most three otherwise. -/
def tierKept (fits : List Message → Bool) (keepRecent budget recentCount : ℕ) (ms : List Message) : ℕ :=
  if fits (truncateMessages ms keepRecent) then keepRecent
  else if ((shrinkToolResultsProgressive (truncateMessages ms keepRecent) budget recentCount).map
      fits).getD false then keepRecent
  else min keepRecent 3

/-- How many recent messages the recovery keeps. -/
def recentKept (fits : List Message → Bool) (urgency : CompactionUrgency) (keepRecent budget : ℕ)
    (ms : List Message) : ℕ :=
  if fits ms then ms.length
  else
    match urgency with
    | .critical => 6
    | .emergency => tierKept fits (min keepRecent 5) (min (max (budget / 2) 1) budget) 2 ms
    | .normal => tierKept fits keepRecent budget 3 ms

theorem recoverByTiers_keeps {keep budget recent tier : ℕ} {l : List Message}
    (h : recoverByTiers fits keep budget recent ms = some (l, tier)) :
    KeepsRecent ms (tierKept fits keep budget recent ms) l := by
  have hk := truncateMessages_keeps ms keep
  simp only [recoverByTiers] at h
  unfold tierKept
  split at h
  · rename_i hf
    rw [if_pos hf]
    obtain ⟨rfl, -⟩ := Prod.mk.inj (Option.some.inj h)
    exact hk
  · rename_i hf
    rw [if_neg hf]
    obtain ⟨r, hr, h⟩ := Option.bind_eq_some_iff.1 h
    have hk' := hk.shrink (shrink_skeleton hr)
    rw [hr]
    simp only [Option.map_some, Option.getD_some]
    split at h
    · rename_i hfr
      rw [if_pos hfr]
      obtain ⟨rfl, -⟩ := Prod.mk.inj (Option.some.inj h)
      exact hk'
    · rename_i hfr
      rw [if_neg hfr]
      obtain ⟨rfl, -⟩ := Prod.mk.inj (Option.some.inj h)
      exact hk'.truncate 3

/-- **What the recovery returns is a suffix of the history**, whatever estimate decides
whether messages fit. -/
theorem recoverContext_suffix {urgency : CompactionUrgency} {keep budget tier : ℕ} {l : List Message}
    (h : recoverContext fits urgency keep budget ms = some (l, tier)) :
    KeepsRecent ms (recentKept fits urgency keep budget ms) l := by
  unfold recoverContext at h
  unfold recentKept
  split at h
  · rename_i hf
    rw [if_pos hf]
    obtain ⟨rfl, -⟩ := Prod.mk.inj (Option.some.inj h)
    exact KeepsRecent.all ms
  · rename_i hf
    rw [if_neg hf]
    cases urgency with
    | critical =>
      obtain ⟨rfl, -⟩ := Prod.mk.inj (Option.some.inj h)
      exact truncateMessages_keeps ms 6
    | emergency => exact recoverByTiers_keeps h
    | normal => exact recoverByTiers_keeps h

/-! ## Cuts of the history -/

/-- The numbers of recent messages that the configuration can cut a history down to. -/
def cutLengths (keepRecentTier1 : ℕ) : CompactionUrgency → List ℕ
  | .critical => [6]
  | .emergency => [min keepRecentTier1 5, min keepRecentTier1 3]
  | .normal => [keepRecentTier1, min keepRecentTier1 3]

/-- A tool result among the last `k` messages: its call was issued, but only before them. -/
def SplitsCall (ms : List Message) (k : ℕ) : Prop :=
  ∃ old between result back, ms = old ++ (between ++ result :: back) ∧ old.length = ms.length - k ∧
    result.role = .tool ∧ (∃ p ∈ old, AssistantIssues p result) ∧ ∀ p ∈ between, ¬ AssistantIssues p result

/-- **A cut of a history orphans a tool result exactly if it splits the result from all that issues its call.** -/
theorem drop_paired_iff (h : Paired ms) (k : ℕ) : Paired (ms.drop (ms.length - k)) ↔ ¬ SplitsCall ms k := by
  constructor
  · rintro hcut ⟨old, between, result, back, hms, hlen, htool, -, hnone⟩
    have hdrop : ms.drop (ms.length - k) = between ++ result :: back := by rw [← hlen, hms, List.drop_left]
    obtain ⟨p, hp, hissues⟩ := hcut between result back hdrop htool
    exact hnone p (by simpa using hp) hissues
  · intro hsplit between result back hdrop htool
    by_contra hnone
    obtain ⟨old, hold⟩ : ∃ old, old = ms.take (ms.length - k) := ⟨_, rfl⟩
    have hms : ms = old ++ (between ++ result :: back) := by rw [hold, ← hdrop, List.take_append_drop]
    have hnot : ∀ p ∈ between, ¬ AssistantIssues p result := fun p hp hissues => hnone ⟨p, by simpa using hp, hissues⟩
    -- in the whole history something issues the call, so it stands before the cut
    obtain ⟨p, hp, hissues⟩ := h (old ++ between) result back (by rw [hms, List.append_assoc]) htool
    refine hsplit ⟨old, between, result, back, hms, ?_, htool, ⟨p, ?_, hissues⟩, hnot⟩
    · rw [hold, List.length_take]
      omega
    · simp only [List.nil_append, List.mem_append] at hp
      exact hp.resolve_right fun hb => hnot p hb hissues

theorem tierKept_mem (keep budget recent : ℕ) : tierKept fits keep budget recent ms ∈ [keep, min keep 3] := by
  unfold tierKept
  split
  · simp
  · split
    · simp
    · simp

theorem recentKept_mem (hfits : fits ms = false) (urgency : CompactionUrgency) (keep budget : ℕ) :
    recentKept fits urgency keep budget ms ∈ cutLengths keep urgency := by
  unfold recentKept
  rw [if_neg (by simp [hfits])]
  cases urgency with
  | critical => simp [cutLengths]
  | emergency =>
    have hmem : tierKept fits (min keep 5) (min (max (budget / 2) 1) budget) 2 ms ∈ [min keep 5, min (min keep 5) 3] :=
      tierKept_mem _ _ _
    rwa [min_assoc, show min 5 3 = 3 from rfl] at hmem
  | normal => exact tierKept_mem keep budget 3

/-- One call with two results, of which only the second is kept. -/
def splitCallHistory : List Message :=
  [Message.assistantWithTools [] [⟨['a'], ['t'], []⟩, ⟨['b'], ['t'], []⟩], Message.toolResult ['a'] [],
    Message.toolResult ['b'] []]

theorem splitCallHistory_paired : Paired splitCallHistory := by
  have hcall : (Message.assistantWithTools [] [⟨['a'], ['t'], []⟩, ⟨['b'], ['t'], []⟩]).role ≠ .tool := by
    decide
  refine supported_cons.2 ⟨fun h => absurd h hcall, supported_cons.2 ⟨fun _ => ?_,
    supported_cons.2 ⟨fun _ => ?_, supported_nil⟩⟩⟩
  · exact ⟨_, List.mem_cons_self, rfl, ['a'], rfl, by decide⟩
  · exact ⟨_, List.mem_cons_self, rfl, ['b'], rfl, by decide⟩

theorem splitCallHistory_recovered :
    tryRecoverContextWithUrgency splitCallHistory 10 .normal 1 100 1 =
      some ([Message.toolResult ['b'] []], 1) := by
  decide +kernel

end Zeptoclaw

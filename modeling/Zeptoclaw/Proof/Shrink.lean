import Zeptoclaw.Lib.Behind
import Zeptoclaw.Lib.Offset
import Zeptoclaw.Lib.TextLines
import Zeptoclaw.Spec.Compaction

/-!
# Shrinking tool results

Both shrinking functions cut every tool result to a budget that depends on the messages behind it
(`shrinkEach`). The cut is made before the end is moved to a character boundary, so they return exactly
if every budget that is exceeded is a boundary (`shrink_total_iff`). The annotation comes on top of the
budget: a result of ASCII text that exceeds its budget settles only if it already is as long as the
budget and the annotation together (`shrink_settles_iff`).
-/

namespace Zeptoclaw

open Text

/-! ## Prefixes by bytes -/

theorem takeBytes_begins (n : ℕ) (s : Str) : takeBytes n s <+: s := by
  induction s generalizing n with
  | nil => exact List.prefix_rfl
  | cons c s ih =>
    rw [takeBytes]
    split
    · exact List.cons_prefix_cons.mpr ⟨rfl, ih _⟩
    · exact List.nil_prefix

theorem byteLen_takeBytes_le (n : ℕ) (s : Str) : byteLen (takeBytes n s) ≤ n := by
  induction s generalizing n with
  | nil => simp [takeBytes]
  | cons c s ih =>
    rw [takeBytes]
    split
    · have htail := ih (n - c.utf8Size)
      rw [byteLen_cons]
      omega
    · simp

theorem begins_takeBytes {n : ℕ} {s q : Str} (hq : q <+: s) (hlen : byteLen q ≤ n) : q <+: takeBytes n s := by
  induction s generalizing n q with
  | nil => rw [List.prefix_nil.mp hq]; exact List.nil_prefix
  | cons c s ih =>
    cases q with
    | nil => exact List.nil_prefix
    | cons d q =>
      obtain ⟨rfl, htail⟩ := List.cons_prefix_cons.mp hq
      rw [byteLen_cons] at hlen
      have hfits : d.utf8Size ≤ n := by omega
      rw [takeBytes, if_pos hfits]
      exact List.cons_prefix_cons.mpr ⟨rfl, ih htail (by omega)⟩

theorem longestPrefix_takeBytes (n : ℕ) (s : Str) : LongestPrefix n s (takeBytes n s) :=
  ⟨takeBytes_begins n s, byteLen_takeBytes_le n s, fun _ hq hlen => begins_takeBytes hq hlen⟩

/-- An offset is a boundary exactly if the longest prefix uses it up. -/
theorem isCharBoundary_iff_takeBytes {s : Str} {n : ℕ} :
    isCharBoundary s n = true ↔ byteLen (takeBytes n s) = n := by
  rw [isCharBoundary_iff]
  constructor
  · rintro ⟨p, hp, hlen⟩
    obtain ⟨t, ht⟩ := begins_takeBytes hp hlen.le
    have hle := byteLen_takeBytes_le n s
    rw [← ht, byteLen_append] at hle ⊢
    omega
  · exact fun h => ⟨_, takeBytes_begins n s, h⟩

theorem takeBytes_append (p t : Str) : takeBytes (byteLen p) (p ++ t) = p := by
  have hp := begins_takeBytes (List.prefix_append p t) (le_refl (byteLen p))
  obtain ⟨u, hu⟩ := hp
  have hle := byteLen_takeBytes_le (byteLen p) (p ++ t)
  rw [← hu, byteLen_append] at hle
  have hnil : u = [] := by
    by_contra hne
    have := byteLen_pos hne
    omega
  rw [← hu, hnil, List.append_nil]

/-! ## One message -/

@[simp] theorem Message.setContent_content (m : Message) (c : Str) : (m.setContent c).content = c := rfl

@[simp] theorem Message.setContent_role (m : Message) (c : Str) : (m.setContent c).role = m.role := rfl

theorem Message.setContent_setContent (m : Message) (c d : Str) : (m.setContent c).setContent d = m.setContent d := by
  unfold Message.setContent
  by_cases hparts : m.contentParts.isEmpty = true
  · simp [hparts]
  · simp [hparts]

theorem shrinkMessage_of_le {budget : ℕ} {m : Message} (h : byteLen m.content ≤ budget) :
    shrinkMessage budget m = some m := if_pos h

theorem shrinkMessage_of_boundary {budget : ℕ} {m : Message} (h : budget < byteLen m.content)
    (hcut : isCharBoundary m.content budget = true) : shrinkMessage budget m =
      some (m.setContent (takeBytes budget m.content ++ shrunkNote (byteLen m.content) budget)) := by
  have hlen := isCharBoundary_iff_takeBytes.mp hcut
  unfold shrinkMessage truncateBytes
  rw [if_neg (by omega), if_neg (by omega), if_pos hlen, Option.map_some, hlen]
  rfl

theorem shrinkMessage_of_not_boundary {budget : ℕ} {m : Message} (h : budget < byteLen m.content)
    (hcut : isCharBoundary m.content budget = false) : shrinkMessage budget m = none := by
  have hlen : ¬ byteLen (takeBytes budget m.content) = budget := by
    rw [← isCharBoundary_iff_takeBytes, hcut]
    decide
  unfold shrinkMessage truncateBytes
  rw [if_neg (by omega), if_neg (by omega), if_neg hlen, Option.map_none]

/-! ## The budgets -/

/-- A tool result is cut to its budget, which depends on the messages behind it. -/
def shrinkOne (budget : List Message → ℕ) (later : List Message) (msg : Message) : Option Message :=
  if msg.isToolResult then shrinkMessage (budget later) msg else some msg

def shrinkEach (budget : List Message → ℕ) : List Message → Option (List Message)
  | [] => some []
  | msg :: rest => do
    let msg ← shrinkOne budget rest msg
    let rest ← shrinkEach budget rest
    return msg :: rest

/-- The budget of a tool result: the last `recentCount` ones have all of it, the others a quarter. -/
def resultBudget (targetMaxBytes recentCount : ℕ) (later : List Message) : ℕ :=
  if later.countP Message.isToolResult < recentCount then targetMaxBytes else targetMaxBytes / 4

theorem shrinkEach_eq_some {budget : List Message → ℕ} : ∀ {ms out : List Message}, shrinkEach budget ms = some out ↔
    EachBehind (fun later m m' => shrinkOne budget later m = some m') ms out := by
  intro ms
  induction ms with
  | nil =>
    intro out
    cases out with
    | nil => simp [shrinkEach, EachBehind]
    | cons m out => simp [shrinkEach, EachBehind]
  | cons m ms ih =>
    intro out
    rw [shrinkEach, Option.bind_eq_bind, Option.bind_eq_some_iff]
    constructor
    · rintro ⟨m', hm, h⟩
      obtain ⟨rest, hrest, h⟩ := Option.bind_eq_some_iff.mp h
      cases h
      exact ⟨hm, ih.mp hrest⟩
    · intro h
      cases out with
      | nil => exact h.elim
      | cons m' out =>
        refine ⟨m', h.1, ?_⟩
        rw [ih.mpr h.2]
        rfl

theorem shrinkFrom_eq (target recent : ℕ) : ∀ (ms : List Message) (pos total : ℕ),
    total = pos + ms.countP Message.isToolResult →
      shrinkFrom total recent target pos ms = shrinkEach (resultBudget target recent) ms := by
  intro ms
  induction ms with
  | nil => intro pos total _; rfl
  | cons m ms ih =>
    intro pos total htotal
    rw [List.countP_cons] at htotal
    rw [shrinkFrom, shrinkEach, shrinkOne]
    by_cases hm : m.isToolResult = true
    · rw [if_pos hm] at htotal
      have hbudget : (if total - recent ≤ pos then target else target / 4) = resultBudget target recent ms := by
        have hiff : total - recent ≤ pos ↔ ms.countP Message.isToolResult < recent := by omega
        simp only [resultBudget, hiff]
      rw [if_pos hm, if_pos hm, hbudget, ih (pos + 1) total (by omega)]
    · rw [if_neg hm] at htotal
      rw [if_neg hm, if_neg hm, ih pos total (by omega)]
      rfl

theorem shrinkEach_of_no_result (budget : List Message → ℕ) : ∀ {ms : List Message},
    ms.countP Message.isToolResult = 0 → shrinkEach budget ms = some ms := by
  intro ms
  induction ms with
  | nil => intro _; rfl
  | cons m ms ih =>
    intro h
    rw [List.countP_eq_zero] at h
    have hm := h m List.mem_cons_self
    have hms := ih (List.countP_eq_zero.mpr fun x hx => h x (List.mem_cons_of_mem m hx))
    rw [shrinkEach, shrinkOne, if_neg hm, hms]
    rfl

theorem shrinkToolResultsProgressive_eq (ms : List Message) (target recent : ℕ) :
    shrinkToolResultsProgressive ms target recent = shrinkEach (resultBudget target recent) ms := by
  simp only [shrinkToolResultsProgressive]
  split
  · rename_i h
    rw [shrinkEach_of_no_result _ h]
  · exact shrinkFrom_eq target recent ms 0 _ (Nat.zero_add _).symm

theorem shrinkToolResults_eq (budget : ℕ) (ms : List Message) :
    (shrinkToolResults budget ms).map Prod.fst = shrinkEach (fun _ => budget) ms := by
  induction ms with
  | nil => rfl
  | cons m ms ih =>
    rw [shrinkToolResults, shrinkEach, shrinkOne, ← ih]
    by_cases hm : m.isToolResult = true
    · by_cases hlong : budget < byteLen m.content
      · rw [if_pos (by simp [hm, hlong]), if_pos hm]
        cases shrinkMessage budget m with
        | none => rfl
        | some m' => cases shrinkToolResults budget ms <;> rfl
      · rw [if_neg (by simp [hlong]), if_pos hm, shrinkMessage_of_le (by omega)]
        cases shrinkToolResults budget ms <;> rfl
    · rw [if_neg (by simp [hm]), if_neg hm]
      cases shrinkToolResults budget ms <;> rfl

/-! ## What shrinking returns -/

/-- A tool result over its budget begins with the longest prefix that fits; any other message stays. -/
def ShrunkWell (budget : List Message → ℕ) (later : List Message) (m m' : Message) : Prop :=
  if m.isToolResult = true ∧ budget later < byteLen m.content then
    ∃ p, LongestPrefix (budget later) m.content p ∧ p <+: m'.content
  else m' = m

/-- A budget that is exceeded is a character boundary. -/
def CutAtBoundary (budget : List Message → ℕ) (later : List Message) (m : Message) : Prop :=
  m.isToolResult = true → budget later < byteLen m.content → isCharBoundary m.content (budget later) = true

theorem exists_shrunk_iff (budget : List Message → ℕ) (later : List Message) (m : Message) :
    (∃ m', shrinkOne budget later m = some m' ∧ ShrunkWell budget later m m') ↔ CutAtBoundary budget later m := by
  unfold shrinkOne ShrunkWell CutAtBoundary
  by_cases hm : m.isToolResult = true
  · by_cases hlong : budget later < byteLen m.content
    · simp only [if_pos hm, if_pos (And.intro hm hlong)]
      constructor
      · rintro ⟨m', hsome, -⟩ - -
        by_contra hcut
        rw [shrinkMessage_of_not_boundary hlong (by simpa using hcut)] at hsome
        cases hsome
      · intro hcut
        refine ⟨_, shrinkMessage_of_boundary hlong (hcut hm hlong), _, longestPrefix_takeBytes _ _, ?_⟩
        exact List.prefix_append _ _
    · have hshort : byteLen m.content ≤ budget later := by omega
      simp [hm, hlong, shrinkMessage_of_le hshort]
  · simp [hm]

theorem shrinkEach_iff (budget : List Message → ℕ) (ms : List Message) :
    (∃ out, shrinkEach budget ms = some out ∧ EachBehind (ShrunkWell budget) ms out) ↔
      AllBehind (CutAtBoundary budget) ms := by
  rw [← exists_eachBehind_iff (exists_shrunk_iff budget)]
  simp only [shrinkEach_eq_some, eachBehind_and]

/-- **Shrinking returns, and every result that is shrunk begins with the longest prefix that fits,
exactly if every budget that is exceeded is a character boundary of the result.** -/
theorem shrink_total_iff (ms : List Message) (budget recentCount : ℕ) :
    ((∃ out count, shrinkToolResults budget ms = some (out, count) ∧
        EachBehind (ShrunkWell fun _ => budget) ms out) ↔ AllBehind (CutAtBoundary fun _ => budget) ms) ∧
      ((∃ out, shrinkToolResultsProgressive ms budget recentCount = some out ∧
        EachBehind (ShrunkWell (resultBudget budget recentCount)) ms out) ↔
          AllBehind (CutAtBoundary (resultBudget budget recentCount)) ms) := by
  constructor
  · rw [← shrinkEach_iff, ← shrinkToolResults_eq]
    simp only [Option.map_eq_some_iff, Prod.exists]
    constructor
    · rintro ⟨out, count, hsome, hwell⟩
      exact ⟨out, ⟨out, count, hsome, rfl⟩, hwell⟩
    · rintro ⟨out, ⟨out', count, hsome, rfl⟩, hwell⟩
      exact ⟨out', count, hsome, hwell⟩
  · rw [← shrinkEach_iff, ← shrinkToolResultsProgressive_eq]

/-- A result of one character of two bytes, with a budget of one byte: both functions panic. -/
theorem shrink_panics :
    shrinkToolResults 1 [Message.toolResult ['a'] ['é']] = none ∧
      shrinkToolResultsProgressive [Message.toolResult ['a'] ['é']] 1 1 = none := by
  decide +kernel

/-! ## Shrinking twice -/

/-- Text of ASCII characters. -/
def IsAscii (s : Str) : Prop := ∀ c ∈ s, c.toNat < 128

theorem isAscii_of_all {s : Str} (h : (s.all fun c => c.toNat < 128) = true) : IsAscii s :=
  fun c hc => of_decide_eq_true (List.all_eq_true.mp h c hc)

theorem utf8Size_of_ascii {c : Char} (h : c.toNat < 128) : c.utf8Size = 1 := by
  have hle : c.val ≤ 0x7F := by
    rw [UInt32.le_iff_toNat_le]
    exact Nat.le_of_lt_succ h
  exact if_pos hle

/-- Every offset of an ASCII text is a boundary. -/
theorem isCharBoundary_of_ascii {s : Str} (h : IsAscii s) {n : ℕ} (hn : n ≤ byteLen s) :
    isCharBoundary s n = true := by
  rw [isCharBoundary_iff_takeBytes]
  induction s generalizing n with
  | nil =>
    rw [byteLen_nil] at hn
    rw [takeBytes, byteLen_nil]
    omega
  | cons c s ih =>
    have hc := utf8Size_of_ascii (h c List.mem_cons_self)
    rw [byteLen_cons, hc] at hn
    rw [takeBytes, hc]
    by_cases hpos : 1 ≤ n
    · have htail := ih (fun d hd => h d (List.mem_cons_of_mem c hd)) (show n - 1 ≤ byteLen s by omega)
      rw [if_pos hpos, byteLen_cons, hc, htail]
      omega
    · rw [if_neg hpos, byteLen_nil]
      omega

theorem shrunkNote_injective {n n' kept : ℕ} (h : shrunkNote n kept = shrunkNote n' kept) : n = n' := by
  unfold shrunkNote at h
  simp only [List.append_assoc] at h
  have hdigits := List.append_cancel_left h
  exact toString_injective (List.append_cancel_right hdigits)

theorem byteLen_shrunkNote_pos (n kept : ℕ) : 0 < byteLen (shrunkNote n kept) :=
  byteLen_pos (List.append_ne_nil_of_right_ne_nil _ (by decide))

/-- The content is within the budget, or exactly as long as the budget and its own annotation. -/
def NoteFits (budget : ℕ) (content : Str) : Prop :=
  byteLen content ≤ budget ∨ byteLen content = budget + byteLen (shrunkNote (byteLen content) budget)

/-- A content over the budget is longer afterwards, or changes again, unless its note fits. -/
theorem noteFits_iff {budget : ℕ} {m : Message} (hascii : IsAscii m.content) :
    (∃ m', shrinkMessage budget m = some m' ∧ byteLen m'.content ≤ byteLen m.content ∧
      shrinkMessage budget m' = some m') ↔ NoteFits budget m.content := by
  by_cases hlong : budget < byteLen m.content
  · have hcut := isCharBoundary_of_ascii hascii hlong.le
    have hkept := isCharBoundary_iff_takeBytes.mp hcut
    obtain ⟨cut, hcutdef⟩ : ∃ cut, cut = takeBytes budget m.content := ⟨_, rfl⟩
    rw [← hcutdef] at hkept
    rw [shrinkMessage_of_boundary hlong hcut, ← hcutdef]
    -- the shrunk content is over the budget by the note, so it is cut at the same place again
    have hnote := byteLen_shrunkNote_pos (byteLen m.content) budget
    have hlen : byteLen (cut ++ shrunkNote (byteLen m.content) budget) =
        budget + byteLen (shrunkNote (byteLen m.content) budget) := by rw [byteLen_append, hkept]
    have hagain : shrinkMessage budget (m.setContent (cut ++ shrunkNote (byteLen m.content) budget)) =
        some (m.setContent (cut ++ shrunkNote
          (budget + byteLen (shrunkNote (byteLen m.content) budget)) budget)) := by
      have htake : takeBytes budget (cut ++ shrunkNote (byteLen m.content) budget) = cut := by
        rw [← hkept]
        exact takeBytes_append _ _
      have hboundary : isCharBoundary (cut ++ shrunkNote (byteLen m.content) budget) budget = true := by
        rw [isCharBoundary_iff_takeBytes, htake, hkept]
      rw [shrinkMessage_of_boundary (by rw [Message.setContent_content, hlen]; omega) hboundary, Message.setContent_setContent]
      rw [Message.setContent_content, htake, hlen]
    constructor
    · rintro ⟨m', hsome, -, hsame⟩
      cases hsome
      rw [hagain] at hsame
      have hcontent := congrArg Message.content (Option.some.inj hsame)
      exact .inr (shrunkNote_injective (List.append_cancel_left hcontent)).symm
    · rintro (hle | heq)
      · omega
      · refine ⟨_, rfl, ?_, ?_⟩
        · rw [Message.setContent_content, hlen]
          omega
        · rw [hagain, ← heq]
  · have hshort : byteLen m.content ≤ budget := by omega
    constructor
    · exact fun _ => .inl hshort
    · exact fun _ => ⟨m, shrinkMessage_of_le hshort, le_refl _, shrinkMessage_of_le hshort⟩

/-- No tool result is longer than it was. -/
def NoLonger (ms out : List Message) : Prop :=
  EachBehind (fun _ m m' => m.isToolResult = true → byteLen m'.content ≤ byteLen m.content) ms out

theorem shrinkMessage_isToolResult {budget : ℕ} {m m' : Message} (h : shrinkMessage budget m = some m') :
    m'.isToolResult = m.isToolResult := by
  unfold shrinkMessage at h
  split at h
  · rw [Option.some.inj h]
  · obtain ⟨cut, -, rfl⟩ := Option.map_eq_some_iff.mp h
    rfl

theorem shrinkEach_countP {budget : List Message → ℕ} : ∀ {ms out : List Message}, shrinkEach budget ms = some out →
    out.countP Message.isToolResult = ms.countP Message.isToolResult := by
  intro ms
  induction ms with
  | nil => intro out h; cases h; rfl
  | cons m ms ih =>
    intro out h
    have heach := shrinkEach_eq_some.mp h
    cases out with
    | nil => exact heach.elim
    | cons m' out =>
      obtain ⟨hone, hrest⟩ := heach
      have hsame : m'.isToolResult = m.isToolResult := by
        unfold shrinkOne at hone
        split at hone
        · exact shrinkMessage_isToolResult hone
        · rw [Option.some.inj hone]
      rw [List.countP_cons, List.countP_cons, hsame, ih (shrinkEach_eq_some.mpr hrest)]

theorem shrinkEach_settles_iff (target recent : ℕ) : ∀ {ms : List Message}, (∀ m ∈ ms, IsAscii m.content) →
    ((∃ out, shrinkEach (resultBudget target recent) ms = some out ∧ NoLonger ms out ∧
        shrinkEach (resultBudget target recent) out = some out) ↔
      AllBehind (fun later m => m.isToolResult = true → NoteFits (resultBudget target recent later) m.content) ms) := by
  intro ms
  induction ms with
  | nil => exact fun _ => ⟨fun _ => trivial, fun _ => ⟨[], rfl, trivial, rfl⟩⟩
  | cons m ms ih =>
    intro hascii
    have hm := hascii m List.mem_cons_self
    have hms := ih fun x hx => hascii x (List.mem_cons_of_mem m hx)
    -- the results behind the first message are as many after the first round
    have hbudget : ∀ {out}, shrinkEach (resultBudget target recent) ms = some out →
        resultBudget target recent out = resultBudget target recent ms := by
      intro out hout
      simp only [resultBudget, shrinkEach_countP hout]
    rw [AllBehind, ← hms]
    constructor
    · rintro ⟨out, hsome, hle, hsame⟩
      have heach := shrinkEach_eq_some.mp hsome
      cases out with
      | nil => exact heach.elim
      | cons m' out =>
        have hout := shrinkEach_eq_some.mpr heach.2
        have hfix := shrinkEach_eq_some.mp hsame
        have hone : shrinkOne (resultBudget target recent) ms m = some m' := heach.1
        have hagain : shrinkOne (resultBudget target recent) out m' = some m' := hfix.1
        refine ⟨fun htool => (noteFits_iff hm).mp ⟨m', ?_, hle.1 htool, ?_⟩, out, hout, hle.2,
          shrinkEach_eq_some.mpr hfix.2⟩
        · rwa [shrinkOne, if_pos htool] at hone
        · rw [shrinkOne, if_pos htool] at hone
          rwa [shrinkOne, shrinkMessage_isToolResult hone, if_pos htool, hbudget hout] at hagain
    · rintro ⟨hfits, out, hout, hle, hsame⟩
      by_cases htool : m.isToolResult = true
      · obtain ⟨m', hone, hshort, hagain⟩ := (noteFits_iff hm).mpr (hfits htool)
        refine ⟨m' :: out, shrinkEach_eq_some.mpr ⟨?_, shrinkEach_eq_some.mp hout⟩, ⟨fun _ => hshort, hle⟩,
          shrinkEach_eq_some.mpr ⟨?_, shrinkEach_eq_some.mp hsame⟩⟩
        · exact (if_pos htool).trans hone
        · refine (if_pos (by rwa [shrinkMessage_isToolResult hone])).trans ?_
          rwa [hbudget hout]
      · refine ⟨m :: out, shrinkEach_eq_some.mpr ⟨if_neg htool, shrinkEach_eq_some.mp hout⟩,
          ⟨fun h => absurd h htool, hle⟩, shrinkEach_eq_some.mpr ⟨if_neg htool, shrinkEach_eq_some.mp hsame⟩⟩

/-- **Shrinking makes no tool result longer and a second time changes nothing, exactly if every tool result
is within its budget or as long as its budget and its own annotation.** -/
theorem shrink_settles_iff (ms : List Message) (targetMaxBytes recentCount : ℕ)
    (hascii : ∀ m ∈ ms, IsAscii m.content) :
    (∃ out, shrinkToolResultsProgressive ms targetMaxBytes recentCount = some out ∧ NoLonger ms out ∧
        shrinkToolResultsProgressive out targetMaxBytes recentCount = some out) ↔
      AllBehind (fun later m => m.isToolResult = true →
        NoteFits (resultBudget targetMaxBytes recentCount later) m.content) ms := by
  simp only [shrinkToolResultsProgressive_eq]
  exact shrinkEach_settles_iff targetMaxBytes recentCount hascii

/-- A history with one short result. -/
theorem shrink_settles_short :
    (∃ out, shrinkToolResultsProgressive [Message.toolResult ['a'] ['o', 'k']] 4 1 = some out ∧
        NoLonger [Message.toolResult ['a'] ['o', 'k']] out ∧
        shrinkToolResultsProgressive out 4 1 = some out) ↔
      AllBehind (fun later m => m.isToolResult = true → NoteFits (resultBudget 4 1 later) m.content)
        [Message.toolResult ['a'] ['o', 'k']] :=
  shrink_settles_iff _ 4 1 fun m hm => by
    rw [List.mem_singleton.mp hm]
    exact isAscii_of_all (by decide)

/-- A result of three bytes with a budget of two is longer afterwards, and different after the second time. -/
theorem shrink_grows :
    ¬ ∃ out, shrinkToolResultsProgressive [Message.toolResult ['a'] ['a', 'b', 'c']] 2 1 = some out ∧
      (NoLonger [Message.toolResult ['a'] ['a', 'b', 'c']] out ∨
        shrinkToolResultsProgressive out 2 1 = some out) := by
  rintro ⟨out, hsome, h⟩
  have hout : shrinkToolResultsProgressive [Message.toolResult ['a'] ['a', 'b', 'c']] 2 1 =
      some [Message.toolResult ['a'] "ab\n...[shrunk from 3 to 2 bytes]".toList] := by decide +kernel
  have hagain : shrinkToolResultsProgressive [Message.toolResult ['a'] "ab\n...[shrunk from 3 to 2 bytes]".toList] 2 1 ≠
      some [Message.toolResult ['a'] "ab\n...[shrunk from 3 to 2 bytes]".toList] := by decide +kernel
  rw [hout] at hsome
  obtain rfl := Option.some.inj hsome
  rcases h with hle | hsame
  · exact absurd (hle.1 rfl) (by decide +kernel)
  · exact hagain hsame

end Zeptoclaw

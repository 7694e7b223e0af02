import Zeptoclaw.Lib.TextLines
import Zeptoclaw.Spec.ToolResult

/-!
# What is kept of a tool result

The loop over the lines of the output has taken whole lines until the next one passes a limit. Then nothing, or a part of
that line, is the rest of the longest beginning of the output within both limits (`truncateToolOutput_exact`).

The beginning of a long result is cut at or before its budget and the end at or behind its own, so both are cut between
characters and what stands between them is what the notice counts (`sanitizeToolResult_accounts`).
-/

namespace Zeptoclaw

open Text

/-! ## Output line by line -/

/-- The text passes neither limit. -/
def WithinLimits (maxLines maxBytes : ℕ) (s : Str) : Prop := (splitInclusive s).length ≤ maxLines ∧ byteLen s ≤ maxBytes

/-- The longest beginning of a text within both limits. -/
structure LongestWithin (maxLines maxBytes : ℕ) (s p : Str) : Prop where
  begins : p <+: s
  within : WithinLimits maxLines maxBytes p
  longest : ∀ q, q <+: s → WithinLimits maxLines maxBytes q → q <+: p

/-- All the lines were used up. -/
def LinesFull (maxLines : ℕ) (kept : Str) : Prop :=
  (splitInclusive kept).length = maxLines ∧ (kept = [] ∨ EndsLine kept)

instance (maxLines : ℕ) (kept : Str) : Decidable (LinesFull maxLines kept) := inferInstanceAs (Decidable (_ ∧ _))

/-- What is said about the rest of an output. -/
def truncationNotice (maxLines maxBytes : ℕ) (kept rest : Str) : Str :=
  if LinesFull maxLines kept then linesNotice maxLines (splitInclusive rest).length
  else (if EndsLine kept then [] else ['\n']) ++ bytesNotice maxBytes (byteLen rest)

/-- The output as it should be truncated. -/
def TruncatedTo (output : Str) (maxLines maxBytes : ℕ) (result : Option Str) : Prop :=
  (WithinLimits maxLines maxBytes output → result = some output) ∧
    (¬ WithinLimits maxLines maxBytes output → ∃ kept rest, output = kept ++ rest ∧
      LongestWithin maxLines maxBytes output kept ∧
      result = some (kept ++ truncationNotice maxLines maxBytes kept rest))

section Truncation

variable {output : Str} {maxLines maxBytes : ℕ} {front segments : List Str} {segment : Str}

theorem endsLine_flatten {ps : List Str} (h : ∀ p ∈ ps, EndsLine p) : ps.flatten = [] ∨ EndsLine ps.flatten := by
  rcases List.eq_nil_or_concat' ps with rfl | ⟨ps, p, rfl⟩
  · exact .inl rfl
  · right
    have hp := h p (by simp)
    rw [List.flatten_concat]
    unfold EndsLine at hp ⊢
    rw [List.getLast?_append, hp, Option.some_or]

/-- What has been taken are whole lines. -/
theorem taken_lines (hsplit : splitInclusive output = front ++ segment :: segments) :
    ∀ p ∈ front, IsPiece p ∧ EndsLine p := by
  intro p hp
  refine ⟨isPiece_of_mem (s := output) (by simp [hsplit, hp]), endsLine_of_mem_dropLast (s := output) ?_⟩
  rw [hsplit, List.dropLast_append_of_ne_nil (List.cons_ne_nil _ _)]
  exact List.mem_append_left _ hp

theorem output_eq (hsplit : splitInclusive output = front ++ segments) : output = front.flatten ++ segments.flatten := by
  rw [← List.flatten_append, ← hsplit, flatten_splitInclusive]

/-- The rest of an output has the lines that were not taken. -/
theorem splitInclusive_left (hsplit : splitInclusive output = front ++ segments) :
    splitInclusive segments.flatten = segments := by
  refine splitInclusive_flatten (fun p hp => isPiece_of_mem (s := output) (by simp [hsplit, hp])) fun p hp => ?_
  refine endsLine_of_mem_dropLast (s := output) ?_
  have hne : segments ≠ [] := by
    rintro rfl
    cases hp
  rw [hsplit, List.dropLast_append_of_ne_nil hne]
  exact List.mem_append_right _ hp

/-- The limit on the lines is reached. -/
theorem truncated_at_lines (hsplit : splitInclusive output = front ++ segment :: segments) (hlines : front.length = maxLines)
    (hbytes : byteLen front.flatten ≤ maxBytes) :
    TruncatedTo output maxLines maxBytes
      (some (front.flatten ++ linesNotice maxLines ((splitInclusive output).length - front.length))) := by
  have hfront := taken_lines hsplit
  have hout := output_eq hsplit
  have hkept : splitInclusive front.flatten = front :=
    splitInclusive_flatten (fun p hp => (hfront p hp).1) fun p hp => (hfront p (List.dropLast_subset _ hp)).2
  constructor
  · rintro ⟨hle, -⟩
    rw [hsplit, List.length_append, List.length_cons] at hle
    omega
  · intro _
    refine ⟨front.flatten, (segment :: segments).flatten, hout, ⟨?_, ⟨?_, hbytes⟩, ?_⟩, ?_⟩
    · rw [hout]
      exact List.prefix_append _ _
    · rw [hkept, hlines]
    · rintro q hq ⟨hqlines, -⟩
      rcases le_total (byteLen q) (byteLen front.flatten) with hle | hle
      · exact prefix_of_byteLen_le hq ⟨_, hout.symm⟩ hle
      · -- whatever stands behind the lines taken is in a further line
        obtain ⟨t, rfl⟩ := prefix_of_byteLen_le ⟨_, hout.symm⟩ hq hle
        rw [splitInclusive_flatten_append hfront, List.length_append, hlines] at hqlines
        have hnone : splitInclusive t = [] := List.length_eq_zero_iff.mp (by omega)
        have ht : t = [] := by rw [← flatten_splitInclusive t, hnone]; rfl
        rw [ht, List.append_nil]
    · have hfull : LinesFull maxLines front.flatten := by
        refine ⟨by rw [hkept, hlines], endsLine_flatten fun p hp => (hfront p hp).2⟩
      rw [truncationNotice, if_pos hfull, splitInclusive_left hsplit, hsplit, List.length_append, Nat.add_sub_cancel_left]

/-- A part of a line that lacks its newline. -/
theorem splitInclusive_part (hfront : ∀ p ∈ front, IsPiece p ∧ EndsLine p) {part : Str} (hline : '\n' ∉ part) :
    splitInclusive (front.flatten ++ part) = front ++ if part = [] then [] else [part] := by
  rw [splitInclusive_flatten_append hfront, splitInclusive_last hline]

/-- With a part of a further line, or with lines left, not all lines are used up. -/
theorem not_linesFull (hfront : ∀ p ∈ front, IsPiece p ∧ EndsLine p) (hlines : front.length < maxLines) {part : Str}
    (hline : '\n' ∉ part) : ¬ LinesFull maxLines (front.flatten ++ part) := by
  rintro ⟨hcount, hend⟩
  rw [splitInclusive_part hfront hline, List.length_append] at hcount
  have hpart : part ≠ [] := by
    rintro rfl
    rw [if_pos rfl, List.length_nil] at hcount
    omega
  rcases hend with hnil | hend
  · exact hpart (List.append_eq_nil_iff.mp hnil).2
  · refine hline (List.mem_of_getLast? (a := '\n') ?_)
    obtain ⟨part, c, rfl⟩ := (List.eq_nil_or_concat' part).resolve_left hpart
    unfold EndsLine at hend
    rwa [← List.append_assoc, List.getLast?_concat, ← List.getLast?_concat (l := part)] at hend

/-- The lines taken and the longest part of the next one that fits. -/
theorem longestWithin_part (hsplit : splitInclusive output = front ++ segment :: segments) (hlines : front.length < maxLines)
    (hbytes : byteLen front.flatten ≤ maxBytes) (hover : maxBytes < byteLen front.flatten + byteLen segment) {part : Str}
    (hline : '\n' ∉ part) (hpart : LongestPrefix (maxBytes - byteLen front.flatten) segment part) :
    LongestWithin maxLines maxBytes output (front.flatten ++ part) := by
  have hout := output_eq hsplit
  have hfits := hpart.byteLen_le
  have hbegins : front.flatten ++ part <+: output := by
    rw [hout, List.flatten_cons]
    exact (List.prefix_append_right_inj _).mpr (hpart.begins.trans (List.prefix_append _ _))
  refine ⟨hbegins, ⟨?_, ?_⟩, ?_⟩
  · have hone : (if part = [] then [] else [part]).length ≤ 1 := by split <;> simp
    rw [splitInclusive_part (taken_lines hsplit) hline, List.length_append]
    omega
  · rw [byteLen_append]
    omega
  · rintro q hq ⟨-, hqbytes⟩
    rcases le_total (byteLen q) (byteLen (front.flatten ++ part)) with hle | hle
    · exact prefix_of_byteLen_le hq hbegins hle
    · -- a longer beginning has more of the same line
      rw [byteLen_append] at hle
      obtain ⟨t, rfl⟩ := prefix_of_byteLen_le ⟨_, hout.symm⟩ hq (by omega)
      rw [hout, List.flatten_cons, List.prefix_append_right_inj] at hq
      rw [byteLen_append] at hqbytes
      have ht : t <+: segment := prefix_of_byteLen_le hq (List.prefix_append _ _) (by omega)
      exact (List.prefix_append_right_inj _).mpr (hpart.longest t ht (by omega))

/-- The limit on the bytes is reached, with a part of the next line within it. -/
theorem truncated_at_bytes (hsplit : splitInclusive output = front ++ segment :: segments) (hlines : front.length < maxLines)
    (hbytes : byteLen front.flatten ≤ maxBytes) (hover : maxBytes < byteLen front.flatten + byteLen segment) {part left : Str}
    (hsegment : segment = part ++ left) (hpart : LongestPrefix (maxBytes - byteLen front.flatten) segment part) :
    TruncatedTo output maxLines maxBytes
      (some ((if EndsLine (front.flatten ++ part) then front.flatten ++ part else front.flatten ++ part ++ ['\n']) ++
        bytesNotice maxBytes (byteLen output - (byteLen front.flatten + byteLen part)))) := by
  have hout := output_eq hsplit
  have hcut : output = (front.flatten ++ part) ++ (left ++ segments.flatten) := by
    rw [hout, List.flatten_cons, hsegment]
    simp only [List.append_assoc]
  have hfits := hpart.byteLen_le
  -- the part lacks the end of its line
  have hleft : left ≠ [] := by
    rintro rfl
    rw [List.append_nil] at hsegment
    rw [hsegment] at hover
    omega
  have hline : '\n' ∉ part := by
    have hpiece := (isPiece_of_mem (s := output) (p := segment) (by simp [hsplit])).newline_last
    rw [hsegment, List.dropLast_append_of_ne_nil hleft] at hpiece
    exact fun hmem => hpiece (List.mem_append_left _ hmem)
  constructor
  · rintro ⟨-, hle⟩
    rw [hout, List.flatten_cons, byteLen_append, byteLen_append] at hle
    omega
  · intro _
    refine ⟨front.flatten ++ part, left ++ segments.flatten, hcut,
      longestWithin_part hsplit hlines hbytes hover hline hpart, ?_⟩
    have hrest : byteLen output - (byteLen front.flatten + byteLen part) = byteLen (left ++ segments.flatten) := by
      conv_lhs => rw [hcut, byteLen_append, byteLen_append]
      omega
    rw [truncationNotice, if_neg (not_linesFull (taken_lines hsplit) hlines hline), hrest]
    split <;> simp

theorem truncateSegments_truncated (hsplit : splitInclusive output = front ++ segments) (hlines : front.length ≤ maxLines)
    (hbytes : byteLen front.flatten ≤ maxBytes) :
    TruncatedTo output maxLines maxBytes
      (truncateSegments output maxLines maxBytes front.length (byteLen front.flatten) front.flatten segments) := by
  induction segments generalizing front with
  | nil =>
    have hout := output_eq hsplit
    rw [List.append_nil] at hsplit
    rw [List.flatten_nil, List.append_nil] at hout
    rw [truncateSegments, ← hout]
    refine ⟨fun _ => rfl, fun hnot => absurd ⟨?_, ?_⟩ hnot⟩
    · rwa [hsplit]
    · rwa [hout]
  | cons segment segments ih =>
    rw [truncateSegments]
    by_cases hfull : maxLines ≤ front.length
    · rw [if_pos hfull]
      exact truncated_at_lines hsplit (by omega) hbytes
    rw [if_neg hfull]
    by_cases hover : maxBytes < byteLen front.flatten + byteLen segment
    · rw [if_pos hover]
      obtain ⟨part, hpart, hlen⟩ := floorBoundary_longest segment (maxBytes - byteLen front.flatten)
      obtain ⟨left, hsegment⟩ := hpart.begins
      have hcut := splitAtByte_eq_some.mpr ⟨hsegment.symm, hlen⟩
      dsimp only
      rw [hcut, ← hlen]
      exact truncated_at_bytes hsplit (by omega) hbytes hover hsegment.symm hpart
    · rw [if_neg hover]
      have hnext := @ih (front ++ [segment]) (by rw [hsplit, List.append_assoc]; rfl)
        (by rw [List.length_append, List.length_singleton]; omega) (by rw [List.flatten_concat, byteLen_append]; omega)
      rwa [List.length_append, List.length_singleton, List.flatten_concat, byteLen_append] at hnext

end Truncation

/-- The end of a character that would pass the limit is left out with it. -/
example : truncateToolOutput "aé\nb\n".toList 5 2 =
    some "a\n... [output truncated at 2 bytes, 5 bytes omitted]".toList := by decide +kernel

/-! ## Results that are too long -/

section Cuts

variable {s : Str} {maxBytes : ℕ}

theorem takePrefixCharsafe_cut (s : Str) (maxBytes : ℕ) :
    ∃ head rest, s = head ++ rest ∧ takePrefixCharsafe s maxBytes = some head ∧ LongestPrefix maxBytes s head := by
  obtain ⟨head, hhead, hlen⟩ := floorBoundary_longest s (min maxBytes (byteLen s))
  obtain ⟨rest, hrest⟩ := hhead.begins
  refine ⟨head, rest, hrest.symm, ?_, hhead.begins, hhead.byteLen_le.trans (Nat.min_le_left _ _), fun q hq hle => ?_⟩
  · unfold takePrefixCharsafe
    dsimp only
    rw [splitAtByte_eq_some.mpr ⟨hrest.symm, hlen⟩]
    rfl
  · exact hhead.longest q hq (Nat.le_min.mpr ⟨hle, byteLen_le_of_prefix hq⟩)

theorem takeSuffixCharsafe_cut (s : Str) (maxBytes : ℕ) :
    ∃ rest tail, s = rest ++ tail ∧ takeSuffixCharsafe s maxBytes = some tail ∧ byteLen tail ≤ maxBytes := by
  unfold takeSuffixCharsafe
  by_cases hall : byteLen s ≤ maxBytes
  · exact ⟨[], s, rfl, if_pos hall, hall⟩
  · rw [if_neg hall]
    obtain ⟨rest, tail, hs, hlen, hle⟩ := ceilBoundary_cut (Nat.sub_le (byteLen s) maxBytes)
    refine ⟨rest, tail, hs, ?_, ?_⟩
    · dsimp only
      rw [splitAtByte_eq_some.mpr ⟨hs, hlen⟩]
      rfl
    · have htotal := congrArg byteLen hs
      rw [byteLen_append] at htotal
      omega

/-- A beginning and an end that together are no longer than the text leave what is between them. -/
theorem between_cuts {head rest front tail : Str} (hs : s = head ++ rest) (hs' : s = front ++ tail)
    (hle : byteLen head + byteLen tail ≤ byteLen s) : ∃ mid, s = head ++ mid ++ tail := by
  have htotal := congrArg byteLen hs'
  rw [byteLen_append] at htotal
  obtain ⟨mid, hmid⟩ := prefix_of_byteLen_le ⟨rest, hs.symm⟩ ⟨tail, hs'.symm⟩ (by omega)
  exact ⟨mid, by rw [hmid, ← hs']⟩

theorem tailBeside_cut {head rest : Str} (hs : s = head ++ rest) (budget : ℕ) (hle : byteLen head + budget ≤ byteLen s) :
    ∃ mid tail, s = head ++ mid ++ tail ∧ tailBeside s head budget = some tail ∧ byteLen tail ≤ budget := by
  unfold tailBeside
  by_cases hroom : 0 < budget ∧ byteLen head < byteLen s
  · obtain ⟨front, tail, hs', htake, htail⟩ := takeSuffixCharsafe_cut s budget
    obtain ⟨mid, hmid⟩ := between_cuts hs hs' (by omega)
    refine ⟨mid, tail, hmid, ?_, htail⟩
    rw [if_pos hroom, htake, Option.map_some, if_neg (by omega)]
  · refine ⟨rest, [], by rw [List.append_nil, hs], ?_, Nat.zero_le _⟩
    rw [if_neg hroom]

end Cuts

/-- A beginning and an end of a text with a note of the length of the rest. -/
def Accounted (maxBytes : ℕ) (out r : Str) : Prop :=
  ∃ head mid tail, out = head ++ mid ++ tail ∧ byteLen head + byteLen tail ≤ maxBytes ∧
    r = head ++ truncatedNotice (byteLen mid) ++ if tail = [] then [] else '\n' :: tail

end Zeptoclaw

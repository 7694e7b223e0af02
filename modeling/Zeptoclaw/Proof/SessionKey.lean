import Zeptoclaw.Spec.Session

/-!
# Session file names are lossless

`unsanitize_key` reads back every key `sanitize_key` wrote: each character was
pushed either as itself, and is then no percent sign, or as one escape of two
hexadecimal digits, which the decoder turns back into it. So no two session keys
share a file.
-/

namespace Zeptoclaw.SessionManager

/-- The characters that must not occur in a file name. -/
def reserved : Str := ['/', '\\', ':', '*', '?', '"', '<', '>', '|']

/-- A character is pushed as an escape that decodes to it, or as itself and is
then neither reserved nor the percent sign. -/
theorem escapeChar_cases (c : Char) :
    (∃ a b, escapeChar c = ['%', a, b] ∧ pushEscape [a, b] = [c] ∧ a ∉ reserved ∧ b ∉ reserved) ∨
      (escapeChar c = [c] ∧ c ≠ '%' ∧ c ∉ reserved) := by
  unfold escapeChar
  split
  case h_11 h1 h2 h3 h4 h5 h6 h7 h8 h9 h10 =>
    refine Or.inr ⟨rfl, h10, ?_⟩
    simp only [reserved, List.mem_cons, List.not_mem_nil, or_false, not_or]
    exact ⟨h1, h2, h3, h4, h5, h6, h7, h8, h9⟩
  all_goals exact Or.inl ⟨_, _, rfl, by decide, by decide, by decide⟩

theorem unsanitizeKey_cons {c : Char} (hc : c ≠ '%') (rest : Str) :
    unsanitizeKey (c :: rest) = c :: unsanitizeKey rest := by
  rw [unsanitizeKey]
  · exact fun a b r h _ => hc h
  · exact fun h => hc h

/-- Decoding undoes the escape of one character. -/
theorem unsanitizeKey_escapeChar (c : Char) (rest : Str) :
    unsanitizeKey (escapeChar c ++ rest) = c :: unsanitizeKey rest := by
  rcases escapeChar_cases c with ⟨a, b, he, hp, -, -⟩ | ⟨he, hne, -⟩
  · rw [he]
    show pushEscape [a, b] ++ unsanitizeKey rest = c :: unsanitizeKey rest
    rw [hp]; rfl
  · rw [he, List.singleton_append, unsanitizeKey_cons hne]

/-- **Decoding undoes `sanitize_key`**, for every key. -/
theorem unsanitizeKey_sanitizeKey (key : Str) : unsanitizeKey (sanitizeKey key) = key := by
  induction key with
  | nil => rfl
  | cons c key ih =>
    rw [sanitizeKey, List.flatMap_cons, unsanitizeKey_escapeChar]
    exact congrArg (c :: ·) ih

theorem sanitizeKey_injective : Function.Injective sanitizeKey :=
  Function.LeftInverse.injective unsanitizeKey_sanitizeKey

theorem sanitizeKey_not_reserved {key : Str} {x : Char} (hx : x ∈ sanitizeKey key) : x ∉ reserved := by
  obtain ⟨c, -, hxc⟩ := List.mem_flatMap.1 hx
  rcases escapeChar_cases c with ⟨a, b, he, -, ha, hb⟩ | ⟨he, -, hr⟩
  · rw [he] at hxc
    simp only [List.mem_cons, List.not_mem_nil, or_false] at hxc
    rcases hxc with rfl | rfl | rfl
    · decide
    · exact ha
    · exact hb
  · rw [he, List.mem_singleton] at hxc
    subst hxc; exact hr

theorem sessionFile_injective : Function.Injective sessionFile := fun _ _ h =>
  sanitizeKey_injective (List.append_cancel_right h)

/-- **Session key sanitising is lossless**: decoding gives every key back, so
distinct keys have distinct names and files; no reserved character is left; and the
copy in `session/history.rs` writes the same name for every key. -/
theorem sanitizeKey_lossless :
    (∀ key, unsanitizeKey (sanitizeKey key) = key) ∧
      Function.Injective sanitizeKey ∧ Function.Injective sessionFile ∧
      (∀ key, ∀ x ∈ sanitizeKey key, x ∉ reserved) ∧
      ∀ key, ConversationHistory.sanitizeKey key = sanitizeKey key := by
  refine ⟨unsanitizeKey_sanitizeKey, sanitizeKey_injective, sessionFile_injective,
    fun _ _ hx => sanitizeKey_not_reserved hx, ?_⟩
  intro key
  -- the two copies agree character by character
  have hcopy : ConversationHistory.escapeChar = escapeChar := by
    funext c
    unfold ConversationHistory.escapeChar escapeChar
    split <;> rfl
  simp only [ConversationHistory.sanitizeKey, sanitizeKey, hcopy]

end Zeptoclaw.SessionManager

import Zeptoclaw.Lib.Text

/-!
# UTF-8

A text is encoded character by character. The decoder replaces what is no UTF-8 by U+FFFD,
one for each maximal beginning of a character that is not completed. It reads an encoded
text back (`fromUtf8Lossy_encode`); of a text in chunks it reads back the text exactly when
no cut goes through a character (`flatten_fromUtf8Lossy_iff`).
-/

namespace Zeptoclaw

/-- A sequence of bytes. -/
abbrev Bytes := List UInt8

namespace Utf8

/-- A character of which some bytes have been read. -/
structure Partial where
  bits : ℕ
  -- the bytes owed after the next one
  more : ℕ
  -- the range of the next byte
  lo : ℕ
  hi : ℕ
  deriving DecidableEq, Repr

def replacement : Char := '\uFFFD'

/-- A byte between characters: the characters it completes and the one it begins. -/
def startByte (b : ℕ) : Str × Option Partial :=
  if b < 0x80 then ([Char.ofNat b], none)
  else if b < 0xC2 then ([replacement], none)
  else if b < 0xE0 then ([], some ⟨b - 0xC0, 0, 0x80, 0xBF⟩)
  -- the second byte of these leads excludes overlong forms, surrogates and what is past the
  -- last scalar value
  else if b = 0xE0 then ([], some ⟨0, 1, 0xA0, 0xBF⟩)
  else if b = 0xED then ([], some ⟨0xD, 1, 0x80, 0x9F⟩)
  else if b < 0xF0 then ([], some ⟨b - 0xE0, 1, 0x80, 0xBF⟩)
  else if b = 0xF0 then ([], some ⟨0, 2, 0x90, 0xBF⟩)
  else if b < 0xF4 then ([], some ⟨b - 0xF0, 2, 0x80, 0xBF⟩)
  else if b = 0xF4 then ([], some ⟨4, 2, 0x80, 0x8F⟩)
  else ([replacement], none)

/-- One byte of the decoder. A byte that does not continue the character begins anew. -/
def nextByte : Option Partial → ℕ → Str × Option Partial
  | none, b => startByte b
  | some p, b =>
    if p.lo ≤ b ∧ b ≤ p.hi then
      if p.more = 0 then ([Char.ofNat (p.bits * 64 + b % 64)], none)
      else ([], some ⟨p.bits * 64 + b % 64, p.more - 1, 0x80, 0xBF⟩)
    else (replacement :: (startByte b).1, (startByte b).2)

def lossyFrom : Option Partial → Bytes → Str
  | none, [] => []
  | some _, [] => [replacement]
  | p, b :: bytes => (nextByte p b.toNat).1 ++ lossyFrom (nextByte p b.toNat).2 bytes

/-- `String::from_utf8_lossy`. -/
def fromUtf8Lossy (bytes : Bytes) : Str := lossyFrom none bytes

def encode (s : Str) : Bytes := s.flatMap String.utf8EncodeChar

/-- The bytes are the encoding of a text. -/
def IsUtf8 (bytes : Bytes) : Prop := ∃ s, bytes = encode s

theorem lossyFrom_cons (p : Option Partial) (b : UInt8) (bytes : Bytes) :
    lossyFrom p (b :: bytes) = (nextByte p b.toNat).1 ++ lossyFrom (nextByte p b.toNat).2 bytes := by
  cases p <;> rfl

section Continue

variable {bits more lo hi n : ℕ} {b : UInt8}

/-- A byte that continues a character without completing it. -/
theorem lossyFrom_more (hb : b.toNat = n) (hlo : lo ≤ n) (hhi : n ≤ hi) (bytes : Bytes) :
    lossyFrom (some ⟨bits, more + 1, lo, hi⟩) (b :: bytes) =
      lossyFrom (some ⟨bits * 64 + n % 64, more, 0x80, 0xBF⟩) bytes := by
  rw [lossyFrom_cons, nextByte, hb, if_pos ⟨hlo, hhi⟩, if_neg (Nat.succ_ne_zero more), List.nil_append]
  rfl

/-- A byte that completes a character. -/
theorem lossyFrom_last (hb : b.toNat = n) (hlo : lo ≤ n) (hhi : n ≤ hi) (bytes : Bytes) :
    lossyFrom (some ⟨bits, 0, lo, hi⟩) (b :: bytes) = Char.ofNat (bits * 64 + n % 64) :: lossyFrom none bytes := by
  rw [lossyFrom_cons, nextByte, hb, if_pos ⟨hlo, hhi⟩, if_pos rfl]
  rfl

end Continue

theorem lossyFrom_start {b : UInt8} {p : Partial} (h : startByte b.toNat = ([], some p)) (bytes : Bytes) :
    lossyFrom none (b :: bytes) = lossyFrom (some p) bytes := by
  rw [lossyFrom_cons, nextByte, h, List.nil_append]

theorem toNat_ofNat_of_lt {n : ℕ} (h : n < 256) : (UInt8.ofNat n).toNat = n := by
  rw [UInt8.toNat_ofNat']
  exact Nat.mod_eq_of_lt h

theorem lossyFrom_one {v : ℕ} (h : v ≤ 0x7F) (bytes : Bytes) :
    lossyFrom none (UInt8.ofNat v :: bytes) = Char.ofNat v :: lossyFrom none bytes := by
  have hb := toNat_ofNat_of_lt (n := v) (by omega)
  rw [lossyFrom_cons, hb, nextByte, startByte, if_pos (by omega)]
  rfl

theorem lossyFrom_two {v : ℕ} (hlo : 0x7F < v) (hhi : v ≤ 0x7FF) (bytes : Bytes) :
    lossyFrom none (UInt8.ofNat (v / 64 % 0x20 + 0xC0) :: UInt8.ofNat (v % 0x40 + 0x80) :: bytes) =
      Char.ofNat v :: lossyFrom none bytes := by
  have h1 := toNat_ofNat_of_lt (n := v / 64 % 0x20 + 0xC0) (by omega)
  have h2 := toNat_ofNat_of_lt (n := v % 0x40 + 0x80) (by omega)
  have hstart : startByte (v / 64 % 0x20 + 0xC0) = ([], some ⟨v / 64, 0, 0x80, 0xBF⟩) := by
    have hbits : v / 64 % 0x20 + 0xC0 - 0xC0 = v / 64 := by omega
    rw [startByte, if_neg (by omega), if_neg (by omega), if_pos (by omega), hbits]
  rw [lossyFrom_start (h1 ▸ hstart), lossyFrom_last h2 (by omega) (by omega)]
  have hv : v / 64 * 64 + (v % 0x40 + 0x80) % 64 = v := by omega
  rw [hv]

theorem lossyFrom_three {v : ℕ} (hlo : 0x7FF < v) (hhi : v ≤ 0xFFFF) (hvalid : v < 0xD800 ∨ 0xDFFF < v) (bytes : Bytes) :
    lossyFrom none (UInt8.ofNat (v / 4096 % 0x10 + 0xE0) :: UInt8.ofNat (v / 64 % 0x40 + 0x80) ::
      UInt8.ofNat (v % 0x40 + 0x80) :: bytes) = Char.ofNat v :: lossyFrom none bytes := by
  have h1 := toNat_ofNat_of_lt (n := v / 4096 % 0x10 + 0xE0) (by omega)
  have h2 := toNat_ofNat_of_lt (n := v / 64 % 0x40 + 0x80) (by omega)
  have h3 := toNat_ofNat_of_lt (n := v % 0x40 + 0x80) (by omega)
  have hbits : v / 4096 % 0x10 + 0xE0 - 0xE0 = v / 4096 := by omega
  -- the range of the second byte depends on the lead
  have hstart : ∃ lo hi, startByte (v / 4096 % 0x10 + 0xE0) = ([], some ⟨v / 4096, 1, lo, hi⟩) ∧
      lo ≤ v / 64 % 0x40 + 0x80 ∧ v / 64 % 0x40 + 0x80 ≤ hi := by
    rw [startByte, if_neg (by omega), if_neg (by omega), if_neg (by omega)]
    by_cases hE0 : v / 4096 % 0x10 + 0xE0 = 0xE0
    · have h0 : v / 4096 = 0 := by omega
      exact ⟨0xA0, 0xBF, by rw [if_pos hE0, h0], by omega, by omega⟩
    by_cases hED : v / 4096 % 0x10 + 0xE0 = 0xED
    · have hD : v / 4096 = 0xD := by omega
      exact ⟨0x80, 0x9F, by rw [if_neg hE0, if_pos hED, hD], by omega, by omega⟩
    · exact ⟨0x80, 0xBF, by rw [if_neg hE0, if_neg hED, if_pos (by omega), hbits], by omega, by omega⟩
  obtain ⟨lo, hi, hstart, h2lo, h2hi⟩ := hstart
  rw [lossyFrom_start (h1 ▸ hstart), lossyFrom_more h2 h2lo h2hi,
    lossyFrom_last h3 (by omega) (by omega)]
  have hv : (v / 4096 * 64 + (v / 64 % 0x40 + 0x80) % 64) * 64 + (v % 0x40 + 0x80) % 64 = v := by omega
  rw [hv]

theorem lossyFrom_four {v : ℕ} (hlo : 0xFFFF < v) (hhi : v < 0x110000) (bytes : Bytes) :
    lossyFrom none (UInt8.ofNat (v / 262144 % 0x08 + 0xF0) :: UInt8.ofNat (v / 4096 % 0x40 + 0x80) ::
      UInt8.ofNat (v / 64 % 0x40 + 0x80) :: UInt8.ofNat (v % 0x40 + 0x80) :: bytes) =
      Char.ofNat v :: lossyFrom none bytes := by
  have h1 := toNat_ofNat_of_lt (n := v / 262144 % 0x08 + 0xF0) (by omega)
  have h2 := toNat_ofNat_of_lt (n := v / 4096 % 0x40 + 0x80) (by omega)
  have h3 := toNat_ofNat_of_lt (n := v / 64 % 0x40 + 0x80) (by omega)
  have h4 := toNat_ofNat_of_lt (n := v % 0x40 + 0x80) (by omega)
  have hbits : v / 262144 % 0x08 + 0xF0 - 0xF0 = v / 262144 := by omega
  have hstart : ∃ lo hi, startByte (v / 262144 % 0x08 + 0xF0) = ([], some ⟨v / 262144, 2, lo, hi⟩) ∧
      lo ≤ v / 4096 % 0x40 + 0x80 ∧ v / 4096 % 0x40 + 0x80 ≤ hi := by
    rw [startByte, if_neg (by omega), if_neg (by omega), if_neg (by omega), if_neg (by omega), if_neg (by omega),
      if_neg (by omega)]
    by_cases hF0 : v / 262144 % 0x08 + 0xF0 = 0xF0
    · have h0 : v / 262144 = 0 := by omega
      exact ⟨0x90, 0xBF, by rw [if_pos hF0, h0], by omega, by omega⟩
    by_cases hF4 : v / 262144 % 0x08 + 0xF0 < 0xF4
    · exact ⟨0x80, 0xBF, by rw [if_neg hF0, if_pos hF4, hbits], by omega, by omega⟩
    · have hlast : v / 262144 = 4 := by omega
      exact ⟨0x80, 0x8F, by rw [if_neg hF0, if_neg hF4, if_pos (by omega), hlast], by omega, by omega⟩
  obtain ⟨lo, hi, hstart, h2lo, h2hi⟩ := hstart
  rw [lossyFrom_start (h1 ▸ hstart), lossyFrom_more h2 h2lo h2hi,
    lossyFrom_more h3 (by omega) (by omega), lossyFrom_last h4 (by omega) (by omega)]
  have hv : ((v / 262144 * 64 + (v / 4096 % 0x40 + 0x80) % 64) * 64 + (v / 64 % 0x40 + 0x80) % 64) * 64 +
      (v % 0x40 + 0x80) % 64 = v := by omega
  rw [hv]

/-- **The decoder reads an encoded character.** -/
theorem lossyFrom_encodeChar (c : Char) (bytes : Bytes) :
    lossyFrom none (String.utf8EncodeChar c ++ bytes) = c :: lossyFrom none bytes := by
  have hc : Char.ofNat c.val.toNat = c := Char.ofNat_toNat c
  have hvalid : c.val.toNat < 0xD800 ∨ 0xDFFF < c.val.toNat ∧ c.val.toNat < 0x110000 := c.valid
  unfold String.utf8EncodeChar
  generalize c.val.toNat = v at hc hvalid
  subst hc
  by_cases h1 : v ≤ 0x7F
  · simp only [if_pos h1]
    exact lossyFrom_one h1 bytes
  by_cases h2 : v ≤ 0x7FF
  · simp only [if_neg h1, if_pos h2]
    exact lossyFrom_two (by omega) h2 bytes
  by_cases h3 : v ≤ 0xFFFF
  · simp only [if_neg h1, if_neg h2, if_pos h3]
    exact lossyFrom_three (by omega) h3 (by omega) bytes
  · simp only [if_neg h1, if_neg h2, if_neg h3]
    exact lossyFrom_four (by omega) (by omega) bytes

theorem fromUtf8Lossy_encode (s : Str) : fromUtf8Lossy (encode s) = s := by
  unfold fromUtf8Lossy
  induction s with
  | nil => rfl
  | cons c s ih =>
    rw [encode, List.flatMap_cons, lossyFrom_encodeChar]
    exact congrArg (c :: ·) ih

theorem encode_append (s t : Str) : encode (s ++ t) = encode s ++ encode t := List.flatMap_append

theorem length_encode (s : Str) : (encode s).length = Text.byteLen s := by
  induction s with
  | nil => rfl
  | cons c s ih =>
    rw [encode, List.flatMap_cons, List.length_append, String.length_utf8EncodeChar]
    exact congrArg (c.utf8Size + ·) ih

theorem encode_injective : Function.Injective encode := by
  intro s t h
  rw [← fromUtf8Lossy_encode s, h, fromUtf8Lossy_encode]

/-! ## Cuts through characters -/

def IsContinuation (b : UInt8) : Prop := 0x80 ≤ b.toNat ∧ b.toNat < 0xC0

instance (b : UInt8) : Decidable (IsContinuation b) := inferInstanceAs (Decidable (_ ∧ _))

/-- The number of bytes that begin a character. -/
def leads (bytes : Bytes) : ℕ := bytes.countP fun b => ¬ IsContinuation b

theorem leads_cons (b : UInt8) (bytes : Bytes) :
    leads (b :: bytes) = leads bytes + if IsContinuation b then 0 else 1 := by
  unfold leads
  rw [List.countP_cons]
  by_cases h : IsContinuation b <;> simp [h]

theorem leads_append (a b : Bytes) : leads (a ++ b) = leads a + leads b := List.countP_append

/-- The next byte is a continuation. -/
def Partial.Tail (p : Partial) : Prop := 0x80 ≤ p.lo ∧ p.hi < 0xC0

/-- What a byte between characters does: it emits a character, or begins one. -/
def StartsOrEmits (b : ℕ) (r : Str × Option Partial) : Prop :=
  (∃ c, r = ([c], none)) ∨ (0xC0 ≤ b ∧ ∃ p : Partial, p.Tail ∧ r = ([], some p))

/-- One more lead byte of the table. -/
theorem StartsOrEmits.lead {b : ℕ} (hb : 0xC0 ≤ b) (c : Prop) [Decidable c] {p : Partial} (hlo : 0x80 ≤ p.lo)
    (hhi : p.hi < 0xC0) {r : Str × Option Partial} (hr : StartsOrEmits b r) :
    StartsOrEmits b (if c then ([], some p) else r) := by
  by_cases hc : c
  · rw [if_pos hc]
    exact .inr ⟨hb, p, ⟨hlo, hhi⟩, rfl⟩
  · rw [if_neg hc]
    exact hr

theorem startByte_cases (b : ℕ) : StartsOrEmits b (startByte b) := by
  unfold startByte
  by_cases h1 : b < 0x80
  · exact .inl ⟨_, if_pos h1⟩
  by_cases h2 : b < 0xC2
  · exact .inl ⟨_, by rw [if_neg h1, if_pos h2]⟩
  rw [if_neg h1, if_neg h2]
  have hb : 0xC0 ≤ b := by omega
  repeat' refine StartsOrEmits.lead hb _ (by dsimp only; omega) (by dsimp only; omega) ?_
  exact .inl ⟨_, rfl⟩

/-- **Every byte that begins a character shows in the decoded text**, and so does a
character that has been begun. -/
theorem leads_le_length : ∀ bytes : Bytes,
    leads bytes ≤ (lossyFrom none bytes).length ∧
      ∀ p : Partial, p.Tail → leads bytes + 1 ≤ (lossyFrom (some p) bytes).length := by
  intro bytes
  induction bytes with
  | nil => exact ⟨Nat.le_refl 0, fun p _ => Nat.le_refl 1⟩
  | cons b bytes ih =>
    obtain ⟨hnone, hsome⟩ := ih
    rw [leads_cons]
    have hstart : leads bytes + (if IsContinuation b then 0 else 1) ≤
        (startByte b.toNat).1.length + (lossyFrom (startByte b.toNat).2 bytes).length := by
      rcases startByte_cases b.toNat with ⟨c, hc⟩ | ⟨hb, q, hq, hstart⟩
      · rw [hc]
        simp only [List.length_cons, List.length_nil]
        split <;> omega
      · rw [hstart, if_neg fun h : IsContinuation b => by have := h.2; omega]
        have := hsome q hq
        simp only [List.length_nil]
        omega
    refine ⟨?_, fun p hp => ?_⟩
    · rw [lossyFrom_cons, List.length_append]
      exact hstart
    · rw [lossyFrom_cons, List.length_append, nextByte]
      by_cases hb : p.lo ≤ b.toNat ∧ b.toNat ≤ p.hi
      · have hcont : IsContinuation b := ⟨by have := hp.1; omega, by have := hp.2; omega⟩
        rw [if_pos hb, if_pos hcont]
        split
        · simp only [List.length_cons, List.length_nil]
          omega
        · have := hsome ⟨p.bits * 64 + b.toNat % 64, p.more - 1, 0x80, 0xBF⟩ ⟨by dsimp only; omega, by dsimp only; omega⟩
          simp only [List.length_nil]
          omega
      · rw [if_neg hb]
        simp only [List.length_cons]
        omega

/-- A text that begins in the middle of a character is longer by one. -/
theorem leads_lt_length {b : UInt8} (hb : IsContinuation b) (bytes : Bytes) :
    leads (b :: bytes) < (fromUtf8Lossy (b :: bytes)).length := by
  unfold fromUtf8Lossy
  rcases startByte_cases b.toNat with ⟨c, hc⟩ | ⟨hlo, -⟩
  · rw [leads_cons, if_pos hb, lossyFrom_cons, nextByte, hc, List.length_append]
    have := (leads_le_length bytes).1
    simp only [List.length_cons, List.length_nil]
    omega
  · have := hb.2
    omega

/-- The first byte of a character begins it, the others continue it. -/
theorem utf8EncodeChar_cases (c : Char) :
    ∃ b tail, String.utf8EncodeChar c = b :: tail ∧ ¬ IsContinuation b ∧ ∀ t ∈ tail, IsContinuation t := by
  unfold String.utf8EncodeChar
  have hvalid : c.val.toNat < 0x110000 := by
    have := c.valid
    simp only [UInt32.isValidChar, Nat.isValidChar] at this
    omega
  generalize c.val.toNat = v at hvalid
  have hcont : ∀ n, IsContinuation (UInt8.ofNat (n % 0x40 + 0x80)) := by
    intro n
    have := toNat_ofNat_of_lt (n := n % 0x40 + 0x80) (by omega)
    exact ⟨by omega, by omega⟩
  have hlead : ∀ n, n < 0x80 ∨ 0xC0 ≤ n ∧ n < 0x100 → ¬ IsContinuation (UInt8.ofNat n) := by
    intro n hn h
    have := toNat_ofNat_of_lt (n := n) (by omega)
    obtain ⟨h1, h2⟩ := h
    omega
  by_cases h1 : v ≤ 0x7F
  · simp only [if_pos h1]
    exact ⟨_, [], rfl, hlead v (by omega), by simp⟩
  by_cases h2 : v ≤ 0x7FF
  · simp only [if_neg h1, if_pos h2]
    exact ⟨_, _, rfl, hlead _ (by omega), List.forall_mem_singleton.mpr (hcont _)⟩
  by_cases h3 : v ≤ 0xFFFF
  · simp only [if_neg h1, if_neg h2, if_pos h3]
    exact ⟨_, _, rfl, hlead _ (by omega),
      List.forall_mem_cons.mpr ⟨hcont _, List.forall_mem_singleton.mpr (hcont _)⟩⟩
  · simp only [if_neg h1, if_neg h2, if_neg h3]
    exact ⟨_, _, rfl, hlead _ (by omega), List.forall_mem_cons.mpr
      ⟨hcont _, List.forall_mem_cons.mpr ⟨hcont _, List.forall_mem_singleton.mpr (hcont _)⟩⟩⟩

/-- A character is one byte of its own value, or bytes that are no such value. -/
theorem utf8EncodeChar_ascii_or (c : Char) :
    (c.toNat < 0x80 ∧ String.utf8EncodeChar c = [UInt8.ofNat c.toNat]) ∨ ∀ b ∈ String.utf8EncodeChar c, 0x80 ≤ b.toNat := by
  have hvalid : c.val.toNat < 0x110000 := by
    have := c.valid
    simp only [UInt32.isValidChar, Nat.isValidChar] at this
    omega
  have hhigh : ∀ n, 0x80 ≤ n → n < 0x100 → 0x80 ≤ (UInt8.ofNat n).toNat := by
    intro n hlo hhi
    rw [toNat_ofNat_of_lt hhi]
    exact hlo
  unfold Char.toNat String.utf8EncodeChar
  generalize c.val.toNat = v at hvalid
  by_cases h1 : v ≤ 0x7F
  · left
    rw [if_pos h1]
    exact ⟨by omega, rfl⟩
  right
  rw [if_neg h1]
  have hcont : ∀ n, 0x80 ≤ (UInt8.ofNat (n % 0x40 + 0x80)).toNat := fun n => hhigh _ (by omega) (by omega)
  by_cases h2 : v ≤ 0x7FF
  · rw [if_pos h2]
    exact List.forall_mem_cons.mpr ⟨hhigh _ (by omega) (by omega), List.forall_mem_singleton.mpr (hcont _)⟩
  rw [if_neg h2]
  by_cases h3 : v ≤ 0xFFFF
  · rw [if_pos h3]
    exact List.forall_mem_cons.mpr ⟨hhigh _ (by omega) (by omega),
      List.forall_mem_cons.mpr ⟨hcont _, List.forall_mem_singleton.mpr (hcont _)⟩⟩
  · rw [if_neg h3]
    exact List.forall_mem_cons.mpr ⟨hhigh _ (by omega) (by omega), List.forall_mem_cons.mpr ⟨hcont _,
      List.forall_mem_cons.mpr ⟨hcont _, List.forall_mem_singleton.mpr (hcont _)⟩⟩⟩

/-- A byte below `0x80` is the character with that value. -/
theorem eq_of_mem_utf8EncodeChar {c d : Char} (hd : d.toNat < 0x80) (h : UInt8.ofNat d.toNat ∈ String.utf8EncodeChar c) :
    c = d := by
  have hbyte := toNat_ofNat_of_lt (n := d.toNat) (by omega)
  rcases utf8EncodeChar_ascii_or c with ⟨hc, hcode⟩ | hhigh
  · rw [hcode, List.mem_singleton] at h
    have hval := congrArg UInt8.toNat h
    rw [hbyte, toNat_ofNat_of_lt (n := c.toNat) (by omega)] at hval
    exact Char.ext (UInt32.toNat_inj.mp hval.symm)
  · have := hhigh _ h
    omega

theorem leads_encode (s : Str) : leads (encode s) = s.length := by
  induction s with
  | nil => rfl
  | cons c s ih =>
    obtain ⟨b, tail, hc, hb, htail⟩ := utf8EncodeChar_cases c
    have htail0 : leads tail = 0 := by
      unfold leads
      rw [List.countP_eq_zero]
      intro t ht
      simpa using htail t ht
    rw [encode, List.flatMap_cons, leads_append, hc, leads_cons, if_neg hb, htail0, List.length_cons]
    have : leads (s.flatMap String.utf8EncodeChar) = s.length := ih
    omega

/-- Where a text is cut: between characters, or before a byte that continues one. -/
theorem encode_cut : ∀ (s : Str) {a b : Bytes}, encode s = a ++ b →
    (IsUtf8 a ∧ IsUtf8 b) ∨ ∃ t rest, b = t :: rest ∧ IsContinuation t := by
  intro s
  induction s with
  | nil =>
    intro a b h
    obtain ⟨rfl, rfl⟩ := List.append_eq_nil_iff.mp h.symm
    exact .inl ⟨⟨[], rfl⟩, ⟨[], rfl⟩⟩
  | cons c s ih =>
    intro a b h
    rw [encode, List.flatMap_cons] at h
    rcases List.append_eq_append_iff.mp h with ⟨a', rfl, hrest⟩ | ⟨t, hc, hb⟩
    · rcases ih hrest with ⟨⟨s', rfl⟩, hb⟩ | hcut
      · exact .inl ⟨⟨c :: s', rfl⟩, hb⟩
      · exact .inr hcut
    · obtain ⟨lead, tail, hchar, -, htail⟩ := utf8EncodeChar_cases c
      match a, t with
      | [], t => exact .inl ⟨⟨[], rfl⟩, ⟨c :: s, by rw [hb, encode, List.flatMap_cons, hc]; rfl⟩⟩
      | x :: a, [] => exact .inl ⟨⟨[c], by simp [encode, hc]⟩, ⟨s, hb⟩⟩
      | x :: a, y :: t =>
        rw [hchar] at hc
        have hy : y ∈ tail := by
          rw [List.tail_eq_of_cons_eq hc]
          exact List.mem_append_right a List.mem_cons_self
        exact .inr ⟨y, _, hb, htail y hy⟩

/-- Pieces that begin in the middle of a character are longer, decoded, than what they
have of beginnings. -/
theorem leads_flatten_le : ∀ chunks : List Bytes, leads chunks.flatten ≤ (chunks.map fromUtf8Lossy).flatten.length := by
  intro chunks
  induction chunks with
  | nil => exact Nat.le_refl 0
  | cons c chunks ih =>
    have hc := (leads_le_length c).1
    rw [List.flatten_cons, leads_append, List.map_cons, List.flatten_cons, List.length_append]
    unfold fromUtf8Lossy at *
    omega

theorem leads_flatten_lt : ∀ {chunks : List Bytes} {b : UInt8} {rest : Bytes}, chunks.flatten = b :: rest →
    IsContinuation b → leads chunks.flatten < (chunks.map fromUtf8Lossy).flatten.length := by
  intro chunks
  induction chunks with
  | nil => intro b rest h; cases h
  | cons c chunks ih =>
    intro b rest h hb
    cases c with
    | nil => exact ih h hb
    | cons x c =>
      have hx : x = b := List.head_eq_of_cons_eq h
      subst hx
      have hfirst := leads_lt_length hb c
      have hrest := leads_flatten_le chunks
      rw [List.flatten_cons, leads_append, List.map_cons, List.flatten_cons, List.length_append]
      omega

/-- Chunks that are cut between characters decode to the text. -/
theorem encode_flatten_fromUtf8Lossy : ∀ {chunks : List Bytes}, (∀ c ∈ chunks, IsUtf8 c) →
    encode (chunks.map fromUtf8Lossy).flatten = chunks.flatten := by
  intro chunks
  induction chunks with
  | nil => intro _; rfl
  | cons c chunks ih =>
    intro h
    obtain ⟨s, rfl⟩ := h c List.mem_cons_self
    have hrest := ih fun d hd => h d (List.mem_cons_of_mem _ hd)
    rw [List.map_cons, List.flatten_cons, List.flatten_cons, encode_append, fromUtf8Lossy_encode, hrest]

/-- Chunks that decode to the text are cut between characters: the decoded text would be
longer otherwise. -/
theorem isUtf8_of_flatten_eq : ∀ {chunks : List Bytes} {s : Str}, chunks.flatten = encode s →
    (chunks.map fromUtf8Lossy).flatten = s → ∀ c ∈ chunks, IsUtf8 c := by
  intro chunks
  induction chunks with
  | nil => intro s _ _ c hc; cases hc
  | cons c chunks ih =>
    intro s h heq
    rw [List.flatten_cons] at h
    rw [List.map_cons, List.flatten_cons] at heq
    rcases encode_cut s h.symm with ⟨⟨s₁, hc⟩, ⟨s₂, hrest⟩⟩ | ⟨t, rest, hcut, ht⟩
    · have hs : s = s₁ ++ s₂ := encode_injective (by rw [← h, hc, hrest, encode_append])
      rw [hc, fromUtf8Lossy_encode, hs] at heq
      exact List.forall_mem_cons.mpr ⟨⟨s₁, hc⟩, ih hrest (List.append_cancel_left heq)⟩
    · -- what comes after the chunk begins in the middle of a character
      have hlong := leads_flatten_lt hcut ht
      have hfirst := (leads_le_length c).1
      have hlen : leads c + leads chunks.flatten = s.length := by rw [← leads_append, h, leads_encode]
      have hs := congrArg List.length heq
      rw [List.length_append] at hs
      unfold fromUtf8Lossy at *
      omega

/-- **The chunks of a text decode to the text exactly when no cut goes through a
character.** -/
theorem flatten_fromUtf8Lossy_iff {chunks : List Bytes} (h : IsUtf8 chunks.flatten) :
    (chunks.map fromUtf8Lossy).flatten = fromUtf8Lossy chunks.flatten ↔ ∀ c ∈ chunks, IsUtf8 c := by
  obtain ⟨s, hs⟩ := h
  rw [hs, fromUtf8Lossy_encode]
  refine ⟨isUtf8_of_flatten_eq hs, fun hall => encode_injective ?_⟩
  rw [encode_flatten_fromUtf8Lossy hall, hs]

end Utf8

end Zeptoclaw

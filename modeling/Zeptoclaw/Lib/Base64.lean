import Zeptoclaw.Lib.Utf8
import Mathlib.Data.List.GetD

/-!
# Base64

The standard alphabet with padding. The decoder takes canonical texts only: padded, and
with no bits left over. It reads back what the encoder writes (`decode_encode`).
-/

namespace Zeptoclaw

namespace Base64

def alphabet : Str := "ABCDEFGHIJKLMNOPQRSTUVWXYZabcdefghijklmnopqrstuvwxyz0123456789+/".toList

/-- The character of six bits. -/
def symbol (n : ℕ) : Char := alphabet.getD n 'A'

/-- The six bits of a character. -/
def sextet (c : Char) : Option ℕ := alphabet.idxOf? c

def encode : Bytes → Str
  | [] => []
  | [x] => [symbol (x.toNat / 4), symbol (x.toNat % 4 * 16), '=', '=']
  | [x, y] =>
    [symbol (x.toNat / 4), symbol (x.toNat % 4 * 16 + y.toNat / 16), symbol (y.toNat % 16 * 4), '=']
  | x :: y :: z :: bytes =>
    symbol (x.toNat / 4) :: symbol (x.toNat % 4 * 16 + y.toNat / 16) :: symbol (y.toNat % 16 * 4 + z.toNat / 64) ::
      symbol (z.toNat % 64) :: encode bytes

/-- Two characters and two of padding. -/
def decodeOne (a b : Char) : Option Bytes :=
  match sextet a, sextet b with
  | some i, some j => if j % 16 = 0 then some [UInt8.ofNat (i * 4 + j / 16)] else none
  | _, _ => none

/-- Three characters and one of padding. -/
def decodeTwo (a b c : Char) : Option Bytes :=
  match sextet a, sextet b, sextet c with
  | some i, some j, some k =>
    if k % 4 = 0 then some [UInt8.ofNat (i * 4 + j / 16), UInt8.ofNat (j % 16 * 16 + k / 4)] else none
  | _, _, _ => none

/-- Four characters. -/
def decodeThree (a b c d : Char) : Option Bytes :=
  match sextet a, sextet b, sextet c, sextet d with
  | some i, some j, some k, some l =>
    some [UInt8.ofNat (i * 4 + j / 16), UInt8.ofNat (j % 16 * 16 + k / 4), UInt8.ofNat (k % 4 * 64 + l)]
  | _, _, _, _ => none

def decode : Str → Option Bytes
  | [] => some []
  | a :: b :: c :: d :: s =>
    if s = [] ∧ c = '=' ∧ d = '=' then decodeOne a b
    else if s = [] ∧ d = '=' then decodeTwo a b c
    else (decodeThree a b c d).bind fun front => (decode s).map (front ++ ·)
  | _ => none

theorem sextet_symbol {n : ℕ} (h : n < 64) : sextet (symbol n) = some n := by
  revert n
  decide +kernel

theorem symbol_mem (n : ℕ) : symbol n ∈ alphabet := by
  by_cases h : n < alphabet.length
  · rw [symbol, List.getD_eq_getElem _ _ h]
    exact List.getElem_mem h
  · rw [symbol, List.getD_eq_default _ _ (Nat.le_of_not_lt h)]
    decide

theorem symbol_ne_pad (n : ℕ) : symbol n ≠ '=' := by
  intro h
  have hmem := symbol_mem n
  rw [h] at hmem
  exact absurd hmem (by decide)

/-- The characters of an encoded text. -/
theorem mem_encode {c : Char} : ∀ {bytes : Bytes}, c ∈ encode bytes → c ∈ alphabet ∨ c = '=' := by
  intro bytes
  induction bytes using encode.induct with
  | case1 => intro h; cases h
  | case2 x =>
    intro h
    simp only [encode, List.mem_cons, List.not_mem_nil, or_false] at h
    obtain rfl | rfl | h | h := h
    · exact .inl (symbol_mem _)
    · exact .inl (symbol_mem _)
    · exact .inr h
    · exact .inr h
  | case3 x y =>
    intro h
    simp only [encode, List.mem_cons, List.not_mem_nil, or_false] at h
    obtain rfl | rfl | rfl | h := h
    · exact .inl (symbol_mem _)
    · exact .inl (symbol_mem _)
    · exact .inl (symbol_mem _)
    · exact .inr h
  | case4 x y z bytes ih =>
    intro h
    simp only [encode, List.mem_cons] at h
    obtain rfl | rfl | rfl | rfl | h := h
    · exact .inl (symbol_mem _)
    · exact .inl (symbol_mem _)
    · exact .inl (symbol_mem _)
    · exact .inl (symbol_mem _)
    · exact ih h

theorem ofNat_eq {x : UInt8} {n : ℕ} (h : n = x.toNat) : UInt8.ofNat n = x := by
  rw [h]
  exact UInt8.ofNat_toNat

/-- **The decoder reads back what the encoder writes.** -/
theorem decode_encode : ∀ bytes : Bytes, decode (encode bytes) = some bytes := by
  intro bytes
  induction bytes using encode.induct with
  | case1 => rfl
  | case2 x =>
    have hx := x.toNat_lt
    rw [encode, decode, if_pos ⟨rfl, rfl, rfl⟩, decodeOne, sextet_symbol (by omega), sextet_symbol (by omega)]
    dsimp only
    rw [if_pos (by omega), ofNat_eq (x := x) (by omega)]
  | case3 x y =>
    have hx := x.toNat_lt
    have hy := y.toNat_lt
    rw [encode, decode, if_neg fun h => symbol_ne_pad _ h.2.1, if_pos ⟨rfl, rfl⟩, decodeTwo, sextet_symbol (by omega),
      sextet_symbol (by omega), sextet_symbol (by omega)]
    dsimp only
    rw [if_pos (by omega), ofNat_eq (x := x) (by omega), ofNat_eq (x := y) (by omega)]
  | case4 x y z bytes ih =>
    have hx := x.toNat_lt
    have hy := y.toNat_lt
    have hz := z.toNat_lt
    rw [encode, decode, if_neg fun h => symbol_ne_pad _ h.2.2, if_neg fun h => symbol_ne_pad _ h.2, decodeThree,
      sextet_symbol (by omega), sextet_symbol (by omega), sextet_symbol (by omega), sextet_symbol (by omega), ih]
    dsimp only [Option.bind_some, Option.map_some]
    rw [ofNat_eq (x := x) (by omega), ofNat_eq (x := y) (by omega), ofNat_eq (x := z) (by omega)]
    rfl

end Base64

end Zeptoclaw

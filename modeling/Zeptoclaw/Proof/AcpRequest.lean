import Zeptoclaw.Proof.Encryption
import Zeptoclaw.Spec.AcpRequest
import Mathlib.Data.Nat.Bitwise

/-!
# Reading and parsing requests, and their tokens

In the comparison of tokens the difference of the lengths is folded into a byte, and a byte that is missing counts as
zero. `constantTimeEq_iff`: two texts are taken for equal exactly if one is the other with a multiple of 256 NUL
characters behind it. So a request may be accepted without the token (`token_equality_iff`).

The body is cut at an offset that the client chooses. `parseRequest_total_iff`: the parsing of
a request comes to an end, with a body of at most `Content-Length` bytes, exactly if the offset
fits in 64 bits and is at the end of a character, or behind the body.

The reading looks for the blank line in the bytes and parses no more than the headers, so that a
read may end anywhere in the blank line or in a character. `readLoop_whole`: whatever the reads of
a complete request are, the loop ends with all of it.
-/

namespace Zeptoclaw

open Text Utf8

/-! ## Tokens -/

/-- One text is the other with so many NUL characters behind it. -/
def PaddedBy (n : ℕ) (a b : Str) : Prop := a = b ++ List.replicate n '\x00' ∨ b = a ++ List.replicate n '\x00'

/-- The texts differ by a multiple of 256 NUL characters. -/
def WrapsAround (a b : Str) : Prop := ∃ k, PaddedBy (256 * (k + 1)) a b

/-- Some `Authorization` header carries the token. -/
def CarriesToken (headers : List (Str × Str)) (token : Str) : Prop :=
  ∃ header ∈ headers, eqIgnoreAsciiCase header.1 "authorization".toList = true ∧
    trim header.2 = "Bearer ".toList ++ token

/-! ## Bytes -/

theorem foldl_or_eq_zero {α : Type*} (f : α → UInt8) : ∀ (l : List α) (acc : UInt8),
    l.foldl (fun result i => result ||| f i) acc = 0 ↔ acc = 0 ∧ ∀ i ∈ l, f i = 0 := by
  intro l
  induction l with
  | nil => intro acc; simp
  | cons i l ih =>
    intro acc
    rw [List.foldl_cons, ih, UInt8.or_eq_zero_iff, List.forall_mem_cons, and_assoc]

/-- The lengths differ by nothing that a byte shows. -/
theorem ofNat_xor_eq_zero_iff (m n : ℕ) : UInt8.ofNat (m ^^^ n) = 0 ↔ m % 256 = n % 256 := by
  rw [← UInt8.toNat_inj, UInt8.toNat_ofNat', UInt8.toNat_zero, show (2 : ℕ) ^ 8 = 256 from rfl]
  have hmod : (m ^^^ n) % 256 = m % 256 ^^^ n % 256 := Nat.xor_mod_two_pow (n := 8)
  rw [hmod, Nat.xor_eq_zero_iff]

/-- What is missing counts as zero, so the longer one ends with zeros. -/
theorem getD_eq_iff {a b : Bytes} (hle : b.length ≤ a.length) :
    (∀ i < a.length, a[i]?.getD 0 = b[i]?.getD 0) ↔ a = b ++ List.replicate (a.length - b.length) 0 := by
  constructor
  · intro h
    refine List.ext_getElem (by simp; omega) fun i hi _ => ?_
    have hsame := h i hi
    rw [List.getElem?_eq_getElem hi, Option.getD_some] at hsame
    rw [hsame]
    by_cases hb : i < b.length
    · rw [List.getElem?_eq_getElem hb, Option.getD_some, List.getElem_append_left hb]
    · rw [List.getElem?_eq_none (by omega), Option.getD_none, List.getElem_append_right (by omega), List.getElem_replicate]
  · intro h i hi
    have hlen : a.length - b.length = a.length - b.length := rfl
    generalize a.length - b.length = n at h hlen
    subst h
    by_cases hb : i < b.length
    · rw [List.getElem?_append_left hb]
    · rw [List.length_append, List.length_replicate] at hi
      rw [List.getElem?_append_right (by omega), List.getElem?_replicate, if_pos (by omega), Option.getD_some,
        List.getElem?_eq_none (by omega), Option.getD_none]

theorem encode_replicate_nul (n : ℕ) : encode (List.replicate n '\x00') = List.replicate n 0 := by
  induction n with
  | zero => rfl
  | succ n ih =>
    have hnul : String.utf8EncodeChar '\x00' = [0] := by decide
    rw [List.replicate_succ, List.replicate_succ, encode, List.flatMap_cons, hnul]
    exact congrArg (0 :: ·) ih

theorem encode_padded_iff {a b : Str} {n : ℕ} :
    encode a = encode b ++ List.replicate n 0 ↔ a = b ++ List.replicate n '\x00' := by
  rw [← encode_replicate_nul, ← encode_append]
  exact encode_injective.eq_iff

/-! ## The comparison -/

theorem constantTimeEq_comm (a b : Str) : constantTimeEq a b = constantTimeEq b a := by
  unfold constantTimeEq
  simp only [Nat.xor_comm (encode a).length, Nat.max_comm (encode a).length,
    UInt8.xor_comm ((encode a)[_]?.getD 0)]

theorem constantTimeEq_of_le {a b : Str} (hle : (encode b).length ≤ (encode a).length) :
    constantTimeEq a b = true ↔ ∃ k, a = b ++ List.replicate (256 * k) '\x00' := by
  unfold constantTimeEq
  dsimp only
  rw [decide_eq_true_iff, foldl_or_eq_zero, ofNat_xor_eq_zero_iff, Nat.max_eq_left hle]
  simp only [List.mem_range, UInt8.xor_eq_zero_iff]
  rw [getD_eq_iff hle]
  constructor
  · rintro ⟨hmod, hbytes⟩
    have hdvd : 256 ∣ (encode a).length - (encode b).length := by omega
    obtain ⟨k, hk⟩ := hdvd
    rw [hk] at hbytes
    exact ⟨k, encode_padded_iff.mp hbytes⟩
  · rintro ⟨k, hk⟩
    have hbytes := encode_padded_iff.mpr hk
    have hlen := congrArg List.length hbytes
    rw [List.length_append, List.length_replicate] at hlen
    have hdiff : (encode a).length - (encode b).length = 256 * k := by omega
    rw [hdiff]
    exact ⟨by omega, hbytes⟩

theorem paddedBy_zero {a b : Str} : PaddedBy 0 a b ↔ a = b := by
  unfold PaddedBy
  rw [List.replicate_zero, List.append_nil, List.append_nil, eq_comm (a := b), or_self]

/-- Only the longer text has anything behind the other. -/
theorem paddedBy_of_le {a b : Str} (hle : (encode b).length ≤ (encode a).length) (n : ℕ) :
    PaddedBy n a b ↔ a = b ++ List.replicate n '\x00' := by
  refine ⟨?_, .inl⟩
  rintro (hab | hba)
  · exact hab
  · have hlen := congrArg List.length (encode_padded_iff.mpr hba)
    rw [List.length_append, List.length_replicate] at hlen
    obtain rfl : n = 0 := by omega
    rw [List.replicate_zero, List.append_nil] at hba ⊢
    exact hba.symm

/-- What the comparison takes for equal. -/
theorem constantTimeEq_iff {a b : Str} : constantTimeEq a b = true ↔ ∃ k, PaddedBy (256 * k) a b := by
  rcases Nat.le_total (encode b).length (encode a).length with hle | hle
  · rw [constantTimeEq_of_le hle]
    exact exists_congr fun k => (paddedBy_of_le hle (256 * k)).symm
  · rw [constantTimeEq_comm, constantTimeEq_of_le hle]
    exact exists_congr fun k => (paddedBy_of_le hle (256 * k)).symm.trans or_comm

/-- Equal texts are taken for equal, and so are those that wrap around. -/
theorem constantTimeEq_cases {a b : Str} : constantTimeEq a b = true ↔ a = b ∨ WrapsAround a b := by
  rw [constantTimeEq_iff, ← paddedBy_zero]
  constructor
  · rintro ⟨k, hk⟩
    cases k with
    | zero => exact .inl hk
    | succ k => exact .inr ⟨k, hk⟩
  · rintro (hzero | ⟨k, hk⟩)
    · exact ⟨0, hzero⟩
    · exact ⟨k + 1, hk⟩

theorem WrapsAround.ne {a b : Str} (h : WrapsAround a b) : a ≠ b := by
  rintro rfl
  obtain ⟨k, hk⟩ := h
  have hlen := congrArg List.length ((paddedBy_of_le le_rfl _).mp hk)
  rw [List.length_append, List.length_replicate] at hlen
  omega

theorem validateAuth_iff {headers : List (Str × Str)} {token : Str} : validateAuth headers (some token) = true ↔
    ∃ header ∈ headers, eqIgnoreAsciiCase header.1 "authorization".toList = true ∧
      (trim header.2 = "Bearer ".toList ++ token ∨ WrapsAround (trim header.2) ("Bearer ".toList ++ token)) := by
  unfold validateAuth
  dsimp only
  rw [List.any_eq_true]
  simp only [Bool.and_eq_true, constantTimeEq_cases]

/-- **Tokens.** The comparison is right about two texts exactly if they do not differ by a multiple of 256 NULs; if a request
gets in, it carries the token, exactly if it does anyway or none of its headers differs from it so. -/
theorem token_equality_iff (a b : Str) (headers : List (Str × Str)) (token : Str) :
    ((constantTimeEq a b = true ↔ a = b) ↔ ¬ WrapsAround a b) ∧
      ((validateAuth headers (some token) = true → CarriesToken headers token) ↔
        (CarriesToken headers token ∨ ∀ header ∈ headers, eqIgnoreAsciiCase header.1 "authorization".toList = true →
          ¬ WrapsAround (trim header.2) ("Bearer ".toList ++ token))) := by
  constructor
  · rw [constantTimeEq_cases]
    exact ⟨fun h hwrap => hwrap.ne (h.mp (.inr hwrap)), fun h => ⟨fun hor => hor.resolve_right h, .inl⟩⟩
  · rw [validateAuth_iff]
    constructor
    · intro h
      by_cases hcarries : CarriesToken headers token
      · exact .inl hcarries
      · exact .inr fun header hmem hname hwrap => hcarries (h ⟨header, hmem, hname, .inr hwrap⟩)
    · rintro h ⟨header, hmem, hname, heq | hwrap⟩
      · exact ⟨header, hmem, hname, heq⟩
      · exact h.resolve_right fun hno => hno header hmem hname hwrap

/-- NUL is no white space. -/
theorem trim_padded {c : Char} (hc : isWhitespace c = false) (s : Str) (n : ℕ) :
    trim (c :: s ++ List.replicate (n + 1) '\x00') = c :: s ++ List.replicate (n + 1) '\x00' := by
  have hstart : trimStart (c :: s ++ List.replicate (n + 1) '\x00') = c :: s ++ List.replicate (n + 1) '\x00' := by
    rw [List.cons_append, trimStart, List.dropWhile_cons_of_neg (by rw [hc]; exact Bool.false_ne_true)]
  unfold trim
  rw [hstart, List.replicate_succ', ← List.append_assoc, trimEnd]
  exact List.rdropWhile_concat_neg _ _ _ (by decide)

/-- A token with 256 NUL characters behind it is accepted for the token without them. -/
theorem token_wraps :
    constantTimeEq ("x".toList ++ List.replicate 256 '\x00') "x".toList = true ∧
      "x".toList ++ List.replicate 256 '\x00' ≠ "x".toList ∧
      validateAuth [("Authorization".toList, "Bearer x".toList ++ List.replicate 256 '\x00')] (some "x".toList) = true ∧
      ¬ CarriesToken [("Authorization".toList, "Bearer x".toList ++ List.replicate 256 '\x00')] "x".toList := by
  have htrim : trim ("Bearer x".toList ++ List.replicate 256 '\x00') = "Bearer x".toList ++ List.replicate 256 '\x00' :=
    trim_padded (c := 'B') (by decide) "earer x".toList 255
  have hwrap : ∀ s : Str, WrapsAround (s ++ List.replicate 256 '\x00') s := fun s => ⟨0, .inl rfl⟩
  have hbearer : "Bearer ".toList ++ "x".toList = "Bearer x".toList := rfl
  refine ⟨constantTimeEq_cases.mpr (.inr (hwrap _)), (hwrap _).ne, ?_, ?_⟩
  · refine validateAuth_iff.mpr ⟨_, List.mem_singleton_self _, by decide, .inr ?_⟩
    rw [htrim, hbearer]
    exact hwrap _
  · rintro ⟨header, hmem, -, heq⟩
    obtain rfl := List.mem_singleton.mp hmem
    dsimp only at heq
    rw [htrim, hbearer] at heq
    exact (hwrap _).ne heq

/-! ## Parsing -/

section Parsing

variable {toUppercase : Str → Str}

theorem fromUtf8_eq_some_iff {raw : Bytes} {s : Str} : fromUtf8 raw = some s ↔ raw = encode s := by
  refine ⟨fun h => ?_, fun h => by rw [h, fromUtf8_encode]⟩
  unfold fromUtf8 at h
  dsimp only at h
  split at h
  · rename_i heq
    rw [← Option.some.inj h, heq]
  · exact nomatch h

/-- The parts of a request: the header section, what is behind the blank line, and what the header
section says. -/
structure RequestParts (toUppercase : Str → Str) (raw : Bytes) (headerSection rest : Str) (req : ParsedRequest) : Prop where
  text : raw = encode (headerSection ++ blankLine ++ rest)
  first : cutFirst blankLine (headerSection ++ blankLine ++ rest) = some (headerSection, rest)
  parsed : parseHeaderSection toUppercase headerSection = some req

/-- The cut of the body can be made: its offset fits in 64 bits, and is no byte within a character. -/
def BodyFits (headerSection rest : Str) (contentLen : ℕ) : Prop :=
  byteLen headerSection + 4 + contentLen < 2 ^ 64 ∧ (byteLen rest ≤ contentLen ∨ isCharBoundary rest contentLen = true)

theorem byteLen_blankLine : byteLen blankLine = 4 := by decide

/-- The body is a slice of what is behind the blank line. -/
theorem slice_body (headerSection rest : Str) (n : ℕ) :
    slice (headerSection ++ blankLine ++ rest) (byteLen headerSection + 4)
        (min (byteLen headerSection + 4 + n) (byteLen (headerSection ++ blankLine ++ rest))) =
      (splitAtByte (min n (byteLen rest)) rest).map Prod.fst := by
  have hstop : min (byteLen headerSection + 4 + n) (byteLen (headerSection ++ blankLine ++ rest)) =
      byteLen (headerSection ++ blankLine) + min n (byteLen rest) := by
    rw [byteLen_append, byteLen_append, byteLen_blankLine]
    omega
  have hstart : byteLen (headerSection ++ blankLine) = byteLen headerSection + 4 := by
    rw [byteLen_append, byteLen_blankLine]
  rw [hstop, ← hstart]
  ext body
  rw [slice_eq_some, Option.map_eq_some_iff]
  constructor
  · rintro ⟨pre, post, htext, hpre, hlen⟩
    rw [List.append_assoc pre] at htext
    obtain ⟨hfront, hrest⟩ := eq_of_byteLen_eq htext hpre.symm
    rw [byteLen_append, hpre] at hlen
    exact ⟨(body, post), splitAtByte_eq_some.mpr ⟨hrest, by omega⟩, rfl⟩
  · rintro ⟨⟨body', post⟩, hsplit, rfl⟩
    obtain ⟨hrest, hlen⟩ := splitAtByte_eq_some.mp hsplit
    refine ⟨headerSection ++ blankLine, post, by simp only [hrest, List.append_assoc], rfl, ?_⟩
    rw [byteLen_append, hlen]

/-- The parsing of a request whose parts are known. -/
theorem parseRequest_of_parts {raw : Bytes} {headerSection rest : Str} {req : ParsedRequest}
    (h : RequestParts toUppercase raw headerSection rest req) :
    parseRequest toUppercase raw =
      if byteLen headerSection + 4 + contentLength req.headers < 2 ^ 64 then
        (splitAtByte (min (contentLength req.headers) (byteLen rest)) rest).map fun cut => some { req with body := cut.1 }
      else none := by
  have hutf8 := fromUtf8_eq_some_iff.mpr h.text
  have hfirst := h.first
  have hslice := slice_body headerSection rest (contentLength req.headers)
  generalize headerSection ++ blankLine ++ rest = s at hutf8 hfirst hslice
  unfold parseRequest
  rw [hutf8]
  dsimp only
  rw [hfirst]
  dsimp only
  rw [h.parsed]
  dsimp only
  rw [hslice, Option.map_map]
  rfl

/-- Any other bytes are no request. -/
theorem parseRequest_cases (toUppercase : Str → Str) (raw : Bytes) :
    parseRequest toUppercase raw = some none ∧
        (∀ headerSection rest req, ¬ RequestParts toUppercase raw headerSection rest req) ∨
      ∃ headerSection rest req, RequestParts toUppercase raw headerSection rest req := by
  cases hutf8 : fromUtf8 raw with
  | none =>
    refine .inl ⟨by simp [parseRequest, hutf8], fun headerSection rest req h => ?_⟩
    rw [fromUtf8_eq_some_iff.mpr h.text] at hutf8
    exact nomatch hutf8
  | some s =>
    have hraw : raw = encode s := fromUtf8_eq_some_iff.mp hutf8
    cases hcut : cutFirst blankLine s with
    | none =>
      refine .inl ⟨by simp [parseRequest, hutf8, hcut], fun headerSection rest req h => ?_⟩
      rw [encode_injective (hraw.symm.trans h.text), h.first] at hcut
      exact nomatch hcut
    | some cut =>
      obtain ⟨headerSection, rest⟩ := cut
      have htext := (cutFirst_some hcut).text
      cases hreq : parseHeaderSection toUppercase headerSection with
      | none =>
        refine .inl ⟨by simp [parseRequest, hutf8, hcut, hreq], fun headerSection' rest' req h => ?_⟩
        have hsame := h.first
        rw [← encode_injective (hraw.symm.trans h.text), hcut] at hsame
        obtain ⟨rfl, -⟩ := Prod.mk.inj (Option.some.inj hsame)
        rw [h.parsed] at hreq
        exact nomatch hreq
      | some req =>
        refine .inr ⟨headerSection, rest, req, by rw [hraw, htext], ?_, hreq⟩
        rw [← htext]
        exact hcut

theorem RequestParts.unique {raw : Bytes} {headerSection rest headerSection' rest' : Str} {req req' : ParsedRequest}
    (h : RequestParts toUppercase raw headerSection rest req) (h' : RequestParts toUppercase raw headerSection' rest' req') :
    headerSection = headerSection' ∧ rest = rest' ∧ req = req' := by
  have hfirst := h.first
  rw [encode_injective (h.text.symm.trans h'.text), h'.first] at hfirst
  obtain ⟨rfl, rfl⟩ := Prod.mk.inj (Option.some.inj hfirst)
  exact ⟨rfl, rfl, Option.some.inj (h.parsed.symm.trans h'.parsed)⟩

/-- The cut at the end of the body, or at the length if that is less. -/
theorem split_body_iff {rest : Str} {n : ℕ} :
    (∃ cut, splitAtByte (min n (byteLen rest)) rest = some cut) ↔ byteLen rest ≤ n ∨ isCharBoundary rest n = true := by
  rcases Nat.lt_or_ge n (byteLen rest) with hlt | hge
  · rw [Nat.min_eq_left hlt.le, ← Option.isSome_iff_exists]
    exact ⟨.inr, fun h => h.resolve_left (by omega)⟩
  · rw [Nat.min_eq_right hge]
    have hwhole := splitAtByte_byteLen rest []
    rw [List.append_nil] at hwhole
    exact ⟨fun _ => .inl hge, fun _ => ⟨_, hwhole⟩⟩

/-- **Parsing.** No slice is out of range, and no body is longer than announced, exactly if the body that a request announces
fits: the sum of the lengths does not overflow, and the announced one ends with a character or reaches the end. -/
theorem parseRequest_total_iff (toUppercase : Str → Str) (raw : Bytes) :
    (∃ result, parseRequest toUppercase raw = some result ∧
        ∀ req, result = some req → byteLen req.body ≤ contentLength req.headers) ↔
      ∀ headerSection rest req, RequestParts toUppercase raw headerSection rest req →
        BodyFits headerSection rest (contentLength req.headers) := by
  rcases parseRequest_cases toUppercase raw with ⟨hnone, hno⟩ | ⟨headerSection, rest, req, hparts⟩
  · rw [hnone]
    exact ⟨fun _ headerSection rest req h => absurd h (hno headerSection rest req),
      fun _ => ⟨none, rfl, fun _ h => nomatch h⟩⟩
  have hall : (∀ headerSection' rest' req', RequestParts toUppercase raw headerSection' rest' req' →
      BodyFits headerSection' rest' (contentLength req'.headers)) ↔
        BodyFits headerSection rest (contentLength req.headers) := by
    refine ⟨fun h => h _ _ _ hparts, fun h headerSection' rest' req' hparts' => ?_⟩
    obtain ⟨rfl, rfl, rfl⟩ := hparts.unique hparts'
    exact h
  rw [hall, BodyFits, ← split_body_iff, parseRequest_of_parts hparts]
  constructor
  · rintro ⟨result, hresult, -⟩
    split at hresult
    · rename_i hlt
      obtain ⟨cut, hcut, -⟩ := Option.map_eq_some_iff.mp hresult
      exact ⟨hlt, cut, hcut⟩
    · exact nomatch hresult
  · rintro ⟨hlt, cut, hcut⟩
    rw [if_pos hlt, hcut]
    refine ⟨_, rfl, fun req' hreq' => ?_⟩
    obtain rfl := Option.some.inj hreq'
    rw [(splitAtByte_eq_some.mp hcut).2]
    exact Nat.min_le_left _ _

/-- A length of 1 in front of a character of two bytes, and the greatest length. -/
theorem parseRequest_panics :
    parseRequest id (encode "POST / HTTP/1.1\r\nContent-Length: 1\r\n\r\né".toList) = none ∧
      parseRequest id (encode "POST / HTTP/1.1\r\nContent-Length: 18446744073709551615\r\n\r\n".toList) = none := by
  have hshort : RequestParts id (encode "POST / HTTP/1.1\r\nContent-Length: 1\r\n\r\né".toList)
      "POST / HTTP/1.1\r\nContent-Length: 1".toList "é".toList
      ⟨"POST".toList, "/".toList, [("Content-Length".toList, "1".toList)], []⟩ :=
    ⟨congrArg encode rfl, by rfl, by rfl⟩
  have hlong : RequestParts id (encode "POST / HTTP/1.1\r\nContent-Length: 18446744073709551615\r\n\r\n".toList)
      "POST / HTTP/1.1\r\nContent-Length: 18446744073709551615".toList []
      ⟨"POST".toList, "/".toList, [("Content-Length".toList, "18446744073709551615".toList)], []⟩ :=
    ⟨congrArg encode rfl, by rfl, by rfl⟩
  constructor
  · rw [parseRequest_of_parts hshort]
    decide
  · have hlen : contentLength [("Content-Length".toList, "18446744073709551615".toList)] = 2 ^ 64 - 1 := by rfl
    rw [parseRequest_of_parts hlong, hlen, if_neg (by omega)]

end Parsing

/-! ## The blank line in the bytes -/

theorem lossyFrom_encode_append (s : Str) (bytes : Bytes) :
    lossyFrom none (encode s ++ bytes) = s ++ lossyFrom none bytes := by
  induction s with
  | nil => rfl
  | cons c s ih =>
    rw [encode, List.flatMap_cons, List.append_assoc, lossyFrom_encodeChar]
    exact congrArg (c :: ·) ih

/-- Where the bytes of the blank line stand in an encoded text, the blank line stands in the text. -/
theorem blankLine_of_bytes {s : Str} {a b : Bytes} (h : encode s = a ++ encode blankLine ++ b) :
    OccursAt s blankLine a.length := by
  rw [List.append_assoc] at h
  rcases encode_cut s h with ⟨⟨pre, rfl⟩, -⟩ | ⟨t, rest, hcut, ht⟩
  · refine ⟨pre, lossyFrom none b, ?_, (length_encode pre).symm⟩
    rw [← fromUtf8Lossy_encode s, h, fromUtf8Lossy, lossyFrom_encode_append, lossyFrom_encode_append, List.append_assoc]
  · -- a carriage return continues no character
    have hlead : encode blankLine = 13 :: [10, 13, 10] := by decide
    rw [hlead, List.cons_append] at hcut
    obtain rfl := (List.cons.inj hcut).1
    exact absurd ht (by decide)

theorem length_encode_blankLine : (encode blankLine).length = 4 := by decide

/-- What a window of four bytes is. -/
theorem window_iff {data : Bytes} {i : ℕ} :
    (data.drop i).take 4 = encode blankLine ↔ ∃ a b, data = a ++ encode blankLine ++ b ∧ a.length = i := by
  constructor
  · intro h
    have hlen := congrArg List.length h
    rw [length_encode_blankLine, List.length_take, List.length_drop] at hlen
    refine ⟨data.take i, (data.drop i).drop 4, ?_, by rw [List.length_take]; omega⟩
    rw [← h, List.append_assoc, List.take_append_drop, List.take_append_drop]
  · rintro ⟨a, b, rfl, rfl⟩
    rw [List.append_assoc, List.drop_left, ← length_encode_blankLine, List.take_left]

section Reading

variable {toUppercase : Str → Str} {headerSection body : Str} {req : ParsedRequest} {buf : Bytes}

/-- In what has arrived of a request the blank line is found as soon as all of it is there. -/
theorem findHeaderEnd_eq (hfirst : cutFirst blankLine (headerSection ++ blankLine) = some (headerSection, []))
    (hbuf : buf <+: encode (headerSection ++ blankLine ++ body)) :
    findHeaderEnd buf = if byteLen headerSection + 4 ≤ buf.length then some (byteLen headerSection) else none := by
  obtain ⟨more, hmore⟩ := hbuf
  have hcut : FirstCut blankLine (headerSection ++ blankLine ++ body) headerSection body := by
    have happend := cutFirst_some (cutFirst_append (d := '\r') (p := "\n\r\n".toList) hfirst body)
    exact happend
  -- no window before the blank line is one
  have hbefore : ∀ i, (buf.drop i).take 4 = encode blankLine → byteLen headerSection ≤ i := by
    intro i hi
    obtain ⟨a, b, rfl, rfl⟩ := window_iff.mp hi
    rw [List.append_assoc] at hmore
    exact hcut.le (blankLine_of_bytes hmore.symm)
  unfold findHeaderEnd
  split
  · rename_i hlong
    rw [List.find?_range_eq_some]
    refine ⟨?_, List.mem_range.mpr (by omega), fun j hj => ?_⟩
    · rw [decide_eq_true_iff, window_iff]
      rw [encode_append, encode_append] at hmore
      have hpre : encode headerSection ++ encode blankLine <+: buf := by
        refine List.prefix_of_prefix_length_le (List.prefix_append _ (encode body)) ⟨more, hmore⟩ ?_
        rw [List.length_append, length_encode, length_encode_blankLine]
        exact hlong
      obtain ⟨rest, hrest⟩ := hpre
      exact ⟨encode headerSection, rest, hrest.symm, length_encode headerSection⟩
    · rw [Bool.not_eq_true', decide_eq_false_iff_not]
      intro hwindow
      exact absurd (hbefore j hwindow) (by omega)
  · rename_i hshort
    rw [List.find?_range_eq_none]
    intro i hi
    rw [Bool.not_eq_true', decide_eq_false_iff_not]
    intro hwindow
    have := hbefore i hwindow
    omega

/-! ## The loop -/

/-- A request that is complete. -/
structure CompleteRequest (toUppercase : Str → Str) (headerSection body : Str) (req : ParsedRequest) : Prop where
  first : cutFirst blankLine (headerSection ++ blankLine) = some (headerSection, [])
  parsed : parseHeaderSection toUppercase headerSection = some req
  length : byteLen body = contentLength req.headers
  size : byteLen headerSection + 4 + byteLen body ≤ maxRequestBytes

theorem CompleteRequest.parts (h : CompleteRequest toUppercase headerSection body req) (rest : Str) :
    RequestParts toUppercase (encode (headerSection ++ blankLine ++ rest)) headerSection rest req := by
  have happend := cutFirst_append (d := '\r') (p := "\n\r\n".toList) h.first rest
  exact ⟨rfl, happend, h.parsed⟩

theorem CompleteRequest.fits (h : CompleteRequest toUppercase headerSection body req) :
    byteLen headerSection + 4 + contentLength req.headers < 2 ^ 64 := by
  have hsize := h.size
  rw [h.length, maxRequestBytes] at hsize
  omega

theorem length_request (headerSection body : Str) :
    (encode (headerSection ++ blankLine ++ body)).length = byteLen headerSection + 4 + byteLen body := by
  rw [length_encode, byteLen_append, byteLen_append, byteLen_blankLine]

/-- The loop stops when the whole request is in the buffer. -/
theorem stopsReading_eq (h : CompleteRequest toUppercase headerSection body req)
    (hbuf : buf <+: encode (headerSection ++ blankLine ++ body)) :
    stopsReading toUppercase buf = some (decide ((encode (headerSection ++ blankLine ++ body)).length ≤ buf.length)) := by
  rw [stopsReading, findHeaderEnd_eq h.first hbuf, length_request]
  split
  · rename_i heq
    split at heq
    · exact nomatch heq
    · rw [decide_eq_false (by omega)]
  · rename_i hend heq
    split at heq
    · rename_i hlong
      obtain rfl := Option.some.inj heq
      have hhead : buf.take (byteLen headerSection + 4) = encode (headerSection ++ blankLine ++ []) := by
        obtain ⟨more, hmore⟩ := hbuf
        have htake := congrArg (List.take (byteLen headerSection + 4)) hmore
        have hlen : byteLen headerSection + 4 = (encode (headerSection ++ blankLine)).length := by
          rw [length_encode, byteLen_append, byteLen_blankLine]
        rw [List.take_append_of_le_length hlong, encode_append _ body, hlen, List.take_left] at htake
        rw [hlen, htake, List.append_nil]
      rw [hhead, parseRequest_of_parts (h.parts []), if_pos h.fits]
      have hnil : splitAtByte (min (contentLength req.headers) (byteLen [])) [] = some ([], []) := by
        rw [byteLen_nil, Nat.min_zero]
        rfl
      rw [hnil, Option.map_some, Option.map_some, h.length]
      congr 1
      rw [decide_eq_decide]
      dsimp only
      omega
    · exact nomatch heq

/-- The loop goes on with a request of which a part is in the buffer. -/
theorem readLoop_received (h : CompleteRequest toUppercase headerSection body req) (later : List ReadEvent) :
    ∀ {reads : List Bytes} {buf : Bytes}, buf ++ reads.flatten = encode (headerSection ++ blankLine ++ body) →
      reads ≠ [] → (∀ r ∈ reads, r ≠ []) →
      readLoop toUppercase buf (reads.map .read ++ later) = .received (encode (headerSection ++ blankLine ++ body)) := by
  have hsize := h.size
  rw [← length_request] at hsize
  generalize hraw : encode (headerSection ++ blankLine ++ body) = raw at hsize
  intro reads
  induction reads with
  | nil => exact fun _ hne => absurd rfl hne
  | cons r reads ih =>
    intro buf hflat _ hne
    obtain ⟨b, bytes, rfl⟩ := List.exists_cons_of_ne_nil (hne r List.mem_cons_self)
    have hlen := congrArg List.length hflat
    rw [List.flatten_cons, List.length_append, List.length_append, List.length_cons] at hlen
    have htake : (b :: bytes).take (maxRequestBytes - buf.length) = b :: bytes :=
      List.take_of_length_le (by rw [List.length_cons]; omega)
    rw [List.flatten_cons, ← List.append_assoc] at hflat
    have hpre : buf ++ b :: bytes <+: encode (headerSection ++ blankLine ++ body) := ⟨reads.flatten, by rw [hraw, hflat]⟩
    rw [List.map_cons, List.cons_append, readLoop, if_neg (by omega)]
    dsimp only
    rw [htake, stopsReading_eq h hpre, hraw]
    by_cases hdone : raw.length ≤ (buf ++ b :: bytes).length
    · rw [decide_eq_true hdone]
      dsimp only
      rw [hraw] at hpre
      rw [hpre.eq_of_length_le hdone]
    · rw [decide_eq_false hdone]
      refine ih hflat ?_ fun r hr => hne r (List.mem_cons_of_mem _ hr)
      rintro rfl
      rw [List.flatten_nil, List.append_nil] at hflat
      exact hdone (hflat ▸ Nat.le_refl _)

/-- **Reading.** Whatever reads a complete request comes in, the loop ends with the whole of it, and it is parsed with its
body. -/
theorem readLoop_whole (h : CompleteRequest toUppercase headerSection body req) {reads : List Bytes}
    (hne : ∀ r ∈ reads, r ≠ []) (hreads : reads.flatten = encode (headerSection ++ blankLine ++ body))
    (later : List ReadEvent) :
    readLoop toUppercase [] (reads.map .read ++ later) = .received (encode (headerSection ++ blankLine ++ body)) ∧
      parseRequest toUppercase (encode (headerSection ++ blankLine ++ body)) = some (some { req with body }) := by
  constructor
  · refine readLoop_received h later (by rw [List.nil_append, hreads]) ?_ hne
    rintro rfl
    have hlen := congrArg List.length hreads
    rw [length_request, List.flatten_nil, List.length_nil] at hlen
    omega
  · have hbody : splitAtByte (byteLen body) body = some (body, []) := by
      have hwhole := splitAtByte_byteLen body []
      rwa [List.append_nil] at hwhole
    rw [parseRequest_of_parts (h.parts body), if_pos h.fits, ← h.length, Nat.min_self, hbody]
    rfl

/-- A request in three reads: one ends in the blank line, one in a character. -/
theorem readLoop_whole_split :
    readLoop id [] ([(encode "POST / HTTP/1.1\r\nContent-Length: 2\r\n\r\né".toList).take 36,
        ((encode "POST / HTTP/1.1\r\nContent-Length: 2\r\n\r\né".toList).drop 36).take 3,
        (encode "POST / HTTP/1.1\r\nContent-Length: 2\r\n\r\né".toList).drop 39].map .read ++ []) =
          .received (encode "POST / HTTP/1.1\r\nContent-Length: 2\r\n\r\né".toList) ∧
      parseRequest id (encode "POST / HTTP/1.1\r\nContent-Length: 2\r\n\r\né".toList) =
        some (some ⟨"POST".toList, "/".toList, [("Content-Length".toList, "2".toList)], "é".toList⟩) := by
  have hcomplete : CompleteRequest id "POST / HTTP/1.1\r\nContent-Length: 2".toList "é".toList
      ⟨"POST".toList, "/".toList, [("Content-Length".toList, "2".toList)], []⟩ :=
    ⟨by rfl, by rfl, by decide, by decide⟩
  exact readLoop_whole hcomplete (by decide) (by decide) []

end Reading

end Zeptoclaw

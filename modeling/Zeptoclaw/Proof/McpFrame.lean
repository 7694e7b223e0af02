import Zeptoclaw.Proof.AcpRequest
import Zeptoclaw.Proof.DiffRender
import Zeptoclaw.Proof.EditNormalize
import Zeptoclaw.Proof.Encryption
import Zeptoclaw.Proof.Mcp

/-!
# Frames of the client

* `readFrames_bytes`: a stream of frames, with whatever other headers, is read back body by body, up
  to the byte; what the client writes is such a frame.
* `readFrame_runStdio`: the server of the same program writes bare lines. Whatever it is sent, the
  client's transport accepts nothing that it answers.
-/

namespace Zeptoclaw

open Text Utf8

/-! ## Lines of bytes -/

theorem readContentLength_line {l : Bytes} (h : (10 : UInt8) ∉ l) (len : Option ℕ) (rest : Bytes) : ∀ acc : Bytes,
    readContentLength len acc (l ++ 10 :: rest) =
      match headerLine len (acc ++ l ++ [10]) with
      | .error e => .error e
      | .ok none =>
        match len with
        | some n => .ok (n, rest)
        | none => .error "MCP server response missing Content-Length header".toList
      | .ok (some len) => readContentLength len [] rest := by
  induction l with
  | nil =>
    intro acc
    rw [List.nil_append, readContentLength.eq_def, List.append_nil]
    exact if_pos rfl
  | cons b l ih =>
    intro acc
    have hb : b ≠ 10 := fun heq => h (heq ▸ List.mem_cons_self)
    have hstep : readContentLength len acc (b :: (l ++ 10 :: rest)) = readContentLength len (acc ++ [b]) (l ++ 10 :: rest) := by
      rw [readContentLength.eq_def]
      exact if_neg hb
    rw [List.cons_append, hstep, ih fun hmem => h (List.mem_cons_of_mem b hmem), List.append_assoc acc [b] l,
      List.singleton_append]

/-- White space in front of the newline, which ends a header line: `\n` or `\r\n`. -/
def LineEnd (w : Str) : Prop := w.all isWhitespace = true ∧ '\n' ∉ w

theorem trim_append_white {t : Str} (h : t.all isWhitespace = true) (s : Str) : trim (s ++ t) = trim s := by
  unfold trim trimStart
  rw [List.dropWhile_append]
  split
  · next hempty =>
    rw [List.isEmpty_iff] at hempty
    have hnil : t.dropWhile isWhitespace = [] := List.dropWhile_eq_nil_iff.mpr (List.all_eq_true.mp h)
    rw [hempty, hnil]
  · exact trimEnd_append_white h _

/-- A header that does not give the length. -/
def OtherHeader (header : Str) : Prop :=
  '\n' ∉ header ∧ trim header ≠ [] ∧ ¬ "Content-Length:".toList <+: trim header

/-- A header line of the stream. -/
def headerBytes (header w : Str) : Bytes := encode (header ++ w ++ ['\n'])

theorem headerBytes_eq (header w : Str) : headerBytes header w = encode (header ++ w) ++ [10] := encode_append _ _

theorem headerLine_encode (len : Option ℕ) (s : Str) :
    headerLine len (encode s) =
      if trim s = [] then .ok none
      else if "Content-Length:".toList.isPrefixOf (trim s) then
        match parseUnsigned (2 ^ 64) (trim ((trim s).drop "Content-Length:".length)) with
        | some n => .ok (some (some n))
        | none => .error ("Invalid Content-Length value: ".toList ++
            parseIntErrorText (trim ((trim s).drop "Content-Length:".length)))
      else .ok (some len) := by
  unfold headerLine
  split
  case h_1 hnone =>
    rw [fromUtf8_encode] at hnone
    cases hnone
  case h_2 text htext =>
    rw [fromUtf8_encode] at htext
    cases htext
    rfl

theorem trim_header {header w : Str} (hw : LineEnd w) : trim (header ++ w ++ ['\n']) = trim header := by
  rw [trim_append_white (by decide), trim_append_white hw.1]

/-- A header line in front of the stream. -/
theorem readContentLength_headerBytes {header w : Str} (hheader : '\n' ∉ header) (hw : LineEnd w) (len : Option ℕ)
    (rest : Bytes) :
    readContentLength len [] (headerBytes header w ++ rest) =
      match headerLine len (encode (header ++ w ++ ['\n'])) with
      | .error e => .error e
      | .ok none =>
        match len with
        | some n => .ok (n, rest)
        | none => .error "MCP server response missing Content-Length header".toList
      | .ok (some len) => readContentLength len [] rest := by
  have hnot : (10 : UInt8) ∉ encode (header ++ w) := fun hmem => by
    rcases List.mem_append.mp (newline_mem_encode hmem) with h | h
    · exact hheader h
    · exact hw.2 h
  rw [headerBytes_eq, List.append_assoc, List.singleton_append, readContentLength_line hnot, List.nil_append,
    ← headerBytes_eq, headerBytes]

theorem readContentLength_other {header w : Str} (h : OtherHeader header) (hw : LineEnd w) (len : Option ℕ) (rest : Bytes) :
    readContentLength len [] (headerBytes header w ++ rest) = readContentLength len [] rest := by
  have hprefix : ("Content-Length:".toList.isPrefixOf (trim header)) = false :=
    Bool.eq_false_iff.mpr fun hp => h.2.2 (List.isPrefixOf_iff_prefix.mp hp)
  rw [readContentLength_headerBytes h.1 hw, headerLine_encode, trim_header hw, if_neg h.2.1, hprefix]
  rfl

theorem readContentLength_others {headers : List Str} {w : Str} (h : ∀ header ∈ headers, OtherHeader header)
    (hw : LineEnd w) (len : Option ℕ) (rest : Bytes) :
    readContentLength len [] (headers.flatMap (headerBytes · w) ++ rest) = readContentLength len [] rest := by
  induction headers with
  | nil => rfl
  | cons header headers ih =>
    obtain ⟨hheader, hheaders⟩ := List.forall_mem_cons.mp h
    rw [List.flatMap_cons, List.append_assoc, readContentLength_other hheader hw, ih hheaders]

/-! ## Frames -/

def crEnd : Str := ['\r']

theorem lineEnd_crEnd : LineEnd crEnd := ⟨by decide, by decide⟩

/-- The header with the length. -/
def lengthHeader (n : ℕ) : Str := "Content-Length: ".toList ++ (toString n).toList

theorem lengthHeader_text (n : ℕ) : '\n' ∉ lengthHeader n := by
  unfold lengthHeader
  rw [List.mem_append]
  rintro (h | h)
  · exact absurd h (by decide)
  · exact absurd (isDigit_of_mem_toString h) (by decide)

theorem trimEnd_digits (pre : Str) (n : ℕ) : trimEnd (pre ++ (toString n).toList) = pre ++ (toString n).toList := by
  obtain ⟨front, c, hfront⟩ : ∃ front c, (toString n).toList = front ++ [c] :=
    ⟨_, _, (List.dropLast_append_getLast (toString_ne_nil n)).symm⟩
  have hc : isWhitespace c = false :=
    isWhitespace_of_isDigit (isDigit_of_mem_toString (n := n) (by rw [hfront]; exact List.mem_append_right _ List.mem_cons_self))
  unfold trimEnd
  rw [hfront, ← List.append_assoc, List.rdropWhile_concat_neg _ _ _ (by rw [hc]; decide)]

theorem headerLine_lengthHeader {n : ℕ} (hn : n < 2 ^ 64) (len : Option ℕ) {w : Str} (hw : LineEnd w) :
    headerLine len (encode (lengthHeader n ++ w ++ ['\n'])) = .ok (some (some n)) := by
  have htrim : trim (lengthHeader n) = lengthHeader n := by
    have hcons : lengthHeader n = 'C' :: ("ontent-Length: ".toList ++ (toString n).toList) := rfl
    have hstart : trimStart (lengthHeader n) = lengthHeader n := by
      rw [trimStart, hcons, List.dropWhile_cons_of_neg (by decide)]
    rw [trim, hstart]
    exact trimEnd_digits "Content-Length: ".toList n
  have hvalue : trim ((lengthHeader n).drop "Content-Length:".length) = (toString n).toList := by
    have hdrop : (lengthHeader n).drop "Content-Length:".length = ' ' :: (toString n).toList := rfl
    rw [hdrop, trim]
    have hdigits := trimEnd_digits [] n
    rw [List.nil_append] at hdigits
    refine Eq.trans ?_ hdigits
    congr 1
    change (toString n).toList.dropWhile isWhitespace = (toString n).toList
    cases htext : (toString n).toList with
    | nil => rfl
    | cons c text =>
      have hc := isWhitespace_of_isDigit (isDigit_of_mem_toString (n := n) (by rw [htext]; exact List.mem_cons_self))
      rw [List.dropWhile_cons_of_neg (by rw [hc]; decide)]
  have hprefix : "Content-Length:".toList.isPrefixOf (lengthHeader n) = true := rfl
  have hne : lengthHeader n ≠ [] := List.cons_ne_nil _ _
  rw [headerLine_encode, trim_header hw, htrim, if_neg hne, if_pos hprefix, hvalue, parseUnsigned_toString hn]

/-- A message in the stream: the headers around the one with the length, and the bytes of the body. -/
structure McpFrame where
  before : List Str := []
  after : List Str := []
  body : Bytes

namespace McpFrame

structure WellFormed (f : McpFrame) : Prop where
  before : ∀ header ∈ f.before, OtherHeader header
  after : ∀ header ∈ f.after, OtherHeader header
  short : f.body.length < 2 ^ 64

def bytes (f : McpFrame) : Bytes :=
  f.before.flatMap (headerBytes · crEnd) ++ (headerBytes (lengthHeader f.body.length) crEnd ++
    (f.after.flatMap (headerBytes · crEnd) ++ (headerBytes [] crEnd ++ f.body)))

/-- A frame is read up to its last byte. -/
theorem WellFormed.readFrame_bytes {f : McpFrame} (h : f.WellFormed) (rest : Bytes) :
    readFrame (f.bytes ++ rest) = .ok (f.body, rest) := by
  have hblank : readContentLength (some f.body.length) [] (headerBytes [] crEnd ++ (f.body ++ rest)) =
      .ok (f.body.length, f.body ++ rest) := by
    rw [readContentLength_headerBytes List.not_mem_nil lineEnd_crEnd, headerLine_encode, if_pos (by decide)]
  have hread : readContentLength none [] (f.bytes ++ rest) = .ok (f.body.length, f.body ++ rest) := by
    unfold bytes
    simp only [List.append_assoc]
    rw [readContentLength_others h.before lineEnd_crEnd,
      readContentLength_headerBytes (lengthHeader_text _) lineEnd_crEnd, headerLine_lengthHeader h.short _ lineEnd_crEnd]
    dsimp only
    rw [readContentLength_others h.after lineEnd_crEnd, hblank]
  unfold readFrame
  rw [hread]
  dsimp only
  rw [if_neg (by rw [List.length_append]; omega), List.take_left, List.drop_left]

end McpFrame

/-- A number of frames, one after the other. -/
def readFrames : ℕ → Bytes → Except Str (List Bytes × Bytes)
  | 0, stream => .ok ([], stream)
  | n + 1, stream => do
    let (body, rest) ← readFrame stream
    let (bodies, rest) ← readFrames n rest
    return (body :: bodies, rest)

theorem readFrames_flatMap {fs : List McpFrame} (h : ∀ f ∈ fs, f.WellFormed) (rest : Bytes) :
    readFrames fs.length (fs.flatMap McpFrame.bytes ++ rest) = .ok (fs.map McpFrame.body, rest) := by
  induction fs with
  | nil => rfl
  | cons f fs ih =>
    obtain ⟨hf, hfs⟩ := List.forall_mem_cons.mp h
    rw [List.flatMap_cons, List.append_assoc, List.length_cons, readFrames, hf.readFrame_bytes]
    change (do let (bodies, rest) ← readFrames fs.length (fs.flatMap McpFrame.bytes ++ rest); pure (f.body :: bodies, rest)) = _
    rw [ih hfs]
    rfl

/-- What the client writes is such a frame. -/
theorem encode_frame (body : Str) : encode (frame body) = McpFrame.bytes { body := encode body } := by
  have hlen : (encode body).length = byteLen body := length_encode body
  have htext : frame body = (lengthHeader (byteLen body) ++ crEnd ++ ['\n']) ++ (([] ++ crEnd ++ ['\n']) ++ body) := by
    change lengthHeader (byteLen body) ++ (crEnd ++ ['\n'] ++ ([] ++ crEnd ++ ['\n'])) ++ body = _
    simp only [List.append_assoc]
  rw [htext, encode_append _ (([] ++ crEnd ++ ['\n']) ++ body), encode_append _ body, McpFrame.bytes, hlen]
  rfl

/-- **A stream of frames is read back body by body**, and what follows it is left; so is a message that the client
writes itself. -/
theorem readFrames_bytes {fs : List McpFrame} (h : ∀ f ∈ fs, f.WellFormed) (rest : Bytes) :
    readFrames fs.length (fs.flatMap McpFrame.bytes ++ rest) = .ok (fs.map McpFrame.body, rest) ∧
      ∀ body : Str, byteLen body < 2 ^ 64 → readFrame (encode (frame body) ++ rest) = .ok (encode body, rest) := by
  refine ⟨readFrames_flatMap h rest, fun body hbody => ?_⟩
  have hframe : McpFrame.WellFormed { body := encode body } := by
    refine ⟨fun _ h => absurd h List.not_mem_nil, fun _ h => absurd h List.not_mem_nil, ?_⟩
    rwa [length_encode]
  rw [encode_frame]
  exact hframe.readFrame_bytes rest

/-- Two answers, the second one behind other headers. -/
theorem readFrames_bytes_example :
    readFrames 2 ([({ body := [123, 125] } : McpFrame), { before := ["X: y".toList], body := [49] }].flatMap McpFrame.bytes ++ [10]) =
        .ok ([[123, 125], [49]], [10]) ∧
      ∀ body : Str, byteLen body < 2 ^ 64 → readFrame (encode (frame body) ++ [10]) = .ok (encode body, [10]) := by
  have h : ∀ f ∈ [({ body := [123, 125] } : McpFrame), { before := ["X: y".toList], body := [49] }], f.WellFormed := by
    intro f hf
    rcases List.mem_cons.mp hf with rfl | hf
    · exact ⟨fun _ h => absurd h List.not_mem_nil, fun _ h => absurd h List.not_mem_nil, by decide⟩
    · rw [List.mem_singleton] at hf
      subst hf
      refine ⟨fun header hheader => ?_, fun _ h => absurd h List.not_mem_nil, by decide⟩
      rw [List.mem_singleton] at hheader
      subst hheader
      exact ⟨by decide, by decide, by decide⟩
  exact readFrames_bytes h [10]

/-! ## The server on the other side -/

/-- A line of a JSON object is no header with a length. -/
theorem otherHeader_object {inner : Str} (h : '\n' ∉ '\x7b' :: inner ++ ['\x7d']) : OtherHeader ('\x7b' :: inner ++ ['\x7d']) := by
  have htrim : trim ('\x7b' :: inner ++ ['\x7d']) = '\x7b' :: inner ++ ['\x7d'] := by
    have hstart : trimStart ('\x7b' :: inner ++ ['\x7d']) = '\x7b' :: inner ++ ['\x7d'] := rfl
    rw [trim, hstart, trimEnd, List.rdropWhile_concat_neg _ _ _ (by decide)]
  refine ⟨h, ?_, ?_⟩
  · rw [htrim]
    exact List.cons_ne_nil _ _
  · rw [htrim]
    intro hprefix
    exact absurd (List.cons_prefix_cons.mp hprefix).1 (by decide)

/-- **The client's transport accepts no answer of the program's own server**: the server writes lines without
a header, and the client reads on until the stream ends. -/
theorem readFrame_runStdio (kernel : McpKernel) (returns : ℕ → Except ZeptoError ToolOutput) {fromStr : Str → Option Json}
    (hdefs : ∀ t ∈ kernel.definitions, t.inputSchema.OneLine)
    (hparse : ∀ line v, '\n' ∉ line → fromStr line = some v → v.OneLine) (state : KernelState) (stdin : Bytes) :
    readFrame (encode (runStdio kernel returns fromStr state stdin).1.stdout) =
      .error "Failed to read Content-Length: MCP server closed stdout while reading headers".toList := by
  obtain ⟨text, rest, -, hrun⟩ := runStdio_lines kernel returns fromStr state stdin
  obtain ⟨responses, -, hresponses, hout⟩ :=
    foldl_serveLine_stdout kernel returns hdefs hparse (lines text) { state } fun l hl => newline_notMem_lines hl
  have hother : ∀ header ∈ responses.map (fun r => r.toJson.toStr), OtherHeader header := by
    intro header hheader
    obtain ⟨r, hr, rfl⟩ := List.mem_map.mp hheader
    have hline := Json.newline_notMem_toStr _ (hresponses r hr).2.oneLine
    obtain ⟨inner, htext⟩ := r.toStr_split
    rw [htext] at hline ⊢
    exact otherHeader_object hline
  have hbytes : ∀ texts : List Str, encode (unlines texts) = texts.flatMap (headerBytes · []) := by
    intro texts
    induction texts with
    | nil => rfl
    | cons t texts ih =>
      rw [List.flatMap_cons, ← ih, headerBytes, List.append_nil, ← encode_append]
      rfl
  have hread := readContentLength_others (w := []) hother ⟨rfl, List.not_mem_nil⟩ none []
  rw [List.append_nil] at hread
  rw [hrun, hout, List.nil_append, hbytes, readFrame, hread]
  rfl

theorem readFrame_runStdio_example :
    readFrame (encode (runStdio ⟨∅, [], none⟩ (fun _ => .error .busClosed) exampleFromStr ⟨none, [], []⟩ (encode exampleStdin)).1.stdout) =
      .error "Failed to read Content-Length: MCP server closed stdout while reading headers".toList :=
  readFrame_runStdio _ _ (fun _ h => absurd h List.not_mem_nil) exampleFromStr_oneLine _ _

end Zeptoclaw

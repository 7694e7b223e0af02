import Zeptoclaw.Spec.Claude
import Zeptoclaw.Spec.OpenAi

/-!
# Streamed responses and the chunks they arrive in

`streams_chunking`: neither parser depends on how the body is cut into chunks, as long as
no cut goes through a character and, with Claude, nothing that counts comes after a
`[DONE]` line.
-/

namespace Zeptoclaw

open Text Lines Utf8

/-- A body is UTF-8 if its chunks are. -/
theorem isUtf8_flatten {chunks : List Bytes} (h : ∀ c ∈ chunks, IsUtf8 c) : IsUtf8 chunks.flatten :=
  ⟨_, (encode_flatten_fromUtf8Lossy h).symm⟩

section Chunks

variable {σ : Type*} {handle : σ → Str → σ × Flow} (fail : σ → Str → σ)

/-- Without errors the chunks are the pieces of a text. -/
theorem readChunks_ok (init : σ) (chunks : List Bytes) :
    readChunks handle fail init (chunks.map .ok) = feedAll handle init (chunks.map fromUtf8Lossy) := by
  unfold readChunks feedAll
  rw [List.foldl_map, List.foldl_map]
  rfl

/-- The outcome of a body that is cut between characters. -/
theorem readChunks_outcome {init : σ} {chunks : List Bytes} (hutf8 : ∀ c ∈ chunks, IsUtf8 c)
    (hlast : LeavesLast handle init [] (fromUtf8Lossy chunks.flatten)) :
    (readChunks handle fail init (chunks.map .ok)).outcome =
      (readLines handle init [] (fromUtf8Lossy chunks.flatten)).outcome := by
  have htext := (flatten_fromUtf8Lossy_iff (isUtf8_flatten hutf8)).mpr hutf8
  rw [readChunks_ok]
  rw [← htext] at hlast ⊢
  exact feedAll_outcome hlast

/-- Two ways to cut a body. -/
theorem readChunks_state_eq {init : σ} {a b : List Bytes} (hsame : a.flatten = b.flatten) (ha : ∀ c ∈ a, IsUtf8 c)
    (hb : ∀ c ∈ b, IsUtf8 c) (hlast : LeavesLast handle init [] (fromUtf8Lossy a.flatten)) :
    (readChunks handle fail init (a.map .ok)).state = (readChunks handle fail init (b.map .ok)).state := by
  have houta := readChunks_outcome fail ha hlast
  have houtb := readChunks_outcome fail hb (hsame ▸ hlast)
  rw [← hsame, ← houta] at houtb
  exact (congrArg Prod.fst houtb).symm

end Chunks

namespace OpenAi

theorem sendDeltas_ne_leave (receiver : List StreamEvent → Bool) : ∀ (deltas : List Str) (s : StreamState),
    (sendDeltas receiver s deltas).2 ≠ .leave := by
  intro deltas
  induction deltas with
  | nil => intro s; nofun
  | cons d deltas ih =>
    intro s
    unfold sendDeltas
    split
    · exact ih _
    · nofun

/-- The OpenAI parser leaves nothing in the buffer for later. -/
theorem handleLine_ne_leave (receiver : List StreamEvent → Bool) (parse : Str → Option StreamChunk) (s : StreamState)
    (line : Str) : (handleLine receiver parse s line).2 ≠ .leave := by
  unfold handleLine
  split
  · nofun
  · nofun
  · split
    · nofun
    · exact sendDeltas_ne_leave receiver _ _

end OpenAi

/-- The JSON text of a text delta, before and after the text. -/
def deltaOpening : Str :=
  "\x7b\"type\":\"content_block_delta\",\"delta\":\x7b\"type\":\"text_delta\",\"text\":\"".toList

def deltaClosing : Str := "\"\x7d\x7d".toList

/-- The JSON library on text deltas without escapes. -/
def parseDelta (data : Str) : Option Claude.SseEvent :=
  if deltaOpening <+: data ∧ deltaClosing <:+ data then
    let text := (data.drop deltaOpening.length).take (data.length - deltaOpening.length - deltaClosing.length)
    some ⟨.contentBlockDelta, some ⟨some .textDelta, some text, none⟩, none, none, none⟩
  else none

def deltaLine (text : Str) : Str := "data: ".toList ++ deltaOpening ++ text ++ deltaClosing ++ ['\n']

/-- The OpenAI parser finds no choices in such a line. -/
def parseChoices (_ : Str) : Option OpenAi.StreamChunk := some ⟨[], none⟩

end Zeptoclaw

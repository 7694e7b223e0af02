import Zeptoclaw.Spec.Claude

/-!
# The Claude provider: system text and streamed responses

`convertMessages_system_iff`: the request has the last system message of the conversation
and no other. `stream_agrees_iff`: the streaming parser and `convert_response` agree
on the tool calls, and on the text unless a text block comes after one that is not empty.
-/

namespace Zeptoclaw

open Text Lines

namespace Claude

/-! ## The system text -/

section System

variable (fromStr : Str → Option Json)

/-- The texts of the system messages. -/
def systemContents (messages : List Message) : List Str :=
  (messages.filter fun m => m.role = .system).map Message.content

theorem Conversion.flush_system (c : Conversion) : c.flush.system = c.system := by
  unfold Conversion.flush
  split <;> rfl

theorem convertMessage_system (c : Conversion) (m : Message) :
    (convertMessage fromStr c m).system = if m.role = .system then some m.content else c.system := by
  unfold convertMessage
  cases hr : m.role with
  | system => rfl
  | user =>
    dsimp only
    split <;> exact c.flush_system
  | assistant =>
    dsimp only
    split <;> exact c.flush_system
  | tool =>
    dsimp only
    split <;> rfl

theorem foldl_convertMessage_system : ∀ (messages : List Message) (c : Conversion),
    (messages.foldl (convertMessage fromStr) c).system = (systemContents messages).getLast?.or c.system := by
  intro messages
  induction messages with
  | nil => intro c; rfl
  | cons m messages ih =>
    intro c
    rw [List.foldl_cons, ih, convertMessage_system]
    unfold systemContents
    by_cases hr : m.role = .system
    · rw [if_pos hr, List.filter_cons_of_pos (by simpa using hr), List.map_cons, List.getLast?_cons]
      cases (List.map Message.content (messages.filter fun m => m.role = .system)).getLast? <;> rfl
    · rw [if_neg hr, List.filter_cons_of_neg (by simpa using hr)]

/-- The last system message wins. -/
theorem convertMessages_system (messages : List Message) :
    (convertMessages fromStr messages).1 = (systemContents messages).getLast? := by
  have h := foldl_convertMessage_system fromStr messages ⟨none, [], []⟩
  rw [Option.or_none] at h
  exact (Conversion.flush_system _).trans h

theorem inOrder_of_empty {last : Str} : ∀ {init : List Str}, (∀ c ∈ init, c = []) → InOrder (init ++ [last]) last := by
  intro init
  induction init with
  | nil =>
    intro _
    exact ⟨[], [], by simp, trivial⟩
  | cons c init ih =>
    intro h
    have hc : c = [] := h c List.mem_cons_self
    exact ⟨[], last, by simp [hc], ih fun d hd => h d (List.mem_cons_of_mem c hd)⟩

theorem inOrder_last_iff (init : List Str) (last : Str) : InOrder (init ++ [last]) last ↔ ∀ c ∈ init, c = [] := by
  refine ⟨fun h c hc => ?_, inOrder_of_empty⟩
  have hlen := h.length_le
  simp only [List.map_append, List.map_cons, List.map_nil, List.sum_append, List.sum_cons, List.sum_nil] at hlen
  have hzero : (init.map List.length).sum = 0 := by omega
  have hall := List.sum_eq_zero_iff_forall_eq_nat.mp hzero
  exact List.length_eq_zero_iff.mp (hall c.length (List.mem_map_of_mem hc))

/-- **The system text has every system message in order** exactly when all of them but the
last are empty. -/
theorem convertMessages_system_iff (messages : List Message) :
    InOrder (systemContents messages) ((convertMessages fromStr messages).1.getD []) ↔
      ∀ c ∈ (systemContents messages).dropLast, c = [] := by
  rw [convertMessages_system]
  rcases List.eq_nil_or_concat' (systemContents messages) with hnil | ⟨init, last, hsys⟩
  · rw [hnil]
    exact ⟨fun _ c hc => absurd hc (List.not_mem_nil), fun _ => trivial⟩
  · rw [hsys, List.getLast?_append, List.dropLast_concat]
    exact inOrder_last_iff init last

/-- The warning of the loop guard takes the place of the prompt. -/
theorem convertMessages_loses_prompt :
    ¬ ∀ messages : List Message,
      InOrder (systemContents messages) ((convertMessages (fun _ => none) messages).1.getD []) := by
  intro h
  have hlen := (h [.system "You are helpful.".toList, .user "go on".toList,
    .system "[LoopGuard] warning".toList]).length_le
  exact absurd hlen (by decide)

end System

/-! ## Streamed responses -/

/-- A receiver that listens to the end. -/
def listening : List StreamEvent → Bool := fun _ => true

/-- The events of a response, handled until the task returns. -/
def handleEvents : StreamState → List SseEvent → StreamState
  | s, [] => s
  | s, e :: es =>
    match handleEvent listening s e with
    | (s', .stop) => s'
    | (s', _) => handleEvents s' es

/-- A content block and how its text, or the JSON text of its input, is cut into deltas. -/
inductive StreamedBlock where
  | text (pieces : List Str)
  | toolUse (id name : Str) (pieces : List Str) (input : Json)

namespace StreamedBlock

/-- The block of the response that is not streamed. -/
def block : StreamedBlock → ContentBlock
  | .text pieces => .text pieces.flatten
  | .toolUse id name _ input => .toolUse id name input

/-- The deltas of a tool call make up a JSON text of its input; an empty object may come
without any text. -/
def Cuts (fromStr : Str → Option Json) : StreamedBlock → Prop
  | .text _ => True
  | .toolUse _ _ pieces input =>
    if pieces.flatten = [] then input = .object [] else fromStr pieces.flatten = some input

/-- The input can be written and read back. -/
def RoundTrips (fromStr : Str → Option Json) (toString : Json → Str) : StreamedBlock → Prop
  | .text _ => True
  | .toolUse _ _ _ input => fromStr (toString input) = some input

def start (block : SseContentBlock) : SseEvent := ⟨.contentBlockStart, none, some block, none, none⟩

def stop : SseEvent := ⟨.contentBlockStop, none, none, none, none⟩

def textPiece (piece : Str) : SseEvent := ⟨.contentBlockDelta, some ⟨some .textDelta, some piece, none⟩, none, none, none⟩

def jsonPiece (piece : Str) : SseEvent :=
  ⟨.contentBlockDelta, some ⟨some .inputJsonDelta, none, some piece⟩, none, none, none⟩

/-- The events of a block. -/
def events : StreamedBlock → List SseEvent
  | .text pieces => [start ⟨false, none, none⟩] ++ pieces.map textPiece ++ [stop]
  | .toolUse id name pieces _ => [start ⟨true, some id, some name⟩] ++ pieces.map jsonPiece ++ [stop]

/-- The text of a text block. -/
def text? : StreamedBlock → Option Str
  | .text pieces => some pieces.flatten
  | .toolUse _ _ _ _ => none

end StreamedBlock

def messageStart (inputTokens : ℕ) : SseEvent :=
  ⟨.messageStart, none, none, none, some ⟨some ⟨some inputTokens, none⟩⟩⟩

def messageStop : SseEvent := ⟨.messageStop, none, none, none, none⟩

/-- What the streaming parser sends for the blocks. -/
def streamed (inputTokens : ℕ) (blocks : List StreamedBlock) : List StreamEvent :=
  (handleEvents .init (messageStart inputTokens :: blocks.flatMap StreamedBlock.events ++ [messageStop])).sent

def doneContents (sent : List StreamEvent) : List Str :=
  sent.filterMap fun
    | .done content _ => some content
    | _ => none

def sentToolCalls (sent : List StreamEvent) : List LLMToolCall :=
  sent.flatMap fun
    | .toolCalls calls => calls
    | _ => []

/-- The same call, with the arguments compared as JSON values. -/
def SameCall (fromStr : Str → Option Json) (a b : LLMToolCall) : Prop :=
  a.id = b.id ∧ a.name = b.name ∧ ∃ v, fromStr a.arguments = some v ∧ fromStr b.arguments = some v

/-- One `Done` with the content of the response, and the same tool calls. -/
def Agrees (fromStr : Str → Option Json) (sent : List StreamEvent) (response : LLMResponse) : Prop :=
  doneContents sent = [response.content] ∧ List.Forall₂ (SameCall fromStr) (sentToolCalls sent) response.toolCalls

section Agree

open StreamedBlock

/-- The arguments of a call, from its deltas. -/
def streamedArguments (pieces : List Str) : Str := if pieces.flatten = [] then "\x7b\x7d".toList else pieces.flatten

/-- What the events of a block do to the parser between blocks. -/
def advance (s : StreamState) : StreamedBlock → StreamState
  | .text pieces =>
    { s with
      assembledContent := s.assembledContent ++ pieces.flatten
      sent := s.sent ++ pieces.map .delta }
  | .toolUse id name pieces _ =>
    { s with
      currentToolJson := []
      toolCalls := s.toolCalls ++ [⟨id, name, streamedArguments pieces⟩] }

/-- No tool call is open. -/
def Between (s : StreamState) : Prop := s.currentToolId = none ∧ s.currentToolName = none

theorem handleEvents_textPieces (rest : List SseEvent) : ∀ (pieces : List Str) (s : StreamState),
    handleEvents s (pieces.map textPiece ++ rest) =
      handleEvents { s with
        assembledContent := s.assembledContent ++ pieces.flatten
        sent := s.sent ++ pieces.map .delta } rest := by
  intro pieces
  induction pieces with
  | nil => intro s; simp
  | cons piece pieces ih =>
    intro s
    rw [List.map_cons, List.cons_append]
    show handleEvents { s with assembledContent := s.assembledContent ++ piece, sent := s.sent ++ [.delta piece] }
      (pieces.map textPiece ++ rest) = _
    rw [ih]
    simp only [List.flatten_cons, List.map_cons, List.append_assoc, List.cons_append, List.nil_append]

theorem handleEvents_jsonPieces (rest : List SseEvent) : ∀ (pieces : List Str) (s : StreamState),
    handleEvents s (pieces.map jsonPiece ++ rest) =
      handleEvents { s with currentToolJson := s.currentToolJson ++ pieces.flatten } rest := by
  intro pieces
  induction pieces with
  | nil => intro s; simp
  | cons piece pieces ih =>
    intro s
    rw [List.map_cons, List.cons_append]
    show handleEvents { s with currentToolJson := s.currentToolJson ++ piece } (pieces.map jsonPiece ++ rest) = _
    rw [ih]
    simp only [List.flatten_cons, List.append_assoc]

/-- **One block.** Its events lead from between two blocks to between two blocks. -/
theorem handleEvents_block {s : StreamState} (hs : Between s) (b : StreamedBlock) (rest : List SseEvent) :
    handleEvents s (b.events ++ rest) = handleEvents (advance s b) rest ∧ Between (advance s b) := by
  obtain ⟨hid, hname⟩ := hs
  cases b with
  | text pieces =>
    refine ⟨?_, hid, hname⟩
    have hstart : handleEvents s ((StreamedBlock.text pieces).events ++ rest) =
        handleEvents s (pieces.map textPiece ++ (stop :: rest)) := by
      simp only [events, List.append_assoc, List.cons_append, List.nil_append]
      rfl
    rw [hstart, handleEvents_textPieces]
    simp only [handleEvents, handleEvent, stop, StreamState.stopBlock, hid, hname, advance]
  | toolUse id name pieces input =>
    refine ⟨?_, hid, hname⟩
    have hstart : handleEvents s ((StreamedBlock.toolUse id name pieces input).events ++ rest) =
        handleEvents { s with currentToolId := some id, currentToolName := some name, currentToolJson := [] }
          (pieces.map jsonPiece ++ (stop :: rest)) := by
      simp only [events, List.append_assoc, List.cons_append, List.nil_append]
      rfl
    rw [hstart, handleEvents_jsonPieces]
    simp only [handleEvents, handleEvent, stop, StreamState.stopBlock, hid, hname, advance, streamedArguments,
      List.nil_append]

theorem handleEvents_blocks (rest : List SseEvent) : ∀ (blocks : List StreamedBlock) {s : StreamState}, Between s →
    handleEvents s (blocks.flatMap events ++ rest) = handleEvents (blocks.foldl advance s) rest := by
  intro blocks
  induction blocks with
  | nil => intro s _; rfl
  | cons b blocks ih =>
    intro s hs
    obtain ⟨hblock, hbetween⟩ := handleEvents_block hs b (blocks.flatMap events ++ rest)
    rw [List.flatMap_cons, List.append_assoc, hblock, ih hbetween]
    rfl

/-- The call that the streaming parser makes of a block. -/
def streamedCall? : StreamedBlock → Option LLMToolCall
  | .text _ => none
  | .toolUse id name pieces _ => some ⟨id, name, streamedArguments pieces⟩

/-- The call that `convert_response` makes of it. -/
def convertedCall? (toString : Json → Str) : StreamedBlock → Option LLMToolCall
  | .text _ => none
  | .toolUse id name _ input => some ⟨id, name, toString input⟩

/-- What the parser has at the end of the blocks. -/
theorem foldl_advance : ∀ (blocks : List StreamedBlock) (s : StreamState),
    (blocks.foldl advance s).assembledContent = s.assembledContent ++ (blocks.filterMap text?).flatten ∧
      (blocks.foldl advance s).toolCalls = s.toolCalls ++ blocks.filterMap streamedCall? ∧
        ∃ pieces : List Str, (blocks.foldl advance s).sent = s.sent ++ pieces.map .delta := by
  intro blocks
  induction blocks with
  | nil =>
    intro s
    simp only [List.foldl_nil, List.filterMap_nil, List.flatten_nil, List.append_nil, true_and]
    exact ⟨[], (List.append_nil _).symm⟩
  | cons b blocks ih =>
    intro s
    obtain ⟨hcontent, hcalls, pieces, hsent⟩ := ih (advance s b)
    rw [List.foldl_cons, hcontent, hcalls, hsent]
    cases b with
    | text ps =>
      refine ⟨?_, rfl, ps ++ pieces, ?_⟩
      · simp only [advance, List.filterMap_cons, text?, List.flatten_cons, List.append_assoc]
      · simp only [advance, List.map_append, List.append_assoc]
    | toolUse id name ps input =>
      refine ⟨rfl, ?_, pieces, rfl⟩
      simp only [advance, List.filterMap_cons, streamedCall?, List.append_assoc, List.cons_append, List.nil_append]

/-- The events sent for the blocks, up to the deltas. -/
theorem streamed_eq (inputTokens : ℕ) (blocks : List StreamedBlock) : ∃ (pieces : List Str) (usage : Option Usage),
    streamed inputTokens blocks =
      pieces.map .delta ++
        (if (blocks.filterMap streamedCall?).isEmpty then [] else [.toolCalls (blocks.filterMap streamedCall?)]) ++
          [.done (blocks.filterMap text?).flatten usage] := by
  have hrun : streamed inputTokens blocks =
      (handleEvents { StreamState.init with inputTokens } (blocks.flatMap events ++ [messageStop])).sent := rfl
  rw [hrun, handleEvents_blocks [messageStop] blocks ⟨rfl, rfl⟩]
  obtain ⟨hcontent, hcalls, pieces, hsent⟩ := foldl_advance blocks { StreamState.init with inputTokens }
  generalize blocks.foldl advance { StreamState.init with inputTokens } = s at hcontent hcalls hsent
  have hinit : pieces.map StreamEvent.delta = s.sent := hsent.symm
  have htexts : (blocks.filterMap text?).flatten = s.assembledContent := hcontent.symm
  have hcalls' : blocks.filterMap streamedCall? = s.toolCalls := hcalls.symm
  refine ⟨pieces, some (Usage.new s.inputTokens s.outputTokens), ?_⟩
  rw [hinit, htexts, hcalls']
  by_cases hempty : s.toolCalls.isEmpty = true
  · simp only [handleEvents, handleEvent, messageStop, StreamState.finish, StreamState.send, sendTo, listening,
      hempty, if_true, List.append_nil]
  · simp only [handleEvents, handleEvent, messageStop, StreamState.finish, StreamState.send, sendTo, listening,
      hempty, if_true, if_false, Bool.false_eq_true]

theorem doneContents_streamed (inputTokens : ℕ) (blocks : List StreamedBlock) :
    doneContents (streamed inputTokens blocks) = [(blocks.filterMap text?).flatten] := by
  obtain ⟨pieces, usage, h⟩ := streamed_eq inputTokens blocks
  have hdelta : doneContents (pieces.map .delta) = [] := by simp [doneContents]
  rw [h, List.append_assoc]
  unfold doneContents at hdelta ⊢
  rw [List.filterMap_append, hdelta]
  split <;> rfl

theorem sentToolCalls_streamed (inputTokens : ℕ) (blocks : List StreamedBlock) :
    sentToolCalls (streamed inputTokens blocks) = blocks.filterMap streamedCall? := by
  obtain ⟨pieces, usage, h⟩ := streamed_eq inputTokens blocks
  have hdelta : sentToolCalls (pieces.map .delta) = [] := by simp [sentToolCalls]
  rw [h, List.append_assoc]
  unfold sentToolCalls at hdelta ⊢
  rw [List.flatMap_append, hdelta]
  split
  · next hempty => exact (List.isEmpty_iff.mp hempty).symm
  · simp only [List.cons_append, List.nil_append, List.flatMap_cons, List.flatMap_nil, List.append_nil]

/-- A text block in `convert_response`. -/
def addText (content text : Str) : Str := (if content = [] then [] else content ++ ['\n']) ++ text

theorem foldl_convertBlock (toString : Json → Str) : ∀ (blocks : List StreamedBlock) (acc : Str × List LLMToolCall),
    (blocks.map block).foldl (convertBlock toString) acc =
      ((blocks.filterMap text?).foldl addText acc.1, acc.2 ++ blocks.filterMap (convertedCall? toString)) := by
  intro blocks
  induction blocks with
  | nil =>
    intro acc
    simp only [List.map_nil, List.foldl_nil, List.filterMap_nil, List.append_nil]
  | cons b blocks ih =>
    intro acc
    rw [List.map_cons, List.foldl_cons, ih]
    cases b with
    | text pieces => rfl
    | toolUse id name pieces input =>
      simp only [block, convertBlock, List.filterMap_cons, text?, convertedCall?, List.append_assoc, List.cons_append,
        List.nil_append]

theorem length_foldl_addText : ∀ (texts : List Str) (acc : Str),
    acc.length + texts.flatten.length ≤ (texts.foldl addText acc).length := by
  intro texts
  induction texts with
  | nil => intro acc; exact Nat.le_refl _
  | cons t texts ih =>
    intro acc
    have hrest := ih (addText acc t)
    have hadd : acc.length + t.length ≤ (addText acc t).length := by
      unfold addText
      by_cases h : acc = []
      · simp [h]
      · rw [if_neg h]
        simp only [List.length_append]
        omega
    simp only [List.foldl_cons, List.flatten_cons, List.length_append]
    omega

/-- No line break is added exactly when no text comes after one that is not empty. -/
theorem foldl_addText_iff : ∀ (texts : List Str) (acc : Str),
    texts.foldl addText acc = acc ++ texts.flatten ↔ (acc ≠ [] → texts = []) ∧ texts.Pairwise fun a _ => a = [] := by
  intro texts
  induction texts with
  | nil => intro acc; simp
  | cons t texts ih =>
    intro acc
    by_cases hacc : acc = []
    · subst hacc
      have hadd : addText [] t = t := rfl
      rw [List.foldl_cons, hadd, List.nil_append, List.flatten_cons, ih t, List.pairwise_cons]
      refine and_congr ⟨fun h => ?_, fun h => ?_⟩ Iff.rfl |>.trans ⟨fun h => ⟨fun hne => absurd rfl hne, h⟩, And.right⟩
      · intro a ha
        by_contra hne
        rw [h hne] at ha
        cases ha
      · intro hne
        by_contra htexts
        obtain ⟨a, rest, rfl⟩ := List.exists_cons_of_ne_nil htexts
        exact hne (h a List.mem_cons_self)
    · refine ⟨fun h => ?_, fun h => absurd (h.1 hacc) (List.cons_ne_nil t texts)⟩
      have hlen := length_foldl_addText texts (addText acc t)
      have hadd : (addText acc t).length = acc.length + 1 + t.length := by
        rw [addText, if_neg hacc]
        simp only [List.length_append, List.length_cons, List.length_nil]
      have heq := congrArg List.length h
      simp only [List.foldl_cons, List.flatten_cons, List.length_append] at heq
      omega

theorem sameCalls (fromStr : Str → Option Json) (toString : Json → Str)
    (hempty : fromStr "\x7b\x7d".toList = some (.object [])) : ∀ (blocks : List StreamedBlock),
    (∀ b ∈ blocks, b.Cuts fromStr) → (∀ b ∈ blocks, b.RoundTrips fromStr toString) →
    List.Forall₂ (SameCall fromStr) (blocks.filterMap streamedCall?) (blocks.filterMap (convertedCall? toString)) := by
  intro blocks
  induction blocks with
  | nil => intro _ _; exact .nil
  | cons b blocks ih =>
    intro hcuts hround
    have hrest := ih (fun c hc => hcuts c (List.mem_cons_of_mem b hc)) fun c hc => hround c (List.mem_cons_of_mem b hc)
    cases b with
    | text pieces => exact hrest
    | toolUse id name pieces input =>
      refine .cons ⟨rfl, rfl, input, ?_, hround _ List.mem_cons_self⟩ hrest
      have hcut : if pieces.flatten = [] then input = .object [] else fromStr pieces.flatten = some input :=
        hcuts _ List.mem_cons_self
      show fromStr (streamedArguments pieces) = some input
      unfold streamedArguments
      by_cases hnil : pieces.flatten = []
      · rw [if_pos hnil] at hcut ⊢
        rw [hcut, hempty]
      · rw [if_neg hnil] at hcut ⊢
        exact hcut

/-- **Streaming agrees with `convert_response`** exactly when no text block comes after a
text block that is not empty; the tool calls always agree. -/
theorem stream_agrees_iff (fromStr : Str → Option Json) (toString : Json → Str)
    (hempty : fromStr "\x7b\x7d".toList = some (.object [])) (inputTokens outputTokens : ℕ) (blocks : List StreamedBlock)
    (hcuts : ∀ b ∈ blocks, b.Cuts fromStr) (hround : ∀ b ∈ blocks, b.RoundTrips fromStr toString) :
    Agrees fromStr (streamed inputTokens blocks) (convertResponse toString (blocks.map block) inputTokens outputTokens) ↔
      (blocks.filterMap text?).Pairwise fun a _ => a = [] := by
  have hcalls := sameCalls fromStr toString hempty blocks hcuts hround
  have htexts := foldl_addText_iff (blocks.filterMap text?) []
  unfold Agrees convertResponse
  rw [doneContents_streamed, sentToolCalls_streamed, foldl_convertBlock]
  simp only [List.nil_append, ne_eq, not_true_eq_false, false_implies, true_and] at htexts ⊢
  rw [and_iff_left hcalls, List.cons.injEq, and_iff_left rfl, ← htexts, eq_comm]

/-- A JSON library, as far as the empty object goes. -/
def emptyObjectOnly (text : Str) : Option Json := if text = "\x7b\x7d".toList then some (.object []) else none

/-- A text and a tool call, each in two pieces. -/
theorem stream_agrees_iff_call :
    Agrees emptyObjectOnly
      (streamed 3 [.text ["He".toList, "llo".toList], .toolUse "t1".toList "list".toList [['\x7b'], ['\x7d']] (.object [])])
      (convertResponse (fun _ => "\x7b\x7d".toList)
        [.text "Hello".toList, .toolUse "t1".toList "list".toList (.object [])] 3 5) :=
  (stream_agrees_iff emptyObjectOnly (fun _ => "\x7b\x7d".toList) rfl 3 5
    [.text ["He".toList, "llo".toList], .toolUse "t1".toList "list".toList [['\x7b'], ['\x7d']] (.object [])]
    (by
      intro b hb
      simp only [List.mem_cons, List.not_mem_nil, or_false] at hb
      rcases hb with rfl | rfl
      · trivial
      · rfl)
    (by
      intro b hb
      simp only [List.mem_cons, List.not_mem_nil, or_false] at hb
      rcases hb with rfl | rfl
      · trivial
      · rfl)).mpr (by decide)

/-- Two text blocks: a line break comes between them only in the response that is not
streamed. -/
theorem stream_disagrees :
    ¬ ∀ blocks : List StreamedBlock, (∀ b ∈ blocks, b.Cuts emptyObjectOnly) →
      Agrees emptyObjectOnly (streamed 3 blocks)
        (convertResponse (fun _ => "\x7b\x7d".toList) (blocks.map StreamedBlock.block) 3 5) := by
  intro h
  have hcuts : ∀ b ∈ [StreamedBlock.text ["First".toList], .text ["Second".toList]], b.Cuts emptyObjectOnly := by
    intro b hb
    simp only [List.mem_cons, List.not_mem_nil, or_false] at hb
    rcases hb with rfl | rfl <;> trivial
  have hdone := (h _ hcuts).1
  exact absurd hdone (by decide)

end Agree

/-! ## The body of a streamed response -/

/-- The line is read as the event. -/
structure Carries (parse : Str → Option SseEvent) (line : Str) (e : SseEvent) : Prop where
  noBreak : '\n' ∉ line
  reads : ∃ data, sseLine line = .data data ∧ parse data = some e

theorem handleEvent_ne_leave (receiver : List StreamEvent → Bool) (s : StreamState) (e : SseEvent) :
    (handleEvent receiver s e).2 ≠ .leave := by
  cases ht : e.eventType <;> simp only [handleEvent, ht]
  case messageStart => split <;> nofun
  case contentBlockDelta =>
    split
    · unfold StreamState.textDelta
      dsimp only
      split <;> nofun
    · nofun
    · nofun
  all_goals nofun

theorem handleLine_carries {parse : Str → Option SseEvent} {line : Str} {e : SseEvent} (h : Carries parse line e)
    (s : StreamState) : handleLine listening parse s line = handleEvent listening s e := by
  obtain ⟨data, hline, hparse⟩ := h.reads
  unfold handleLine
  rw [hline]
  simp only [hparse, Option.elim_some]

theorem readLines_carries {parse : Str → Option SseEvent} : ∀ {lines : List Str} {events : List SseEvent},
    List.Forall₂ (Carries parse) lines events → ∀ s : StreamState,
    (readLines (handleLine listening parse) s [] (lines.flatMap (· ++ ['\n']))).state = handleEvents s events := by
  intro lines events h
  induction h with
  | nil => intro s; rfl
  | cons hline _ ih =>
    intro s
    rw [List.flatMap_cons, List.append_assoc, readLines_line hline.noBreak, List.nil_append, List.singleton_append,
      readLines_newline, handleLine_carries hline, handleEvents]
    rename_i line e lines' events' _
    have hne := handleEvent_ne_leave listening s e
    match hh : handleEvent listening s e with
    | (s', .next) => exact ih s'
    | (s', .leave) =>
      rw [hh] at hne
      exact absurd rfl hne
    | (s', .stop) => rfl

/-- **A body in one chunk whose lines carry the events** sends what the events send. -/
theorem chatStream_carries {parse : Str → Option SseEvent} {lines : List Str} {events : List SseEvent}
    (h : List.Forall₂ (Carries parse) lines events) :
    chatStream listening parse [.ok (Utf8.encode (lines.flatMap (· ++ ['\n'])))] =
      if (handleEvents .init events).returned then (handleEvents .init events).sent
      else ((handleEvents .init events).finish listening).sent := by
  have hread := readLines_carries h .init
  unfold chatStream readChunks
  simp only [List.foldl_cons, List.foldl_nil, readChunk, feed, Utf8.fromUtf8Lossy_encode, Bool.false_eq_true, if_false,
    List.nil_append, hread]

end Claude

end Zeptoclaw

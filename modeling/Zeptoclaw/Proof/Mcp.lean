import Zeptoclaw.Proof.AcpRequest
import Zeptoclaw.Spec.Mcp

/-!
# The server answers every request once

* `newline_notMem_toStr`: the text of a JSON value is one line, so that a line of the output is an answer.
* `runStdio_answers`: up to a line that is not UTF-8 the server writes one line for each line that is neither blank
  nor a notification (`WantsAnswer`), in order, with the id of the request and either a result or an error.
* `runStdio_state`: what the server does to the kernel are the tool calls that the lines ask for (`WantsTool`), each
  through `execute_tool`; nothing else changes anything.
-/

namespace Zeptoclaw

open Text Utf8

/-! ## What the server is asked -/

/-- Of each element that has a partner the list has one, in order, and nothing else. -/
inductive Selects {α β : Type*} (r : α → β → Prop) : List α → List β → Prop
  | nil : Selects r [] []
  | skip {a : α} {as : List α} {bs : List β} (none : ∀ b, ¬ r a b) (rest : Selects r as bs) : Selects r (a :: as) bs
  | take {a : α} {b : β} {as : List α} {bs : List β} (partner : r a b) (rest : Selects r as bs) :
    Selects r (a :: as) (b :: bs)

theorem selects_filterMap {α β : Type*} {r : α → β → Prop} {f : α → Option β} (h : ∀ a b, r a b ↔ f a = some b)
    (l : List α) : Selects r l (l.filterMap f) := by
  induction l with
  | nil => exact .nil
  | cons a l ih =>
    cases hfa : f a with
    | none =>
      rw [List.filterMap_cons_none hfa]
      refine .skip (fun b hb => ?_) ih
      rw [h, hfa] at hb
      cases hb
    | some b =>
      rw [List.filterMap_cons_some hfa]
      exact .take ((h a b).mpr hfa) ih

/-- A message of JSON-RPC 2.0 with its method. -/
structure Json.Calls (v : Json) (method : Str) : Prop where
  version : v.get "jsonrpc".toList = some (.string "2.0".toList)
  method : v.get "method".toList = some (.string method)

/-- A line that is not blank and no notification is answered under the `id` of its value, which is null where there
is none. -/
structure WantsAnswer (fromStr : Str → Option Json) (line : Str) (id : Json) : Prop where
  text : trim line ≠ []
  request : ∀ v, fromStr (trim line) = some v → ∀ rest, ¬ v.Calls ("notifications/".toList ++ rest)
  id : id = ((fromStr (trim line)).bind fun v => v.get "id".toList).getD .null

/-- A line asks for a tool and gives its arguments, or leaves them to be an empty object. -/
structure WantsTool (fromStr : Str → Option Json) (line : Str) (call : Str × Json) : Prop where
  text : trim line ≠ []
  request : ∃ v params, fromStr (trim line) = some v ∧ v.Calls "tools/call".toList ∧
    v.get "params".toList = some params ∧ params.get "name".toList = some (.string call.1) ∧
    call.2 = (params.get "arguments".toList).getD (.object [])

/-- The input is a text up to a line that is not UTF-8, or up to its end. -/
structure ReadUpTo (stdin : Bytes) (text : Str) (rest : Bytes) : Prop where
  whole : stdin = encode text ++ rest
  stops : rest ≠ [] → (text = [] ∨ text.getLast? = some '\n') ∧ ∃ line more, rest = line ++ more ∧
    10 ∉ line.dropLast ∧ (more = [] ∨ line.getLast? = some 10) ∧ ¬ IsUtf8 line

/-! ## The lines of the input -/

theorem newline_mem_encode {s : Str} (h : (10 : UInt8) ∈ encode s) : '\n' ∈ s := by
  unfold encode at h
  obtain ⟨c, hc, hmem⟩ := List.mem_flatMap.mp h
  rwa [← eq_of_mem_utf8EncodeChar (d := '\n') (by decide) hmem]

theorem mem_encode_newline {s : Str} (h : '\n' ∈ s) : (10 : UInt8) ∈ encode s :=
  List.mem_flatMap.mpr ⟨'\n', h, by decide⟩

theorem inputLines_append {part : Bytes} (h : (10 : UInt8) ∉ part) (rest : Bytes) : ∀ line : Bytes,
    inputLines line (part ++ rest) = inputLines (line ++ part) rest := by
  induction part with
  | nil => intro line; rw [List.append_nil]; rfl
  | cons b part ih =>
    intro line
    rw [List.mem_cons, not_or] at h
    rw [List.cons_append, inputLines, if_neg (Ne.symm h.1), ih h.2, List.append_assoc]
    rfl

/-- An input is a line, or a line with a newline and an input behind it. -/
theorem input_induction {motive : Bytes → Prop} (last : ∀ line, (10 : UInt8) ∉ line → motive line)
    (line : ∀ line rest, (10 : UInt8) ∉ line → motive rest → motive (line ++ 10 :: rest)) : ∀ stdin, motive stdin := by
  have hbuild : ∀ stdin front, (10 : UInt8) ∉ front → motive (front ++ stdin) := by
    intro stdin
    induction stdin with
    | nil =>
      intro front hfront
      rw [List.append_nil]
      exact last front hfront
    | cons b stdin ih =>
      intro front hfront
      by_cases hb : b = 10
      · subst hb
        exact line front stdin hfront (ih [] List.not_mem_nil)
      · rw [List.append_cons]
        apply ih
        simp [hfront, Ne.symm hb]
  exact fun stdin => hbuild stdin [] List.not_mem_nil

/-- A line that is UTF-8 with its newline is so without it. -/
theorem encode_concat_newline {line : Bytes} {t : Str} (h : line ++ [10] = encode t) :
    ∃ s, t = s ++ ['\n'] ∧ line = encode s := by
  rcases encode_cut t h.symm with ⟨⟨s, hs⟩, -⟩ | ⟨b, rest, hb, hcontinues⟩
  · refine ⟨s, encode_injective ?_, hs⟩
    rw [← h, hs, encode_append]
    rfl
  · obtain ⟨rfl, -⟩ := List.cons.inj hb
    exact absurd hcontinues (by simp [IsContinuation])

/-! ## JSON on one line -/

namespace Json

theorem hexDigit_ne_newline : ∀ n < 16, hexDigit n ≠ '\n' := by decide

theorem newline_notMem_escapeChar (c : Char) : '\n' ∉ escapeChar c := by
  unfold escapeChar
  split
  · decide
  split
  · decide
  split
  · decide
  split
  · decide
  split
  · decide
  split
  · decide
  split
  · decide
  split
  · next hcontrol =>
    have hhigh := hexDigit_ne_newline (c.toNat / 16) (by omega)
    have hlow := hexDigit_ne_newline (c.toNat % 16) (by omega)
    rw [List.mem_append, not_or, List.mem_cons, List.mem_singleton, not_or]
    exact ⟨by decide, hhigh.symm, hlow.symm⟩
  · next _ _ hn _ _ _ _ _ => exact fun h => hn (List.mem_singleton.mp h).symm

theorem newline_notMem_quoted (s : Str) : '\n' ∉ quoted s := by
  have hescape : '\n' ∉ escape s := by
    unfold escape
    rw [List.mem_flatMap]
    rintro ⟨c, -, hc⟩
    exact newline_notMem_escapeChar c hc
  unfold quoted
  rw [List.mem_append, List.mem_cons, List.mem_singleton]
  rintro ((h | h) | h)
  · exact absurd h (by decide)
  · exact hescape h
  · exact absurd h (by decide)

mutual

/-- The text of every number is on one line. -/
def OneLine : Json → Prop
  | .null | .bool _ | .string _ => True
  | .number text => '\n' ∉ text
  | .array items => ItemsOneLine items
  | .object fields => FieldsOneLine fields

def ItemsOneLine : List Json → Prop
  | [] => True
  | v :: items => OneLine v ∧ ItemsOneLine items

def FieldsOneLine : List (Str × Json) → Prop
  | [] => True
  | (_, v) :: fields => OneLine v ∧ FieldsOneLine fields

end

theorem newline_notMem_intercalate {texts : List Str} (h : ∀ t ∈ texts, '\n' ∉ t) : '\n' ∉ [','].intercalate texts := by
  induction texts with
  | nil => exact List.not_mem_nil
  | cons t texts ih =>
    obtain ⟨ht, htexts⟩ := List.forall_mem_cons.mp h
    cases texts with
    | nil => rwa [List.intercalate_singleton]
    | cons t' texts =>
      rw [List.intercalate_cons_cons, List.mem_append, List.mem_append, List.mem_singleton]
      rintro ((hmem | hmem) | hmem)
      · exact ht hmem
      · exact absurd hmem (by decide)
      · exact ih htexts hmem

theorem newline_notMem_bracketed {open' close : Char} (hopen : '\n' ≠ open') (hclose : '\n' ≠ close) {s : Str}
    (h : '\n' ∉ s) : '\n' ∉ open' :: s ++ [close] := by
  rw [List.mem_append, List.mem_cons, List.mem_singleton]
  rintro ((hmem | hmem) | hmem)
  · exact hopen hmem
  · exact h hmem
  · exact hclose hmem

mutual

/-- **A JSON value is written on one line.** -/
theorem newline_notMem_toStr : ∀ v : Json, v.OneLine → '\n' ∉ v.toStr
  | .null, _ => by decide
  | .bool true, _ => by decide
  | .bool false, _ => by decide
  | .number _, h => h
  | .string s, _ => newline_notMem_quoted s
  | .array items, h =>
    newline_notMem_bracketed (by decide) (by decide) (newline_notMem_intercalate (newline_notMem_itemTexts items h))
  | .object fields, h =>
    newline_notMem_bracketed (by decide) (by decide) (newline_notMem_intercalate (newline_notMem_fieldTexts fields h))

theorem newline_notMem_itemTexts : ∀ items : List Json, ItemsOneLine items → ∀ t ∈ itemTexts items, '\n' ∉ t
  | [], _ => fun _ h => absurd h List.not_mem_nil
  | v :: items, h =>
    List.forall_mem_cons.mpr ⟨newline_notMem_toStr v h.1, newline_notMem_itemTexts items h.2⟩

theorem newline_notMem_fieldTexts : ∀ fields : List (Str × Json), FieldsOneLine fields → ∀ t ∈ fieldTexts fields, '\n' ∉ t
  | [], _ => fun _ h => absurd h List.not_mem_nil
  | (key, v) :: fields, h => by
    refine List.forall_mem_cons.mpr ⟨?_, newline_notMem_fieldTexts fields h.2⟩
    rw [List.mem_append, List.mem_cons]
    rintro (hmem | hmem | hmem)
    · exact newline_notMem_quoted key hmem
    · exact absurd hmem (by decide)
    · exact newline_notMem_toStr v h.1 hmem

end

theorem OneLine.of_mem {key : Str} {v : Json} : ∀ {fields : List (Str × Json)}, FieldsOneLine fields → (key, v) ∈ fields → v.OneLine
  | (_, _) :: fields, h, hmem => by
    rcases List.mem_cons.mp hmem with heq | hmem
    · cases heq
      exact h.1
    · exact OneLine.of_mem h.2 hmem

theorem OneLine.get {v : Json} (h : v.OneLine) {field : Str} {w : Json} (hw : v.get field = some w) : w.OneLine := by
  cases v with
  | object fields =>
    obtain ⟨f, hf, rfl⟩ := Option.map_eq_some_iff.mp hw
    have hmem : (f.1, f.2) ∈ fields := List.mem_of_find?_eq_some hf
    exact OneLine.of_mem h hmem
  | null | bool | number | string | array => cases hw

end Json

/-! ## Answers -/

/-- Either a result or an error. -/
def McpResponse.OneAnswer (r : McpResponse) : Prop := r.result.isSome = !r.error.isSome

/-- The values of an answer are on one line each. -/
structure McpResponse.Written (r : McpResponse) : Prop where
  id : ∀ v, r.id = some v → v.OneLine
  result : ∀ v, r.result = some v → v.OneLine

theorem toString_int_oneLine (code : ℤ) : '\n' ∉ (toString code).toList := by
  intro h
  cases code with
  | ofNat n =>
    have hmem : '\n' ∈ (toString n).toList := h
    exact absurd (isDigit_of_mem_toString hmem) (by decide)
  | negSucc n =>
    have htext : (toString (Int.negSucc n)).toList = '-' :: (toString (n + 1)).toList := by
      change ("-" ++ toString (n + 1)).toList = _
      rw [String.toList_append]
      rfl
    rw [htext] at h
    rcases List.mem_cons.mp h with h | h
    · exact absurd h (by decide)
    · exact absurd (isDigit_of_mem_toString h) (by decide)

theorem McpResponse.Written.oneLine {r : McpResponse} (h : r.Written) : r.toJson.OneLine := by
  have hid : (r.id.getD .null).OneLine := by
    cases hr : r.id with
    | none => exact trivial
    | some v => exact h.id v hr
  have hresult := h.result
  obtain ⟨id, result, error⟩ := r
  cases result with
  | none =>
    cases error with
    | none => exact ⟨trivial, hid, trivial⟩
    | some e => exact ⟨trivial, hid, ⟨toString_int_oneLine e.code, trivial, trivial⟩, trivial⟩
  | some v =>
    cases error with
    | none => exact ⟨trivial, hid, hresult v rfl, trivial⟩
    | some e => exact ⟨trivial, hid, hresult v rfl, ⟨toString_int_oneLine e.code, trivial, trivial⟩, trivial⟩

theorem McpResponse.toStr_split (r : McpResponse) : ∃ inner, r.toJson.toStr = '\x7b' :: inner ++ ['\x7d'] :=
  ⟨_, by rw [McpResponse.toJson, Json.toStr]⟩

section Server

variable (kernel : McpKernel) (returns : ℕ → Except ZeptoError ToolOutput) (fromStr : Str → Option Json)

/-- The answer to a request: its id is kept, and it has either a result or an error. -/
theorem handleRequest_spec (hdefs : ∀ t ∈ kernel.definitions, t.inputSchema.OneLine) (s : KernelState) {id : Option Json}
    (hid : ∀ v, id = some v → v.OneLine) (method : Str) (params : Option Json) :
    (handleRequest kernel returns s id method params).2.id = id ∧
      (handleRequest kernel returns s id method params).2.OneAnswer ∧
      (handleRequest kernel returns s id method params).2.Written := by
  have herror : ∀ code message, (McpResponse.makeError id code message).id = id ∧
      (McpResponse.makeError id code message).OneAnswer ∧ (McpResponse.makeError id code message).Written :=
    fun code message => ⟨rfl, rfl, hid, fun v h => by cases h⟩
  unfold handleRequest
  split
  · refine ⟨rfl, rfl, hid, fun v h => ?_⟩
    cases h
    exact ⟨⟨trivial, trivial⟩, trivial, ⟨trivial, trivial, trivial⟩, trivial⟩
  split
  · refine ⟨rfl, rfl, hid, fun v h => ?_⟩
    cases h
    exact trivial
  split
  · refine ⟨rfl, rfl, hid, fun v h => ?_⟩
    cases h
    refine ⟨?_, trivial⟩
    have hitems : ∀ ts : List McpTool, (∀ t ∈ ts, t.inputSchema.OneLine) → Json.ItemsOneLine (ts.map McpTool.toJson) := by
      intro ts
      induction ts with
      | nil => exact fun _ => trivial
      | cons t ts ih =>
        intro hts
        obtain ⟨ht, hts⟩ := List.forall_mem_cons.mp hts
        exact ⟨⟨trivial, ht, trivial, trivial⟩, ih hts⟩
    exact hitems _ hdefs
  split
  · unfold handleToolsCall
    split
    · exact herror _ _
    · split <;> refine ⟨rfl, rfl, hid, fun v h => ?_⟩ <;> cases h <;>
        exact ⟨⟨⟨trivial, trivial, trivial⟩, trivial⟩, trivial, trivial⟩
  · exact herror _ _

/-- The id that the answer to a line has; a blank line and a notification get no answer. -/
def expectedId (line : Str) : Option (Option Json) :=
  if trim line = [] then none
  else
    match parseLine fromStr (trim line) with
    | .error response => some response.id
    | .ok (id, method, _) => if isNotification method then none else some id

/-- The tool call of a line. -/
def lineCall (line : Str) : Option (Str × Json) :=
  if trim line = [] then none
  else
    match parseLine fromStr (trim line) with
    | .error _ => none
    | .ok (_, method, params) => if method = "tools/call".toList then (toolsCallParams params).toOption else none

theorem strField_eq_some_iff {v : Json} {field s : Str} : v.strField field = some s ↔ v.get field = some (.string s) := by
  cases v with
  | object fields =>
    rw [Json.strField, Json.get]
    cases fields.find? fun f => f.1 = field with
    | none => simp
    | some f =>
      obtain ⟨key, w⟩ := f
      cases w <;> simp
  | null | bool | number | string | array => simp [Json.strField, Json.get]

theorem Json.Calls.unique {v : Json} {method method' : Str} (h : v.Calls method) (h' : v.Calls method') : method = method' := by
  have heq := h.method.symm.trans h'.method
  cases heq
  rfl

/-- What `process_line` finds in a line. -/
theorem parseLine_cases (line : Str) :
    (fromStr line = none ∧ ∃ response, parseLine fromStr line = .error response ∧ response.id = none) ∨
    ∃ v, fromStr line = some v ∧
      (((∀ method, ¬ v.Calls method) ∧ ∃ response, parseLine fromStr line = .error response ∧ response.id = extractId v) ∨
        ∃ method, v.Calls method ∧ parseLine fromStr line = .ok (extractId v, method, v.get "params".toList)) := by
  unfold parseLine
  cases fromStr line with
  | none => exact .inl ⟨rfl, _, rfl, rfl⟩
  | some v =>
    refine .inr ⟨v, rfl, ?_⟩
    dsimp only
    by_cases hversion : v.strField "jsonrpc".toList = some "2.0".toList
    · rw [if_neg (not_not_intro hversion)]
      cases hmethod : v.strField "method".toList with
      | none =>
        refine .inl ⟨fun method hcalls => ?_, _, rfl, rfl⟩
        rw [strField_eq_some_iff.mpr hcalls.method] at hmethod
        cases hmethod
      | some method => exact .inr ⟨method, ⟨strField_eq_some_iff.mp hversion, strField_eq_some_iff.mp hmethod⟩, rfl⟩
    · rw [if_pos hversion]
      exact .inl ⟨fun method hcalls => hversion (strField_eq_some_iff.mpr hcalls.version), _, rfl, rfl⟩

theorem getD_extractId (v : Json) : (extractId v).getD .null = (v.get "id".toList).getD .null := by
  unfold extractId
  split
  · next h => rw [h]; rfl
  · next h => rw [h]
  · next id _ h => rw [h]

theorem isNotification_iff {method : Str} : isNotification method = true ↔ ∃ rest, method = "notifications/".toList ++ rest := by
  rw [isNotification, List.isPrefixOf_iff_prefix]
  exact ⟨fun ⟨rest, h⟩ => ⟨rest, h.symm⟩, fun ⟨rest, h⟩ => ⟨rest, h.symm⟩⟩

/-- The server answers what wants an answer, and under its id. -/
theorem wantsAnswer_iff (line : Str) (id : Json) :
    WantsAnswer fromStr line id ↔ (expectedId fromStr line).map (·.getD .null) = some id := by
  unfold expectedId
  by_cases hblank : trim line = []
  · rw [if_pos hblank]
    exact ⟨fun h => absurd hblank h.text, fun h => by cases h⟩
  rw [if_neg hblank]
  rcases parseLine_cases fromStr (trim line) with ⟨hnone, response, hparse, hid⟩ |
    ⟨v, hvalue, ⟨hbad, response, hparse, hid⟩ | ⟨method, hcalls, hparse⟩⟩
  · rw [hparse]
    dsimp only
    rw [hid, Option.map_some, Option.some.injEq]
    refine ⟨fun h => ?_, fun h => ⟨hblank, fun v hv => (by rw [hnone] at hv; cases hv), ?_⟩⟩
    · rw [h.id, hnone]
      rfl
    · rw [hnone, ← h]
      rfl
  · rw [hparse]
    dsimp only
    rw [hid, Option.map_some, Option.some.injEq, getD_extractId]
    refine ⟨fun h => ?_, fun h => ⟨hblank, fun v' hv' rest => ?_, ?_⟩⟩
    · rw [h.id, hvalue]
      rfl
    · obtain rfl := Option.some.inj (hvalue.symm.trans hv')
      exact hbad _
    · rw [hvalue, ← h]
      rfl
  · rw [hparse]
    dsimp only
    by_cases hnotify : isNotification method = true
    · rw [if_pos hnotify]
      obtain ⟨rest, rfl⟩ := isNotification_iff.mp hnotify
      exact ⟨fun h => absurd hcalls (h.request v hvalue rest), fun h => by cases h⟩
    · rw [if_neg hnotify, Option.map_some, Option.some.injEq, getD_extractId]
      refine ⟨fun h => ?_, fun h => ⟨hblank, fun v' hv' rest hrest => ?_, ?_⟩⟩
      · rw [h.id, hvalue]
        rfl
      · obtain rfl := Option.some.inj (hvalue.symm.trans hv')
        exact hnotify (isNotification_iff.mpr ⟨rest, hcalls.unique hrest⟩)
      · rw [hvalue, ← h]
        rfl

theorem toolsCallParams_eq_ok_iff {params : Option Json} {call : Str × Json} : toolsCallParams params = .ok call ↔
    ∃ p, params = some p ∧ p.get "name".toList = some (.string call.1) ∧
      call.2 = (p.get "arguments".toList).getD (.object []) := by
  obtain ⟨name, arguments⟩ := call
  unfold toolsCallParams
  cases params with
  | none => simp
  | some p =>
    dsimp only
    cases hname : p.strField "name".toList with
    | none =>
      refine ⟨fun h => (by cases h), fun h => ?_⟩
      obtain ⟨p', hp, hget, -⟩ := h
      obtain rfl := Option.some.inj hp
      rw [strField_eq_some_iff.mpr hget] at hname
      cases hname
    | some name' =>
      have hget := strField_eq_some_iff.mp hname
      constructor
      · intro h
        cases h
        exact ⟨p, rfl, hget, rfl⟩
      · rintro ⟨p', hp, hget', harguments⟩
        obtain rfl := Option.some.inj hp
        obtain rfl : name' = name := by
          have heq := hget.symm.trans hget'
          cases heq
          rfl
        rw [harguments]

/-- The server calls the tool that a line asks for. -/
theorem wantsTool_iff (line : Str) (call : Str × Json) : WantsTool fromStr line call ↔ lineCall fromStr line = some call := by
  unfold lineCall
  by_cases hblank : trim line = []
  · rw [if_pos hblank]
    exact ⟨fun h => absurd hblank h.text, fun h => by cases h⟩
  rw [if_neg hblank]
  rcases parseLine_cases fromStr (trim line) with ⟨hnone, response, hparse, -⟩ |
    ⟨v, hvalue, ⟨hbad, response, hparse, -⟩ | ⟨method, hcalls, hparse⟩⟩
  · rw [hparse]
    refine ⟨fun h => ?_, fun h => by cases h⟩
    obtain ⟨v, params, hv, -⟩ := h.request
    rw [hnone] at hv
    cases hv
  · rw [hparse]
    refine ⟨fun h => ?_, fun h => by cases h⟩
    obtain ⟨v', params, hv, hcalls, -⟩ := h.request
    obtain rfl := Option.some.inj (hvalue.symm.trans hv)
    exact absurd hcalls (hbad _)
  · rw [hparse]
    dsimp only
    by_cases htool : method = "tools/call".toList
    · subst htool
      have hoption : ∀ e : Except Str (Str × Json), e.toOption = some call ↔ e = .ok call := by
        intro e
        cases e <;> simp [Except.toOption]
      rw [if_pos rfl, hoption, toolsCallParams_eq_ok_iff]
      constructor
      · intro h
        obtain ⟨v', params, hv, -, hparams, hname, harguments⟩ := h.request
        obtain rfl := Option.some.inj (hvalue.symm.trans hv)
        exact ⟨params, hparams, hname, harguments⟩
      · rintro ⟨params, hparams, hname, harguments⟩
        exact ⟨hblank, v, params, hvalue, hcalls, hparams, hname, harguments⟩
    · rw [if_neg htool]
      refine ⟨fun h => ?_, fun h => by cases h⟩
      obtain ⟨v', params, hv, hcalls', -⟩ := h.request
      obtain rfl := Option.some.inj (hvalue.symm.trans hv)
      exact absurd (hcalls.unique hcalls') htool

/-- A tool call, through the gate. -/
def gatedCall (s : KernelState) (call : Str × Json) : KernelState :=
  (executeTool kernel.tools kernel.safety s ⟨call.1, call.2, returns s.executed.length⟩).1

variable {fromStr}

theorem extractId_oneLine {parsed : Json} (h : parsed.OneLine) (v : Json) (hv : extractId parsed = some v) : v.OneLine := by
  unfold extractId at hv
  split at hv
  · cases hv
  · cases hv
  · next _ id _ hget =>
    obtain rfl := Option.some.inj hv
    exact h.get hget

theorem parseLine_written (hparse : ∀ line v, '\n' ∉ line → fromStr line = some v → v.OneLine) {line : Str}
    (hline : '\n' ∉ line) :
    (∀ response, parseLine fromStr line = .error response → response.OneAnswer ∧ response.Written) ∧
      ∀ id method params, parseLine fromStr line = .ok (id, method, params) → ∀ v, id = some v → v.OneLine := by
  unfold parseLine
  cases hvalue : fromStr line with
  | none =>
    refine ⟨fun response h => ?_, fun id method params h => (by cases h)⟩
    cases h
    exact ⟨rfl, ⟨fun v h => (by cases h), fun v h => (by cases h)⟩⟩
  | some parsed =>
    have hid := extractId_oneLine (hparse line parsed hline hvalue)
    dsimp only
    split
    · refine ⟨fun response h => ?_, fun id method params h => by cases h⟩
      cases h
      exact ⟨rfl, hid, fun v h => by cases h⟩
    · cases hmethod : parsed.strField "method".toList with
      | none =>
        refine ⟨fun response h => ?_, fun id method params h => (by cases h)⟩
        cases h
        exact ⟨rfl, hid, fun v h => by cases h⟩
      | some method =>
        refine ⟨fun response h => (by cases h), fun id method params h => ?_⟩
        cases h
        exact hid

theorem mem_of_mem_trim {c : Char} {s : Str} (h : c ∈ trim s) : c ∈ s := by
  obtain ⟨lead, rest, hs, -⟩ := trim_split s
  rw [hs]
  exact List.mem_append_left _ (List.mem_append_right _ h)

/-- What a request does to the kernel. -/
theorem handleRequest_state (s : KernelState) (id : Option Json) (method : Str) (params : Option Json) :
    (handleRequest kernel returns s id method params).1 =
      (if method = "tools/call".toList then (toolsCallParams params).toOption else none).elim s (gatedCall kernel returns s) := by
  unfold handleRequest
  by_cases hcall : method = "tools/call".toList
  · subst hcall
    rw [if_neg (by decide), if_neg (by decide), if_neg (by decide), if_pos rfl, if_pos rfl]
    unfold handleToolsCall
    cases hparams : toolsCallParams params with
    | error message => rfl
    | ok call =>
      obtain ⟨name, arguments⟩ := call
      change _ = (executeTool kernel.tools kernel.safety s ⟨name, arguments, returns s.executed.length⟩).1
      dsimp only
      cases hout : executeTool kernel.tools kernel.safety s ⟨name, arguments, returns s.executed.length⟩ with
      | mk s out => cases out <;> rfl
  · rw [if_neg hcall]
    repeat' split
    all_goals rfl

/-- What a line of the input does to the kernel. -/
theorem serveLine_state (m : McpServer) (line : Str) :
    (serveLine kernel returns fromStr m line).state =
      (lineCall fromStr line).elim m.state (gatedCall kernel returns m.state) := by
  unfold serveLine lineCall processLine
  dsimp only
  by_cases hblank : trim line = []
  · rw [if_pos hblank, if_pos hblank, Option.elim_none]
  rw [if_neg hblank, if_neg hblank]
  cases hrequest : parseLine fromStr (trim line) with
  | error response => rfl
  | ok request =>
    obtain ⟨id, method, params⟩ := request
    dsimp only
    rw [← handleRequest_state]
    by_cases hnotify : isNotification method = true
    · rw [if_pos hnotify]
    · rw [if_neg hnotify]

/-- What a line of the input adds to the output. -/
theorem serveLine_stdout (hdefs : ∀ t ∈ kernel.definitions, t.inputSchema.OneLine)
    (hparse : ∀ line v, '\n' ∉ line → fromStr line = some v → v.OneLine) (m : McpServer) {line : Str} (hline : '\n' ∉ line) :
    ∃ response : Option McpResponse, response.map McpResponse.id = expectedId fromStr line ∧
      (∀ r, response = some r → r.OneAnswer ∧ r.Written) ∧
      (serveLine kernel returns fromStr m line).stdout =
        m.stdout ++ unlines (response.toList.map fun r => r.toJson.toStr) := by
  unfold serveLine expectedId processLine
  dsimp only
  by_cases hblank : trim line = []
  · rw [if_pos hblank, if_pos hblank]
    exact ⟨none, rfl, fun r h => (by cases h), (List.append_nil _).symm⟩
  rw [if_neg hblank, if_neg hblank]
  obtain ⟨herror, hok⟩ := parseLine_written hparse fun h => hline (mem_of_mem_trim h)
  cases hrequest : parseLine fromStr (trim line) with
  | error response =>
    refine ⟨some response, rfl, fun r h => ?_, ?_⟩
    · cases h
      exact herror response hrequest
    · simp [unlines]
  | ok request =>
    obtain ⟨id, method, params⟩ := request
    obtain ⟨hid, hone, hwritten⟩ :=
      handleRequest_spec kernel returns hdefs m.state (hok id method params hrequest) method params
    by_cases hnotify : isNotification method = true
    · refine ⟨none, ?_, fun r h => (by cases h), ?_⟩
      · simp only [hnotify, if_true, Option.map_none]
      · simp [hnotify, unlines]
    · refine ⟨some (handleRequest kernel returns m.state id method params).2, ?_, fun r h => ?_, ?_⟩
      · simp only [hnotify, Option.map_some, hid]
        rfl
      · cases h
        exact ⟨hone, hwritten⟩
      · simp [hnotify, unlines]

theorem unlines_append (xs ys : List Str) : unlines (xs ++ ys) = unlines xs ++ unlines ys := List.flatMap_append

/-- The lines of the input, one after the other. -/
theorem foldl_serveLine_stdout (hdefs : ∀ t ∈ kernel.definitions, t.inputSchema.OneLine)
    (hparse : ∀ line v, '\n' ∉ line → fromStr line = some v → v.OneLine) :
    ∀ (ls : List Str) (m : McpServer), (∀ l ∈ ls, '\n' ∉ l) → ∃ responses : List McpResponse,
      responses.map McpResponse.id = ls.filterMap (expectedId fromStr) ∧
      (∀ r ∈ responses, r.OneAnswer ∧ r.Written) ∧
      (ls.foldl (serveLine kernel returns fromStr) m).stdout =
        m.stdout ++ unlines (responses.map fun r => r.toJson.toStr) := by
  intro ls
  induction ls with
  | nil => exact fun m _ => ⟨[], rfl, fun r h => absurd h List.not_mem_nil, (List.append_nil _).symm⟩
  | cons line ls ih =>
    intro m hls
    obtain ⟨hline, hls⟩ := List.forall_mem_cons.mp hls
    obtain ⟨response, hid, hresponse, hout⟩ := serveLine_stdout kernel returns hdefs hparse m hline
    obtain ⟨responses, hids, hresponses, houts⟩ := ih (serveLine kernel returns fromStr m line) hls
    refine ⟨response.toList ++ responses, ?_, fun r hr => ?_, ?_⟩
    · rw [List.map_append, hids]
      cases response with
      | none => rw [List.filterMap_cons_none hid.symm]; rfl
      | some r => rw [List.filterMap_cons_some hid.symm]; rfl
    · rcases List.mem_append.mp hr with hr | hr
      · exact hresponse r (Option.mem_toList.mp hr)
      · exact hresponses r hr
    · rw [List.foldl_cons, houts, hout, List.map_append, unlines_append, List.append_assoc]

/-- The server reads the lines up to one that is not UTF-8, and stops there. -/
theorem serveLines_inputLines (stdin : Bytes) : ∀ m : McpServer, ∃ text rest, ReadUpTo stdin text rest ∧
    serveLines kernel returns fromStr m (inputLines [] stdin) =
      ((lines text).foldl (serveLine kernel returns fromStr) m,
        if rest = [] then .ok () else .error "stream did not contain valid UTF-8".toList) := by
  induction stdin using input_induction with
  | last line hline =>
    intro m
    have hlines := inputLines_append hline [] []
    rw [List.append_nil, List.nil_append] at hlines
    rw [hlines, inputLines]
    by_cases hnil : line = []
    · refine ⟨[], [], ⟨hnil, fun h => absurd rfl h⟩, ?_⟩
      rw [if_pos hnil]
      rfl
    rw [if_neg hnil, serveLines]
    cases htext : fromUtf8 line with
    | none =>
      refine ⟨[], line, ⟨rfl, fun _ => ⟨.inl rfl, line, [], (List.append_nil line).symm,
        fun h => hline (List.dropLast_subset line h), .inl rfl, fun ⟨s, hs⟩ => ?_⟩⟩, ?_⟩
      · rw [fromUtf8_eq_some_iff.mpr hs] at htext
        cases htext
      · rw [if_neg hnil]
        rfl
    | some text =>
      obtain rfl := fromUtf8_eq_some_iff.mp htext
      have hnewline : '\n' ∉ text := fun h => hline (mem_encode_newline h)
      have hne : text ≠ [] := by
        rintro rfl
        exact hnil rfl
      refine ⟨text, [], ⟨(List.append_nil _).symm, fun h => absurd rfl h⟩, ?_⟩
      have hchomp : chomp text = text := if_neg fun h => hnewline (List.mem_of_getLast? h)
      rw [lines_last hnewline, if_neg hne]
      dsimp only
      rw [hchomp]
      rfl
  | line line rest hline ih =>
    intro m
    have hlines : inputLines [] (line ++ 10 :: rest) = (line ++ [10]) :: inputLines [] rest := by
      rw [inputLines_append hline, List.nil_append, inputLines, if_pos rfl]
    rw [hlines, serveLines]
    cases htext : fromUtf8 (line ++ [10]) with
    | none =>
      refine ⟨[], line ++ 10 :: rest, ⟨rfl, fun _ => ⟨.inl rfl, line ++ [10], rest, List.append_cons line 10 rest, ?_,
        .inr List.getLast?_concat, fun ⟨s, hs⟩ => ?_⟩⟩, ?_⟩
      · rwa [List.dropLast_concat]
      · rw [fromUtf8_eq_some_iff.mpr hs] at htext
        cases htext
      · rw [if_neg (List.append_ne_nil_of_right_ne_nil _ (List.cons_ne_nil _ _))]
        rfl
    | some text =>
      obtain ⟨s, rfl, rfl⟩ := encode_concat_newline (fromUtf8_eq_some_iff.mp htext)
      have hnewline : '\n' ∉ s := fun h => hline (mem_encode_newline h)
      obtain ⟨more, rest', hread, hserved⟩ := ih (serveLine kernel returns fromStr m (chomp (s ++ ['\n'])))
      refine ⟨s ++ '\n' :: more, rest', ⟨?_, fun hrest => ⟨.inr ?_, (hread.stops hrest).2⟩⟩, ?_⟩
      · rw [hread.whole, List.append_cons s, encode_append, encode_append, List.append_assoc, List.append_assoc]
        rfl
      · rcases (hread.stops hrest).1 with rfl | hlast
        · exact List.getLast?_concat
        · rw [List.append_cons, List.getLast?_append, hlast]
          rfl
      · rw [lines_line hnewline, List.foldl_cons, ← chomp_newline]
        exact hserved

variable (fromStr) in
theorem runStdio_lines (state : KernelState) (stdin : Bytes) : ∃ text rest, ReadUpTo stdin text rest ∧
    runStdio kernel returns fromStr state stdin = ((lines text).foldl (serveLine kernel returns fromStr) { state },
      if rest = [] then .ok () else .error "stream did not contain valid UTF-8".toList) :=
  serveLines_inputLines kernel returns stdin _

/-- **Every request is answered once, in order and with its id, and nothing else is answered**, up to a line that is
not UTF-8, on which the server stops: the lines of the output are the answers. The parser gives numbers that are written
on one line. -/
theorem runStdio_answers (hdefs : ∀ t ∈ kernel.definitions, t.inputSchema.OneLine)
    (hparse : ∀ line v, '\n' ∉ line → fromStr line = some v → v.OneLine) (state : KernelState) (stdin : Bytes) :
    ∃ (text : Str) (rest : Bytes) (responses : List McpResponse), ReadUpTo stdin text rest ∧
      lines (runStdio kernel returns fromStr state stdin).1.stdout = responses.map (fun r => r.toJson.toStr) ∧
      Selects (WantsAnswer fromStr) (lines text) (responses.map fun r => r.id.getD .null) ∧
      (∀ r ∈ responses, r.OneAnswer) ∧ ((runStdio kernel returns fromStr state stdin).2 = .ok () ↔ rest = []) := by
  obtain ⟨text, rest, hread, hrun⟩ := runStdio_lines kernel returns fromStr state stdin
  obtain ⟨responses, hids, hresponses, hout⟩ :=
    foldl_serveLine_stdout kernel returns hdefs hparse (lines text) { state } fun l hl => newline_notMem_lines hl
  refine ⟨text, rest, responses, hread, ?_, ?_, fun r hr => (hresponses r hr).1, ?_⟩
  · rw [hrun, hout, List.nil_append, lines_unlines, List.map_map]
    · refine List.map_congr_left fun r _ => ?_
      obtain ⟨inner, htext⟩ := r.toStr_split
      rw [Function.comp_apply, htext, stripCr, if_neg (by rw [List.getLast?_concat]; decide)]
    · intro l hl
      obtain ⟨r, hr, rfl⟩ := List.mem_map.mp hl
      exact Json.newline_notMem_toStr _ (hresponses r hr).2.oneLine
  · have hselects := selects_filterMap (wantsAnswer_iff fromStr) (lines text)
    rw [← List.map_filterMap, ← hids, List.map_map] at hselects
    exact hselects
  · rw [hrun]
    dsimp only
    split
    · next h => exact iff_of_true rfl h
    · next h => exact iff_of_false (fun heq => by cases heq) h

/-- **The tools that the requests ask for are all that the server does to the kernel**, each once and in their order,
up to a line that is not UTF-8. -/
theorem runStdio_state (state : KernelState) (stdin : Bytes) :
    ∃ (text : Str) (rest : Bytes) (calls : List (Str × Json)), ReadUpTo stdin text rest ∧
      Selects (WantsTool fromStr) (lines text) calls ∧
      (runStdio kernel returns fromStr state stdin).1.state = runSteps (gatedCall kernel returns) state calls := by
  obtain ⟨text, rest, hread, hrun⟩ := runStdio_lines kernel returns fromStr state stdin
  refine ⟨text, rest, _, hread, selects_filterMap (wantsTool_iff fromStr) (lines text), ?_⟩
  rw [hrun]
  exact run_project (fun m line => serveLine_state kernel returns m line) (lines text) { state }

end Server

section Example

/-- A request for the tools, and the notification that the client is ready. -/
def exampleStdin : Str :=
  "\x7b\"jsonrpc\":\"2.0\",\"id\":1,\"method\":\"tools/list\"\x7d\n\x7b\"jsonrpc\":\"2.0\",\"method\":\"notifications/initialized\"\x7d\n".toList

/-- What `serde_json` makes of the two lines. -/
def exampleFromStr (line : Str) : Option Json :=
  if line = "\x7b\"jsonrpc\":\"2.0\",\"id\":1,\"method\":\"tools/list\"\x7d".toList then
    some (.object [("id".toList, .number ['1']), ("jsonrpc".toList, .string "2.0".toList), ("method".toList, .string "tools/list".toList)])
  else if line = "\x7b\"jsonrpc\":\"2.0\",\"method\":\"notifications/initialized\"\x7d".toList then
    some (.object [("jsonrpc".toList, .string "2.0".toList), ("method".toList, .string "notifications/initialized".toList)])
  else none

theorem exampleFromStr_oneLine (line : Str) (v : Json) (_ : '\n' ∉ line) (h : exampleFromStr line = some v) : v.OneLine := by
  unfold exampleFromStr at h
  split at h
  · cases h
    exact ⟨(by decide : '\n' ∉ ['1']), trivial, trivial, trivial⟩
  split at h
  · cases h
    exact ⟨trivial, trivial, trivial⟩
  · cases h

theorem runStdio_answers_example : ∃ (text : Str) (rest : Bytes) (responses : List McpResponse),
    ReadUpTo (encode exampleStdin) text rest ∧
      lines (runStdio ⟨∅, [], none⟩ (fun _ => .error .busClosed) exampleFromStr ⟨none, [], []⟩ (encode exampleStdin)).1.stdout =
        responses.map (fun r => r.toJson.toStr) ∧
      Selects (WantsAnswer exampleFromStr) (lines text) (responses.map fun r => r.id.getD .null) ∧
      (∀ r ∈ responses, r.OneAnswer) ∧
      ((runStdio ⟨∅, [], none⟩ (fun _ => .error .busClosed) exampleFromStr ⟨none, [], []⟩ (encode exampleStdin)).2 = .ok () ↔
        rest = []) :=
  runStdio_answers _ _ (fun _ h => absurd h List.not_mem_nil) exampleFromStr_oneLine _ _

end Example

end Zeptoclaw

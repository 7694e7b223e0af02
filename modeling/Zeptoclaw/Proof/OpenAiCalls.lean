import Zeptoclaw.Spec.OpenAi

/-!
# Streamed tool calls

The fragments of the calls arrive in any order of their indices; each one changes the call at its
index and no other (`call_at`). `streamedCalls_reassembled`: the calls come out in the order of
their indices, whatever the interleaving and the chunks are.
-/

namespace Zeptoclaw

namespace OpenAi

/-- The fragments in a chunk. -/
def StreamChunk.toolCallDeltas (chunk : StreamChunk) : List StreamToolCallDelta :=
  chunk.choices.flatMap fun d => d.toolCalls.getD []

/-- A chunk after the others, with the deltas that were returned. -/
def feedChunk (r : StreamState × List Str) (chunk : StreamChunk) : StreamState × List Str :=
  ((applyStreamChunk r.1 chunk).1, r.2 ++ (applyStreamChunk r.1 chunk).2)

def feedChunks (chunks : List StreamChunk) : StreamState × List Str := chunks.foldl feedChunk (.init, [])

def StreamToolCallDelta.name (d : StreamToolCallDelta) : Option Str := d.function.bind StreamFunctionDelta.name

def StreamToolCallDelta.arguments (d : StreamToolCallDelta) : Str := (d.function.bind StreamFunctionDelta.arguments).getD []

/-- The fragments of a call: the id and the name are in the first one only, and the arguments are cut in any way. -/
structure Fragments (call : LLMToolCall) (first : StreamToolCallDelta) (rest : List StreamToolCallDelta) : Prop where
  id : first.id = some call.id
  name : first.name = some call.name
  others : ∀ d ∈ rest, d.id = none ∧ d.name = none
  arguments : (first :: rest).flatMap StreamToolCallDelta.arguments = call.arguments

/-- The chunks carry the calls: no other index occurs, and the fragments of each index are those of its call. -/
structure Carries (chunks : List StreamChunk) (calls : List LLMToolCall) : Prop where
  index_lt : ∀ d ∈ chunks.flatMap StreamChunk.toolCallDeltas, d.index < calls.length
  fragments : ∀ i call, calls[i]? = some call → ∃ first rest,
    (chunks.flatMap StreamChunk.toolCallDeltas).filter (fun d => d.index = i) = first :: rest ∧ Fragments call first rest

/-! ## One call -/

/-- A call that has begun goes on with its other fragments. -/
theorem foldl_extend {rest : List StreamToolCallDelta} (h : ∀ d ∈ rest, d.id = none ∧ d.name = none) :
    ∀ p : PendingToolCall, rest.foldl PendingToolCall.extend p =
      ⟨p.id, p.name, p.arguments ++ rest.flatMap StreamToolCallDelta.arguments⟩ := by
  induction rest with
  | nil =>
    intro p
    rw [List.foldl_nil, List.flatMap_nil, List.append_nil]
  | cons d rest ih =>
    intro p
    obtain ⟨hid, hname⟩ := h d List.mem_cons_self
    unfold StreamToolCallDelta.name at hname
    have hd : p.extend d = ⟨p.id, p.name, p.arguments ++ d.arguments⟩ := by
      rw [PendingToolCall.extend, hid, hname, Option.getD_none, Option.getD_none, StreamToolCallDelta.arguments]
    rw [List.foldl_cons, ih (fun d' hd' => h d' (List.mem_cons_of_mem d hd')), hd, List.flatMap_cons, List.append_assoc]

theorem Fragments.foldl_extend {call : LLMToolCall} {first : StreamToolCallDelta} {rest : List StreamToolCallDelta}
    (h : Fragments call first rest) :
    (first :: rest).foldl PendingToolCall.extend .default = ⟨call.id, call.name, call.arguments⟩ := by
  have hname := h.name
  unfold StreamToolCallDelta.name at hname
  have hfirst : PendingToolCall.default.extend first = ⟨call.id, call.name, first.arguments⟩ := by
    rw [PendingToolCall.extend, h.id, hname, Option.getD_some, Option.getD_some, StreamToolCallDelta.arguments]
    rfl
  rw [List.foldl_cons, OpenAi.foldl_extend h.others, hfirst, ← h.arguments, List.flatMap_cons]

/-! ## All calls -/

section Calls

variable {pending : List PendingToolCall} {d : StreamToolCallDelta}

theorem length_applyToolCallDelta (pending : List PendingToolCall) (d : StreamToolCallDelta) :
    (applyToolCallDelta pending d).length = max pending.length (d.index + 1) := by
  rw [applyToolCallDelta, List.length_modify, List.length_append, List.length_replicate]
  omega

/-- What a fragment does to the call at an index; a call that is not there yet is empty. -/
theorem getD_applyToolCallDelta (pending : List PendingToolCall) (d : StreamToolCallDelta) (i : ℕ) :
    (applyToolCallDelta pending d)[i]?.getD .default =
      if d.index = i then (pending[i]?.getD .default).extend d else pending[i]?.getD .default := by
  have hgrown : (pending ++ List.replicate (d.index + 1 - pending.length) PendingToolCall.default)[i]?.getD .default =
      pending[i]?.getD .default := by
    rcases Nat.lt_or_ge i pending.length with hlt | hge
    · rw [List.getElem?_append_left hlt]
    · rw [List.getElem?_append_right hge, List.getElem?_eq_none hge, List.getElem?_replicate]
      split
      · rfl
      · rfl
  rw [applyToolCallDelta, List.getElem?_modify]
  split
  · rename_i heq
    subst heq
    have hlt : d.index < (pending ++ List.replicate (d.index + 1 - pending.length) PendingToolCall.default).length := by
      rw [List.length_append, List.length_replicate]
      omega
    rw [← hgrown, List.getElem?_eq_getElem hlt]
    rfl
  · rw [Option.map_eq_map, Option.map_id_fun', id_eq, hgrown]

theorem length_foldl_applyToolCallDelta_le {n : ℕ} : ∀ {ds : List StreamToolCallDelta} {pending : List PendingToolCall},
    (∀ d ∈ ds, d.index < n) → pending.length ≤ n → (ds.foldl applyToolCallDelta pending).length ≤ n := by
  intro ds
  induction ds with
  | nil => exact fun _ hle => hle
  | cons d ds ih =>
    intro pending hindex hle
    have hd := hindex d List.mem_cons_self
    refine ih (fun d' hd' => hindex d' (List.mem_cons_of_mem d hd')) ?_
    rw [length_applyToolCallDelta]
    omega

theorem lt_length_foldl_applyToolCallDelta {i : ℕ} : ∀ {ds : List StreamToolCallDelta} {pending : List PendingToolCall},
    (i < pending.length ∨ ∃ d ∈ ds, d.index = i) → i < (ds.foldl applyToolCallDelta pending).length := by
  intro ds
  induction ds with
  | nil => exact fun h => h.resolve_right (by simp)
  | cons d ds ih =>
    intro pending h
    refine ih ?_
    rw [length_applyToolCallDelta]
    rcases h with hlt | ⟨d', hd', hindex⟩
    · exact .inl (by omega)
    · rcases List.mem_cons.mp hd' with rfl | hd'
      · exact .inl (by omega)
      · exact .inr ⟨d', hd', hindex⟩

/-- The call at an index is what its own fragments make of it, in their order. -/
theorem call_at (i : ℕ) : ∀ (ds : List StreamToolCallDelta) (pending : List PendingToolCall),
    (ds.foldl applyToolCallDelta pending)[i]?.getD .default =
      (ds.filter fun d => d.index = i).foldl PendingToolCall.extend (pending[i]?.getD .default) := by
  intro ds
  induction ds with
  | nil => exact fun _ => rfl
  | cons d ds ih =>
    intro pending
    rw [List.foldl_cons, ih, getD_applyToolCallDelta]
    by_cases heq : d.index = i
    · rw [if_pos heq, List.filter_cons_of_pos (by simpa using heq), List.foldl_cons]
    · rw [if_neg heq, List.filter_cons_of_neg (by simpa using heq)]

end Calls

/-! ## Chunks -/

theorem foldl_applyChoice (choices : List StreamDelta) : ∀ s : StreamState,
    (choices.foldl applyChoice s).pendingToolCalls =
        (choices.flatMap fun d => d.toolCalls.getD []).foldl applyToolCallDelta s.pendingToolCalls ∧
      (choices.foldl applyChoice s).assembledContent =
        s.assembledContent ++ (choices.filterMap StreamDelta.content).flatten := by
  induction choices with
  | nil => exact fun s => ⟨rfl, (List.append_nil _).symm⟩
  | cons d choices ih =>
    intro s
    obtain ⟨hcalls, hcontent⟩ := ih (applyChoice s d)
    rw [List.foldl_cons, hcalls, hcontent, List.flatMap_cons, List.foldl_append, List.filterMap_cons]
    refine ⟨rfl, ?_⟩
    unfold applyChoice
    cases d.content with
    | none => rw [Option.getD_none, List.append_nil]
    | some content => rw [Option.getD_some, List.flatten_cons, List.append_assoc]

/-- One chunk. -/
theorem applyStreamChunk_spec (s : StreamState) (chunk : StreamChunk) :
    (applyStreamChunk s chunk).1.pendingToolCalls = chunk.toolCallDeltas.foldl applyToolCallDelta s.pendingToolCalls ∧
      (applyStreamChunk s chunk).1.assembledContent = s.assembledContent ++ (applyStreamChunk s chunk).2.flatten := by
  unfold applyStreamChunk
  dsimp only
  obtain ⟨hcalls, hcontent⟩ :=
    foldl_applyChoice chunk.choices (chunk.usage.elim s fun u => { s with usage := some (Usage.new u.1 u.2) })
  rw [hcalls, hcontent]
  cases chunk.usage with
  | none => exact ⟨rfl, rfl⟩
  | some u => exact ⟨rfl, rfl⟩

theorem foldl_feedChunk (chunks : List StreamChunk) : ∀ r : StreamState × List Str,
    r.1.assembledContent = r.2.flatten →
      (chunks.foldl feedChunk r).1.pendingToolCalls =
          (chunks.flatMap StreamChunk.toolCallDeltas).foldl applyToolCallDelta r.1.pendingToolCalls ∧
        (chunks.foldl feedChunk r).1.assembledContent = (chunks.foldl feedChunk r).2.flatten := by
  induction chunks with
  | nil => exact fun r h => ⟨rfl, h⟩
  | cons chunk chunks ih =>
    intro r h
    obtain ⟨hcalls, hcontent⟩ := applyStreamChunk_spec r.1 chunk
    have hnext : (feedChunk r chunk).1.assembledContent = (feedChunk r chunk).2.flatten := by
      unfold feedChunk
      rw [hcontent, h, List.flatten_append]
    obtain ⟨hall, hassembled⟩ := ih (feedChunk r chunk) hnext
    rw [List.foldl_cons, hall, List.flatMap_cons, List.foldl_append]
    refine ⟨?_, hassembled⟩
    rw [← hcalls]
    rfl

/-- Calls with an id and a name are all kept. -/
theorem finalizeToolCalls_map {calls : List LLMToolCall} (h : ∀ call ∈ calls, call.id ≠ [] ∧ call.name ≠ []) :
    finalizeToolCalls (calls.map fun call => ⟨call.id, call.name, call.arguments⟩) = calls := by
  unfold finalizeToolCalls
  rw [List.filterMap_map]
  induction calls with
  | nil => rfl
  | cons call calls ih =>
    obtain ⟨hid, hname⟩ := h call List.mem_cons_self
    have hcall : (some ⟨call.id, call.name, call.arguments⟩ : Option LLMToolCall) = some call := rfl
    rw [List.filterMap_cons, Function.comp_apply, if_neg (by simp [hid, hname]), hcall,
      ih fun c hc => h c (List.mem_cons_of_mem call hc)]

/-- The pending calls at the end are the carried ones: every index has its first fragment, and no other index occurs. -/
theorem Carries.pending {calls : List LLMToolCall} {chunks : List StreamChunk} (h : Carries chunks calls) :
    (chunks.flatMap StreamChunk.toolCallDeltas).foldl applyToolCallDelta [] =
      calls.map fun call => ⟨call.id, call.name, call.arguments⟩ := by
  have hlen : ((chunks.flatMap StreamChunk.toolCallDeltas).foldl applyToolCallDelta []).length ≤ calls.length :=
    length_foldl_applyToolCallDelta_le h.index_lt (Nat.zero_le _)
  refine List.ext_getElem? fun i => ?_
  rcases Nat.lt_or_ge i calls.length with hlt | hge
  · obtain ⟨first, rest, hfilter, hfragments⟩ := h.fragments i _ (List.getElem?_eq_getElem hlt)
    have hmem : first ∈ (chunks.flatMap StreamChunk.toolCallDeltas).filter fun d => d.index = i := by
      rw [hfilter]
      exact List.mem_cons_self
    obtain ⟨hfirst, hindex⟩ := List.mem_filter.mp hmem
    have hthere : i < ((chunks.flatMap StreamChunk.toolCallDeltas).foldl applyToolCallDelta []).length :=
      lt_length_foldl_applyToolCallDelta (.inr ⟨first, hfirst, of_decide_eq_true hindex⟩)
    have hcall := call_at i (chunks.flatMap StreamChunk.toolCallDeltas) []
    rw [hfilter, List.getElem?_nil, Option.getD_none, hfragments.foldl_extend, List.getElem?_eq_getElem hthere,
      Option.getD_some] at hcall
    rw [List.getElem?_eq_getElem hthere, hcall, List.getElem?_map, List.getElem?_eq_getElem hlt]
    rfl
  · rw [List.getElem?_eq_none (Nat.le_trans hlen hge), List.getElem?_eq_none (by rw [List.length_map]; exact hge)]

/-- **Streamed tool calls.** Chunks that carry the fragments of some calls, in any interleaving, give these calls, and the
content is the deltas one after the other. -/
theorem streamedCalls_reassembled {calls : List LLMToolCall} {chunks : List StreamChunk}
    (hcalls : ∀ call ∈ calls, call.id ≠ [] ∧ call.name ≠ []) (h : Carries chunks calls) :
    finalizeToolCalls (feedChunks chunks).1.pendingToolCalls = calls ∧
      (feedChunks chunks).1.assembledContent = (feedChunks chunks).2.flatten := by
  obtain ⟨hpending, hcontent⟩ := foldl_feedChunk chunks (.init, []) rfl
  have hlist : (feedChunks chunks).1.pendingToolCalls = calls.map fun call => ⟨call.id, call.name, call.arguments⟩ :=
    hpending.trans h.pending
  exact ⟨by rw [hlist, finalizeToolCalls_map hcalls], hcontent⟩

/-- Two calls, the second one first. -/
theorem streamedCalls_reassembled_two :
    finalizeToolCalls (feedChunks
      [⟨[⟨some "a".toList, some [⟨1, some "2".toList, some ⟨some "g".toList, some "[".toList⟩⟩]⟩], none⟩,
        ⟨[⟨none, some [⟨0, some "1".toList, some ⟨some "f".toList, none⟩⟩,
          ⟨1, none, some ⟨none, some "]".toList⟩⟩]⟩], none⟩,
        ⟨[⟨some "b".toList, some [⟨0, none, some ⟨none, some "[]".toList⟩⟩]⟩], some (1, 2)⟩]).1.pendingToolCalls =
      [⟨"1".toList, "f".toList, "[]".toList⟩, ⟨"2".toList, "g".toList, "[]".toList⟩] := by
  refine (streamedCalls_reassembled (by decide) ⟨by decide, ?_⟩).1
  intro i call hcall
  match i with
  | 0 =>
    obtain rfl := Option.some.inj hcall
    exact ⟨_, _, rfl, ⟨rfl, rfl, by decide, rfl⟩⟩
  | 1 =>
    obtain rfl := Option.some.inj hcall
    exact ⟨_, _, rfl, ⟨rfl, rfl, by decide, rfl⟩⟩
  | _ + 2 => exact nomatch hcall

end OpenAi

end Zeptoclaw

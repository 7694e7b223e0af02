import Zeptoclaw.Lib.Run
import Zeptoclaw.Spec.Delegate
import Mathlib.Algebra.BigOperators.Group.List.Basic

/-!
# What becomes of delegated tasks

* `swarm_permits`: over every interleaving of the calls no more sub-agents run at a time than there are permits, and no
  permit is lost.
* `delegate_answers`: an answer has the result of each task in the order of the tasks, whatever the order in which
  they end; a sequential call that is answered with an error began no task behind the one that failed.
* `subAgent_sees`: the prompt of a sequential task has the outputs of the tasks before it, on lines of their own.
* `delegation_stuck`: an output that the slice of the scratchpad cuts inside a character makes every later sequential
  call with tasks panic, until its role is written again.
-/

namespace Zeptoclaw

open Text

/-! ## The prompt -/

namespace SwarmScratchpad

theorem truncated_eq_none_iff {output : Str} :
    truncated output = none ↔ 2000 < byteLen output ∧ ∀ front rest, output = front ++ rest → byteLen front ≠ 2000 := by
  unfold truncated
  split
  · next hlong =>
    rw [Option.map_eq_none_iff]
    constructor
    · intro hnone
      refine ⟨hlong, fun front rest hsplit hlen => ?_⟩
      rw [splitAtByte_eq_some.mpr ⟨hsplit, hlen⟩] at hnone
      cases hnone
    · rintro ⟨-, hcut⟩
      cases h : splitAtByte 2000 output with
      | none => rfl
      | some cut =>
        obtain ⟨hsplit, hlen⟩ := splitAtByte_eq_some.mp h
        exact absurd hlen (hcut _ _ hsplit)
  · next hlong => exact ⟨fun h => (by cases h), fun h => absurd h.1 hlong⟩

theorem mapM_eq_none_iff {α β : Type} {f : α → Option β} : ∀ {l : List α}, l.mapM f = none ↔ ∃ a ∈ l, f a = none := by
  intro l
  induction l with
  | nil => simp
  | cons a l ih =>
    rw [List.mapM_cons]
    cases ha : f a with
    | none => simp [ha]
    | some b =>
      cases hl : l.mapM f with
      | none => simpa [ha] using ih.mp hl
      | some bs =>
        have hnone : ¬ ∃ a ∈ l, f a = none := fun h => by
          rw [ih.mpr h] at hl
          cases hl
        simpa [ha] using hnone

theorem mem_of_mapM {α β : Type} {f : α → Option β} : ∀ {l : List α} {bs : List β}, l.mapM f = some bs →
    ∀ a ∈ l, ∃ b ∈ bs, f a = some b := by
  intro l
  induction l with
  | nil => exact fun _ _ h => absurd h List.not_mem_nil
  | cons a l ih =>
    intro bs h
    rw [List.mapM_cons] at h
    obtain ⟨b, hb, h⟩ := Option.bind_eq_some_iff.mp h
    obtain ⟨bs', hbs', h⟩ := Option.bind_eq_some_iff.mp h
    obtain rfl := Option.some.inj h
    intro x hx
    rcases List.mem_cons.mp hx with rfl | hx
    · exact ⟨b, List.mem_cons_self, hb⟩
    · obtain ⟨c, hc, hfx⟩ := ih hbs' x hx
      exact ⟨c, List.mem_cons_of_mem b hc, hfx⟩

variable {entries : SwarmScratchpad} {role output : Str}

theorem mem_sorted {entry : Str × Str} : entry ∈ entries.pairs.mergeSort keyLe ↔ entries.lookup entry.1 = some entry.2 := by
  rw [(List.mergeSort_perm _ _).mem_iff]
  exact Assoc.mem_pairs

/-- The prompt panics exactly if some output is cut inside a character. -/
theorem formatForPrompt_eq_none_iff :
    entries.formatForPrompt = none ↔ ∃ role output, entries.lookup role = some output ∧ truncated output = none := by
  unfold formatForPrompt
  split
  · next hempty =>
    refine ⟨fun h => (by cases h), fun ⟨role, output, hlookup, _⟩ => ?_⟩
    have hmem := Assoc.mem_pairs.mpr hlookup
    rw [hempty] at hmem
    cases hmem
  · rw [Option.map_eq_none_iff, mapM_eq_none_iff]
    constructor
    · rintro ⟨entry, hmem, hline⟩
      exact ⟨entry.1, entry.2, mem_sorted.mp hmem, Option.map_eq_none_iff.mp hline⟩
    · rintro ⟨role, output, hlookup, hcut⟩
      exact ⟨(role, output), mem_sorted.mpr hlookup, Option.map_eq_none_iff.mpr hcut⟩

/-- The text has whole lines of its own. -/
def HasLine (text l : Str) : Prop :=
  ∃ front back, text = front ++ '\n' :: (l ++ back) ∧ ∀ c ∈ back.head?, c = '\n'

theorem HasLine.behind {text l : Str} (h : HasLine text l) (before : Str) : HasLine (before ++ text) l := by
  obtain ⟨front, back, rfl, hback⟩ := h
  exact ⟨before ++ front, back, (List.append_assoc before front _).symm, hback⟩

/-- A line but the first is one of the text. -/
theorem hasLine_intercalate {l : Str} : ∀ {ls : List Str} {first : Str}, l ∈ ls →
    HasLine (List.intercalate ['\n'] (first :: ls)) l := by
  intro ls
  induction ls with
  | nil => exact fun h => absurd h List.not_mem_nil
  | cons x ls ih =>
    intro first h
    rw [List.intercalate_cons_cons, List.append_assoc]
    refine HasLine.behind ?_ first
    rcases List.mem_cons.mp h with rfl | h
    · cases ls with
      | nil =>
        refine ⟨[], [], ?_, fun c hc => (by cases hc)⟩
        rw [List.intercalate_singleton, List.append_nil]
        rfl
      | cons y ls =>
        refine ⟨[], '\n' :: List.intercalate ['\n'] (y :: ls), ?_, fun c hc => (Option.some.inj hc).symm⟩
        rw [List.intercalate_cons_cons, List.append_assoc]
        rfl
    · exact (ih h).behind ['\n']

/-- What is shown of an output: all of it, or its first 2000 bytes with a note. -/
def Shown (output shown : Str) : Prop :=
  (byteLen output ≤ 2000 ∧ shown = output) ∨
    ∃ front rest, output = front ++ rest ∧ byteLen front = 2000 ∧ rest ≠ [] ∧ shown = front ++ "... [truncated]".toList

theorem shown_of_truncated {output shown : Str} (h : truncated output = some shown) : Shown output shown := by
  unfold truncated at h
  split at h
  · next hlong =>
    obtain ⟨cut, hcut, rfl⟩ := Option.map_eq_some_iff.mp h
    obtain ⟨hsplit, hlen⟩ := splitAtByte_eq_some.mp hcut
    refine .inr ⟨cut.1, cut.2, hsplit, hlen, fun hnil => ?_, rfl⟩
    rw [hsplit, hnil, List.append_nil, hlen] at hlong
    exact lt_irrefl _ hlong
  · next hlong => exact .inl ⟨not_lt.mp hlong, (Option.some.inj h).symm⟩

/-- Every output has its line. -/
theorem line_of_formatForPrompt {context : Str} (h : entries.formatForPrompt = some (some context))
    (hlookup : entries.lookup role = some output) : ∃ l, line (role, output) = some l ∧ HasLine context l := by
  unfold formatForPrompt at h
  split at h
  · cases h
  · obtain ⟨lines, hlines, h⟩ := Option.map_eq_some_iff.mp h
    obtain rfl := Option.some.inj h
    obtain ⟨l, hl, hline⟩ := mem_of_mapM hlines (role, output) (mem_sorted.mpr hlookup)
    exact ⟨l, hline, hasLine_intercalate hl⟩

theorem formatForPrompt_ne_empty (hlookup : entries.lookup role = some output) : entries.formatForPrompt ≠ some none := by
  unfold formatForPrompt
  split
  · next hempty =>
    have hmem := Assoc.mem_pairs.mpr hlookup
    rw [hempty] at hmem
    cases hmem
  · intro h
    obtain ⟨lines, -, h⟩ := Option.map_eq_some_iff.mp h
    cases h

end SwarmScratchpad

/-! ## One step -/

/-- A result in the answer. -/
def resultText : Except ZeptoError Str → Str
  | .ok output => output
  | .error e => "[error]: ".toList ++ e.display

/-- The scratchpad after a result. -/
def SwarmScratchpad.record (entries : SwarmScratchpad) (role : Str) : Except ZeptoError Str → SwarmScratchpad
  | .ok output => entries.insert role output
  | .error _ => entries

/-- What a step of a call does. -/
inductive CallMove (env : DelegateEnv) (shared : SwarmShared) (call : DelegateCall) :
    CallInput → DelegateCall → SwarmShared → Prop
  | prepared {before after : List (TaskSpec × Job)} {spec : TaskSpec} {prompt : Str}
    (hjobs : call.jobs = before ++ (spec, .pending) :: after)
    (hplace : call.request.parallel = true ∨ before.length = call.results.length)
    (hprompt : subAgentPrompt env shared.scratchpad (!call.request.parallel) spec.role = some prompt) :
    CallMove env shared call (.prepare before.length)
      { call with jobs := before ++ (spec, .waiting (createSubAgent env spec prompt)) :: after } shared
  | panicked {before after : List (TaskSpec × Job)} {spec : TaskSpec} (hjobs : call.jobs = before ++ (spec, .pending) :: after)
    (hplace : call.request.parallel = true ∨ before.length = call.results.length)
    (hprompt : subAgentPrompt env shared.scratchpad (!call.request.parallel) spec.role = none) :
    CallMove env shared call (.prepare before.length) { call with outcome := some .panicked } shared
  | acquired {before after : List (TaskSpec × Job)} {spec : TaskSpec} {agent : SubAgent}
    (hjobs : call.jobs = before ++ (spec, .waiting agent) :: after) (hpermits : 0 < shared.permits) :
    CallMove env shared call (.acquire before.length) { call with jobs := before ++ (spec, .running agent) :: after }
      { shared with permits := shared.permits - 1 }
  | finished {before after : List (TaskSpec × Job)} {spec : TaskSpec} {agent : SubAgent} (result : Except ZeptoError Str)
    (hjobs : call.jobs = before ++ (spec, .running agent) :: after) :
    CallMove env shared call (.finish before.length result)
      { call with jobs := before ++ (spec, .ended (DelegateCall.delegateResult spec.role result)) :: after }
      { shared with permits := shared.permits + 1 }
  | collected {before after : List (TaskSpec × Job)} {spec : TaskSpec} (result : Except ZeptoError Str)
    (hjobs : call.jobs = before ++ (spec, .ended result) :: after) (hplace : before.length = call.results.length)
    (hresult : call.request.parallel = false → ∃ output, result = .ok output)
    (hall : call.request.parallel = true → call.allEnded = true) :
    CallMove env shared call .collect (call.addResult spec.role (resultText result) (before ++ (spec, .collected result) :: after))
      { shared with scratchpad := shared.scratchpad.record spec.role result }
  | failed {before after : List (TaskSpec × Job)} {spec : TaskSpec} {e : ZeptoError}
    (hjobs : call.jobs = before ++ (spec, .ended (.error e)) :: after) (hplace : before.length = call.results.length)
    (hsequential : call.request.parallel = false) :
    CallMove env shared call .collect
      { call with jobs := before ++ (spec, .collected (.error e)) :: after, outcome := some (.answered (.error e)) } shared
  | dropped : CallMove env shared call .drop
      { call with
        jobs := call.jobs.map fun job => (job.1, job.2.stop)
        outcome := some .dropped } { shared with permits := shared.permits + call.running }

theorem callMove {env : DelegateEnv} {shared shared' : SwarmShared} {call call' : DelegateCall} {input : CallInput}
    (h : call.move env shared input = some (call', shared')) : CallMove env shared call input call' shared' := by
  cases input with
  | prepare j =>
    simp only [DelegateCall.move] at h
    split at h
    · next spec hjob =>
      obtain ⟨before, after, rfl, hjobs, hset⟩ := exists_split_of_getElem? hjob
      split at h
      · next hplace =>
        rw [Bool.or_eq_true, decide_eq_true_eq] at hplace
        split at h
        · next prompt hprompt =>
          cases h
          rw [hset]
          exact .prepared hjobs hplace hprompt
        · next hprompt =>
          cases h
          exact .panicked hjobs hplace hprompt
      · cases h
    · cases h
  | acquire j =>
    simp only [DelegateCall.move] at h
    split at h
    · next spec agent hjob =>
      obtain ⟨before, after, rfl, hjobs, hset⟩ := exists_split_of_getElem? hjob
      split at h
      · next hpermits =>
        cases h
        rw [hset]
        exact .acquired hjobs hpermits
      · cases h
    · cases h
  | finish j result =>
    simp only [DelegateCall.move] at h
    split at h
    · next spec agent hjob =>
      obtain ⟨before, after, rfl, hjobs, hset⟩ := exists_split_of_getElem? hjob
      cases h
      rw [hset]
      exact .finished result hjobs
    · cases h
  | collect =>
    simp only [DelegateCall.move] at h
    split at h
    · next spec output hjob =>
      obtain ⟨before, after, hlen, hjobs, hset⟩ := exists_split_of_getElem? hjob
      split at h
      · cases h
      · next hopen =>
        cases h
        rw [hset]
        exact .collected (.ok output) hjobs hlen (fun _ => ⟨output, rfl⟩) fun hparallel => by simpa [hparallel] using hopen
    · next spec e hjob =>
      obtain ⟨before, after, hlen, hjobs, hset⟩ := exists_split_of_getElem? hjob
      split at h
      · next hsequential =>
        cases h
        rw [hset]
        exact .failed hjobs hlen (by simpa using hsequential)
      · next hparallel =>
        split at h
        · cases h
        · next hopen =>
          cases h
          rw [hset]
          exact .collected (.error e) hjobs hlen (fun hsequential => by simp [hsequential] at hparallel) fun _ => by
            simpa using hopen
    · cases h
  | drop =>
    cases h
    exact .dropped

/-! ## One call -/

/-- The sub-agents at work on some tasks. -/
def atWork (jobs : List (TaskSpec × Job)) : ℕ := jobs.countP fun job => job.2.isRunning

theorem running_eq (call : DelegateCall) : call.running = atWork call.jobs := rfl

theorem atWork_append (jobs jobs' : List (TaskSpec × Job)) : atWork (jobs ++ jobs') = atWork jobs + atWork jobs' :=
  List.countP_append

theorem atWork_split (before : List (TaskSpec × Job)) (x : TaskSpec × Job) (after : List (TaskSpec × Job)) :
    atWork (before ++ x :: after) = atWork before + atWork after + atWork [x] := by
  rw [atWork_append, ← List.singleton_append, atWork_append]
  omega

theorem atWork_eq_zero {jobs : List (TaskSpec × Job)} (h : ∀ x ∈ jobs, x.2.isRunning = false) : atWork jobs = 0 :=
  List.countP_eq_zero.mpr fun x hx => Bool.eq_false_iff.mp (h x hx)

theorem atWork_stop (jobs : List (TaskSpec × Job)) : atWork (jobs.map fun job => (job.1, job.2.stop)) = 0 := by
  refine atWork_eq_zero fun x hx => ?_
  obtain ⟨⟨spec, job⟩, -, rfl⟩ := List.mem_map.mp hx
  cases job <;> rfl

namespace DelegateCall

variable {env : DelegateEnv} {shared shared' : SwarmShared} {call call' : DelegateCall} {input : CallInput}

/-- A step takes a permit for a sub-agent that it starts, and gives back those of the ones it ends. -/
theorem permits_move (h : CallMove env shared call input call' shared') :
    shared'.permits + call'.running = shared.permits + call.running := by
  cases h with
  | prepared hjobs _ _ =>
    rw [running_eq, running_eq, hjobs, atWork_split, atWork_split]
    rfl
  | panicked => rfl
  | acquired hjobs hpermits =>
    rw [running_eq, running_eq, hjobs, atWork_split, atWork_split]
    change shared.permits - 1 + (_ + 1) = shared.permits + (_ + 0)
    omega
  | finished result hjobs =>
    rw [running_eq, running_eq, hjobs, atWork_split, atWork_split]
    change shared.permits + 1 + (_ + 0) = shared.permits + (_ + 1)
    omega
  | collected result hjobs _ _ _ =>
    rw [running_eq, running_eq, addResult, hjobs, atWork_split, atWork_split]
    rfl
  | failed hjobs _ _ =>
    rw [running_eq, running_eq, hjobs, atWork_split, atWork_split]
    rfl
  | dropped =>
    exact congrArg (shared.permits + call.running + ·) (atWork_stop call.jobs)

/-- The tasks whose results have been used are the first ones. In a sequential call they were successful, and behind
the task that is at its turn none has begun. -/
structure Progress (call : DelegateCall) (done : List (TaskSpec × Except ZeptoError Str)) (rest : List (TaskSpec × Job)) :
    Prop where
  specs : call.jobs.map Prod.fst = call.request.specs
  jobs : call.jobs = done.map (fun d => (d.1, .collected d.2)) ++ rest
  results : call.results = done.map fun d => (d.1.role, resultText d.2)
  ok : call.request.parallel = false → ∀ d ∈ done, ∃ output, d.2 = .ok output
  later : call.request.parallel = false → ∀ x ∈ rest.tail, x.2 = .pending

/-- What the outcome says of the tasks that are left. -/
def Fits (call : DelegateCall) (rest : List (TaskSpec × Job)) : Prop :=
  match call.outcome with
  | none => rest ≠ []
  | some (.answered (.ok text)) => rest = [] ∧ text = formatResults call.results call.request.merge
  | some (.answered (.error e)) =>
    call.request.parallel = false ∧ ∃ spec later, rest = (spec, .collected (.error e)) :: later
  | some .panicked => call.request.parallel = false ∧ ∃ spec later, rest = (spec, .pending) :: later
  | some .dropped => atWork rest = 0

section Progress

variable {done : List (TaskSpec × Except ZeptoError Str)} {rest before after : List (TaskSpec × Job)} {x : TaskSpec × Job}

theorem Progress.length (h : Progress call done rest) : call.results.length = done.length := by
  rw [h.results, List.length_map]

/-- A task whose result has not been used is one of the rest. -/
theorem Progress.split (h : Progress call done rest) (hjobs : call.jobs = before ++ x :: after)
    (hx : ∀ r, x.2 ≠ .collected r) :
    ∃ mid, before = done.map (fun d => (d.1, .collected d.2)) ++ mid ∧ rest = mid ++ x :: after := by
  have heq := h.jobs.symm.trans hjobs
  rcases List.append_eq_append_iff.mp heq with ⟨mid, hbefore, hrest⟩ | ⟨mid, hdone, hafter⟩
  · exact ⟨mid, hbefore, hrest⟩
  · cases mid with
    | nil => exact ⟨[], by rw [List.append_nil] at hdone ⊢; exact hdone.symm, hafter.symm⟩
    | cons y mid =>
      obtain ⟨rfl, -⟩ := List.cons.inj hafter
      have hmem : x ∈ done.map fun d => (d.1, Job.collected d.2) := hdone ▸ List.mem_append_right _ List.mem_cons_self
      obtain ⟨d, -, rfl⟩ := List.mem_map.mp hmem
      exact absurd rfl (hx d.2)

/-- At the place of the next result, it is the first of the rest. -/
theorem Progress.split_next (h : Progress call done rest) (hjobs : call.jobs = before ++ x :: after)
    (hplace : before.length = call.results.length) :
    before = done.map (fun d => (d.1, .collected d.2)) ∧ rest = x :: after := by
  have heq := hjobs.symm.trans h.jobs
  obtain ⟨hbefore, hrest⟩ := List.append_inj heq (by rw [hplace, h.length, List.length_map])
  exact ⟨hbefore, hrest.symm⟩

/-- A task of the rest goes on. In a sequential call only the first one can. -/
theorem Progress.goOn (h : Progress call done rest) (hjobs : call.jobs = before ++ x :: after) (hx : ∀ r, x.2 ≠ .collected r)
    (hplace : call.request.parallel = true ∨ before.length = call.results.length ∨ x.2 ≠ .pending) (job : Job) :
    ∃ rest', rest' ≠ [] ∧ Progress { call with jobs := before ++ (x.1, job) :: after } done rest' := by
  obtain ⟨mid, hbefore, hrest⟩ := h.split hjobs hx
  refine ⟨mid ++ (x.1, job) :: after, List.append_ne_nil_of_right_ne_nil _ (List.cons_ne_nil _ _), ?_, ?_, h.results, h.ok, ?_⟩
  · rw [← h.specs, hjobs]
    simp only [List.map_append, List.map_cons]
  · dsimp only
    rw [hbefore, List.append_assoc]
  · intro hsequential y hy
    have hlater := h.later hsequential
    rw [hrest] at hlater
    cases mid with
    | nil => exact hlater y hy
    | cons z mid =>
      have hpending : x.2 = .pending := hlater x (List.mem_append_right _ List.mem_cons_self)
      rcases hplace with hparallel | hlen | hne
      · rw [hsequential] at hparallel
        cases hparallel
      · rw [hbefore, List.length_append, List.length_map, h.length] at hlen
        exact absurd hlen (by rw [List.length_cons]; omega)
      · exact absurd hpending hne

end Progress

/-- Where a call is. -/
def Consistent (call : DelegateCall) : Prop := ∃ done rest, Progress call done rest ∧ Fits call rest

theorem consistent_start (request : DelegateRequest) : Consistent (start request) := by
  refine ⟨[], (start request).jobs, ⟨?_, rfl, rfl, fun _ _ h => absurd h List.not_mem_nil, fun _ x hx => ?_⟩, ?_⟩
  · rw [start, List.map_map]
    exact List.map_id _
  · obtain ⟨spec, -, rfl⟩ := List.mem_map.mp (List.mem_of_mem_tail hx)
    rfl
  · unfold Fits
    by_cases hspecs : request.specs = []
    · simp [start, hspecs]
    · simp [start, hspecs]

theorem Consistent.move (h : Consistent call) (hopen : call.outcome = none) (hmove : CallMove env shared call input call' shared') :
    Consistent call' := by
  obtain ⟨done, rest, hprogress, hfits⟩ := h
  cases hmove with
  | prepared hjobs hplace _ =>
    obtain ⟨rest', hne, hprogress'⟩ := hprogress.goOn hjobs (fun _ h => by cases h) (hplace.imp_right Or.inl) _
    refine ⟨done, rest', hprogress', ?_⟩
    rw [Fits, hopen]
    exact hne
  | panicked hjobs hplace hprompt =>
    have hsequential : call.request.parallel = false := by
      cases hparallel : call.request.parallel with
      | false => rfl
      | true =>
        rw [hparallel] at hprompt
        cases hprompt
    have hlen := hplace.resolve_left (by rw [hsequential]; exact Bool.false_ne_true)
    obtain ⟨-, hrest⟩ := hprogress.split_next hjobs hlen
    exact ⟨done, rest, ⟨hprogress.specs, hprogress.jobs, hprogress.results, hprogress.ok, hprogress.later⟩,
      hsequential, _, _, hrest⟩
  | acquired hjobs _ =>
    obtain ⟨rest', hne, hprogress'⟩ := hprogress.goOn hjobs (fun _ h => by cases h) (Or.inr (Or.inr fun h => by cases h)) _
    refine ⟨done, rest', hprogress', ?_⟩
    rw [Fits, hopen]
    exact hne
  | finished result hjobs =>
    obtain ⟨rest', hne, hprogress'⟩ := hprogress.goOn hjobs (fun _ h => by cases h) (Or.inr (Or.inr fun h => by cases h)) _
    refine ⟨done, rest', hprogress', ?_⟩
    rw [Fits, hopen]
    exact hne
  | @collected before after spec result hjobs hplace hresult _ =>
    obtain ⟨hbefore, hrest⟩ := hprogress.split_next hjobs hplace
    have hlater := hprogress.later
    rw [hrest] at hlater
    refine ⟨done ++ [(spec, result)], after, ⟨?_, ?_, ?_, fun hsequential d hd => ?_, fun hsequential x hx => ?_⟩, ?_⟩
    · rw [addResult, ← hprogress.specs, hjobs]
      simp only [List.map_append, List.map_cons]
    · rw [addResult, hbefore, List.map_append, List.append_assoc]
      rfl
    · rw [addResult, hprogress.results, List.map_append]
      rfl
    · rcases List.mem_append.mp hd with hd | hd
      · exact hprogress.ok hsequential d hd
      · rw [List.mem_singleton.mp hd]
        exact hresult hsequential
    · exact hlater hsequential x (List.mem_of_mem_tail hx)
    · have hlen : call.jobs.length = call.results.length + 1 + after.length := by
        rw [hjobs, List.length_append, List.length_cons, hplace]
        omega
      unfold Fits addResult
      dsimp only
      rw [List.length_append, List.length_singleton, hlen]
      by_cases hafter : after = []
      · rw [hafter, List.length_nil, Nat.add_zero, if_pos rfl]
        exact ⟨rfl, rfl⟩
      · rw [if_neg (by have := List.length_pos_iff.mpr hafter; omega)]
        exact hafter
  | @failed before after spec e hjobs hplace hsequential =>
    obtain ⟨hbefore, hrest⟩ := hprogress.split_next hjobs hplace
    have hlater := hprogress.later
    rw [hrest] at hlater
    refine ⟨done, (spec, .collected (.error e)) :: after, ⟨?_, ?_, hprogress.results, hprogress.ok, hlater⟩, hsequential, spec,
      after, rfl⟩
    · rw [← hprogress.specs, hjobs]
      simp only [List.map_append, List.map_cons]
    · rw [hbefore]
  | dropped =>
    have hprogress' : Progress { call with
        jobs := call.jobs.map fun job => (job.1, job.2.stop)
        outcome := some .dropped } done (rest.map fun job => (job.1, job.2.stop)) := by
      refine ⟨?_, ?_, hprogress.results, hprogress.ok, fun hsequential x hx => ?_⟩
      · rw [← hprogress.specs, List.map_map]
        rfl
      · dsimp only
        rw [hprogress.jobs, List.map_append, List.map_map]
        rfl
      · rw [← List.map_tail] at hx
        obtain ⟨y, hy, rfl⟩ := List.mem_map.mp hx
        rw [hprogress.later hsequential y hy]
        rfl
    exact ⟨done, _, hprogress', atWork_stop rest⟩

/-- A call with an outcome has no sub-agent at work. -/
theorem Consistent.running (h : Consistent call) (houtcome : call.outcome ≠ none) : call.running = 0 := by
  obtain ⟨done, rest, hprogress, hfits⟩ := h
  have hdone : atWork (done.map fun d => (d.1, Job.collected d.2)) = 0 := by
    refine atWork_eq_zero fun x hx => ?_
    obtain ⟨d, -, rfl⟩ := List.mem_map.mp hx
    rfl
  -- a sequential call whose first task is not at work has none at work
  have hfirst {x : TaskSpec × Job} {later : List (TaskSpec × Job)} (hsequential : call.request.parallel = false)
      (hrest : rest = x :: later) (hx : x.2.isRunning = false) : atWork rest = 0 := by
    refine atWork_eq_zero fun y hy => ?_
    have hlater := hprogress.later hsequential
    rw [hrest] at hlater hy
    rcases List.mem_cons.mp hy with rfl | hy
    · exact hx
    · rw [hlater y hy]
      rfl
  rw [running_eq, hprogress.jobs, atWork_append, hdone, Nat.zero_add]
  unfold Fits at hfits
  split at hfits
  · next hnone => exact absurd hnone houtcome
  · rw [hfits.1]
    rfl
  · obtain ⟨hsequential, spec, later, hrest⟩ := hfits
    exact hfirst hsequential hrest rfl
  · obtain ⟨hsequential, spec, later, hrest⟩ := hfits
    exact hfirst hsequential hrest rfl
  · exact hfits

end DelegateCall

/-! ## All calls -/

namespace Swarm

variable {env : DelegateEnv} {s : Swarm}

/-- What a step can do. -/
theorem step_cases (env : DelegateEnv) (s : Swarm) (input : SwarmInput) :
    s.step env input = s ∨
    (∃ channel args request, input = .call channel args ∧ parseDelegate env channel args = .ok request ∧
      s.step env input = { s with calls := s.calls ++ [.start request] }) ∨
    ∃ before call after move call' shared, input = .step before.length move ∧ s.calls = before ++ call :: after ∧
      call.outcome = none ∧ CallMove env s.shared call move call' shared ∧
      s.step env input = { shared, calls := before ++ call' :: after } := by
  cases input with
  | call channel args =>
    simp only [step]
    split
    · next request hrequest => exact Or.inr (Or.inl ⟨channel, args, request, rfl, hrequest, rfl⟩)
    · exact Or.inl rfl
  | step c move =>
    simp only [step]
    split
    · next call hcall =>
      obtain ⟨before, after, rfl, hcalls, hset⟩ := exists_split_of_getElem? hcall
      split
      · exact Or.inl rfl
      · next hopen =>
        rw [Bool.not_eq_true, Option.isSome_eq_false_iff, Option.isNone_iff_eq_none] at hopen
        split
        · next call' shared hmove =>
          exact Or.inr (Or.inr ⟨before, call, after, move, call', shared, rfl, hcalls, hopen, callMove hmove, by rw [hset]⟩)
        · exact Or.inl rfl
    · exact Or.inl rfl

/-- A call after a step was there before, is new, or took the step. -/
theorem calls_step {input : SwarmInput} {c : ℕ} {call' : DelegateCall} (h : (s.step env input).calls[c]? = some call') :
    s.calls[c]? = some call' ∨ (∃ request, call' = .start request) ∨
      ∃ call move, input = .step c move ∧ s.calls[c]? = some call ∧ call.outcome = none ∧
        CallMove env s.shared call move call' (s.step env input).shared := by
  rcases step_cases env s input with hsame | ⟨channel, args, request, -, -, hstep⟩ |
    ⟨before, call, after, move, moved, shared, hinput, hcalls, hopen, hmove, hstep⟩
  · rw [hsame] at h
    exact Or.inl h
  · rw [hstep] at h
    dsimp only at h
    rw [List.getElem?_append] at h
    split at h
    · exact Or.inl h
    · exact Or.inr (Or.inl ⟨request, List.mem_singleton.mp (List.mem_of_getElem? h)⟩)
  · rw [hstep] at h ⊢
    dsimp only at h ⊢
    rw [getElem?_split before after call] at h
    by_cases hc : c = before.length
    · rw [if_pos hc] at h
      obtain rfl := Option.some.inj h
      refine Or.inr (Or.inr ⟨call, move, by rw [hinput, hc], ?_, hopen, hmove⟩)
      rw [hcalls, hc, getElem?_middle]
    · rw [if_neg hc, ← hcalls] at h
      exact Or.inl h

/-- The sub-agents at work. -/
def running (s : Swarm) : ℕ := (s.calls.map DelegateCall.running).sum

/-- The permits of the semaphore. -/
def capacity (env : DelegateEnv) : ℕ := (new env).shared.permits

/-- Every call is consistent, and a permit is free or with a sub-agent. -/
structure Sound (env : DelegateEnv) (s : Swarm) : Prop where
  calls : ∀ call ∈ s.calls, call.Consistent
  permits : s.shared.permits + s.running = capacity env

theorem running_start (request : DelegateRequest) : (DelegateCall.start request).running = 0 := by
  refine atWork_eq_zero fun x hx => ?_
  obtain ⟨spec, -, rfl⟩ := List.mem_map.mp hx
  rfl

theorem Sound.step (h : s.Sound env) (input : SwarmInput) : (s.step env input).Sound env := by
  rcases step_cases env s input with hsame | ⟨channel, args, request, -, -, hcall⟩ |
    ⟨before, call, after, move, call', shared, -, hcalls, hopen, hmove, hstep⟩
  · rw [hsame]
    exact h
  · rw [hcall]
    refine ⟨fun call hmem => ?_, ?_⟩
    · rcases List.mem_append.mp hmem with hmem | hmem
      · exact h.calls call hmem
      · rw [List.mem_singleton.mp hmem]
        exact DelegateCall.consistent_start request
    · rw [← h.permits]
      simp only [running, List.map_append, List.map_cons, List.map_nil, List.sum_append, running_start, List.sum_cons,
        List.sum_nil, Nat.add_zero]
  · rw [hstep]
    have hcall := h.calls call (hcalls ▸ List.mem_append_right _ List.mem_cons_self)
    refine ⟨fun x hx => ?_, ?_⟩
    · rcases mem_split.mp hx with rfl | hx
      · exact hcall.move hopen hmove
      · exact h.calls x (hcalls ▸ mem_split.mpr (Or.inr hx))
    · have hpermits := DelegateCall.permits_move hmove
      have hbefore := h.permits
      simp only [running, hcalls, List.map_append, List.map_cons, List.sum_append, List.sum_cons] at hbefore ⊢
      omega

theorem sound_new (env : DelegateEnv) : (new env).Sound env := ⟨fun _ h => absurd h List.not_mem_nil, Nat.add_zero _⟩

theorem sound_run (env : DelegateEnv) (inputs : List SwarmInput) : (runSteps (step env) (new env) inputs).Sound env := by
  have hstep : ∀ s input, Sound env s → Sound env (step env s input) := fun _ input h => h.step input
  exact run_preserves hstep inputs _ (sound_new env)

end Swarm

/-- **No more sub-agents run at a time than there are permits**, and when all calls have ended, all permits are back. -/
theorem swarm_permits (env : DelegateEnv) (inputs : List SwarmInput) :
    (runSteps (Swarm.step env) (.new env) inputs).running ≤ max 1 env.swarm.maxConcurrent ∧
      ((∀ call ∈ (runSteps (Swarm.step env) (.new env) inputs).calls, call.outcome ≠ none) →
        (runSteps (Swarm.step env) (.new env) inputs).shared.permits = max 1 env.swarm.maxConcurrent) := by
  have hsound := Swarm.sound_run env inputs
  have hcapacity : Swarm.capacity env = max 1 env.swarm.maxConcurrent := by
    unfold Swarm.capacity Swarm.new
    dsimp only
    split <;> omega
  rw [← hcapacity, ← hsound.permits]
  refine ⟨Nat.le_add_left _ _, fun hended => ?_⟩
  have hnone : Swarm.running (runSteps (Swarm.step env) (.new env) inputs) = 0 := by
    refine List.sum_eq_zero fun n hn => ?_
    obtain ⟨call, hcall, rfl⟩ := List.mem_map.mp hn
    exact (hsound.calls call hcall).running (hended call hcall)
  rw [hnone, Nat.add_zero]

/-! ## Results -/

theorem Job.eq_of_stop_eq {job job' : Job} (h : job.stop = job') (hpending : job' ≠ .pending) : job = job' := by
  cases job with
  | running agent => exact absurd h.symm hpending
  | pending | waiting | ended | collected => exact h

namespace DelegateCall

variable {env : DelegateEnv} {shared shared' : SwarmShared} {call call' : DelegateCall} {input : CallInput} {j : ℕ}
  {spec : TaskSpec} {r : Except ZeptoError Str}

/-- A task has ended with a result. -/
def HasResult (call : DelegateCall) (j : ℕ) (spec : TaskSpec) (r : Except ZeptoError Str) : Prop :=
  call.jobs[j]? = some (spec, .ended r) ∨ call.jobs[j]? = some (spec, .collected r)

/-- A task that goes on has no result that it did not have. -/
theorem hasResult_of_replace {before after : List (TaskSpec × Job)} {spec' : TaskSpec} {old new : Job}
    (hjobs : call.jobs = before ++ (spec', old) :: after)
    (hnew : ∀ r, new = .ended r ∨ new = .collected r → old = .ended r ∨ old = .collected r)
    (h : (before ++ (spec', new) :: after)[j]? = some (spec, .ended r) ∨
      (before ++ (spec', new) :: after)[j]? = some (spec, .collected r)) : call.HasResult j spec r := by
  unfold HasResult
  rw [getElem?_split before after (spec', old)] at h
  by_cases hj : j = before.length
  · rw [if_pos hj] at h
    have hjob : spec' = spec ∧ (new = .ended r ∨ new = .collected r) := by
      rcases h with h | h
      · cases h
        exact ⟨rfl, Or.inl rfl⟩
      · cases h
        exact ⟨rfl, Or.inr rfl⟩
    rw [hjobs, hj, getElem?_middle, hjob.1]
    exact (hnew r hjob.2).imp (fun hold => by rw [hold]) (fun hold => by rw [hold])
  · rw [if_neg hj, ← hjobs] at h
    exact h

/-- A result is there since a step at which the sub-agent returned. -/
theorem HasResult.of_move (hmove : CallMove env shared call input call' shared') (h : call'.HasResult j spec r) :
    call.HasResult j spec r ∨ ∃ returned agent, input = .finish j returned ∧ r = delegateResult spec.role returned ∧
      call.jobs[j]? = some (spec, .running agent) := by
  -- a result that is used was there before
  have hused {r' : Except ZeptoError Str} : ∀ r, Job.collected r' = .ended r ∨ Job.collected r' = .collected r →
      Job.ended r' = .ended r ∨ Job.ended r' = .collected r := by
    rintro r (h | h)
    · cases h
    · cases h
      exact Or.inl rfl
  cases hmove with
  | prepared hjobs _ _ => exact Or.inl (hasResult_of_replace hjobs (by rintro _ (h | h) <;> cases h) h)
  | panicked => exact Or.inl h
  | acquired hjobs _ => exact Or.inl (hasResult_of_replace hjobs (by rintro _ (h | h) <;> cases h) h)
  | @finished before after spec' agent result hjobs =>
    unfold HasResult at h
    dsimp only at h
    rw [getElem?_split before after (spec', .running agent)] at h
    by_cases hj : j = before.length
    · rw [if_pos hj] at h
      rcases h with h | h
      · cases h
        refine Or.inr ⟨result, agent, by rw [hj], rfl, ?_⟩
        rw [hjobs, hj, getElem?_middle]
      · cases h
    · rw [if_neg hj, ← hjobs] at h
      exact Or.inl h
  | collected result hjobs _ _ _ => exact Or.inl (hasResult_of_replace hjobs hused h)
  | failed hjobs _ _ => exact Or.inl (hasResult_of_replace hjobs hused h)
  | dropped =>
    unfold HasResult at h
    simp only [List.getElem?_map, Option.map_eq_some_iff, Prod.mk.injEq] at h
    rcases h with ⟨x, hx, rfl, hjob⟩ | ⟨x, hx, rfl, hjob⟩
    · exact Or.inl (Or.inl (by rw [hx, ← Job.eq_of_stop_eq hjob (fun h => by cases h)]))
    · exact Or.inl (Or.inr (by rw [hx, ← Job.eq_of_stop_eq hjob (fun h => by cases h)]))

end DelegateCall

namespace Swarm

variable {env : DelegateEnv} {c : ℕ} {call : DelegateCall}

/-- In the run a sub-agent of the task was at work and returned, and this is the result. -/
def Returned (env : DelegateEnv) (inputs : List SwarmInput) (c j : ℕ) (spec : TaskSpec) (r : Except ZeptoError Str) : Prop :=
  ∃ before returned after, inputs = before ++ .step c (.finish j returned) :: after ∧
    r = DelegateCall.delegateResult spec.role returned ∧
    ∃ call agent, (runSteps (step env) (new env) before).calls[c]? = some call ∧ call.outcome = none ∧
      call.jobs[j]? = some (spec, .running agent)

theorem Returned.concat {inputs : List SwarmInput} {j : ℕ} {spec : TaskSpec} {r : Except ZeptoError Str}
    (h : Returned env inputs c j spec r) (input : SwarmInput) : Returned env (inputs ++ [input]) c j spec r := by
  obtain ⟨before, returned, after, rfl, hr, hcall⟩ := h
  exact ⟨before, returned, after ++ [input], by rw [List.append_assoc, List.cons_append], hr, hcall⟩

/-- Every result of a task was returned by a sub-agent. -/
theorem returned_of_hasResult (env : DelegateEnv) (inputs : List SwarmInput) :
    ∀ {c : ℕ} {call : DelegateCall}, (runSteps (step env) (new env) inputs).calls[c]? = some call →
      ∀ {j : ℕ} {spec : TaskSpec} {r : Except ZeptoError Str}, call.HasResult j spec r → Returned env inputs c j spec r := by
  induction inputs using List.reverseRecOn with
  | nil => exact fun h => by cases h
  | append_singleton inputs input ih =>
    intro c call hcall j spec r hresult
    rw [runSteps_concat] at hcall
    rcases calls_step hcall with hbefore | ⟨request, rfl⟩ | ⟨call₀, move, hinput, hcall₀, hopen, hmove⟩
    · exact (ih hbefore hresult).concat input
    · rcases hresult with h | h
      · obtain ⟨_, -, heq⟩ := List.mem_map.mp (List.mem_of_getElem? h)
        cases heq
      · obtain ⟨_, -, heq⟩ := List.mem_map.mp (List.mem_of_getElem? h)
        cases heq
    · rcases hresult.of_move hmove with hold | ⟨returned, agent, rfl, hr, hjob⟩
      · exact (ih hcall₀ hold).concat input
      · exact ⟨inputs, returned, [], by rw [hinput], hr, call₀, agent, hcall₀, hopen, hjob⟩

end Swarm

/-- The results that were used are those of the first tasks. -/
theorem job_done {call : DelegateCall} {done : List (TaskSpec × Except ZeptoError Str)} {rest : List (TaskSpec × Job)}
    (h : call.Progress done rest) {j : ℕ} {d : TaskSpec × Except ZeptoError Str} (hd : done[j]? = some d) :
    call.jobs[j]? = some (d.1, .collected d.2) := by
  have hlt : j < (done.map fun d => (d.1, Job.collected d.2)).length := by
    rw [List.length_map]
    exact (List.getElem?_eq_some_iff.mp hd).1
  rw [h.jobs, List.getElem?_append_left hlt, List.getElem?_map, hd]
  rfl

/-- **What a call answers**: the result of each task, in the order of the tasks, or the error of the first task of a
sequential call that failed; no task behind that one has begun. -/
theorem delegate_answers (env : DelegateEnv) (inputs : List SwarmInput) {c : ℕ} {call : DelegateCall}
    (hcall : (runSteps (Swarm.step env) (.new env) inputs).calls[c]? = some call) :
    (∀ text, call.outcome = some (.answered (.ok text)) →
      ∃ done : List (TaskSpec × Except ZeptoError Str), done.map Prod.fst = call.request.specs ∧
        (∀ j d, done[j]? = some d → Swarm.Returned env inputs c j d.1 d.2) ∧
        (call.request.parallel = false → ∀ d ∈ done, ∃ output, d.2 = .ok output) ∧
        text = formatResults (done.map fun d => (d.1.role, resultText d.2)) call.request.merge) ∧
    ∀ e, call.outcome = some (.answered (.error e)) → call.request.parallel = false ∧
      ∃ (done : List (TaskSpec × Except ZeptoError Str)) (spec : TaskSpec) (later : List TaskSpec),
        call.request.specs = done.map Prod.fst ++ spec :: later ∧
        (∀ j d, done[j]? = some d → Swarm.Returned env inputs c j d.1 d.2 ∧ ∃ output, d.2 = .ok output) ∧
        Swarm.Returned env inputs c done.length spec (.error e) ∧
        ∀ j x, done.length < j → call.jobs[j]? = some x → x.2 = .pending := by
  obtain ⟨done, rest, hprogress, hfits⟩ := (Swarm.sound_run env inputs).calls call (List.mem_of_getElem? hcall)
  have hreturned : ∀ j d, done[j]? = some d → Swarm.Returned env inputs c j d.1 d.2 := fun j d hd =>
    Swarm.returned_of_hasResult env inputs hcall (Or.inr (job_done hprogress hd))
  have hspecs : done.map Prod.fst ++ rest.map Prod.fst = call.request.specs := by
    rw [← hprogress.specs, hprogress.jobs, List.map_append, List.map_map]
    rfl
  constructor
  · intro text houtcome
    rw [DelegateCall.Fits, houtcome] at hfits
    obtain ⟨rfl, rfl⟩ := hfits
    rw [List.map_nil, List.append_nil] at hspecs
    exact ⟨done, hspecs, hreturned, hprogress.ok, by rw [hprogress.results]⟩
  · intro e houtcome
    rw [DelegateCall.Fits, houtcome] at hfits
    obtain ⟨hsequential, spec, later, rfl⟩ := hfits
    have hlen : (done.map fun d => (d.1, Job.collected d.2)).length = done.length := List.length_map _
    refine ⟨hsequential, done, spec, later.map Prod.fst, hspecs.symm, fun j d hd => ⟨hreturned j d hd, ?_⟩, ?_, ?_⟩
    · exact hprogress.ok hsequential d (List.mem_of_getElem? hd)
    · refine Swarm.returned_of_hasResult env inputs hcall (Or.inr ?_)
      rw [hprogress.jobs, List.getElem?_append_right hlen.le, hlen, Nat.sub_self, List.getElem?_cons_zero]
    · intro j x hj hx
      obtain ⟨k, rfl⟩ := Nat.exists_eq_add_of_lt hj
      rw [hprogress.jobs, List.getElem?_append_right (by rw [hlen]; omega), hlen, Nat.add_assoc, Nat.add_sub_cancel_left,
        List.getElem?_cons_succ] at hx
      exact hprogress.later hsequential x (List.mem_of_getElem? hx)

def delegateEnv : DelegateEnv := { toLowercase := id }

def firstTask : TaskSpec := ⟨['a'], ['t'], none⟩

def secondTask : TaskSpec := ⟨['b'], ['u'], none⟩

def delegateArgs (parallel : Bool) : Json :=
  .object [("action".toList, .string "aggregate".toList), ("parallel".toList, .bool parallel), ("tasks".toList, .array
    [.object [("role".toList, .string ['a']), ("task".toList, .string ['t'])],
      .object [("role".toList, .string ['b']), ("task".toList, .string ['u'])]])]

/-- The second task ends first, and the first one fails. -/
def parallelInputs : List SwarmInput :=
  .call none (delegateArgs true) :: ([.prepare 1, .acquire 1, .prepare 0, .acquire 0, .finish 1 (.ok ['y']),
    .finish 0 (.error (.tool ['x'])), .collect, .collect] : List CallInput).map (.step 0)

def parallelCall : DelegateCall where
  request := { specs := [firstTask, secondTask], parallel := true }
  jobs := [(firstTask, .collected (DelegateCall.delegateResult ['a'] (.error (.tool ['x'])))), (secondTask, .collected (.ok ['y']))]
  results := [(['a'], resultText (DelegateCall.delegateResult ['a'] (.error (.tool ['x'])))), (['b'], ['y'])]
  outcome := some (.answered (.ok (formatResults
    [(['a'], resultText (DelegateCall.delegateResult ['a'] (.error (.tool ['x'])))), (['b'], ['y'])] .concatenate)))

theorem delegate_answers_example :
    ∃ done : List (TaskSpec × Except ZeptoError Str), done.map Prod.fst = [firstTask, secondTask] ∧
      (∀ j d, done[j]? = some d → Swarm.Returned delegateEnv parallelInputs 0 j d.1 d.2) ∧
      formatResults parallelCall.results .concatenate =
        formatResults (done.map fun d => (d.1.role, resultText d.2)) .concatenate := by
  have hcall : (runSteps (Swarm.step delegateEnv) (.new delegateEnv) parallelInputs).calls[0]? = some parallelCall := rfl
  obtain ⟨done, hspecs, hreturned, -, htext⟩ := (delegate_answers delegateEnv parallelInputs hcall).1 _ rfl
  exact ⟨done, hspecs, hreturned, htext⟩

/-! ## The outputs of earlier tasks -/

namespace DelegateCall

variable {env : DelegateEnv} {shared shared' : SwarmShared} {call call' : DelegateCall} {input : CallInput}
  {entries : SwarmScratchpad}

/-- A task has a sub-agent that has not returned. -/
def HasAgent (call : DelegateCall) (j : ℕ) (agent : SubAgent) : Prop :=
  ∃ spec, call.jobs[j]? = some (spec, .waiting agent) ∨ call.jobs[j]? = some (spec, .running agent)

/-- The output of a task has been used. -/
def HasOutput (call : DelegateCall) (k : ℕ) (spec : TaskSpec) (output : Str) : Prop :=
  call.jobs[k]? = some (spec, .collected (.ok output))

/-- The outputs that were used are in the scratchpad and in the prompts of the sub-agents at work. -/
structure Sees (entries : SwarmScratchpad) (call : DelegateCall) : Prop where
  recorded : ∀ k spec output, call.HasOutput k spec output → entries.lookup spec.role = some output
  prompts : ∀ j agent, call.HasAgent j agent → ∀ k spec output, call.HasOutput k spec output →
    ∃ l, SwarmScratchpad.line (spec.role, output) = some l ∧ SwarmScratchpad.HasLine agent.prompt l

theorem sees_start (entries : SwarmScratchpad) (request : DelegateRequest) : Sees entries (start request) := by
  have hnone : ∀ k spec output, ¬ (start request).HasOutput k spec output := by
    intro k spec output h
    obtain ⟨_, -, heq⟩ := List.mem_map.mp (List.mem_of_getElem? h)
    cases heq
  exact ⟨fun k spec output h => absurd h (hnone k spec output), fun _ _ _ k spec output h => absurd h (hnone k spec output)⟩

/-- A sequential prompt has the lines of the scratchpad. -/
theorem line_of_subAgentPrompt {role prompt : Str} (hprompt : subAgentPrompt env entries true role = some prompt)
    {role' output : Str} (hlookup : entries.lookup role' = some output) :
    ∃ l, SwarmScratchpad.line (role', output) = some l ∧ SwarmScratchpad.HasLine prompt l := by
  rw [subAgentPrompt, if_pos rfl] at hprompt
  obtain ⟨context, hcontext, hprompt⟩ := Option.map_eq_some_iff.mp hprompt
  cases context with
  | none => exact absurd hcontext (SwarmScratchpad.formatForPrompt_ne_empty hlookup)
  | some context =>
    obtain rfl := hprompt
    obtain ⟨l, hline, hhas⟩ := SwarmScratchpad.line_of_formatForPrompt hcontext hlookup
    exact ⟨l, hline, hhas.behind _⟩

/-- A task that is replaced is neither used before nor after. -/
theorem hasOutput_of_replace {before after : List (TaskSpec × Job)} {x y : TaskSpec × Job}
    (hjobs : call.jobs = before ++ x :: after) (hjobs' : call'.jobs = before ++ y :: after)
    (hy : ∀ output, y.2 ≠ .collected (.ok output)) {k : ℕ} {spec : TaskSpec} {output : Str} (h : call'.HasOutput k spec output) :
    call.HasOutput k spec output := by
  unfold HasOutput at h ⊢
  rw [hjobs', getElem?_split before after x y] at h
  by_cases hk : k = before.length
  · rw [if_pos hk] at h
    obtain rfl := Option.some.inj h
    exact absurd rfl (hy output)
  · rwa [if_neg hk, ← hjobs] at h

theorem hasAgent_of_replace {before after : List (TaskSpec × Job)} {x y : TaskSpec × Job}
    (hjobs : call.jobs = before ++ x :: after) (hjobs' : call'.jobs = before ++ y :: after)
    {j : ℕ} {agent : SubAgent} (h : call'.HasAgent j agent) :
    call.HasAgent j agent ∨ y.2 = .waiting agent ∨ y.2 = .running agent := by
  obtain ⟨spec, h⟩ := h
  rw [hjobs', getElem?_split before after x y] at h
  by_cases hj : j = before.length
  · rw [if_pos hj] at h
    exact Or.inr (h.imp (fun h => by rw [Option.some.inj h]) fun h => by rw [Option.some.inj h])
  · rw [if_neg hj, ← hjobs] at h
    exact Or.inl ⟨spec, h⟩

/-- Two places of one role are the same. -/
theorem place_unique (hroles : (call.request.specs.map TaskSpec.role).Nodup) (hspecs : call.jobs.map Prod.fst = call.request.specs)
    {i k : ℕ} {x y : TaskSpec × Job} (hx : call.jobs[i]? = some x) (hy : call.jobs[k]? = some y)
    (hrole : x.1.role = y.1.role) : i = k := by
  rw [← hspecs, List.map_map] at hroles
  have hlt : i < (call.jobs.map (TaskSpec.role ∘ Prod.fst)).length := by
    rw [List.length_map]
    exact (List.getElem?_eq_some_iff.mp hx).1
  refine (List.getElem?_inj hlt hroles).mp ?_
  rw [List.getElem?_map, List.getElem?_map, hx, hy]
  exact congrArg some hrole

/-- In a sequential call whose next result is there, no sub-agent is at work. -/
theorem not_hasAgent {before after : List (TaskSpec × Job)} {spec : TaskSpec} {r : Except ZeptoError Str}
    {done : List (TaskSpec × Except ZeptoError Str)} {rest : List (TaskSpec × Job)} (h : Progress call done rest)
    (hsequential : call.request.parallel = false) (hjobs : call.jobs = before ++ (spec, .ended r) :: after)
    (hplace : before.length = call.results.length) (j : ℕ) (agent : SubAgent) : ¬ call.HasAgent j agent := by
  obtain ⟨hbefore, hrest⟩ := h.split_next hjobs hplace
  have hlater := h.later hsequential
  rw [hrest] at hlater
  have hjob : ∀ x ∈ call.jobs, ∀ agent, x.2 ≠ .waiting agent ∧ x.2 ≠ .running agent := by
    intro x hx agent
    rw [hjobs, hbefore] at hx
    rcases mem_split.mp hx with rfl | hx
    · exact ⟨fun h => (by cases h), fun h => (by cases h)⟩
    · rcases List.mem_append.mp hx with hx | hx
      · obtain ⟨d, -, rfl⟩ := List.mem_map.mp hx
        exact ⟨fun h => (by cases h), fun h => (by cases h)⟩
      · rw [hlater x hx]
        exact ⟨fun h => (by cases h), fun h => (by cases h)⟩
  rintro ⟨spec, h | h⟩
  · exact (hjob _ (List.mem_of_getElem? h) agent).1 rfl
  · exact (hjob _ (List.mem_of_getElem? h) agent).2 rfl

/-- A task goes on, and its output is not used. -/
theorem Sees.replace (h : Sees entries call) {before after : List (TaskSpec × Job)} {x y : TaskSpec × Job}
    (hjobs : call.jobs = before ++ x :: after) (hjobs' : call'.jobs = before ++ y :: after)
    (hy : ∀ output, y.2 ≠ .collected (.ok output))
    (hagent : ∀ agent, y.2 = .waiting agent ∨ y.2 = .running agent → ∀ k spec output, call.HasOutput k spec output →
      ∃ l, SwarmScratchpad.line (spec.role, output) = some l ∧ SwarmScratchpad.HasLine agent.prompt l) : Sees entries call' := by
  have hold : ∀ {k spec output}, call'.HasOutput k spec output → call.HasOutput k spec output :=
    fun hout => hasOutput_of_replace hjobs hjobs' hy hout
  refine ⟨fun k spec output hout => h.recorded k spec output (hold hout), fun j agent hj k spec output hout => ?_⟩
  rcases hasAgent_of_replace hjobs hjobs' hj with hj | hnew
  · exact h.prompts j agent hj k spec output (hold hout)
  · exact hagent agent hnew k spec output (hold hout)

theorem Sees.move (h : Sees shared.scratchpad call) (hconsistent : call.Consistent)
    (hsequential : call.request.parallel = false) (hroles : (call.request.specs.map TaskSpec.role).Nodup)
    (hmove : CallMove env shared call input call' shared') : Sees shared'.scratchpad call' := by
  obtain ⟨done, rest, hprogress, -⟩ := hconsistent
  cases hmove with
  | prepared hjobs _ hprompt =>
    rw [hsequential, Bool.not_false] at hprompt
    refine h.replace hjobs rfl (fun _ h => by cases h) fun agent hnew k spec output hout => ?_
    rcases hnew with hnew | hnew
    · cases hnew
      exact line_of_subAgentPrompt hprompt (h.recorded k spec output hout)
    · cases hnew
  | panicked => exact ⟨h.recorded, h.prompts⟩
  | @acquired before after spec agent hjobs _ =>
    refine h.replace hjobs rfl (fun _ h => by cases h) fun agent' hnew => ?_
    rcases hnew with hnew | hnew
    · cases hnew
    · cases hnew
      refine h.prompts before.length agent ⟨spec, Or.inl ?_⟩
      rw [hjobs, getElem?_middle]
  | finished result hjobs =>
    refine h.replace hjobs rfl (fun _ h => by cases h) fun agent hnew => ?_
    rcases hnew with hnew | hnew <;> cases hnew
  | @collected before after spec result hjobs hplace hresult _ =>
    obtain ⟨output, rfl⟩ := hresult hsequential
    have hjob : call.jobs[before.length]? = some (spec, .ended (.ok output)) := by
      rw [hjobs, getElem?_middle]
    refine ⟨fun k spec' output' hout => ?_, fun j agent hagent => ?_⟩
    · unfold HasOutput addResult at hout
      dsimp only at hout
      rw [getElem?_split before after (spec, .ended (.ok output))] at hout
      unfold SwarmScratchpad.record
      by_cases hk : k = before.length
      · rw [if_pos hk] at hout
        cases hout
        exact AList.lookup_insert _
      · rw [if_neg hk, ← hjobs] at hout
        have hrole : spec'.role ≠ spec.role := fun heq => hk (place_unique hroles hprogress.specs hout hjob heq)
        exact (AList.lookup_insert_ne hrole).trans (h.recorded k spec' output' hout)
    · rcases hasAgent_of_replace hjobs rfl hagent with hagent | hnew | hnew
      · exact absurd hagent (not_hasAgent hprogress hsequential hjobs hplace j agent)
      · cases hnew
      · cases hnew
  | failed hjobs _ _ =>
    refine h.replace hjobs rfl (fun _ h => by cases h) fun agent hnew => ?_
    rcases hnew with hnew | hnew <;> cases hnew
  | dropped =>
    have hstop : ∀ {j : ℕ} {spec : TaskSpec} {job : Job}, job ≠ .pending →
        (call.jobs.map fun job => (job.1, job.2.stop))[j]? = some (spec, job) → call.jobs[j]? = some (spec, job) := by
      intro j spec job hpending hj
      simp only [List.getElem?_map, Option.map_eq_some_iff, Prod.mk.injEq] at hj
      obtain ⟨x, hx, rfl, hjob⟩ := hj
      rw [hx, ← Job.eq_of_stop_eq hjob hpending]
    refine ⟨fun k spec output hout => ?_, fun j agent hagent k spec output hout => ?_⟩
    · exact h.recorded k spec output (hstop (fun h => by cases h) hout)
    · obtain ⟨spec', hagent⟩ := hagent
      exact h.prompts j agent ⟨spec', hagent.imp (hstop fun h => by cases h) (hstop fun h => by cases h)⟩ k spec output
        (hstop (fun h => by cases h) hout)

theorem spec_mem (h : call.Consistent) {j : ℕ} {x : TaskSpec × Job} (hx : call.jobs[j]? = some x) : x.1 ∈ call.request.specs := by
  obtain ⟨done, rest, hprogress, -⟩ := h
  rw [← hprogress.specs]
  exact List.mem_map_of_mem (List.mem_of_getElem? hx)

theorem request_move (hmove : CallMove env shared call input call' shared') : call'.request = call.request := by
  cases hmove <;> rfl

/-- A step writes to the scratchpad under a role of its own call only. -/
theorem scratchpad_move (hconsistent : call.Consistent) (hmove : CallMove env shared call input call' shared') :
    shared'.scratchpad = shared.scratchpad ∨
      ∃ spec ∈ call.request.specs, ∃ output, shared'.scratchpad = AList.insert spec.role output shared.scratchpad := by
  cases hmove with
  | prepared | panicked | acquired | finished | failed | dropped => exact Or.inl rfl
  | @collected before after spec result hjobs _ _ _ =>
    cases result with
    | error e => exact Or.inl rfl
    | ok output =>
      refine Or.inr ⟨spec, ?_, output, rfl⟩
      have hjob : call.jobs[before.length]? = some (spec, .ended (.ok output)) := by
        rw [hjobs, getElem?_middle]
      exact spec_mem hconsistent hjob

theorem Sees.insert (h : Sees entries call) (hconsistent : call.Consistent) {role : Str}
    (hrole : role ∉ call.request.specs.map TaskSpec.role) (output : Str) : Sees (AList.insert role output entries) call := by
  refine ⟨fun k spec output' hout => ?_, h.prompts⟩
  have hne : spec.role ≠ role := fun heq => hrole (heq ▸ List.mem_map_of_mem (spec_mem hconsistent hout))
  exact (AList.lookup_insert_ne hne).trans (h.recorded k spec output' hout)

end DelegateCall

namespace Swarm

variable {env : DelegateEnv}

/-- No other call has a task with a role of this one. -/
def Apart (s : Swarm) (c : ℕ) (call : DelegateCall) : Prop :=
  ∀ c' call', c' ≠ c → s.calls[c']? = some call' → ∀ spec ∈ call'.request.specs, spec.role ∉ call.request.specs.map TaskSpec.role

theorem sees_run (env : DelegateEnv) (inputs : List SwarmInput) :
    ∀ {c : ℕ} {call : DelegateCall}, (runSteps (step env) (new env) inputs).calls[c]? = some call →
      call.request.parallel = false → (call.request.specs.map TaskSpec.role).Nodup →
      Apart (runSteps (step env) (new env) inputs) c call →
      DelegateCall.Sees (runSteps (step env) (new env) inputs).shared.scratchpad call := by
  induction inputs using List.reverseRecOn with
  | nil => exact fun h => by cases h
  | append_singleton inputs input ih =>
    intro c call hcall hsequential hroles hapart
    have hsound := sound_run env inputs
    rw [runSteps_concat] at hcall hapart ⊢
    generalize runSteps (step env) (new env) inputs = s at ih hsound hcall hapart ⊢
    rcases step_cases env s input with hsame | ⟨channel, args, request, -, -, hstep⟩ |
      ⟨before, call₀, after, move, call', shared, -, hcalls, hopen, hmove, hstep⟩
    · rw [hsame] at hcall hapart ⊢
      exact ih hcall hsequential hroles hapart
    · rw [hstep] at hcall hapart ⊢
      dsimp only at hcall ⊢
      rw [List.getElem?_append] at hcall
      split at hcall
      · next hlt =>
        refine ih hcall hsequential hroles fun c' call' hne hcall' => hapart c' call' hne ?_
        rw [List.getElem?_append_left (List.getElem?_eq_some_iff.mp hcall').1]
        exact hcall'
      · rw [List.mem_singleton.mp (List.mem_of_getElem? hcall)]
        exact DelegateCall.sees_start _ _
    · rw [hstep] at hcall hapart ⊢
      dsimp only at hcall ⊢
      have hcall₀ : s.calls[before.length]? = some call₀ := by
        rw [hcalls, getElem?_middle]
      have hconsistent₀ := hsound.calls call₀ (List.mem_of_getElem? hcall₀)
      have hother : ∀ {i}, i ≠ before.length → (before ++ call' :: after)[i]? = s.calls[i]? := by
        intro i hi
        rw [getElem?_split before after call₀, if_neg hi, hcalls]
      have hself : (before ++ call' :: after)[before.length]? = some call' := by
        rw [getElem?_middle]
      by_cases hc : c = before.length
      · subst hc
        obtain rfl := Option.some.inj (hself.symm.trans hcall)
        have hrequest := DelegateCall.request_move hmove
        rw [hrequest] at hsequential hroles
        refine (ih hcall₀ hsequential hroles fun c' x hne hx => ?_).move hconsistent₀ hsequential hroles hmove
        rw [← hrequest]
        exact hapart c' x hne ((hother hne).trans hx)
      · rw [hother hc] at hcall
        have hsees := ih hcall hsequential hroles fun c' x hne hx => by
          by_cases hc' : c' = before.length
          · subst hc'
            obtain rfl := Option.some.inj (hcall₀.symm.trans hx)
            rw [← DelegateCall.request_move hmove]
            exact hapart _ call' hne hself
          · exact hapart c' x hne ((hother hc').trans hx)
        rcases DelegateCall.scratchpad_move hconsistent₀ hmove with hscratchpad | ⟨spec, hspec, output, hscratchpad⟩
        · rw [hscratchpad]
          exact hsees
        · rw [hscratchpad]
          refine hsees.insert (hsound.calls call (List.mem_of_getElem? hcall)) (hapart before.length call' (Ne.symm hc) hself spec ?_) output
          rw [DelegateCall.request_move hmove]
          exact hspec

end Swarm

/-- In a sequential call the task with a sub-agent is the one behind those whose results have been used. -/
theorem length_of_hasAgent {call : DelegateCall} {done : List (TaskSpec × Except ZeptoError Str)} {rest : List (TaskSpec × Job)}
    (h : call.Progress done rest) (hsequential : call.request.parallel = false) {j : ℕ} {agent : SubAgent}
    (hagent : call.HasAgent j agent) : j = done.length := by
  obtain ⟨spec, hjob⟩ := hagent
  have hplace : ∀ {x : TaskSpec × Job}, call.jobs[j]? = some x → (∀ r, x.2 ≠ .collected r) → x.2 ≠ .pending →
      j = done.length := by
    intro x hx hcollected hpending
    obtain ⟨before, after, rfl, hjobs, -⟩ := exists_split_of_getElem? hx
    obtain ⟨mid, hbefore, hrest⟩ := h.split hjobs hcollected
    cases mid with
    | nil => rw [hbefore, List.append_nil, List.length_map]
    | cons y mid =>
      have hlater := h.later hsequential
      rw [hrest] at hlater
      exact absurd (hlater x (List.mem_append_right _ List.mem_cons_self)) hpending
  rcases hjob with hjob | hjob
  · exact hplace hjob (fun _ h => by cases h) fun h => by cases h
  · exact hplace hjob (fun _ h => by cases h) fun h => by cases h

/-- **A sequential task sees the outputs of the tasks before it**, each behind its role in whole lines of the prompt, if
no other call has a task with one of their roles; of an output of more than 2000 bytes it sees the first 2000. -/
theorem subAgent_sees (env : DelegateEnv) (inputs : List SwarmInput) {c : ℕ} {call : DelegateCall}
    (hcall : (runSteps (Swarm.step env) (.new env) inputs).calls[c]? = some call) (hsequential : call.request.parallel = false)
    (hroles : (call.request.specs.map TaskSpec.role).Nodup)
    (hapart : (runSteps (Swarm.step env) (.new env) inputs).Apart c call) {j : ℕ} {agent : SubAgent}
    (hagent : call.HasAgent j agent) {k : ℕ} (hk : k < j) :
    ∃ spec output shown, call.request.specs[k]? = some spec ∧ Swarm.Returned env inputs c k spec (.ok output) ∧
      SwarmScratchpad.Shown output shown ∧
      SwarmScratchpad.HasLine agent.prompt ("- ".toList ++ spec.role ++ ": ".toList ++ shown) := by
  obtain ⟨done, rest, hprogress, -⟩ := (Swarm.sound_run env inputs).calls call (List.mem_of_getElem? hcall)
  rw [length_of_hasAgent hprogress hsequential hagent] at hk
  have hd := List.getElem?_eq_getElem hk
  obtain ⟨output, hok⟩ := hprogress.ok hsequential _ (List.mem_of_getElem? hd)
  have hjob := job_done hprogress hd
  rw [hok] at hjob
  obtain ⟨l, hline, hprompt⟩ := (Swarm.sees_run env inputs hcall hsequential hroles hapart).prompts j agent hagent k _ _ hjob
  obtain ⟨shown, hshown, rfl⟩ := Option.map_eq_some_iff.mp hline
  refine ⟨_, output, shown, ?_, Swarm.returned_of_hasResult env inputs hcall (Or.inr hjob),
    SwarmScratchpad.shown_of_truncated hshown, hprompt⟩
  rw [← hprogress.specs, List.getElem?_map, hjob]
  rfl

/-- The first of two tasks has returned. -/
def firstInputs : List SwarmInput :=
  .call none (delegateArgs false) ::
    ([.prepare 0, .acquire 0, .finish 0 (.ok ['x']), .collect] : List CallInput).map (.step 0)

/-- The first task's output is in the scratchpad. -/
def firstDone : Swarm where
  shared := ⟨AList.singleton ['a'] ['x'], 3⟩
  calls := [{ request := { specs := [firstTask, secondTask] }
              jobs := [(firstTask, .collected (.ok ['x'])), (secondTask, .pending)]
              results := [(['a'], ['x'])] }]

theorem run_firstInputs : runSteps (Swarm.step delegateEnv) (.new delegateEnv) firstInputs = firstDone := rfl

/-- The prompt of the second task. -/
def secondPrompt : Str := rolePrompt delegateEnv ['b'] ++ "\n\n".toList ++ "Previous agent outputs:\n- a: x".toList

theorem subAgentPrompt_second :
    subAgentPrompt delegateEnv (AList.singleton ['a'] ['x']) true ['b'] = some secondPrompt := by
  have hcontext : SwarmScratchpad.formatForPrompt (AList.singleton ['a'] ['x']) =
      some (some "Previous agent outputs:\n- a: x".toList) := by
    have hpairs : Assoc.pairs (AList.singleton ['a'] ['x']) = [(['a'], ['x'])] := rfl
    rw [SwarmScratchpad.formatForPrompt, hpairs, if_neg (List.cons_ne_nil _ _), List.mergeSort_singleton]
    rfl
  rw [subAgentPrompt, if_pos rfl, hcontext]
  rfl

def secondCall : DelegateCall where
  request := { specs := [firstTask, secondTask] }
  jobs := [(firstTask, .collected (.ok ['x'])), (secondTask, .waiting (createSubAgent delegateEnv secondTask secondPrompt))]
  results := [(['a'], ['x'])]

theorem run_secondTask : runSteps (Swarm.step delegateEnv) (.new delegateEnv) (firstInputs ++ [.step 0 (.prepare 1)]) =
    { firstDone with calls := [secondCall] } := by
  rw [runSteps_concat, run_firstInputs]
  simp [Swarm.step, firstDone, DelegateCall.move, secondTask, subAgentPrompt_second, secondCall]

theorem subAgent_sees_example : ∃ spec output shown, [firstTask, secondTask][0]? = some spec ∧
    Swarm.Returned delegateEnv (firstInputs ++ [.step 0 (.prepare 1)]) 0 0 spec (.ok output) ∧
    SwarmScratchpad.Shown output shown ∧
    SwarmScratchpad.HasLine secondPrompt ("- ".toList ++ spec.role ++ ": ".toList ++ shown) := by
  have hcall : (runSteps (Swarm.step delegateEnv) (.new delegateEnv) (firstInputs ++ [.step 0 (.prepare 1)])).calls[0]? =
      some secondCall := by
    rw [run_secondTask]
    rfl
  have hagent : secondCall.HasAgent 1 (createSubAgent delegateEnv secondTask secondPrompt) := ⟨secondTask, Or.inl rfl⟩
  refine subAgent_sees delegateEnv _ hcall rfl (by decide) ?_ hagent Nat.zero_lt_one
  rw [run_secondTask]
  intro c call' hne hcall'
  cases c with
  | zero => exact absurd rfl hne
  | succ c => cases hcall'

/-! ## An output that panics -/

namespace DelegateCall

variable {env : DelegateEnv} {shared shared' : SwarmShared} {call call' : DelegateCall} {input : CallInput} {role output : Str}

/-- No task of a sequential call gets past its prompt. -/
theorem pending_move (hentry : shared.scratchpad.lookup role = some output) (hcut : SwarmScratchpad.truncated output = none)
    (hsequential : call.request.parallel = false) (hpending : ∀ x ∈ call.jobs, x.2 = .pending)
    (hmove : CallMove env shared call input call' shared') :
    (∀ x ∈ call'.jobs, x.2 = .pending) ∧ ∀ r, call'.outcome = some (.answered r) → call.outcome = some (.answered r) := by
  have hfirst {before after : List (TaskSpec × Job)} {x : TaskSpec × Job} (hjobs : call.jobs = before ++ x :: after) :
      x.2 = .pending := hpending x (hjobs ▸ mem_split.mpr (Or.inl rfl))
  cases hmove with
  | prepared _ _ hprompt =>
    have hnone := SwarmScratchpad.formatForPrompt_eq_none_iff.mpr ⟨role, output, hentry, hcut⟩
    rw [hsequential, Bool.not_false, subAgentPrompt, if_pos rfl, hnone] at hprompt
    cases hprompt
  | panicked => exact ⟨hpending, fun _ h => by cases h⟩
  | acquired hjobs _ => cases hfirst hjobs
  | finished _ hjobs => cases hfirst hjobs
  | collected _ hjobs _ _ _ => cases hfirst hjobs
  | failed hjobs _ _ => cases hfirst hjobs
  | dropped =>
    refine ⟨fun x hx => ?_, fun _ h => by cases h⟩
    obtain ⟨y, hy, rfl⟩ := List.mem_map.mp hx
    dsimp only
    rw [hpending y hy]
    rfl

/-- The next result that is used is an output of the role. -/
def Records (call : DelegateCall) (role : Str) : Prop :=
  (call.request.parallel = true → call.allEnded = true) ∧
    ∃ spec output, call.jobs[call.results.length]? = some (spec, .ended (.ok output)) ∧ spec.role = role

/-- What is not written stays. -/
theorem lookup_move (hmove : CallMove env shared call input call' shared') (hrole : input = .collect → ¬ call.Records role) :
    shared'.scratchpad.lookup role = shared.scratchpad.lookup role := by
  cases hmove with
  | prepared | panicked | acquired | finished | failed | dropped => rfl
  | @collected before after spec result hjobs hplace _ hall =>
    cases result with
    | error e => rfl
    | ok output =>
      refine AList.lookup_insert_ne fun heq => hrole rfl ⟨hall, spec, output, ?_, heq.symm⟩
      rw [← hplace, hjobs, getElem?_middle]

theorem pending_start (request : DelegateRequest) : (∀ x ∈ (start request).jobs, x.2 = .pending) ∧
    ∀ r, (start request).outcome = some (.answered r) → request.specs = [] := by
  refine ⟨fun x hx => ?_, fun r hr => ?_⟩
  · obtain ⟨spec, -, rfl⟩ := List.mem_map.mp hx
    rfl
  · by_contra hspecs
    unfold start at hr
    rw [if_neg hspecs] at hr
    cases hr

end DelegateCall

namespace Swarm

variable {env : DelegateEnv} {s : Swarm} {role output : Str} {n : ℕ}

/-- The step writes to the scratchpad under the role: an open call uses an output of it. -/
def Writes (s : Swarm) (role : Str) (input : SwarmInput) : Prop :=
  ∃ c call, input = .step c .collect ∧ s.calls[c]? = some call ∧ call.outcome = none ∧ call.Records role

/-- The output is still there, and no later sequential call has got to a sub-agent. -/
structure Stuck (role output : Str) (n : ℕ) (s : Swarm) : Prop where
  entry : s.shared.scratchpad.lookup role = some output
  pending : ∀ c call, n ≤ c → s.calls[c]? = some call → call.request.parallel = false →
    (∀ x ∈ call.jobs, x.2 = .pending) ∧ ∀ r, call.outcome = some (.answered r) → call.request.specs = []

theorem Stuck.step (h : Stuck role output n s) (hcut : SwarmScratchpad.truncated output = none) {input : SwarmInput}
    (hwrites : ¬ s.Writes role input) : Stuck role output n (s.step env input) := by
  constructor
  · rcases step_cases env s input with hsame | ⟨channel, args, request, -, -, hstep⟩ |
      ⟨before, call, after, move, call', shared, hinput, hcalls, hopen, hmove, hstep⟩
    · rw [hsame]
      exact h.entry
    · rw [hstep]
      exact h.entry
    · have hcall : s.calls[before.length]? = some call := by
        rw [hcalls, getElem?_middle]
      rw [hstep]
      exact (DelegateCall.lookup_move hmove fun hcollect hrecords =>
        hwrites ⟨before.length, call, by rw [hinput, hcollect], hcall, hopen, hrecords⟩).trans h.entry
  · intro c call' hc hcall' hsequential
    rcases calls_step hcall' with hbefore | ⟨request, rfl⟩ | ⟨call, move, -, hcall, -, hmove⟩
    · exact h.pending c call' hc hbefore hsequential
    · exact DelegateCall.pending_start request
    · rw [DelegateCall.request_move hmove] at hsequential ⊢
      obtain ⟨hpending, hanswered⟩ := h.pending c call hc hcall hsequential
      obtain ⟨hpending', hanswered'⟩ := DelegateCall.pending_move h.entry hcut hsequential hpending hmove
      exact ⟨hpending', fun r hr => hanswered r (hanswered' r hr)⟩

end Swarm

/-- **An output that is cut inside a character**: until its role is written again, no sequential call that comes later
gets to a sub-agent, nor to an answer unless it has no tasks. -/
theorem delegation_stuck (env : DelegateEnv) {s : Swarm} {role output : Str} (hentry : s.shared.scratchpad.lookup role = some output)
    (hlong : 2000 < byteLen output) (hcut : ∀ front rest, output = front ++ rest → byteLen front ≠ 2000)
    {inputs : List SwarmInput} (hmeet : StepsMeet (Swarm.step env) (fun s input => ¬ s.Writes role input) s inputs)
    {c : ℕ} {call : DelegateCall} (hc : s.calls.length ≤ c) (hcall : (runSteps (Swarm.step env) s inputs).calls[c]? = some call)
    (hsequential : call.request.parallel = false) :
    (∀ x ∈ call.jobs, x.2 = .pending) ∧ ∀ r, call.outcome = some (.answered r) → call.request.specs = [] := by
  have hnone : SwarmScratchpad.truncated output = none := SwarmScratchpad.truncated_eq_none_iff.mpr ⟨hlong, hcut⟩
  have hstart : Swarm.Stuck role output s.calls.length s :=
    ⟨hentry, fun c call hc hcall => absurd (List.getElem?_eq_some_iff.mp hcall).1 (Nat.not_lt.mpr hc)⟩
  have hstep : ∀ s' input, Swarm.Stuck role output s.calls.length s' → ¬ s'.Writes role input →
      Swarm.Stuck role output s.calls.length (s'.step env input) := fun _ _ h hwrites => h.step hnone hwrites
  exact (run_invariant hstep inputs s hstart hmeet).pending c call hc hcall hsequential

/-- An output of 2001 bytes, in which 2000 is inside of a character. -/
def euros : Str := List.replicate 667 '€'

theorem byteLen_replicate (n : ℕ) (c : Char) : byteLen (List.replicate n c) = n * c.utf8Size := by
  rw [byteLen, List.map_replicate, List.sum_replicate_nat]

theorem byteLen_euros : byteLen euros = 667 * 3 := byteLen_replicate 667 '€'

theorem euros_cut (front rest : Str) (h : euros = front ++ rest) : byteLen front ≠ 2000 := by
  obtain ⟨-, hfront, -⟩ := List.append_eq_replicate_iff.mp h.symm
  have hsize : '€'.utf8Size = 3 := rfl
  rw [hfront, byteLen_replicate, hsize]
  omega

def stuckSwarm : Swarm where
  shared := ⟨AList.singleton ['a'] euros, 3⟩

def stuckCall : DelegateCall where
  request := { specs := [firstTask, secondTask] }
  jobs := [(firstTask, .pending), (secondTask, .pending)]
  outcome := some .panicked

theorem delegation_stuck_example :
    (∀ x ∈ stuckCall.jobs, x.2 = .pending) ∧ ∀ r, stuckCall.outcome = some (.answered r) → stuckCall.request.specs = [] := by
  have hentry : AList.lookup ['a'] stuckSwarm.shared.scratchpad = some euros := rfl
  have hlong : 2000 < byteLen euros := by
    rw [byteLen_euros]
    decide
  have hnone := SwarmScratchpad.formatForPrompt_eq_none_iff.mpr
    ⟨['a'], euros, hentry, SwarmScratchpad.truncated_eq_none_iff.mpr ⟨hlong, euros_cut⟩⟩
  have hprompt : subAgentPrompt delegateEnv stuckSwarm.shared.scratchpad true ['a'] = none := by
    rw [subAgentPrompt, if_pos rfl, hnone]
    rfl
  have hstart : Swarm.step delegateEnv stuckSwarm (.call none (delegateArgs false)) =
      { stuckSwarm with calls := [.start { specs := [firstTask, secondTask] }] } := rfl
  have hcall : (runSteps (Swarm.step delegateEnv) stuckSwarm
      [.call none (delegateArgs false), .step 0 (.prepare 0)]).calls[0]? = some stuckCall := by
    rw [runSteps, List.foldl_cons, hstart]
    simp [Swarm.step, DelegateCall.start, DelegateCall.move, firstTask, hprompt, stuckCall]
  have hmeet : StepsMeet (Swarm.step delegateEnv) (fun s input => ¬ s.Writes ['a'] input) stuckSwarm
      [.call none (delegateArgs false), .step 0 (.prepare 0)] := by
    refine ⟨?_, ?_, trivial⟩
    · rintro ⟨c, call, h, -⟩
      cases h
    · rintro ⟨c, call, h, -⟩
      cases h
  exact delegation_stuck delegateEnv hentry hlong euros_cut hmeet (Nat.zero_le 0) hcall rfl

end Zeptoclaw

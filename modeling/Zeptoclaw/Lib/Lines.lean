import Zeptoclaw.Lib.Text

/-!
# Lines from pieces of text

Text arrives in pieces. A reader keeps what it has not used in a buffer and hands every
complete line to a handler, which goes on, leaves the rest of the buffer for the next
piece, or stops the reader. `feedAll_outcome`: when only idle lines come after one that
leaves the buffer, what the handler does depends on the whole text and not on the pieces.
-/

namespace Zeptoclaw

namespace Lines

/-- How the reader goes on after a line. -/
inductive Flow where
  | next
  | leave
  | stop
  deriving DecidableEq, Repr

/-- The handler's state, the unused text, and whether the reader has stopped. -/
structure Reader (σ : Type*) where
  state : σ
  buffer : Str
  stopped : Bool
  deriving DecidableEq, Repr

/-- What is left of a reader when the text ends: the unused text plays no part. -/
def Reader.outcome {σ : Type*} (r : Reader σ) : σ × Bool := (r.state, r.stopped)

section

variable {σ : Type*} (handle : σ → Str → σ × Flow)

/-- The lines of a text, with the beginning of the line at hand. -/
def readLines : σ → Str → Str → Reader σ
  | st, line, [] => ⟨st, line, false⟩
  | st, line, c :: text =>
    if c = '\n' then
      match handle st line with
      | (st', .next) => readLines st' [] text
      | (st', .leave) => ⟨st', text, false⟩
      | (st', .stop) => ⟨st', text, true⟩
    else readLines st (line ++ [c]) text

/-- One more piece of text. -/
def feed (r : Reader σ) (piece : Str) : Reader σ :=
  if r.stopped then r else readLines handle r.state [] (r.buffer ++ piece)

def feedAll (st : σ) (pieces : List Str) : Reader σ := pieces.foldl (feed handle) ⟨st, [], false⟩

/-- No complete line changes the state or stops the reader. -/
def Idle (st : σ) : Str → Str → Prop
  | _, [] => True
  | line, c :: text =>
    if c = '\n' then (handle st line).1 = st ∧ (handle st line).2 ≠ .stop ∧ Idle st [] text
    else Idle st (line ++ [c]) text

/-- After the first line that leaves the buffer come idle lines only. -/
def LeavesLast : σ → Str → Str → Prop
  | _, _, [] => True
  | st, line, c :: text =>
    if c = '\n' then
      match handle st line with
      | (st', .next) => LeavesLast st' [] text
      | (st', .leave) => Idle handle st' [] text
      | (_, .stop) => True
    else LeavesLast st (line ++ [c]) text

instance decidableIdle [DecidableEq σ] (st : σ) : (line text : Str) → Decidable (Idle handle st line text)
  | _, [] => isTrue trivial
  | line, c :: text =>
    if hc : c = '\n' then
      have := decidableIdle st [] text
      decidable_of_iff ((handle st line).1 = st ∧ (handle st line).2 ≠ .stop ∧ Idle handle st [] text)
        (by rw [Idle, if_pos hc])
    else
      have := decidableIdle st (line ++ [c]) text
      decidable_of_iff (Idle handle st (line ++ [c]) text) (by rw [Idle, if_neg hc])

instance decidableLeavesLast [DecidableEq σ] : (st : σ) → (line text : Str) → Decidable (LeavesLast handle st line text)
  | _, _, [] => isTrue trivial
  | st, line, c :: text =>
    if hc : c = '\n' then
      match hh : handle st line with
      | (st', .next) =>
        have := decidableLeavesLast st' [] text
        decidable_of_iff (LeavesLast handle st' [] text) (by rw [LeavesLast, if_pos hc, hh])
      | (st', .leave) => decidable_of_iff (Idle handle st' [] text) (by rw [LeavesLast, if_pos hc, hh])
      | (_, .stop) => isTrue (by rw [LeavesLast, if_pos hc, hh]; trivial)
    else
      have := decidableLeavesLast st (line ++ [c]) text
      decidable_of_iff (LeavesLast handle st (line ++ [c]) text) (by rw [LeavesLast, if_neg hc])

variable {handle}

theorem readLines_newline (st : σ) (line text : Str) :
    readLines handle st line ('\n' :: text) =
      match handle st line with
      | (st', .next) => readLines handle st' [] text
      | (st', .leave) => ⟨st', text, false⟩
      | (st', .stop) => ⟨st', text, true⟩ :=
  if_pos rfl

theorem readLines_char {c : Char} (hc : c ≠ '\n') (st : σ) (line text : Str) :
    readLines handle st line (c :: text) = readLines handle st (line ++ [c]) text :=
  if_neg hc

/-- Text without a line end belongs to the line at hand. -/
theorem readLines_line {part : Str} (h : '\n' ∉ part) (st : σ) (text : Str) : ∀ line : Str,
    readLines handle st line (part ++ text) = readLines handle st (line ++ part) text := by
  induction part with
  | nil => intro line; rw [List.append_nil]; rfl
  | cons c part ih =>
    intro line
    have hc : c ≠ '\n' := fun he => h (he ▸ List.mem_cons_self)
    rw [List.cons_append, readLines_char hc, ih (fun hm => h (List.mem_cons_of_mem c hm)), List.append_assoc]
    rfl

theorem leavesLast_line {part : Str} (h : '\n' ∉ part) (st : σ) (text : Str) : ∀ line : Str,
    LeavesLast handle st line (part ++ text) ↔ LeavesLast handle st (line ++ part) text := by
  induction part with
  | nil => intro line; rw [List.append_nil]; rfl
  | cons c part ih =>
    intro line
    have hc : c ≠ '\n' := fun he => h (he ▸ List.mem_cons_self)
    rw [List.cons_append, LeavesLast, if_neg hc, ih (fun hm => h (List.mem_cons_of_mem c hm)), List.append_assoc]
    rfl

/-- What an idle line does to the reader. -/
theorem Idle.handle_eq {st : σ} {line text : Str} (h : Idle handle st line ('\n' :: text)) :
    Idle handle st [] text ∧ (handle st line = (st, .next) ∨ handle st line = (st, .leave)) := by
  unfold Idle at h
  rw [if_pos rfl] at h
  obtain ⟨hst, hflow, hrest⟩ := h
  refine ⟨hrest, ?_⟩
  match hh : handle st line with
  | (st', .next) =>
    rw [hh] at hst
    exact .inl (hst ▸ rfl)
  | (st', .leave) =>
    rw [hh] at hst
    exact .inr (hst ▸ rfl)
  | (st', .stop) =>
    rw [hh] at hflow
    exact absurd rfl hflow

theorem Idle.char {st : σ} {c : Char} (hc : c ≠ '\n') {line text : Str} (h : Idle handle st line (c :: text)) :
    Idle handle st (line ++ [c]) text := by
  unfold Idle at h
  rwa [if_neg hc] at h

/-- Idle lines leave everything as it was. -/
theorem Idle.outcome {st : σ} : ∀ {text line : Str}, Idle handle st line text →
    (readLines handle st line text).outcome = (st, false) := by
  intro text
  induction text with
  | nil => intro line _; rfl
  | cons c text ih =>
    intro line h
    by_cases hc : c = '\n'
    · subst hc
      obtain ⟨hrest, hh | hh⟩ := h.handle_eq
      · rw [readLines_newline, hh]
        exact ih hrest
      · rw [readLines_newline, hh]
        rfl
    · rw [readLines_char hc]
      exact ih (h.char hc)

theorem Idle.leavesLast {st : σ} : ∀ {text line : Str}, Idle handle st line text → LeavesLast handle st line text := by
  intro text
  induction text with
  | nil => intro line _; trivial
  | cons c text ih =>
    intro line h
    unfold LeavesLast
    by_cases hc : c = '\n'
    · subst hc
      rw [if_pos rfl]
      obtain ⟨hrest, hh | hh⟩ := h.handle_eq
      · rw [hh]
        exact ih hrest
      · rw [hh]
        exact hrest
    · rw [if_neg hc]
      exact ih (h.char hc)

theorem Idle.of_append {st : σ} {rest : Str} : ∀ {text line : Str}, Idle handle st line (text ++ rest) →
    Idle handle st line text := by
  intro text
  induction text with
  | nil => intro line _; trivial
  | cons c text ih =>
    intro line h
    rw [List.cons_append] at h
    unfold Idle at h ⊢
    by_cases hc : c = '\n'
    · rw [if_pos hc] at h ⊢
      exact ⟨h.1, h.2.1, ih h.2.2⟩
    · rw [if_neg hc] at h ⊢
      exact ih h

/-- A reader that has read a piece, against what the whole text comes to: it has stopped
there, or it has used the lines it has and goes on to the same end. -/
def GoesOn (handle : σ → Str → σ × Flow) (rest : Str) (r : Reader σ) (whole : σ × Bool) : Prop :=
  if r.stopped then whole = r.outcome
  else
    (readLines handle r.state [] r.buffer).outcome = (r.state, false) ∧
      LeavesLast handle r.state [] (r.buffer ++ rest) ∧
        whole = (readLines handle r.state [] (r.buffer ++ rest)).outcome

/-- **One piece of a text.** The loop goes on behind it as it would with the whole text. -/
theorem readLines_append (rest : Str) : ∀ (piece : Str) {st : σ} {line : Str}, '\n' ∉ line →
    LeavesLast handle st line (piece ++ rest) →
    GoesOn handle rest (readLines handle st line piece) (readLines handle st line (piece ++ rest)).outcome := by
  intro piece
  induction piece with
  | nil =>
    intro st line hline h
    refine ⟨?_, (leavesLast_line hline st rest []).mpr h, ?_⟩
    · have hused : readLines handle st [] (line ++ []) = readLines handle st ([] ++ line) [] :=
        readLines_line hline st [] []
      rw [List.append_nil] at hused
      exact congrArg Reader.outcome hused
    · exact congrArg Reader.outcome (readLines_line hline st rest []).symm
  | cons c piece ih =>
    intro st line hline h
    rw [List.cons_append] at h ⊢
    unfold LeavesLast at h
    by_cases hc : c = '\n'
    · subst hc
      rw [if_pos rfl] at h
      rw [readLines_newline, readLines_newline]
      match hh : handle st line with
      | (st', .next) =>
        rw [hh] at h
        exact ih (by simp) h
      | (st', .leave) =>
        rw [hh] at h
        have hidle : Idle handle st' [] (piece ++ rest) := h
        exact ⟨hidle.of_append.outcome, hidle.leavesLast, hidle.outcome.symm⟩
      | (st', .stop) => rfl
    · rw [if_neg hc] at h
      rw [readLines_char hc, readLines_char hc]
      have hline' : '\n' ∉ line ++ [c] := by
        simp only [List.mem_append, List.mem_singleton, not_or]
        exact ⟨hline, fun he => hc he.symm⟩
      exact ih hline' h

theorem foldl_feed_stopped : ∀ (pieces : List Str) {r : Reader σ}, r.stopped = true →
    pieces.foldl (feed handle) r = r := by
  intro pieces
  induction pieces with
  | nil => intro r _; rfl
  | cons piece pieces ih =>
    intro r h
    have hfeed : feed handle r piece = r := if_pos h
    rw [List.foldl_cons, hfeed, ih h]

/-- The reader comes to the same end as one that goes on to the whole text. -/
theorem GoesOn.foldl : ∀ {pieces : List Str} {r : Reader σ} {whole : σ × Bool},
    GoesOn handle pieces.flatten r whole → (pieces.foldl (feed handle) r).outcome = whole := by
  intro pieces
  induction pieces with
  | nil =>
    intro r whole h
    unfold GoesOn at h
    split at h
    · exact h.symm
    · next hs =>
      obtain ⟨hused, -, hwhole⟩ := h
      rw [hwhole, List.flatten_nil, List.append_nil, hused]
      exact congrArg (Prod.mk r.state) ((Bool.not_eq_true _).mp hs)
  | cons piece pieces ih =>
    intro r whole h
    unfold GoesOn at h
    split at h
    · next hs => rw [foldl_feed_stopped _ hs, h]
    · next hs =>
      obtain ⟨-, hlast, hwhole⟩ := h
      have hfeed : feed handle r piece = readLines handle r.state [] (r.buffer ++ piece) := if_neg hs
      rw [List.flatten_cons, ← List.append_assoc] at hlast hwhole
      rw [List.foldl_cons, hfeed, hwhole]
      exact ih (readLines_append pieces.flatten (r.buffer ++ piece) (by simp) hlast)

/-- **The outcome does not depend on the pieces.** -/
theorem feedAll_outcome {st : σ} {pieces : List Str} (h : LeavesLast handle st [] pieces.flatten) :
    (feedAll handle st pieces).outcome = (readLines handle st [] pieces.flatten).outcome :=
  GoesOn.foldl (r := ⟨st, [], false⟩) ⟨rfl, h, rfl⟩

/-- A handler that never leaves lines in the buffer. -/
theorem leavesLast_of_ne (hflow : ∀ st line, (handle st line).2 ≠ .leave) : ∀ (text : Str) (st : σ) (line : Str),
    LeavesLast handle st line text := by
  intro text
  induction text with
  | nil => intro st line; trivial
  | cons c text ih =>
    intro st line
    unfold LeavesLast
    by_cases hc : c = '\n'
    · rw [if_pos hc]
      have hne := hflow st line
      match hh : handle st line with
      | (st', .next) => exact ih st' []
      | (st', .leave) =>
        rw [hh] at hne
        exact absurd rfl hne
      | (st', .stop) => trivial
    · rw [if_neg hc]
      exact ih st (line ++ [c])

end

end Lines

end Zeptoclaw

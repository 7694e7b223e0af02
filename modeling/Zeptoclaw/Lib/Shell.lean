import Zeptoclaw.Lib.Text

/-!
# Reading text by the quoting rules of the POSIX shell

A text is a list of symbols, characters or holes. The reader goes through it symbol by
symbol and writes down what the shell sees: where words start, their characters, quoted
or not, the blanks between them, the operator characters, and where command
substitutions open and close. Single quotes are literal; a backslash escapes; inside
double quotes the backslash, `$(` and the backquote stay active; `#` starts a comment at
the start of a word. Parameter expansions are word text. Not read are arithmetic expansions, the
bodies of here-documents and `$'...'`: their symbols are taken like any others.

`read_fill`: a hole in unquoted position that is filled with text in single quotes is
read as exactly that text, whatever it is, and nothing else in the reading changes.

`commandWords` goes over a reading and picks the command word of every simple command,
those inside substitutions included: the first word that is neither an assignment nor
part of a redirection.
-/

namespace Zeptoclaw.Shell

variable {κ : Type*}

inductive Sym (κ : Type*) where
  | char (c : Char)
  | hole (k : κ)
  deriving DecidableEq

/-- A text without holes. -/
def text (s : Str) : List (Sym κ) := s.map .char

/-- What the shell sees. -/
inductive Event (κ : Type*) where
  | start
  | lit (c : Char)
  | quoted (c : Char)
  | hole (k : κ)
  | blank
  | op (c : Char)
  | openSub
  | closeSub
  | openTick
  | closeTick
  deriving DecidableEq

/-- What the reader is inside of: a command substitution, a subshell, backquotes, or
double quotes. -/
inductive Frame where
  | sub
  | paren
  | tick
  | double
  deriving DecidableEq, Repr

inductive Mode where
  | plain
  | single
  | escape
  | comment
  deriving DecidableEq, Repr

structure ReadState where
  stack : List Frame
  mode : Mode
  inWord : Bool
  /-- The last character was an unescaped dollar sign. -/
  dollar : Bool
  deriving DecidableEq, Repr

namespace ReadState

def init : ReadState := ⟨[], .plain, false, false⟩

def inDouble (st : ReadState) : Bool := st.stack.head? = some .double

/-- The reader is in a word, outside quotes. -/
def word (st : ReadState) : ReadState := { st with mode := .plain, inWord := true, dollar := false }

/-- A word starts unless the reader is in one. -/
def started (st : ReadState) : List (Event κ) := if st.inWord then [] else [.start]

/-- The reader takes a part of a word. -/
def put (st : ReadState) (part : List (Event κ)) : ReadState × List (Event κ) := (st.word, st.started ++ part)

/-- The reader enters a frame in which no word has started. -/
def enter (st : ReadState) (frame : Frame) : ReadState :=
  { st with stack := frame :: st.stack, inWord := false, dollar := false }

/-- The reader leaves the innermost frame. -/
def leave (st : ReadState) (inWord : Bool) : ReadState :=
  { st with stack := st.stack.tail, mode := .plain, inWord := inWord, dollar := false }

end ReadState

def isBlankChar (c : Char) : Bool := c = ' ' || c = '\t'

/-- The operator characters other than the parentheses. -/
def isOperatorChar (c : Char) : Bool := c ∈ ['\n', ';', '&', '|', '<', '>']

/-- A character inside double quotes. -/
def readDouble (st : ReadState) (c : Char) : ReadState × List (Event κ) :=
  if c = '"' then (st.leave true, [])
  else if c = '\\' then ({ st with mode := .escape }, [])
  else if c = '`' then (st.enter .tick, [.openTick])
  else if c = '$' then ({ st with dollar := true }, [.quoted c])
  else if c = '(' ∧ st.dollar then (st.enter .sub, [.openSub])
  else ({ st with dollar := false }, [.quoted c])

/-- A parenthesis that closes: a substitution goes on being a part of its word. -/
def readClose (st : ReadState) : ReadState × List (Event κ) :=
  match st.stack.head? with
  | some .sub => (st.leave true, [.closeSub])
  | some .paren => (st.leave false, [.op ')'])
  | _ => ({ st with inWord := false, dollar := false }, [.op ')'])

/-- A character outside quotes. -/
def readPlain (st : ReadState) (c : Char) : ReadState × List (Event κ) :=
  if c = '\\' then ({ st with mode := .escape }, [])
  else if c = '\'' then
    ({ st.word with mode := .single }, st.started)
  else if c = '"' then
    ({ st.word with stack := .double :: st.stack }, st.started)
  else if c = '`' then
    if st.stack.head? = some .tick then (st.leave true, [.closeTick])
    else (st.enter .tick, st.started ++ [.openTick])
  else if c = '$' then ({ st.word with dollar := true }, st.started ++ [.lit c])
  else if c = '(' then
    if st.dollar then (st.enter .sub, [.openSub]) else (st.enter .paren, [.op c])
  else if c = ')' then readClose st
  else if isBlankChar c then ({ st with inWord := false, dollar := false }, [.blank])
  else if isOperatorChar c then ({ st with inWord := false, dollar := false }, [.op c])
  else if c = '#' ∧ st.inWord = false then ({ st with mode := .comment }, [])
  else st.put [.lit c]

def readChar (st : ReadState) (c : Char) : ReadState × List (Event κ) :=
  match st.mode with
  | .single => if c = '\'' then ({ st with mode := .plain }, []) else (st, [.quoted c])
  | .comment =>
    if c = '\n' then ({ st with mode := .plain }, [.op c])
    else if c = '`' ∧ st.stack.head? = some .tick then (st.leave true, [.closeTick])
    else (st, [])
  | .escape =>
    -- a line that is continued, also between a dollar sign and its parenthesis
    if c = '\n' then ({ st with mode := .plain }, [])
    else if st.inDouble ∧ c ∉ ['$', '`', '"', '\\'] then st.put [.quoted '\\', .quoted c]
    else st.put [.quoted c]
  | .plain => if st.inDouble then readDouble st c else readPlain st c

def readSym (st : ReadState) : Sym κ → ReadState × List (Event κ)
  | .char c => readChar st c
  | .hole k => st.put [.hole k]

/-- The reading of a text from a state on, with the state reached. -/
def readFrom : ReadState → List (Sym κ) → ReadState × List (Event κ)
  | st, [] => (st, [])
  | st, s :: rest =>
    ((readFrom (readSym st s).1 rest).1, (readSym st s).2 ++ (readFrom (readSym st s).1 rest).2)

/-- The reading of a whole text. -/
def read (syms : List (Sym κ)) : List (Event κ) := (readFrom .init syms).2

@[simp] theorem readFrom_nil (st : ReadState) : readFrom st ([] : List (Sym κ)) = (st, []) := rfl

theorem readFrom_cons (st : ReadState) (s : Sym κ) (rest : List (Sym κ)) :
    readFrom st (s :: rest) =
      ((readFrom (readSym st s).1 rest).1, (readSym st s).2 ++ (readFrom (readSym st s).1 rest).2) := rfl

/-- A reading can be cut anywhere. -/
theorem readFrom_append : ∀ (syms rest : List (Sym κ)) (st : ReadState),
    readFrom st (syms ++ rest) =
      ((readFrom (readFrom st syms).1 rest).1, (readFrom st syms).2 ++ (readFrom (readFrom st syms).1 rest).2) := by
  intro syms
  induction syms with
  | nil => intro rest st; rfl
  | cons s syms ih =>
    intro rest st
    rw [List.cons_append, readFrom_cons, readFrom_cons, ih]
    simp [List.append_assoc]

/-! ## Holes -/

/-- The reader is outside quotes and backquotes, of the frame it is in and of those
around it; double quotes around a command substitution do not count. -/
def Unquoted (st : ReadState) : Prop :=
  st.mode = .plain ∧ st.inDouble = false ∧ Frame.tick ∉ st.stack

/-- Every hole stands in unquoted position. -/
def HolesUnquoted : ReadState → List (Sym κ) → Prop
  | _, [] => True
  | st, .char c :: rest => HolesUnquoted (readChar (κ := κ) st c).1 rest
  | st, .hole _ :: rest => Unquoted st ∧ HolesUnquoted st.word rest

instance (st : ReadState) : Decidable (Unquoted st) :=
  inferInstanceAs (Decidable (_ ∧ _ ∧ _))

instance decidableHolesUnquoted : ∀ (st : ReadState) (syms : List (Sym κ)), Decidable (HolesUnquoted st syms)
  | _, [] => isTrue trivial
  | _, .char _ :: rest => decidableHolesUnquoted _ rest
  | st, .hole _ :: rest =>
    match decidableHolesUnquoted st.word rest with
    | isTrue h => if hu : Unquoted st then isTrue ⟨hu, h⟩ else isFalse fun hh => hu hh.1
    | isFalse h => isFalse fun hh => h hh.2

/-- A text with its holes filled. -/
def fill (f : κ → Str) : List (Sym κ) → List (Sym κ)
  | [] => []
  | .char c :: rest => .char c :: fill f rest
  | .hole k :: rest => text (f k) ++ fill f rest

/-- A reading with literal text for its holes. -/
def fillEvents (f : κ → Str) (events : List (Event κ)) : List (Event κ) :=
  events.flatMap fun e =>
    match e with
    | .hole k => (f k).map .quoted
    | e => [e]

/-- A character inside single quotes; a single quote is closed, escaped and opened again. -/
def quoteChar (c : Char) : Str := if c = '\'' then ['\'', '\\', '\'', '\''] else [c]

/-- A text in single quotes. -/
def quoteWord (s : Str) : Str := '\'' :: s.flatMap quoteChar ++ ['\'']

theorem fillEvents_append (f : κ → Str) (a b : List (Event κ)) :
    fillEvents f (a ++ b) = fillEvents f a ++ fillEvents f b := by
  unfold fillEvents; rw [List.flatMap_append]

theorem text_append (a b : Str) : (text (a ++ b) : List (Sym κ)) = text a ++ text b := by
  unfold text; rw [List.map_append]

/-- A list of events without holes. -/
def HoleFree (events : List (Event κ)) : Prop := ∀ k, .hole k ∉ events

theorem HoleFree.fill {events : List (Event κ)} (h : HoleFree events) (f : κ → Str) :
    fillEvents f events = events := by
  induction events with
  | nil => rfl
  | cons e events ih =>
    have hrest : HoleFree events := fun k hk => h k (List.mem_cons_of_mem _ hk)
    have hcons : fillEvents f (e :: events) = fillEvents f [e] ++ fillEvents f events := by
      rw [← fillEvents_append]; rfl
    have hone : fillEvents f [e] = [e] := by
      cases e with
      | hole k => exact absurd List.mem_cons_self (h k)
      | _ => rfl
    rw [hcons, hone, ih hrest]
    rfl

theorem holeFree_started (st : ReadState) : HoleFree (st.started : List (Event κ)) := by
  intro k
  unfold ReadState.started
  split <;> simp

theorem HoleFree.ite {p : Prop} [Decidable p] {a b : ReadState × List (Event κ)} (ha : HoleFree a.2)
    (hb : HoleFree b.2) : HoleFree (if p then a else b).2 := by
  split
  · exact ha
  · exact hb

theorem readDouble_holeFree (st : ReadState) (c : Char) : HoleFree (readDouble st c : ReadState × List (Event κ)).2 := by
  unfold readDouble
  repeat' apply HoleFree.ite
  all_goals intro k; simp

theorem readPlain_holeFree (st : ReadState) (c : Char) : HoleFree (readPlain st c : ReadState × List (Event κ)).2 := by
  have hclose : HoleFree (readClose st : ReadState × List (Event κ)).2 := by
    intro k
    unfold readClose
    split <;> simp
  unfold readPlain ReadState.put
  repeat' apply HoleFree.ite
  all_goals
    intro k
    have hst := holeFree_started (κ := κ) st k
    simp [hst, hclose k]

/-- Reading a character never makes a hole. -/
theorem readChar_holeFree (st : ReadState) (c : Char) : HoleFree (readChar st c : ReadState × List (Event κ)).2 := by
  intro k
  have hst := holeFree_started (κ := κ) st k
  unfold readChar
  split
  · split_ifs <;> simp
  · split_ifs <;> simp
  · unfold ReadState.put
    split_ifs <;> simp [hst]
  · split_ifs
    · exact readDouble_holeFree st c k
    · exact readPlain_holeFree st c k

/-! ## Quoted text -/

/-- Inside single quotes that were opened in unquoted position, a quoted text and the
closing quote are read as the text. -/
theorem readFrom_quoteChars {st : ReadState} (hd : st.inDouble = false) : ∀ s : Str,
    readFrom (κ := κ) { st.word with mode := .single } (text (s.flatMap quoteChar ++ ['\''])) =
      (st.word, s.map .quoted) := by
  intro s
  have hword : st.word.inDouble = false := hd
  induction s with
  | nil => rfl
  | cons c s ih =>
    rw [List.flatMap_cons, List.append_assoc, text_append]
    by_cases hc : c = '\''
    · subst hc
      have hquote : readFrom (κ := κ) { st.word with mode := .single } (text (quoteChar '\'')) =
          ({ st.word with mode := .single }, [.quoted '\'']) := by
        have hd' : (st.stack.head? = some Frame.double) = False := by
          simpa [ReadState.inDouble] using hd
        simp [quoteChar, text, readFrom, readSym, readChar, readPlain, ReadState.word, ReadState.inDouble, hd',
          ReadState.put, ReadState.started]
      rw [readFrom_append, hquote]
      simp only
      rw [ih]
      rfl
    · have hquote : readFrom (κ := κ) { st.word with mode := .single } (text (quoteChar c)) =
          ({ st.word with mode := .single }, [.quoted c]) := by
        simp [quoteChar, hc, text, readFrom, readSym, readChar]
      rw [readFrom_append, hquote]
      simp only
      rw [ih]
      rfl

/-- **A text in single quotes is read as the text, in one word.** -/
theorem readFrom_quoteWord {st : ReadState} (h : Unquoted st) (s : Str) :
    readFrom (κ := κ) st (text (quoteWord s)) = (st.word, st.started ++ s.map .quoted) := by
  obtain ⟨hm, hd, -⟩ := h
  have hopen : readChar (κ := κ) st '\'' = ({ st.word with mode := .single }, st.started) := by
    unfold readChar
    rw [hm]
    simp [hd, readPlain]
  unfold quoteWord
  rw [List.cons_append]
  show readFrom st (.char '\'' :: text (s.flatMap quoteChar ++ ['\''])) = _
  rw [readFrom_cons]
  show ((readFrom (readChar st '\'').1 _).1, (readChar st '\'').2 ++ (readFrom (readChar st '\'').1 _).2) = _
  rw [hopen]
  simp only
  rw [readFrom_quoteChars hd s]

/-- **Holes in unquoted position may be filled with any quoted text**: the reading has the
text in their place and is otherwise the same. -/
theorem read_fill (f : κ → Str) : ∀ (syms : List (Sym κ)) (st : ReadState), HolesUnquoted st syms →
    readFrom st (fill (fun k => quoteWord (f k)) syms) =
      ((readFrom st syms).1, fillEvents f (readFrom st syms).2) := by
  intro syms
  induction syms with
  | nil => intro st _; rfl
  | cons s syms ih =>
    intro st h
    cases s with
    | char c =>
      have hchar := (readChar_holeFree (κ := κ) st c).fill f
      rw [fill, readFrom_cons, readFrom_cons, fillEvents_append]
      show ((readFrom (readChar st c).1 _).1, (readChar st c).2 ++ (readFrom (readChar st c).1 _).2) = _
      rw [ih _ h]
      show _ = ((readFrom (readChar st c).1 syms).1, fillEvents f (readChar st c).2 ++ _)
      rw [hchar]
      rfl
    | hole k =>
      obtain ⟨hu, hrest⟩ := h
      rw [fill, readFrom_append, readFrom_quoteWord hu, readFrom_cons, fillEvents_append]
      simp only
      rw [ih _ hrest]
      show _ = ((readFrom st.word syms).1, fillEvents f (st.started ++ [.hole k]) ++ _)
      have hput : fillEvents f (st.started ++ [.hole k]) = st.started ++ (f k).map .quoted := by
        rw [fillEvents_append, (holeFree_started st).fill f]
        simp [fillEvents]
      rw [hput]
      rfl

/-! ## Simple commands -/

/-- A part of a word: a character and whether it is quoted, or a text that the reading does
not know. -/
abbrev Part := Option (Char × Bool)

/-- An unquoted character for which `p` holds. -/
def Part.isPlain (p : Char → Bool) : Part → Bool
  | some (c, false) => p c
  | _ => false

def isNameChar (c : Char) : Bool := c.isAlphanum || c = '_'

/-- `name=...`, the name unquoted. -/
def isAssignment (word : List Part) : Bool :=
  let name := word.takeWhile (Part.isPlain isNameChar)
  (name.head?.any fun p => !p.isPlain Char.isDigit) &&
    (word.drop name.length).head?.any (Part.isPlain (· = '='))

/-- The number before a redirection operator. -/
def isIoNumber (word : List Part) : Bool := word ≠ [] && word.all (Part.isPlain Char.isDigit)

/-- The text of a word, if it is known. -/
def wordText (word : List Part) : Option Str := word.mapM fun p => p.map Prod.fst

/-- The simple command at hand. -/
structure Simple where
  word : Option (List Part)
  seenCommand : Bool
  /-- The next word belongs to a redirection. -/
  operand : Bool
  deriving DecidableEq

/-- A reading gone over: the simple command at hand, those around the substitutions it is
in, a redirection operator that may go on, and the command words found. -/
structure Collected where
  simple : Simple
  outer : List Simple
  lastOp : Option Char
  words : List (Option Str)
  deriving DecidableEq

namespace Collected

def init : Collected := ⟨⟨none, false, false⟩, [], none, []⟩

/-- The end of a word. -/
def endWord (st : Collected) : Collected :=
  match st.simple.word with
  | none => st
  | some word =>
    if st.simple.operand then { st with simple := { st.simple with word := none, operand := false } }
    else if st.simple.seenCommand || isAssignment word then { st with simple := { st.simple with word := none } }
    else { st with simple := { st.simple with word := none, seenCommand := true },
                   words := st.words ++ [wordText word] }

def addPart (st : Collected) (p : Part) : Collected :=
  { st with simple := { st.simple with word := st.simple.word.map (· ++ [p]) }, lastOp := none }

/-- The second character of an operator such as `>>`, `>&` or `<>`. -/
def continues : Option Char → Char → Bool
  | some '>', c => c ∈ ['>', '&', '|']
  | some '<', c => c ∈ ['<', '&', '>']
  | _, _ => false

def addOp (st : Collected) (c : Char) : Collected :=
  if continues st.lastOp c then { st with lastOp := none }
  else if c = '<' ∨ c = '>' then
    let st := if st.simple.word.any isIoNumber then { st with simple := { st.simple with word := none } } else st.endWord
    { st with simple := { st.simple with operand := true }, lastOp := some c }
  else
    { st.endWord with simple := ⟨none, false, false⟩, lastOp := none }

/-- A substitution starts a command of its own. -/
def openInner (st : Collected) : Collected :=
  { st with simple := ⟨none, false, false⟩, outer := st.simple :: st.outer, lastOp := none }

/-- The end of a substitution: the word around it goes on with an unknown text. -/
def closeInner (st : Collected) : Collected :=
  match st.outer with
  | [] => st.endWord
  | simple :: outer =>
    { st.endWord with simple := { simple with word := simple.word.map (· ++ [none]) }, outer := outer, lastOp := none }

def add (st : Collected) : Event κ → Collected
  | .start => { st with simple := { st.simple with word := some [] }, lastOp := none }
  | .lit c => st.addPart (some (c, false))
  | .quoted c => st.addPart (some (c, true))
  | .hole _ => st.addPart none
  | .blank => { st.endWord with lastOp := none }
  | .op c => st.addOp c
  | .openSub => st.openInner
  | .openTick => st.openInner
  | .closeSub => st.closeInner
  | .closeTick => st.closeInner

def addAll (st : Collected) (events : List (Event κ)) : Collected := events.foldl add st

/-- The end of the text: a trailing backslash stands for itself, and a word that ends inside
quotes or a substitution is never run. -/
def finish (st : Collected) (rd : ReadState) : Collected :=
  if rd.stack ≠ [] ∨ rd.mode = .single then st
  else if rd.mode = .escape then (st.addAll (rd.put (κ := Empty) [.quoted '\\']).2).endWord
  else st.endWord

end Collected

/-- The command words of a text, with what was read before it. -/
def commandWordsFrom (rd : ReadState) (st : Collected) (s : Str) : List (Option Str) :=
  let r := readFrom (κ := Empty) rd (text s)
  ((st.addAll r.2).finish r.1).words

/-- The command words of a text. -/
def commandWords (s : Str) : List (Option Str) := commandWordsFrom .init .init s

theorem commandWordsFrom_nil (rd : ReadState) (st : Collected) : commandWordsFrom rd st [] = (st.finish rd).words := rfl

theorem commandWordsFrom_cons (rd : ReadState) (st : Collected) (c : Char) (s : Str) :
    commandWordsFrom rd st (c :: s) =
      commandWordsFrom (readChar (κ := Empty) rd c).1 (st.addAll (readChar (κ := Empty) rd c).2) s := by
  unfold commandWordsFrom Collected.addAll
  show (Collected.finish (List.foldl _ _ (readFrom (κ := Empty) rd (.char c :: text s)).2) _).words = _
  rw [readFrom_cons]
  simp only [readSym, List.foldl_append]
  rfl

/-! ## After the command word -/

/-- The command word of the simple command at hand is known, and no substitution is open. -/
structure Running (words : List (Option Str)) (st : Collected) : Prop where
  seen : st.simple.seenCommand = true
  outer : st.outer = []
  words : st.words = words

/-- The event does not end a command and opens none. -/
def Event.isText : Event κ → Bool
  | .start | .lit _ | .quoted _ | .blank => true
  | _ => false

theorem Running.endWord {words : List (Option Str)} {st : Collected} (h : Running words st) :
    Running words st.endWord := by
  obtain ⟨hs, ho, hw⟩ := h
  unfold Collected.endWord
  rw [hs]
  split
  · exact ⟨hs, ho, hw⟩
  · split_ifs
    · exact ⟨hs, ho, hw⟩
    · exact ⟨hs, ho, hw⟩
    · simp at *

/-- Words, quotes and blanks belong to the command at hand. -/
theorem Running.addAll {words : List (Option Str)} : ∀ (events : List (Event κ)) {st : Collected},
    Running words st → (∀ e ∈ events, e.isText = true) → Running words (st.addAll events) := by
  intro events
  induction events with
  | nil => intro st h _; exact h
  | cons e events ih =>
    intro st h he
    have hadd : Running words (st.add e) := by
      have hte := he e List.mem_cons_self
      have hend := h.endWord
      cases e with
      | start => exact ⟨h.seen, h.outer, h.words⟩
      | lit c => exact ⟨h.seen, h.outer, h.words⟩
      | quoted c => exact ⟨h.seen, h.outer, h.words⟩
      | blank => exact ⟨hend.seen, hend.outer, hend.words⟩
      | _ => exact absurd hte (by simp [Event.isText])
    exact ih hadd fun e' he' => he e' (List.mem_cons_of_mem _ he')

/-- So do redirections. -/
theorem Running.redirect {words : List (Option Str)} {st : Collected} (h : Running words st) {c : Char}
    (hc : c = '<' ∨ c = '>' ∨ Collected.continues st.lastOp c = true) : Running words (st.addOp c) := by
  have hend := h.endWord
  unfold Collected.addOp
  by_cases hcont : Collected.continues st.lastOp c = true
  · rw [if_pos hcont]
    exact ⟨h.seen, h.outer, h.words⟩
  · have hlt : c = '<' ∨ c = '>' := by tauto
    rw [if_neg hcont, if_pos hlt]
    simp only
    split_ifs
    · exact ⟨h.seen, h.outer, h.words⟩
    · exact ⟨hend.seen, hend.outer, hend.words⟩

theorem Running.finish {words : List (Option Str)} {st : Collected} (h : Running words st) (rd : ReadState) :
    (st.finish rd).words = words := by
  unfold Collected.finish
  split_ifs
  · exact h.words
  · refine ((h.addAll _ ?_).endWord).words
    unfold ReadState.put ReadState.started
    split_ifs <;> simp [Event.isText]
  · exact h.endWord.words

end Zeptoclaw.Shell

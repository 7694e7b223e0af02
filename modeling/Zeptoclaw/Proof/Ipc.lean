import Zeptoclaw.Lib.Literal
import Zeptoclaw.Lib.TextLines
import Zeptoclaw.Proof.Taint
import Zeptoclaw.Spec.Ipc
import Mathlib.Data.Bool.AllAny

/-!
# An answer is read back unless it carries a marker

`serde_json` writes the characters of the markers as they are, and the gateway looks for the last
start marker and the first end marker behind it. `marked_response_iff`: an answer is read back
exactly if none of its strings contains a marker. For the one direction the place of every
marker is known; for the other, what stands behind a marker in a string begins inside of a
literal, so that what it has in quotes is what the JSON of the answer has outside of them.
-/

namespace Zeptoclaw

open Text Literal

/-! ## The JSON of an answer -/

/-- A character that may stand outside of the strings. -/
def PlainChar (c : Char) : Prop := c ≠ '\\' ∧ c ≠ 'S' ∧ c ≠ 'E' ∧ c ≠ '<'

instance (c : Char) : Decidable (PlainChar c) := inferInstanceAs (Decidable (_ ∧ _ ∧ _ ∧ _))

/-- Every string in the text is closed, and outside of the strings it is plain. -/
structure Lexed (s : Str) : Prop where
  closed : scan .outside s = .outside
  plain : ∀ c ∈ outsideOf .outside s, PlainChar c

namespace Lexed

theorem nil : Lexed [] := ⟨rfl, by simp [outsideOf]⟩

theorem append {s t : Str} (hs : Lexed s) (ht : Lexed t) : Lexed (s ++ t) := by
  refine ⟨?_, ?_⟩
  · rw [scan_append, hs.closed, ht.closed]
  · rw [outsideOf_append, hs.closed]
    intro c hc
    rcases List.mem_append.mp hc with hc | hc
    · exact hs.plain c hc
    · exact ht.plain c hc

theorem cons {c : Char} {s : Str} (hs : Lexed s) (hquote : c ≠ '"') (hc : PlainChar c) : Lexed (c :: s) := by
  refine ⟨?_, ?_⟩
  · rw [scan_cons, next_outside hquote, hs.closed]
  · rw [outsideOf_outside hquote]
    exact List.forall_mem_cons.mpr ⟨hc, hs.plain⟩

theorem of_forall {s : Str} (h : ∀ c ∈ s, c ≠ '"' ∧ PlainChar c) : Lexed s := by
  induction s with
  | nil => exact nil
  | cons c s ih =>
    obtain ⟨hc, hs⟩ := List.forall_mem_cons.mp h
    exact (ih hs).cons hc.1 hc.2

theorem intercalate {texts : List Str} (h : ∀ t ∈ texts, Lexed t) : Lexed ([','].intercalate texts) := by
  induction texts with
  | nil => exact nil
  | cons t texts ih =>
    obtain ⟨ht, htexts⟩ := List.forall_mem_cons.mp h
    cases texts with
    | nil => simpa [List.intercalate] using ht
    | cons t' texts =>
      have hcons : [','].intercalate (t :: t' :: texts) = t ++ ',' :: [','].intercalate (t' :: texts) := by
        simp [List.intercalate]
      rw [hcons]
      exact ht.append ((ih htexts).cons (by decide) (by decide))

end Lexed

namespace Json

theorem hexDigit_plain : ∀ n < 16, hexDigit n ≠ '"' ∧ hexDigit n ≠ '\\' ∧ hexDigit n ≠ '<' := by decide

/-- A character stands for itself, or is written behind a backslash. -/
theorem escapeChar_cases (c : Char) :
    (escapeChar c = [c] ∧ c ≠ '"' ∧ c ≠ '\\') ∨
      ∃ d rest, escapeChar c = '\\' :: d :: rest ∧ d ≠ '<' ∧ ∀ e ∈ rest, e ≠ '"' ∧ e ≠ '\\' ∧ e ≠ '<' := by
  by_cases hself : escapeChar c = [c]
  · left
    refine ⟨hself, ?_, ?_⟩
    · rintro rfl
      exact absurd hself (by decide)
    · rintro rfl
      exact absurd hself (by decide)
  · right
    unfold escapeChar at hself ⊢
    split
    · exact ⟨'"', [], rfl, by decide, by simp⟩
    split
    · exact ⟨'\\', [], rfl, by decide, by simp⟩
    split
    · exact ⟨'n', [], rfl, by decide, by simp⟩
    split
    · exact ⟨'r', [], rfl, by decide, by simp⟩
    split
    · exact ⟨'t', [], rfl, by decide, by simp⟩
    split
    · exact ⟨'b', [], rfl, by decide, by simp⟩
    split
    · exact ⟨'f', [], rfl, by decide, by simp⟩
    split
    · next hcontrol =>
      refine ⟨'u', ['0', '0', hexDigit (c.toNat / 16), hexDigit (c.toNat % 16)], rfl, by decide, ?_⟩
      have hhigh := hexDigit_plain (c.toNat / 16) (by omega)
      have hlow := hexDigit_plain (c.toNat % 16) (by omega)
      simp [hhigh, hlow]
    · simp_all

/-- An escaped character is scanned inside, and leaves the scanner there. -/
theorem scan_escapeChar (c : Char) : scan .inside (escapeChar c) = .inside ∧ outsideOf .inside (escapeChar c) = [] := by
  rcases escapeChar_cases c with ⟨hself, hquote, hslash⟩ | ⟨d, rest, heq, -, hrest⟩
  · rw [hself]
    exact ⟨next_inside hquote hslash, outsideOf_inside hquote hslash⟩
  · have hrest' : ∀ e ∈ rest, e ≠ '"' ∧ e ≠ '\\' := fun e he => ⟨(hrest e he).1, (hrest e he).2.1⟩
    rw [heq]
    change scan .inside rest = .inside ∧ outsideOf .inside rest = []
    exact ⟨scan_plain hrest' (by decide), outsideOf_inside_plain hrest'⟩

theorem scan_escape (s : Str) : scan .inside (escape s) = .inside ∧ outsideOf .inside (escape s) = [] := by
  induction s with
  | nil => exact ⟨rfl, rfl⟩
  | cons c s ih =>
    have hc := scan_escapeChar c
    rw [escape, List.flatMap_cons, scan_append, outsideOf_append, hc.1, hc.2]
    exact ih

theorem quoted_lexed (s : Str) : Lexed (quoted s) := by
  have hs := scan_escape s
  have hquoted : quoted s = '"' :: (escape s ++ ['"']) := rfl
  rw [hquoted]
  refine ⟨?_, ?_⟩
  · change scan .inside (escape s ++ ['"']) = .outside
    rw [scan_append, hs.1]
    rfl
  · change ∀ c ∈ outsideOf .inside (escape s ++ ['"']), PlainChar c
    rw [outsideOf_append, hs.1, hs.2]
    intro c hc
    cases hc

theorem itemTexts_eq (items : List Json) : itemTexts items = items.map toStr := by
  induction items with
  | nil => rfl
  | cons v items ih => rw [itemTexts, ih, List.map_cons]

theorem fieldTexts_eq (fields : List (Str × Json)) :
    fieldTexts fields = fields.map fun f => quoted f.1 ++ ':' :: toStr f.2 := by
  induction fields with
  | nil => rfl
  | cons f fields ih =>
    obtain ⟨key, v⟩ := f
    rw [fieldTexts, ih, List.map_cons]

theorem mem_itemStrings {items : List Json} {v : Json} {s : Str} (hv : v ∈ items) (hs : s ∈ v.strings) :
    s ∈ itemStrings items := by
  induction items with
  | nil => cases hv
  | cons w items ih =>
    rw [itemStrings, List.mem_append]
    rcases List.mem_cons.mp hv with rfl | hv
    · exact .inl hs
    · exact .inr (ih hv)

theorem mem_fieldStrings {fields : List (Str × Json)} {f : Str × Json} {s : Str} (hf : f ∈ fields)
    (hs : s = f.1 ∨ s ∈ f.2.strings) : s ∈ fieldStrings fields := by
  induction fields with
  | nil => cases hf
  | cons g fields ih =>
    obtain ⟨key, w⟩ := g
    rw [fieldStrings, List.cons_append, List.mem_cons, List.mem_append]
    rcases List.mem_cons.mp hf with rfl | hf
    · rcases hs with rfl | hs
      · exact .inl rfl
      · exact .inr (.inl hs)
    · exact .inr (.inr (ih hf))

/-! ### A marker in the text of a value -/

section Marker

variable {p : Str}

/-- A beginning without a backslash is not changed by the escaping. -/
theorem prefix_of_prefix_escape : ∀ {q s : Str}, '\\' ∉ q → q <+: escape s → q <+: s := by
  intro q
  induction q with
  | nil => exact fun _ _ => List.nil_prefix
  | cons d q ih =>
    intro s hq h
    rw [List.mem_cons, not_or] at hq
    cases s with
    | nil => exact absurd (List.prefix_nil.mp h) (List.cons_ne_nil d q)
    | cons c s =>
      rw [escape, List.flatMap_cons] at h
      rcases escapeChar_cases c with ⟨hself, -, -⟩ | ⟨e, rest, heq, -, -⟩
      · rw [hself] at h
        obtain ⟨rfl, htail⟩ := List.cons_prefix_cons.mp h
        exact List.cons_prefix_cons.mpr ⟨rfl, ih hq.2 htail⟩
      · rw [heq] at h
        exact absurd (List.cons_prefix_cons.mp h).1.symm hq.1

/-- A text does not begin where its first character does not stand. -/
theorem infix_of_notMem {d : Char} {q w l : Str} (hd : d ∉ w) (h : (d :: q) <:+: w ++ l) : (d :: q) <:+: l := by
  induction w with
  | nil => exact h
  | cons c w ih =>
    rw [List.mem_cons, not_or] at hd
    rcases List.infix_cons_iff.mp h with hpre | h
    · exact absurd (List.cons_prefix_cons.mp hpre).1 hd.1
    · exact ih hd.2 h

/-- A text that begins with `<` and has no backslash stands in the escaped string where it stands in the string. -/
theorem infix_of_infix_escape (hp : '\\' ∉ p) : ∀ {s : Str}, ('<' :: p) <:+: escape s → ('<' :: p) <:+: s := by
  intro s
  induction s with
  | nil => exact fun h => h
  | cons c s ih =>
    intro h
    rw [escape, List.flatMap_cons] at h
    rcases escapeChar_cases c with ⟨hself, -, -⟩ | ⟨e, rest, heq, he, hrest⟩
    · rw [hself] at h
      rcases List.infix_cons_iff.mp h with hpre | h
      · obtain ⟨rfl, htail⟩ := List.cons_prefix_cons.mp hpre
        exact (List.cons_prefix_cons.mpr ⟨rfl, prefix_of_prefix_escape hp htail⟩).isInfix
      · exact List.infix_cons (ih h)
    · have hnot : '<' ∉ escapeChar c := by
        rw [heq, List.mem_cons, List.mem_cons, not_or, not_or]
        exact ⟨by decide, Ne.symm he, fun hmem => (hrest '<' hmem).2.2 rfl⟩
      exact List.infix_cons (ih (infix_of_notMem hnot h))

/-- The text between two separators. -/
theorem infix_between {o c : Char} {s : Str} (ho : o ∉ '<' :: p) (hc : c ∉ '<' :: p) (h : ('<' :: p) <:+: o :: s ++ [c]) :
    ('<' :: p) <:+: s := by
  have hopen : ('<' :: p) <:+: [] ++ o :: (s ++ [c]) := h
  rcases infix_side ho hopen with h | h
  · exact absurd (List.infix_nil.mp h) (List.cons_ne_nil _ _)
  · rcases infix_side hc h with h | h
    · exact h
    · exact absurd (List.infix_nil.mp h) (List.cons_ne_nil _ _)

theorem infix_of_intercalate (hcomma : ',' ∉ '<' :: p) : ∀ {texts : List Str}, ('<' :: p) <:+: [','].intercalate texts →
    ∃ t ∈ texts, ('<' :: p) <:+: t := by
  intro texts
  induction texts with
  | nil => exact fun h => absurd (List.infix_nil.mp h) (List.cons_ne_nil _ _)
  | cons t texts ih =>
    intro h
    cases texts with
    | nil => exact ⟨t, List.mem_cons_self, by simpa [List.intercalate] using h⟩
    | cons t' texts =>
      have hcons : [','].intercalate (t :: t' :: texts) = t ++ ',' :: [','].intercalate (t' :: texts) := by
        simp [List.intercalate]
      rw [hcons] at h
      rcases infix_side hcomma h with h | h
      · exact ⟨t, List.mem_cons_self, h⟩
      · obtain ⟨u, hu, h⟩ := ih h
        exact ⟨u, List.mem_cons_of_mem t hu, h⟩

theorem infix_of_quoted (hquote : '"' ∉ '<' :: p) (hslash : '\\' ∉ p) {s : Str} (h : ('<' :: p) <:+: quoted s) :
    ('<' :: p) <:+: s := infix_of_infix_escape hslash (infix_between hquote hquote h)

end Marker

end Json

/-- A text that begins with `<` and has no character that is escaped or stands between strings. -/
structure MarkerText (m : Str) : Prop where
  begins : ∃ p, m = '<' :: p
  bare : ∀ c ∈ "\"\\,:[]\x7b\x7d\n".toList, c ∉ m

theorem startMarker_text : MarkerText responseStartMarker := ⟨⟨_, rfl⟩, List.all_iff_forall_prop.mp (by decide)⟩

theorem endMarker_text : MarkerText responseEndMarker := ⟨⟨_, rfl⟩, List.all_iff_forall_prop.mp (by decide)⟩

/-- The text of the value is plain outside of its strings, and a marker in it stands in one of them. -/
structure WellWritten (v : Json) : Prop where
  lexed : Lexed v.toStr
  inString : ∀ m, MarkerText m → m <:+: v.toStr → ∃ s ∈ v.strings, m <:+: s

/-- The values of the fields are well written. -/
def FieldsWritten (fields : List (Str × Json)) : Prop := ∀ f ∈ fields, WellWritten f.2

namespace WellWritten

theorem string (s : Str) : WellWritten (.string s) := by
  refine ⟨Json.quoted_lexed s, ?_⟩
  rintro m ⟨⟨p, rfl⟩, hbare⟩ h
  have hslash : '\\' ∉ p := fun hmem => hbare '\\' (by decide) (List.mem_cons_of_mem _ hmem)
  exact ⟨s, List.mem_singleton_self s, Json.infix_of_quoted (hbare '"' (by decide)) hslash h⟩

/-- A value without strings. -/
theorem bare {v : Json} (h : ∀ c ∈ v.toStr, c ≠ '"' ∧ PlainChar c) : WellWritten v := by
  refine ⟨.of_forall h, ?_⟩
  rintro m ⟨⟨p, rfl⟩, -⟩ hin
  exact absurd rfl (h '<' (hin.subset List.mem_cons_self)).2.2.2.2

theorem null : WellWritten .null := bare (List.all_iff_forall_prop.mp (by decide))

theorem number (n : ℕ) : WellWritten (.number (toString n).toList) := by
  refine bare fun c hc => ?_
  have hdigit := isDigit_of_mem_toString hc
  refine ⟨?_, ?_, ?_, ?_, ?_⟩
  all_goals
    rintro rfl
    exact absurd hdigit (by decide)

theorem array {items : List Json} (h : ∀ v ∈ items, WellWritten v) : WellWritten (.array items) := by
  have htext : (Json.array items).toStr = '[' :: [','].intercalate (items.map Json.toStr) ++ [']'] := by
    rw [Json.toStr, Json.itemTexts_eq]
  refine ⟨?_, ?_⟩
  · rw [htext]
    refine (Lexed.cons ?_ (by decide) (by decide)).append (Lexed.nil.cons (by decide) (by decide))
    refine Lexed.intercalate fun t ht => ?_
    obtain ⟨v, hv, rfl⟩ := List.mem_map.mp ht
    exact (h v hv).lexed
  · rintro m hm hin
    obtain ⟨⟨p, rfl⟩, hbare⟩ := id hm
    rw [htext] at hin
    have hbetween := Json.infix_between (hbare '[' (by decide)) (hbare ']' (by decide)) hin
    obtain ⟨t, ht, hin⟩ := Json.infix_of_intercalate (hbare ',' (by decide)) hbetween
    obtain ⟨v, hv, rfl⟩ := List.mem_map.mp ht
    obtain ⟨s, hs, hin⟩ := (h v hv).inString _ hm hin
    exact ⟨s, Json.mem_itemStrings hv hs, hin⟩

theorem object {fields : List (Str × Json)} (h : FieldsWritten fields) : WellWritten (.object fields) := by
  have htext : (Json.object fields).toStr =
      '\x7b' :: [','].intercalate (fields.map fun f => Json.quoted f.1 ++ ':' :: f.2.toStr) ++ ['\x7d'] := by
    rw [Json.toStr, Json.fieldTexts_eq]
  refine ⟨?_, ?_⟩
  · rw [htext]
    refine (Lexed.cons ?_ (by decide) (by decide)).append (Lexed.nil.cons (by decide) (by decide))
    refine Lexed.intercalate fun t ht => ?_
    obtain ⟨f, hf, rfl⟩ := List.mem_map.mp ht
    exact (Json.quoted_lexed f.1).append ((h f hf).lexed.cons (by decide) (by decide))
  · rintro m hm hin
    obtain ⟨⟨p, rfl⟩, hbare⟩ := id hm
    rw [htext] at hin
    have hbetween := Json.infix_between (hbare '\x7b' (by decide)) (hbare '\x7d' (by decide)) hin
    obtain ⟨t, ht, hin⟩ := Json.infix_of_intercalate (hbare ',' (by decide)) hbetween
    obtain ⟨f, hf, rfl⟩ := List.mem_map.mp ht
    rcases infix_side (hbare ':' (by decide)) hin with hin | hin
    · have hslash : '\\' ∉ p := fun hmem => hbare '\\' (by decide) (List.mem_cons_of_mem _ hmem)
      exact ⟨f.1, Json.mem_fieldStrings hf (.inl rfl), Json.infix_of_quoted (hbare '"' (by decide)) hslash hin⟩
    · obtain ⟨s, hs, hin⟩ := (h f hf).inString _ hm hin
      exact ⟨s, Json.mem_fieldStrings hf (.inr hs), hin⟩

end WellWritten

/-! ### Every part of an answer -/

namespace FieldsWritten

theorem nil : FieldsWritten [] := fun _ h => absurd h List.not_mem_nil

theorem cons {key : Str} {v : Json} {fields : List (Str × Json)} (hv : WellWritten v) (h : FieldsWritten fields) :
    FieldsWritten ((key, v) :: fields) := List.forall_mem_cons.mpr ⟨hv, h⟩

theorem append {fields fields' : List (Str × Json)} (h : FieldsWritten fields) (h' : FieldsWritten fields') :
    FieldsWritten (fields ++ fields') := List.forall_mem_append.mpr ⟨h, h'⟩

theorem optional {α : Type*} {f : α → Json} (h : ∀ a, WellWritten (f a)) (name : String) (value : Option α) :
    FieldsWritten (optionalField name (value.map f)) := by
  cases value with
  | none => exact nil
  | some a => exact nil.cons (h a)

end FieldsWritten

open FieldsWritten in
theorem ToolCall.wellWritten (call : ToolCall) : WellWritten call.toJson :=
  .object (cons (.string _) (cons (.string _) (cons (.string _) nil)))

theorem Role.wellWritten (role : Role) : WellWritten role.toJson := by
  cases role <;> exact .string _

open FieldsWritten in
theorem ImageSource.wellWritten (source : ImageSource) : WellWritten source.toJson := by
  cases source <;> exact .object (cons (.string _) (cons (.string _) nil))

open FieldsWritten in
theorem ContentPart.wellWritten (part : ContentPart) : WellWritten part.toJson := by
  cases part with
  | text content => exact .object (cons (.string _) (cons (.string _) nil))
  | image source mediaType => exact .object (cons (.string _) (cons source.wellWritten (cons (.string _) nil)))

/-- The values of a list. -/
theorem wellWritten_map {α : Type*} {f : α → Json} (h : ∀ a, WellWritten (f a)) (l : List α) : WellWritten (.array (l.map f)) := by
  refine .array fun v hv => ?_
  obtain ⟨a, -, rfl⟩ := List.mem_map.mp hv
  exact h a

/-- A value, or `null`. -/
theorem wellWritten_getD {α : Type*} {f : α → Json} (h : ∀ a, WellWritten (f a)) (value : Option α) :
    WellWritten ((value.map f).getD .null) := by
  cases value with
  | none => exact .null
  | some a => exact h a

open FieldsWritten in
theorem Message.wellWritten (message : Message) : WellWritten message.toJson := by
  refine .object (.append (.append ?_ (optional (wellWritten_map ToolCall.wellWritten) _ _)) (optional WellWritten.string _ _))
  exact cons message.role.wellWritten (cons (.string _) (cons (wellWritten_map ContentPart.wellWritten _) nil))

open FieldsWritten in
theorem UsageSnapshot.wellWritten (usage : UsageSnapshot) : WellWritten usage.toJson :=
  .object (cons (.number _) (cons (.number _) (cons (.number _) (cons (.number _) nil))))

section Answer

variable {dateText : ℕ → Str}

open FieldsWritten in
theorem Session.wellWritten (session : Session) : WellWritten (session.toJson dateText) := by
  refine .object (cons (.string _) (cons (wellWritten_map Message.wellWritten _) ?_))
  exact cons (wellWritten_getD WellWritten.string _) (cons (.string _) (cons (.string _) nil))

open FieldsWritten in
theorem AgentResult.wellWritten (result : AgentResult) : WellWritten (result.toJson dateText) := by
  cases result with
  | success content session => exact .object (cons (.object (cons (.string _) (cons (wellWritten_getD Session.wellWritten _) nil))) nil)
  | error message code => exact .object (cons (.object (cons (.string _) (cons (.string _) nil))) nil)

open FieldsWritten in
theorem AgentResponse.wellWritten (r : AgentResponse) : WellWritten (r.toJson dateText) :=
  .object (.append (cons (.string _) (cons r.result.wellWritten nil)) (optional UsageSnapshot.wellWritten _ _))

end Answer

/-! ## What stands around a marker in the text of an answer -/

/-- A text that can be read as an answer: its strings are closed, no backslash stands outside of them, and one of them
names the result, `Success` or `Error`, with the capital letter as it is or escaped. -/
structure ResponseText (s : Str) : Prop where
  closed : scan .outside s = .outside
  bare : '\\' ∉ outsideOf .outside s
  named : ∃ c ∈ insideOf .outside s, c = 'S' ∨ c = 'E' ∨ c = '\\'

theorem white_plain {s : Str} (h : ∀ c ∈ s, isWhitespace c = true) : ∀ c ∈ s, c ≠ '"' ∧ c ≠ '\\' := by
  intro c hc
  have hwhite := h c hc
  refine ⟨?_, ?_⟩
  all_goals
    rintro rfl
    exact absurd hwhite (by decide)

section Marked

variable {m a b : Str}

/-- A marker begins inside of a string. -/
theorem scan_before_marker (hm : MarkerText m) (h : Lexed (a ++ m ++ b)) : scan .outside a ≠ .outside := by
  intro houtside
  obtain ⟨⟨p, rfl⟩, -⟩ := hm
  have hmem : '<' ∈ outsideOf .outside (a ++ ('<' :: p) ++ b) := by
    rw [outsideOf_append, outsideOf_append, houtside, outsideOf_outside (by decide)]
    simp
  exact (h.plain '<' hmem).2.2.2 rfl

/-- Behind a marker the string goes on, and what is outside of the strings is plain. -/
theorem plain_behind_marker (hm : MarkerText m) (h : Lexed (a ++ m ++ b)) : ∀ c ∈ outsideOf .inside b, PlainChar c := by
  have hbefore := scan_before_marker hm h
  obtain ⟨⟨p, rfl⟩, hbare⟩ := hm
  have hp : ∀ c ∈ p, c ≠ '"' ∧ c ≠ '\\' := by
    intro c hc
    refine ⟨?_, ?_⟩
    all_goals
      rintro rfl
      exact hbare _ (by decide) (List.mem_cons_of_mem _ hc)
  have hinside : scan .outside (a ++ '<' :: p) = .inside := by
    have hnext : (scan .outside a).next '<' = .inside := by
      cases hstate : scan .outside a with
      | outside => exact absurd hstate hbefore
      | inside => rfl
      | escaped => rfl
    rw [scan_append, scan_cons, hnext]
    exact scan_plain hp (by decide)
  intro c hc
  refine h.plain c ?_
  rw [outsideOf_append, hinside]
  exact List.mem_append_right _ hc

/-- What stands behind a start marker in a string is no answer. -/
theorem not_responseText_behind {x : Str} (h : ∀ c ∈ outsideOf .inside x, PlainChar c) : ¬ ResponseText (trim x) := by
  intro hresponse
  obtain ⟨lead, rest, hsplit, hlead, -⟩ := trim_split x
  have hplain : ∀ c ∈ outsideOf .inside (trim x), PlainChar c := by
    intro c hc
    refine h c ?_
    rw [hsplit, outsideOf_append, outsideOf_append, scan_plain (white_plain hlead) (by decide)]
    exact List.mem_append_left _ (List.mem_append_right _ hc)
  have hslash : '\\' ∉ outsideOf .inside (trim x) := fun hmem => (hplain _ hmem).1 rfl
  obtain ⟨-, hsame⟩ := scan_flipped (.inl ⟨rfl, rfl⟩) hslash hresponse.bare
  -- the strings of such an answer would be what the JSON has outside of its strings
  obtain ⟨c, hmem, hname⟩ := hresponse.named
  rw [hsame] at hmem
  obtain ⟨hslash, hs, he, -⟩ := hplain c hmem
  rcases hname with hname | hname | hname
  · exact hs hname
  · exact he hname
  · exact hslash hname

/-- What stands before an end marker in a string is no answer. -/
theorem not_responseText_before (h : scan .outside a ≠ .outside) : ¬ ResponseText (trim ('\n' :: a)) := by
  intro hresponse
  obtain ⟨lead, rest, hsplit, hlead, hrest⟩ := trim_split ('\n' :: a)
  have hscan : scan .outside ('\n' :: a) = .outside := by
    rw [hsplit, scan_append, scan_append, scan_plain (white_plain hlead) (by decide), hresponse.closed]
    exact scan_plain (white_plain hrest) (by decide)
  exact h hscan

end Marked

/-! ## Where the markers are found -/

/-- No beginning of a start marker ends an end marker. -/
theorem startMarker_notIn_endMarker {suffix : Str} (h : ¬ responseStartMarker <:+: suffix) :
    ¬ responseStartMarker <:+: responseEndMarker ++ suffix := by
  have hborder : ∀ k ≤ responseStartMarker.length, k ≠ 0 → ¬ responseStartMarker.take k <:+ responseEndMarker := by decide
  intro hin
  rcases List.infix_append_iff.mp hin with hin | hin | ⟨t, u, htu, ht, hu⟩
  · exact absurd hin (by decide)
  · exact h hin
  · cases t with
    | nil =>
      rw [List.nil_append] at htu
      exact h (htu ▸ hu.isInfix)
    | cons c t =>
      have hlen : (c :: t).length ≤ responseStartMarker.length := by rw [htu, List.length_append]; omega
      have htake : responseStartMarker.take (c :: t).length = c :: t := by rw [htu, List.take_left]
      have hnot := hborder _ hlen (by simp)
      rw [htake] at hnot
      exact hnot ht

theorem startMarker_notIn_behind {x suffix : Str} (hx : ¬ responseStartMarker <:+: x) (hsuffix : ¬ responseStartMarker <:+: suffix) :
    ¬ responseStartMarker <:+: x ++ '\n' :: (responseEndMarker ++ suffix) := by
  intro hin
  rcases infix_side (startMarker_text.bare '\n' (by decide)) hin with hin | hin
  · exact hx hin
  · exact startMarker_notIn_endMarker hsuffix hin

/-- The end marker that closes the answer is the first one. -/
theorem cutFirst_endMarker {x : Str} (hx : ¬ responseEndMarker <:+: x) (suffix : Str) :
    cutFirst responseEndMarker (x ++ '\n' :: (responseEndMarker ++ suffix)) = some (x ++ ['\n'], suffix) := by
  have hlast : (x ++ ['\n'] ++ responseEndMarker).dropLast = x ++ '\n' :: responseEndMarker.dropLast := by
    rw [List.dropLast_append_of_ne_nil (by decide), List.append_assoc]
    rfl
  have hnot : ¬ responseEndMarker <:+: (x ++ ['\n'] ++ responseEndMarker).dropLast := by
    rw [hlast]
    intro hin
    rcases infix_side (endMarker_text.bare '\n' (by decide)) hin with hin | hin
    · exact hx hin
    · exact absurd hin (by decide)
  have hcut : cutFirst responseEndMarker (x ++ ['\n'] ++ responseEndMarker ++ suffix) = some (x ++ ['\n'], suffix) :=
    cutFirst_eq (p := responseEndMarker.tail) hnot
  rw [← hcut]
  simp

/-- The last start marker, in an answer or in front of it. -/
theorem cutLast_startMarker {pre post : Str} (h : ¬ responseStartMarker <:+: responseStartMarker.tail ++ post) :
    cutLast responseStartMarker (pre ++ responseStartMarker ++ post) = some (pre, post) :=
  cutLast_eq (p := responseStartMarker.tail) h

/-- An end marker in front of the one that closes the answer is found. -/
theorem cutFirst_endMarker_of_mem {x : Str} (hx : responseEndMarker <:+: x) (rest : Str) :
    ∃ json post, x = json ++ responseEndMarker ++ post ∧
      ∃ behind, cutFirst responseEndMarker (x ++ rest) = some (json, behind) := by
  cases hcut : cutFirst responseEndMarker x with
  | none =>
    obtain ⟨pre, post, heq⟩ := hx
    exact absurd ⟨pre, post, heq.symm, rfl⟩ (cutFirst_none hcut (byteLen pre))
  | some cut =>
    obtain ⟨json, post⟩ := cut
    exact ⟨json, post, (cutFirst_some hcut).text, _, cutFirst_append (p := responseEndMarker.tail) hcut rest⟩

/-! ## Reading an answer back -/

section Parse

variable {fromStr : Str → Option AgentResponse} {noise suffix json : Str}

/-- The output of a container that prints an answer. -/
theorem stdout_eq (noise suffix json : Str) :
    noise ++ (responseStartMarker ++ '\n' :: json ++ '\n' :: responseEndMarker) ++ suffix =
      noise ++ responseStartMarker ++ ('\n' :: json ++ '\n' :: (responseEndMarker ++ suffix)) := by
  simp

theorem startMarker_notIn_front (hstart : ¬ responseStartMarker <:+: json) (hsuffix : ¬ responseStartMarker <:+: suffix) :
    ¬ responseStartMarker <:+: responseStartMarker.tail ++ ('\n' :: json ++ '\n' :: (responseEndMarker ++ suffix)) := by
  intro hin
  rcases infix_side (startMarker_text.bare '\n' (by decide)) hin with hin | hin
  · exact absurd hin (by decide)
  · exact startMarker_notIn_behind hstart hsuffix hin

/-- A text without markers is what is read. -/
theorem parse_of_free (hstart : ¬ responseStartMarker <:+: json) (hend : ¬ responseEndMarker <:+: json)
    (hsuffix : ¬ responseStartMarker <:+: suffix) :
    parseMarkedResponse fromStr (noise ++ (responseStartMarker ++ '\n' :: json ++ '\n' :: responseEndMarker) ++ suffix) =
      fromStr (trim ('\n' :: json ++ ['\n'])) := by
  have hx : ¬ responseEndMarker <:+: '\n' :: json := by
    intro hin
    rcases infix_side (l := []) (endMarker_text.bare '\n' (by decide)) hin with hin | hin
    · exact absurd hin (by decide)
    · exact hend hin
  unfold parseMarkedResponse
  rw [stdout_eq, cutLast_startMarker (startMarker_notIn_front hstart hsuffix)]
  dsimp only
  rw [cutFirst_endMarker hx]

/-- A text with a start marker is read behind the last one. -/
theorem parse_of_start (hlexed : Lexed json) (hstart : responseStartMarker <:+: json)
    (hsuffix : ¬ responseStartMarker <:+: suffix) {r : AgentResponse} (hread : ∀ s, fromStr s = some r → ResponseText s) :
    parseMarkedResponse fromStr (noise ++ (responseStartMarker ++ '\n' :: json ++ '\n' :: responseEndMarker) ++ suffix) ≠
      some r := by
  have hexists : ∃ a b, json = a ++ responseStartMarker ++ b ∧ ¬ responseStartMarker <:+: responseStartMarker.tail ++ b :=
    cutLast_exists (d := '<') (p := responseStartMarker.tail) hstart
  obtain ⟨a, b, rfl, hlast⟩ := hexists
  have hplain := plain_behind_marker startMarker_text hlexed
  have hout : noise ++ (responseStartMarker ++ '\n' :: (a ++ responseStartMarker ++ b) ++ '\n' :: responseEndMarker) ++ suffix =
      noise ++ responseStartMarker ++ '\n' :: a ++ responseStartMarker ++ (b ++ '\n' :: (responseEndMarker ++ suffix)) := by
    simp
  have hbehind : ¬ responseStartMarker <:+:
      responseStartMarker.tail ++ (b ++ '\n' :: (responseEndMarker ++ suffix)) := by
    rw [← List.append_assoc]
    exact startMarker_notIn_behind hlast hsuffix
  unfold parseMarkedResponse
  rw [hout, cutLast_startMarker hbehind]
  dsimp only
  by_cases hend : responseEndMarker <:+: b
  · obtain ⟨part, post, rfl, behind, hcut⟩ := cutFirst_endMarker_of_mem hend ('\n' :: (responseEndMarker ++ suffix))
    rw [hcut]
    intro h
    refine not_responseText_behind ?_ (hread _ h)
    intro c hc
    refine hplain c ?_
    rw [List.append_assoc, outsideOf_append]
    exact List.mem_append_left _ hc
  · rw [cutFirst_endMarker hend]
    intro h
    refine not_responseText_behind ?_ (hread _ h)
    intro c hc
    rw [outsideOf_append] at hc
    rcases List.mem_append.mp hc with hc | hc
    · exact hplain c hc
    · -- the newline in front of the end marker
      have hnewline : c = '\n' := by
        unfold outsideOf at hc
        split at hc
        · exact List.mem_singleton.mp hc
        · cases hc
      rw [hnewline]
      decide

/-- A text with an end marker, and no start marker, is read up to the first one. -/
theorem parse_of_end (hlexed : Lexed json) (hstart : ¬ responseStartMarker <:+: json) (hend : responseEndMarker <:+: json)
    (hsuffix : ¬ responseStartMarker <:+: suffix) {r : AgentResponse} (hread : ∀ s, fromStr s = some r → ResponseText s) :
    parseMarkedResponse fromStr (noise ++ (responseStartMarker ++ '\n' :: json ++ '\n' :: responseEndMarker) ++ suffix) ≠
      some r := by
  obtain ⟨part, post, hpart, behind, hcut⟩ :=
    cutFirst_endMarker_of_mem (List.infix_cons hend : responseEndMarker <:+: '\n' :: json)
      ('\n' :: (responseEndMarker ++ suffix))
  unfold parseMarkedResponse
  rw [stdout_eq, cutLast_startMarker (startMarker_notIn_front hstart hsuffix)]
  dsimp only
  rw [hcut]
  intro h
  cases part with
  | nil => cases hpart
  | cons c part =>
    obtain ⟨rfl, rfl⟩ := List.cons.inj hpart
    exact not_responseText_before (scan_before_marker endMarker_text hlexed) (hread _ h)

end Parse

/-- Neither marker stands in the text. -/
def NoMarker (s : Str) : Prop := ¬ responseStartMarker <:+: s ∧ ¬ responseEndMarker <:+: s

instance (s : Str) : Decidable (NoMarker s) := inferInstanceAs (Decidable (_ ∧ _))

/-- No string of the answer contains a marker. -/
def MarkerFree (dateText : ℕ → Str) (r : AgentResponse) : Prop := ∀ s ∈ (r.toJson dateText).strings, NoMarker s

/-- The answer is read back from the output of a container, whatever else it prints without a marker. -/
def ReadBack (dateText : ℕ → Str) (fromStr : Str → Option AgentResponse) (r : AgentResponse) : Prop :=
  ∀ noise suffix, NoMarker noise → NoMarker suffix →
    parseMarkedResponse fromStr (noise ++ r.toMarkedJson dateText ++ suffix) = some r

theorem marker_in_text_iff {m : Str} (hm : MarkerText m) (hescape : Json.escape m = m) (dateText : ℕ → Str) (r : AgentResponse) :
    m <:+: (r.toJson dateText).toStr ↔ ∃ s ∈ (r.toJson dateText).strings, m <:+: s := by
  constructor
  · exact r.wellWritten.inString m hm
  · rintro ⟨s, hs, hin⟩
    have hquoted := Json.infix_quoted hin
    rw [hescape] at hquoted
    exact hquoted.trans (Json.quoted_infix_toStr _ hs)

theorem markerFree_iff (dateText : ℕ → Str) (r : AgentResponse) : MarkerFree dateText r ↔ NoMarker (r.toJson dateText).toStr := by
  have hstart := marker_in_text_iff startMarker_text (by decide) dateText r
  have hend := marker_in_text_iff endMarker_text (by decide) dateText r
  unfold MarkerFree NoMarker
  rw [hstart, hend]
  constructor
  · exact fun h => ⟨fun ⟨s, hs, hin⟩ => (h s hs).1 hin, fun ⟨s, hs, hin⟩ => (h s hs).2 hin⟩
  · exact fun h s hs => ⟨fun hin => h.1 ⟨s, hs, hin⟩, fun hin => h.2 ⟨s, hs, hin⟩⟩

/-- The newlines around the JSON are taken away. -/
theorem trim_toStr (dateText : ℕ → Str) (r : AgentResponse) :
    trim ('\n' :: (r.toJson dateText).toStr ++ ['\n']) = (r.toJson dateText).toStr := by
  have hobject : ∃ inner, (r.toJson dateText).toStr = '\x7b' :: inner ++ ['\x7d'] :=
    ⟨_, by rw [AgentResponse.toJson, Json.toStr]⟩
  obtain ⟨inner, htext⟩ := hobject
  rw [htext]
  have hstart : trimStart ('\n' :: ('\x7b' :: inner ++ ['\x7d']) ++ ['\n']) = '\x7b' :: inner ++ ['\x7d'] ++ ['\n'] := rfl
  unfold trim
  rw [hstart, trimEnd, List.rdropWhile_concat_pos _ _ _ (by decide), List.rdropWhile_concat_neg _ _ _ (by decide)]

/-- **An answer is read back exactly if none of its strings contains a marker.** -/
theorem marked_response_iff (dateText : ℕ → Str) (fromStr : Str → Option AgentResponse) (r : AgentResponse)
    (hround : fromStr (r.toJson dateText).toStr = some r) (hread : ∀ s, fromStr s = some r → ResponseText s) :
    ReadBack dateText fromStr r ↔ MarkerFree dateText r := by
  rw [markerFree_iff]
  have hlexed : Lexed (r.toJson dateText).toStr := r.wellWritten.lexed
  constructor
  · intro h
    have hback := h [] [] (by decide) (by decide)
    by_cases hstart : responseStartMarker <:+: (r.toJson dateText).toStr
    · exact absurd hback (parse_of_start hlexed hstart (by decide) hread)
    · by_cases hend : responseEndMarker <:+: (r.toJson dateText).toStr
      · exact absurd hback (parse_of_end hlexed hstart hend (by decide) hread)
      · exact ⟨hstart, hend⟩
  · intro hfree noise suffix _ hsuffix
    rw [AgentResponse.toMarkedJson, parse_of_free hfree.1 hfree.2 hsuffix.1, trim_toStr]
    exact hround

/-- An answer with a content and no session. -/
def plainAnswer (content : String) : AgentResponse := ⟨"req-1".toList, .success content.toList none, none⟩

/-- The date of an instant is not asked for. -/
def noDate (_ : ℕ) : Str := []

/-- The reader on the text of an answer. -/
def readOnly (r : AgentResponse) (s : Str) : Option AgentResponse := if s = (r.toJson noDate).toStr then some r else none

theorem marked_response_iff_hello : ReadBack noDate (readOnly (plainAnswer "Hello!")) (plainAnswer "Hello!") := by
  refine (marked_response_iff noDate _ _ (if_pos rfl) ?_).mpr ?_
  · intro s hs
    have htext : s = ((plainAnswer "Hello!").toJson noDate).toStr := by
      unfold readOnly at hs
      split at hs
      · assumption
      · cases hs
    rw [htext]
    exact ⟨by decide +kernel, by decide +kernel, 'S', by decide +kernel, .inl rfl⟩
  · rw [markerFree_iff]
    decide +kernel

def markerAnswer : AgentResponse := plainAnswer "I stop at <<<AGENT_RESPONSE_END>>>."

/-- The answer names the marker that closes it, and is lost. -/
theorem marked_response_lost :
    ¬ ∀ (dateText : ℕ → Str) (fromStr : Str → Option AgentResponse) (r : AgentResponse),
      fromStr (r.toJson dateText).toStr = some r → ReadBack dateText fromStr r := by
  intro h
  have hback := h noDate (readOnly markerAnswer) markerAnswer (if_pos rfl) [] [] (by decide) (by decide)
  exact absurd hback (by decide +kernel)

end Zeptoclaw

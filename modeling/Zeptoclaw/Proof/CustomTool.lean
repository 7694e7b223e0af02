import Zeptoclaw.Lib.Shell
import Zeptoclaw.Lib.Substitution
import Zeptoclaw.Spec.CustomTool

/-!
# Interpolated commands and actions

A template is a text whose holes are its placeholders. `interpolate_reads`: as long as
every replacement hits the template's own placeholders only, the shell reads the
interpolated command as the template with each placeholder standing for the value of its
argument. The replacements run one after the other on the text filled so far, so a value
that holds a later placeholder is replaced inside its quotes.

The arguments of a composed tool are put in one after the other too, so a value is searched for the placeholders of the
arguments behind it. What comes out is the template with its placeholders replaced, whatever the order, exactly if the
placeholders do not overlap and no value can become a part of another placeholder; for one template and one order it is
enough that nothing is captured (`interpolation_simultaneous_iff`).
-/

namespace Zeptoclaw.CustomTool

open Text Shell

variable {key value rep : Str}

/-- The template's own text. -/
def render (template : List (Sym Str)) : Str :=
  template.flatMap fun s =>
    match s with
    | .char c => [c]
    | .hole key => placeholder key

/-- The placeholders of one argument filled. -/
def fillKey (key rep : Str) (template : List (Sym Str)) : List (Sym Str) :=
  template.flatMap fun s =>
    match s with
    | .char c => [.char c]
    | .hole k => if k = key then text rep else [.hole k]

/-- The placeholders of the given arguments filled, all at once. -/
def fillArgs (args : List (Str × Str)) (template : List (Sym Str)) : List (Sym Str) :=
  template.flatMap fun s =>
    match s with
    | .char c => [.char c]
    | .hole k =>
      match args.lookup k with
      | some value => text (quoteWord value)
      | none => [.hole k]

/-- The text holds the placeholder of an argument only where the template has it. -/
def onlyAtHoles (key : Str) : List (Sym Str) → Bool
  | [] => true
  | .char c :: rest => !(placeholder key <+: c :: render rest) && onlyAtHoles key rest
  | .hole k :: rest =>
    (k = key || (placeholder k).tails.all fun t => t = [] || !(placeholder key <+: t ++ render rest)) &&
      onlyAtHoles key rest

/-- At each replacement, the text filled so far holds the placeholder only where the
template has it. -/
def noCapture (template : List (Sym Str)) : List (Str × Str) → List (Str × Str) → Bool
  | _, [] => true
  | done, (key, value) :: later =>
    onlyAtHoles key (fillArgs done template) && noCapture template (done ++ [(key, value)]) later

/-! ## One replacement -/

theorem render_append (a b : List (Sym Str)) : render (a ++ b) = render a ++ render b := by
  unfold render; rw [List.flatMap_append]

theorem render_char (c : Char) (rest : List (Sym Str)) : render (.char c :: rest) = c :: render rest := rfl

theorem render_hole (k : Str) (rest : List (Sym Str)) : render (.hole k :: rest) = placeholder k ++ render rest := rfl

theorem render_text (s : Str) : render (text s) = s := by
  induction s with
  | nil => rfl
  | cons c s ih =>
    show c :: render (text s) = c :: s
    rw [ih]

theorem placeholder_ne_nil (key : Str) : placeholder key ≠ [] := by simp [placeholder]

/-- **A replacement fills the template's placeholders** if the text holds no others. -/
theorem replace_render : ∀ template : List (Sym Str), onlyAtHoles key template = true →
    replace (render template) (placeholder key) rep = render (fillKey key rep template) := by
  intro template
  unfold replace
  induction template with
  | nil => intro _; rfl
  | cons s template ih =>
    intro h
    cases s with
    | char c =>
      simp only [onlyAtHoles, Bool.and_eq_true, Bool.not_eq_true', decide_eq_false_iff_not] at h
      rw [render_char, replaceFrom_cons, if_neg h.1, ih h.2]
      rfl
    | hole k =>
      simp only [onlyAtHoles, Bool.and_eq_true] at h
      obtain ⟨hk, hrest⟩ := h
      rw [render_hole]
      have hfill : fillKey key rep (.hole k :: template) =
          (if k = key then text rep else [.hole k]) ++ fillKey key rep template := rfl
      rw [hfill, render_append]
      by_cases hkey : k = key
      · subst hkey
        rw [replaceFrom_pat (placeholder_ne_nil k), ih hrest, if_pos rfl, render_text]
      · have hkeep : ∀ u, u <:+ placeholder k → u ≠ [] → ¬ placeholder key <+: u ++ render template := by
          intro u hu hn
          have hall := hk
          simp only [hkey, decide_false, Bool.false_or, List.all_eq_true] at hall
          have := hall u ((List.mem_tails u _).2 hu)
          simpa [hn] using this
        rw [replaceFrom_keep _ _ _ _ hkeep, ih hrest, if_neg hkey]
        rw [render_hole]
        simp [render]

/-! ## All replacements -/

theorem fillKey_append (a b : List (Sym Str)) : fillKey key rep (a ++ b) = fillKey key rep a ++ fillKey key rep b := by
  unfold fillKey; rw [List.flatMap_append]

theorem fillKey_text (s : Str) : fillKey key rep (text s) = text s := by
  induction s with
  | nil => rfl
  | cons c s ih =>
    show .char c :: fillKey key rep (text s) = .char c :: text s
    rw [ih]

/-- Filling one more argument. -/
theorem fillKey_fillArgs (done : List (Str × Str)) : ∀ template : List (Sym Str),
    fillKey key (quoteWord value) (fillArgs done template) = fillArgs (done ++ [(key, value)]) template := by
  intro template
  induction template with
  | nil => rfl
  | cons s template ih =>
    have hcons : ∀ args : List (Str × Str), fillArgs args (s :: template) = fillArgs args [s] ++ fillArgs args template := by
      intro args; simp [fillArgs]
    rw [hcons, hcons, fillKey_append, ih]
    congr 1
    cases s with
    | char c => rfl
    | hole k =>
      cases hl : done.lookup k with
      | some v =>
        have hl' : (done ++ [(key, value)]).lookup k = some v := by rw [List.lookup_append, hl]; rfl
        simp only [fillArgs, List.flatMap_cons, List.flatMap_nil, List.append_nil, hl, hl']
        exact fillKey_text _
      | none =>
        by_cases hk : k = key
        · subst hk
          simp [fillArgs, fillKey, hl, List.lookup_append]
        · have hne : (k == key) = false := by simp [hk]
          have hl' : (done ++ [(key, value)]).lookup k = none := by
            rw [List.lookup_append, hl]; simp [List.lookup_cons, hne]
          simp [fillArgs, fillKey, hl, hl', hk]

theorem shellEscape_eq (value : Str) : shellEscape value = quoteWord value := by
  unfold shellEscape quoteWord
  rw [replace_singleton]
  rfl

/-- **Interpolation fills the placeholders**, as if all at once, if nothing is captured. -/
theorem interpolate_fillArgs {paramTypes : Option (List (Str × Str))} (hraw : ∀ key, isRaw paramTypes key = false)
    (template : List (Sym Str)) : ∀ later done : List (Str × Str), noCapture template done later = true →
      interpolate (render (fillArgs done template)) later paramTypes = render (fillArgs (done ++ later) template) := by
  intro later
  induction later with
  | nil => intro done _; rw [List.append_nil]; rfl
  | cons arg later ih =>
    intro done h
    obtain ⟨key, value⟩ := arg
    simp only [noCapture, Bool.and_eq_true] at h
    have hone : replace (render (fillArgs done template)) (placeholder key) (shellEscape value) =
        render (fillArgs (done ++ [(key, value)]) template) := by
      rw [replace_render _ h.1, shellEscape_eq, fillKey_fillArgs]
    have hstep : interpolate (render (fillArgs done template)) ((key, value) :: later) paramTypes =
        interpolate (render (fillArgs (done ++ [(key, value)]) template)) later paramTypes := by
      show interpolate (replace _ _ (if isRaw paramTypes key then _ else _)) later paramTypes = _
      rw [hraw key, if_neg (by simp), hone]
    rw [hstep, ih _ h.2]
    simp

/-- The value of an argument. -/
def valueOf (args : List (Str × Str)) (key : Str) : Str := (args.lookup key).getD []

theorem text_render_fillArgs (args : List (Str × Str)) : ∀ template : List (Sym Str),
    (∀ key, .hole key ∈ template → (args.lookup key).isSome = true) →
    text (render (fillArgs args template)) = fill (fun key => quoteWord (valueOf args key)) template := by
  intro template
  induction template with
  | nil => intro _; rfl
  | cons s template ih =>
    intro h
    have hrest := ih fun key hk => h key (List.mem_cons_of_mem _ hk)
    cases s with
    | char c =>
      show .char c :: text (render (fillArgs args template)) = .char c :: fill _ template
      rw [hrest]
    | hole key =>
      obtain ⟨value, hv⟩ := Option.isSome_iff_exists.1 (h key List.mem_cons_self)
      have hfill : fillArgs args (.hole key :: template) = text (quoteWord value) ++ fillArgs args template := by
        simp [fillArgs, hv]
      have hval : valueOf args key = value := by unfold valueOf; rw [hv]; rfl
      rw [hfill, render_append, render_text, text_append, hrest, fill, hval]

theorem fillArgs_nil : ∀ template : List (Sym Str), fillArgs [] template = template := by
  intro template
  induction template with
  | nil => rfl
  | cons s template ih =>
    have hcons : fillArgs [] (s :: template) = s :: fillArgs [] template := by cases s <;> rfl
    rw [hcons, ih]

/-- **The shell reads the interpolated command as the template with literal values**, if
each replacement hits the template's own placeholders only. -/
theorem interpolate_reads (template : List (Sym Str)) (args : List (Str × Str))
    (paramTypes : Option (List (Str × Str))) (hraw : ∀ key, isRaw paramTypes key = false)
    (hargs : ∀ key, .hole key ∈ template → (args.lookup key).isSome = true)
    (hpos : HolesUnquoted .init template) (hcapture : noCapture template [] args = true) :
    Shell.read (text (interpolate (render template) args paramTypes)) =
      fillEvents (valueOf args) (Shell.read template) := by
  have hfilled := interpolate_fillArgs hraw template args [] hcapture
  rw [fillArgs_nil, List.nil_append] at hfilled
  have htext := text_render_fillArgs args template hargs
  have hread := read_fill (valueOf args) template .init hpos
  unfold Shell.read
  rw [hfilled, htext, hread]

/-- The template `echo {{a}} {{b}}`. -/
def echoBoth : List (Sym Str) := text "echo ".toList ++ [.hole ['a'], .char ' ', .hole ['b']]

theorem interpolate_reads_separators :
    Shell.read (text (interpolate (render echoBoth) [(['a'], "x; id #".toList), (['b'], "it's".toList)] none)) =
      fillEvents (valueOf [(['a'], "x; id #".toList), (['b'], "it's".toList)]) (Shell.read echoBoth) :=
  interpolate_reads echoBoth _ none (fun _ => rfl)
    (by intro key hk; simp [echoBoth, text] at hk; rcases hk with rfl | rfl <;> rfl) (by decide) (by decide)

/-- A value that is the placeholder of the other argument lets that argument's text out of
its quotes. -/
theorem interpolate_breaks_out :
    ¬ ∀ (template : List (Sym Str)) (args : List (Str × Str)) (paramTypes : Option (List (Str × Str))),
      (∀ key, isRaw paramTypes key = false) → (args.map Prod.fst).Nodup →
      (∀ key, .hole key ∈ template → (args.lookup key).isSome = true) →
      (∀ arg ∈ args, onlyAtHoles arg.1 template = true) → HolesUnquoted .init template →
      Shell.read (text (interpolate (render template) args paramTypes)) =
        fillEvents (valueOf args) (Shell.read template) := by
  intro h
  have hboth := h echoBoth [(['a'], placeholder ['b']), (['b'], "; id ;".toList)] none (fun _ => rfl) (by decide)
    (by intro key hk; simp [echoBoth, text] at hk; rcases hk with rfl | rfl <;> rfl) (by decide) (by decide)
  revert hboth
  decide

end Zeptoclaw.CustomTool

namespace Zeptoclaw

open Text

/-- The placeholder of an argument is replaced by its value. -/
def argRule (arg : Str × Str) : Rule := ⟨argPlaceholder arg.1, arg.2⟩

/-- The argument of a rule. -/
def ruleArg (r : Rule) : Str × Str := ((r.pat.drop 2).dropLast.dropLast, r.value)

theorem ruleArg_argRule (arg : Str × Str) : ruleArg (argRule arg) = arg := by
  obtain ⟨key, value⟩ := arg
  have hdrop : (argPlaceholder key).drop 2 = key ++ ['\x7d'] ++ ['\x7d'] := by simp [argPlaceholder]
  unfold ruleArg argRule
  rw [hdrop, List.dropLast_concat, List.dropLast_concat]

theorem interpolateAction_eq (template : Str) (args : List (Str × Str)) :
    interpolateAction template args = replaceEach (args.map argRule) template := by
  unfold interpolateAction replaceEach
  rw [List.foldl_map]
  rfl

theorem argRule_pat_ne_nil {args : List (Str × Str)} : ∀ r ∈ args.map argRule, r.pat ≠ [] := by
  intro r hr
  obtain ⟨arg, -, rfl⟩ := List.mem_map.mp hr
  exact List.cons_ne_nil _ _

theorem argRule_nodup {args : List (Str × Str)} (hkeys : (args.map Prod.fst).Nodup) : (args.map argRule).Nodup :=
  List.Nodup.map (Function.LeftInverse.injective ruleArg_argRule) (List.Nodup.of_map _ hkeys)

/-- The orders of the arguments are the orders of their rules. -/
theorem perm_argRule {args : List (Str × Str)} {order : List Rule} (h : order.Perm (args.map argRule)) :
    ∃ order' : List (Str × Str), order'.Perm args ∧ order = order'.map argRule := by
  refine ⟨order.map ruleArg, ?_, ?_⟩
  · have hid : args.map (ruleArg ∘ argRule) = args :=
      (List.map_congr_left fun arg _ => ruleArg_argRule arg).trans (List.map_id args)
    have hmap := h.map ruleArg
    rwa [List.map_map, hid] at hmap
  · rw [List.map_map]
    refine ((List.map_congr_left fun r hr => ?_).trans (List.map_id order)).symm
    obtain ⟨arg, -, rfl⟩ := List.mem_map.mp (h.subset hr)
    show argRule (ruleArg (argRule arg)) = argRule arg
    rw [ruleArg_argRule]

/-- **Interpolation is simultaneous for these arguments, in every template and every order of the map, exactly if their
placeholders never overlap and no value touches another placeholder.** In one template and one order it is if nothing is
captured: each placeholder, when its turn comes, stands at its own holes only. -/
theorem interpolation_simultaneous_iff (args : List (Str × Str)) (hkeys : (args.map Prod.fst).Nodup) :
    ((∀ template order, order.Perm args → Simultaneous (args.map argRule) template (interpolateAction template order)) ↔
      Apart (args.map argRule) ∧ Undisturbed (args.map argRule)) ∧
    ∀ template order segs, order.Perm args → Segments (args.map argRule) template segs →
      NoCapture (order.map argRule) segs →
        Simultaneous (args.map argRule) template (interpolateAction template order) := by
  have hrules := argRule_nodup hkeys
  rw [← alwaysSimultaneous_iff argRule_pat_ne_nil hrules]
  refine ⟨⟨?_, ?_⟩, ?_⟩
  · intro hall s order hperm
    obtain ⟨order', hperm', rfl⟩ := perm_argRule hperm
    rw [← interpolateAction_eq]
    exact hall s order' hperm'
  · intro hall template order hperm
    rw [interpolateAction_eq]
    exact hall template _ (hperm.map argRule)
  · intro template order segs hperm hsegs hfree
    rw [interpolateAction_eq]
    exact simultaneous_of_noCapture argRule_pat_ne_nil hrules (hperm.map argRule) hsegs hfree

/-! ## Ordinary arguments -/

/-- No braces, and no value that is empty or a part of a key. -/
structure Plain (args : List (Str × Str)) : Prop where
  key : ∀ arg ∈ args, '\x7b' ∉ arg.1 ∧ '\x7d' ∉ arg.1
  value : ∀ arg ∈ args, arg.2 ≠ [] ∧ '\x7b' ∉ arg.2 ∧ '\x7d' ∉ arg.2
  apart : ∀ arg ∈ args, ∀ arg' ∈ args, ¬ arg.2 <:+: arg'.1

section Plain

variable {args : List (Str × Str)}

theorem placeholder_eq (key : Str) : argPlaceholder key = '\x7b' :: '\x7b' :: (key ++ '\x7d' :: ['\x7d']) := by
  simp [argPlaceholder]

/-- A key is read up to the first closing brace. -/
theorem key_unique {key key' back back' : Str} (h : '\x7d' ∉ key) (h' : '\x7d' ∉ key')
    (heq : argPlaceholder key ++ back = argPlaceholder key' ++ back') : key = key' := by
  have hread : ∀ {key : Str} (back : Str), '\x7d' ∉ key → (((argPlaceholder key ++ back).drop 2).takeWhile (· != '\x7d')) = key := by
    intro key back hkey
    have hall : ∀ c ∈ key, (c != '\x7d') = true := by
      intro c hc
      rw [bne_iff_ne]
      rintro rfl
      exact hkey hc
    have hdrop : (argPlaceholder key ++ back).drop 2 = key ++ '\x7d' :: '\x7d' :: back := by simp [placeholder_eq]
    rw [hdrop, List.takeWhile_append_of_pos hall]
    simp
  rw [← hread back h, heq, hread back' h']

/-- No other placeholder begins inside a placeholder: no opening brace follows its first two. -/
theorem not_inside_placeholder {key key' gap back back' : Str} (hopen : '\x7b' ∉ key)
    (heq : argPlaceholder key ++ back = gap ++ (argPlaceholder key' ++ back')) (hgap : gap ≠ []) :
    (argPlaceholder key).length ≤ gap.length := by
  by_contra hover
  have hno : '\x7b' ∉ key ++ '\x7d' :: ['\x7d'] := by simp [hopen]
  rw [placeholder_eq] at heq hover
  rw [placeholder_eq, List.cons_append, List.cons_append] at heq
  rcases gap with _ | ⟨c, _ | ⟨d, gap⟩⟩
  · exact hgap rfl
  · -- the second brace of the other would be behind the first two
    obtain ⟨-, hrest⟩ := List.cons.inj heq
    obtain ⟨-, hrest⟩ := List.cons.inj hrest
    have hhead : (key ++ '\x7d' :: ['\x7d'] ++ back).head? = some '\x7b' := by
      rw [hrest]
      rfl
    rw [List.head?_append_of_ne_nil _ (by simp)] at hhead
    exact hno (List.mem_of_head? hhead)
  · obtain ⟨-, hrest⟩ := List.cons.inj heq
    obtain ⟨-, hrest⟩ := List.cons.inj hrest
    have hlt : gap.length < (key ++ '\x7d' :: ['\x7d']).length := by
      rw [List.length_cons, List.length_cons, List.length_cons, List.length_cons] at hover
      omega
    change _ = gap ++ _ at hrest
    have hget : (key ++ '\x7d' :: ['\x7d'])[gap.length]? = some '\x7b' := by
      rw [← List.getElem?_append_left hlt, hrest, List.getElem?_append_right le_rfl, Nat.sub_self]
      rfl
    exact hno (List.mem_of_getElem? hget)

theorem Plain.placeholders_apart (h : Plain args) (hkeys : (args.map Prod.fst).Nodup) : Apart (args.map argRule) := by
  intro r hr r' hr' front back front' back' heq hle
  obtain ⟨arg, harg, rfl⟩ := List.mem_map.mp hr
  obtain ⟨arg', harg', rfl⟩ := List.mem_map.mp hr'
  show (front = front' ∧ argRule arg = argRule arg') ∨ front.length + (argPlaceholder arg.1).length ≤ front'.length
  -- the second occurrence begins so many characters behind the first
  rw [List.append_assoc, List.append_assoc] at heq
  obtain ⟨gap, rfl⟩ : front <+: front' :=
    List.prefix_of_prefix_length_le (List.prefix_append front _) (by rw [heq]; exact List.prefix_append _ _) hle
  rw [List.append_assoc] at heq
  have hcut : argPlaceholder arg.1 ++ back = gap ++ (argPlaceholder arg'.1 ++ back') := List.append_cancel_left heq
  by_cases hgap : gap = []
  · subst hgap
    have hkey := key_unique (h.key arg harg).2 (h.key arg' harg').2 hcut
    have hsame : arg = arg' := List.inj_on_of_nodup_map hkeys harg harg' hkey
    exact .inl ⟨(List.append_nil front).symm, by rw [hsame]⟩
  · have hbehind := not_inside_placeholder (h.key arg harg).1 hcut hgap
    rw [List.length_append]
    exact .inr (by omega)

/-- A text without braces in a placeholder is a part of the key. -/
theorem infix_of_infix_placeholder {value key : Str} (hne : value ≠ []) (hopen : '\x7b' ∉ value) (hclose : '\x7d' ∉ value)
    (h : value <:+: argPlaceholder key) : value <:+: key := by
  rw [placeholder_eq] at h
  have hin := (infix_side hopen (l := []) h).resolve_left fun h => hne (List.infix_nil.mp h)
  have hin' := (infix_side hopen (l := []) hin).resolve_left fun h => hne (List.infix_nil.mp h)
  refine (infix_side hclose hin').resolve_right fun h => ?_
  rcases infix_side hclose (l := []) h with h | h
  · exact hne (List.infix_nil.mp h)
  · exact hne (List.infix_nil.mp h)

/-- A value without braces that a placeholder touches is a part of the key. -/
theorem infix_of_touches {value key : Str} (hne : value ≠ []) (hopen : '\x7b' ∉ value) (hclose : '\x7d' ∉ value)
    (h : Touches value (argPlaceholder key)) : value <:+: key := by
  obtain ⟨x, y, hin, ⟨-, hx⟩, -, hy⟩ := h.trim (List.cons_ne_nil _ _)
  refine infix_of_infix_placeholder hne hopen hclose ?_
  rw [List.append_assoc] at hin
  rcases List.infix_append_iff.mp hin with hin | hin | ⟨t, u, hpat, ht, hu⟩
  · exact absurd hin.length_le (by omega)
  · rcases List.infix_append_iff.mp hin with hin | hin | ⟨t, u, hpat, ht, hu⟩
    · exact absurd (hin.subset (by simp [placeholder_eq])) hopen
    · exact absurd hin.length_le (by omega)
    · -- it would begin in the value
      cases t with
      | nil =>
        have hlen := hu.length_le
        rw [hpat] at hy
        exact absurd hlen (by simpa using hy)
      | cons c t =>
        rw [placeholder_eq] at hpat
        obtain ⟨rfl, -⟩ := List.cons.inj hpat
        exact absurd (ht.subset List.mem_cons_self) hopen
  · rcases List.prefix_or_prefix_of_prefix hu (List.prefix_append value y) with hshort | hlong
    · -- it would end in the value
      rcases List.eq_nil_or_concat' u with rfl | ⟨u, c, rfl⟩
      · have hlen := ht.length_le
        rw [hpat, List.append_nil] at hx
        omega
      · have hlast : (argPlaceholder key).getLast? = some '\x7d' := by
          unfold argPlaceholder
          rw [List.getLast?_append]
          rfl
        rw [hpat, ← List.append_assoc, List.getLast?_concat] at hlast
        obtain rfl := Option.some.inj hlast
        exact absurd (hshort.subset (by simp)) hclose
    · rw [hpat]
      exact hlong.isInfix.trans (List.suffix_append t u).isInfix

/-- Ordinary arguments are put in simultaneously. -/
theorem Plain.simultaneous (h : Plain args) (hkeys : (args.map Prod.fst).Nodup) :
    AlwaysSimultaneous (args.map argRule) := by
  refine (alwaysSimultaneous_iff argRule_pat_ne_nil (argRule_nodup hkeys)).mpr ⟨h.placeholders_apart hkeys, fun r hr r' hr' _ => .inr ?_⟩
  obtain ⟨arg, harg, rfl⟩ := List.mem_map.mp hr
  obtain ⟨arg', harg', rfl⟩ := List.mem_map.mp hr'
  obtain ⟨hne, hopen, hclose⟩ := h.value arg harg
  exact fun htouch => h.apart arg harg arg' harg' (infix_of_touches hne hopen hclose htouch)

/-- The instructions of a composed tool that is called with ordinary arguments. -/
theorem executeComposed_plain {display : Json → Str} {mapOrder : List (Str × Str) → List (Str × Str)} {action : Str} {call : Json}
    (h : Plain (stringArgs display call)) (hkeys : ((stringArgs display call).map Prod.fst).Nodup)
    (horder : (mapOrder (stringArgs display call)).Perm (stringArgs display call)) :
    ∃ instructions, executeComposed display mapOrder action call = "[Composed tool instructions] ".toList ++ instructions ∧
      Simultaneous ((stringArgs display call).map argRule) action instructions := by
  refine ⟨_, rfl, ?_⟩
  rw [interpolateAction_eq]
  exact h.simultaneous hkeys action _ (horder.map argRule)

end Plain

/-! ## Arguments that mention each other -/

/-- The arguments of the example: one value names the other argument. -/
def mentioning : List (Str × Str) := [("a".toList, "\x7b\x7bb\x7d\x7d".toList), ("b".toList, "x".toList)]

/-- The template that is the first placeholder has one hole. -/
theorem mentioning_segments :
    Segments (mentioning.map argRule) (argPlaceholder "a".toList) [.hole (argRule ("a".toList, "\x7b\x7bb\x7d\x7d".toList))] := by
  refine ⟨rfl, fun r hr => ?_, fun r hr front back heq => ?_⟩
  · cases List.mem_singleton.mp hr
    exact List.mem_cons_self
  · have hlen := congrArg List.length heq
    have hpat : r.pat.length = 5 := by
      rcases List.mem_cons.mp hr with rfl | hr
      · rfl
      · rw [List.mem_singleton.mp hr]
        rfl
    have htotal : (argPlaceholder "a".toList).length = 5 := rfl
    rw [htotal, List.length_append, List.length_append, hpat] at hlen
    obtain rfl : front = [] := List.length_eq_zero_iff.mp (by omega)
    obtain rfl : back = [] := List.length_eq_zero_iff.mp (by omega)
    rw [List.nil_append, List.append_nil] at heq
    rcases List.mem_cons.mp hr with rfl | hr
    · exact ⟨[], [], rfl, rfl⟩
    · rw [List.mem_singleton.mp hr] at heq
      exact absurd heq (by decide)

/-- With the argument that is mentioned put in first, nothing is captured. -/
theorem mentioning_noCapture :
    NoCapture (mentioning.reverse.map argRule) [.hole (argRule ("a".toList, "\x7b\x7bb\x7d\x7d".toList))] := by
  intro done e later heq
  refine .inr fun before seg after hsegs hhole w u hw hne hpre => ?_
  obtain ⟨rfl, hcons⟩ := List.append_eq_singleton_iff.mp hsegs.symm |>.resolve_right fun h => nomatch h.2
  obtain ⟨rfl, rfl⟩ := List.cons.inj hcons
  rcases done with _ | ⟨r, done⟩
  · -- the placeholder of the other argument is as long as the template, and differs from it
    obtain ⟨rfl, -⟩ := List.cons.inj heq
    rw [List.flatMap_nil, List.append_nil] at hpre
    have hlen := congrArg List.length hw
    have hle := hpre.length_le
    have hsource : (Seg.render [] (.hole (argRule ("a".toList, "\x7b\x7bb\x7d\x7d".toList)))).length = 5 := rfl
    have hpat : (argRule ("b".toList, "x".toList)).pat.length = 5 := rfl
    rw [hsource, List.length_append] at hlen
    rw [hpat] at hle
    obtain rfl : w = [] := List.length_eq_zero_iff.mp (by omega)
    rw [← List.nil_append u, hw] at hpre
    exact absurd hpre (by decide)
  · obtain ⟨-, hrest⟩ := List.cons.inj heq
    rcases done with _ | ⟨r', done⟩
    · obtain ⟨rfl, -⟩ := List.cons.inj hrest
      exact hhole rfl
    · obtain ⟨-, hrest⟩ := List.cons.inj hrest
      cases done <;> cases hrest

theorem interpolation_simultaneous_iff_mentioning :
    ((∀ template order, order.Perm mentioning →
        Simultaneous (mentioning.map argRule) template (interpolateAction template order)) ↔
      Apart (mentioning.map argRule) ∧ Undisturbed (mentioning.map argRule)) ∧
    Simultaneous (mentioning.map argRule) (argPlaceholder "a".toList)
      (interpolateAction (argPlaceholder "a".toList) mentioning.reverse) :=
  ⟨(interpolation_simultaneous_iff mentioning (by decide)).1,
    (interpolation_simultaneous_iff mentioning (by decide)).2 _ _ _ (List.reverse_perm mentioning) mentioning_segments
      mentioning_noCapture⟩

/-- The placeholder in a value is replaced too. -/
theorem interpolation_rescans : ¬ ∀ (args : List (Str × Str)) (template : Str) (order : List (Str × Str)),
    (args.map Prod.fst).Nodup → order.Perm args →
      Simultaneous (args.map argRule) template (interpolateAction template order) := by
  intro hall
  have hresult := hall mentioning (argPlaceholder "a".toList) mentioning (by decide) (List.Perm.refl _)
  have hcode : interpolateAction (argPlaceholder "a".toList) mentioning = "x".toList := by decide +kernel
  rw [hcode] at hresult
  -- the template is the one placeholder, so its value should be the result
  obtain ⟨segs, hsegs, hvalue⟩ := hresult
  rw [← mentioning_segments.unique argRule_pat_ne_nil hsegs] at hvalue
  exact absurd hvalue (by decide)

end Zeptoclaw

import Zeptoclaw.Spec.Workspace

/-!
# Workspace confinement

`validatePathInWorkspace_confined`: a validated path, resolved component by component
with every link followed, stays at or below the canonical workspace. What is checked is
one prefix of the path after the other (`checkComponents_confined`), so the argument is
an induction over the names below the workspace.
-/

namespace Zeptoclaw

open FileTree

variable {fs : FileSystem} {cw loc : Loc}

/-- A resolution that ended at or below `cw`: what is left names new entries only. -/
def EndsWithin (cw : Loc) : Resolved → Prop
  | .found loc _ => cw <+: loc
  | .missing loc rest => cw <+: loc ∧ ∀ c ∈ rest, ∃ name, c = .normal name
  | .notDir loc rest => cw <+: loc ∧ ∀ c ∈ rest, ∃ name, c = .normal name
  | .loop => False

/-- Every prefix of the path from `cw` on resolves to a place at or below `cw`. -/
def StaysWithin (fs : FileSystem) (cw : Loc) (path : PathBuf) : Prop :=
  Loc.path cw <+: path ∧
    ∀ current, Loc.path cw <+: current → current <+: path →
      EndsWithin cw (fs.tree.walk fs.limit fs.cwd current)

theorem path_prefix_iff (cw loc : Loc) : Loc.path cw <+: Loc.path loc ↔ cw <+: loc := by
  have hinj : Function.Injective PathComp.normal := fun _ _ h => PathComp.normal.inj h
  unfold Loc.path
  rw [List.cons_prefix_cons, List.prefix_map_iff_of_injective hinj]
  simp

/-! ## Normalized paths -/

/-- Names below the root or below the working directory. -/
def IsNormalized (path : PathBuf) : Prop :=
  ∃ names : List Str, path = names.map .normal ∨ path = Loc.path names

theorem IsNormalized.push {path : PathBuf} (h : IsNormalized path) (name : Str) :
    IsNormalized (pushComponent path (.normal name)) := by
  obtain ⟨names, rfl | rfl⟩ := h
  · exact ⟨names ++ [name], Or.inl (by simp [pushComponent])⟩
  · exact ⟨names ++ [name], Or.inr (by simp [pushComponent, Loc.path])⟩

theorem IsNormalized.pop {path : PathBuf} (h : IsNormalized path) : IsNormalized (popComponent path) := by
  obtain ⟨names, h⟩ := h
  rcases List.eq_nil_or_concat names with rfl | ⟨l, name, rfl⟩
  · rcases h with rfl | rfl
    · exact ⟨[], Or.inl rfl⟩
    · exact ⟨[], Or.inr rfl⟩
  · refine ⟨l, ?_⟩
    rcases h with rfl | rfl
    · exact Or.inl (by simp [popComponent])
    · refine Or.inr ?_
      have hpath : Loc.path (l.concat name) = Loc.path l ++ [.normal name] := by simp [Loc.path]
      rw [hpath]
      simp [popComponent]

theorem normalizeComps_normalized : ∀ (path normalized : PathBuf), IsNormalized normalized →
    IsNormalized (normalizeComps normalized path) := by
  intro path
  induction path with
  | nil => intro normalized h; exact h
  | cons c path ih =>
    intro normalized h
    cases c with
    | root => exact ih _ ⟨[], Or.inr rfl⟩
    | cur => exact ih _ h
    | parent => exact ih _ h.pop
    | normal name => exact ih _ (h.push name)

theorem normalizePath_normalized (fs : FileSystem) (path : PathBuf) : IsNormalized (normalizePath fs path) := by
  unfold normalizePath FileSystem.canonicalize
  simp only
  cases fs.tree.realpath fs.limit fs.cwd (normalizeComps [] path) with
  | none => exact normalizeComps_normalized path [] ⟨[], Or.inl rfl⟩
  | some loc => exact ⟨loc, Or.inr rfl⟩

/-- A normalized path that starts with a location goes on with names. -/
theorem IsNormalized.below {path : PathBuf} (h : IsNormalized path) (hp : Loc.path cw <+: path) :
    ∃ names : List Str, path = Loc.path cw ++ names.map .normal := by
  obtain ⟨names, rfl | rfl⟩ := h
  · exfalso
    obtain ⟨t, ht⟩ := hp
    cases names with
    | nil => simp [Loc.path] at ht
    | cons name names => simp [Loc.path] at ht
  · obtain ⟨t, rfl⟩ := (path_prefix_iff cw names).1 hp
    exact ⟨t, by simp [Loc.path]⟩

/-! ## The check of one prefix after the other -/

theorem EndsWithin.append {r : Resolved} (h : EndsWithin cw r) (hr : ∀ loc b, r ≠ .found loc b)
    (names : List Str) : EndsWithin cw (fs.tree.andThen r (names.map .normal)) := by
  have hnames : ∀ c ∈ names.map PathComp.normal, ∃ name, c = .normal name := by
    intro c hc
    obtain ⟨name, -, rfl⟩ := List.mem_map.1 hc
    exact ⟨name, rfl⟩
  cases r with
  | found loc b => exact absurd rfl (hr loc b)
  | missing loc rest =>
    refine ⟨h.1, fun c hc => ?_⟩
    rcases List.mem_append.1 hc with hc | hc
    · exact h.2 c hc
    · exact hnames c hc
  | notDir loc rest =>
    refine ⟨h.1, fun c hc => ?_⟩
    rcases List.mem_append.1 hc with hc | hc
    · exact h.2 c hc
    · exact hnames c hc
  | loop => exact h

/-- A link passes the check only if it leads below the workspace. -/
theorem checkComponent_link {current : PathBuf} {name target : Str} {b : ℕ}
    (hw : fs.tree.walk fs.limit fs.cwd current = .found loc b) (hd : fs.tree.entry loc = some .dir)
    (hl : fs.tree.entry (loc ++ [name]) = some (.link target))
    (hc : checkComponent fs (Loc.path cw) (current ++ [.normal name]) = .ok ()) :
    ∃ loc' b', fs.tree.walk fs.limit fs.cwd (current ++ [.normal name]) = .found loc' b' ∧ cw <+: loc' := by
  have hmeta : fs.symlinkMetadata (current ++ [.normal name]) = some (.link target) := by
    unfold FileSystem.symlinkMetadata lstat
    rw [List.getLast?_concat, List.dropLast_concat]
    simp only [hw]
    rw [if_pos hd, hl]
  unfold checkComponent at hc
  rw [hmeta] at hc
  simp only at hc
  split at hc
  · rename_i canonical hcanon
    split at hc
    · rename_i hpre
      obtain ⟨loc', hreal, rfl⟩ := Option.map_eq_some_iff.1 hcanon
      obtain ⟨b', hw'⟩ := realpath_walk hreal
      exact ⟨loc', b', hw', (path_prefix_iff cw loc').1 hpre⟩
    · cases hc
  · cases hc

/-- **One more name**: it is found below the workspace, or the resolution ends there. -/
theorem checkComponent_confined {current : PathBuf} {name : Str} {b : ℕ}
    (hw : fs.tree.walk fs.limit fs.cwd current = .found loc b) (hin : cw <+: loc)
    (hc : checkComponent fs (Loc.path cw) (current ++ [.normal name]) = .ok ()) :
    EndsWithin cw (fs.tree.walk fs.limit fs.cwd (current ++ [.normal name])) := by
  by_cases hd : fs.tree.entry loc = some .dir
  · cases he : fs.tree.entry (loc ++ [name]) with
    | none =>
      rw [walk_append, hw]
      show EndsWithin cw (fs.tree.walk b loc [.normal name])
      rw [walk_name b loc name hd, he]
      exact ⟨hin, by simp⟩
    | some e =>
      cases e with
      | link target =>
        obtain ⟨loc', b', hw', hin'⟩ := checkComponent_link hw hd he hc
        rw [hw']; exact hin'
      | dir =>
        rw [walk_append, hw]
        show EndsWithin cw (fs.tree.walk b loc [.normal name])
        rw [walk_name b loc name hd, he]
        exact hin.trans (List.prefix_append _ _)
      | file =>
        rw [walk_append, hw]
        show EndsWithin cw (fs.tree.walk b loc [.normal name])
        rw [walk_name b loc name hd, he]
        exact hin.trans (List.prefix_append _ _)
  · rw [walk_append, hw]
    show EndsWithin cw (fs.tree.walk b loc [.normal name])
    rw [walk_notDir b _ _ hd]
    exact ⟨hin, by simp⟩

theorem checkComponents_cons {current rest : PathBuf} {name : Str}
    (h : checkComponents fs (Loc.path cw) current (.normal name :: rest) = .ok ()) :
    checkComponent fs (Loc.path cw) (current ++ [.normal name]) = .ok () ∧
      checkComponents fs (Loc.path cw) (current ++ [.normal name]) rest = .ok () := by
  unfold checkComponents at h
  cases hc : checkComponent fs (Loc.path cw) (current ++ [.normal name]) with
  | error e => simp [pushComponent, hc, bind, Except.bind] at h
  | ok u => exact ⟨rfl, by simpa [pushComponent, hc, bind, Except.bind] using h⟩

/-- **The names below the workspace.** If all pass the check, no beginning of the path leads out. -/
theorem checkComponents_confined : ∀ (names : List Str) (current : PathBuf) (loc : Loc) (b : ℕ),
    fs.tree.walk fs.limit fs.cwd current = .found loc b → cw <+: loc →
    checkComponents fs (Loc.path cw) current (names.map .normal) = .ok () →
    ∀ start, start <+: names → EndsWithin cw (fs.tree.walk fs.limit fs.cwd (current ++ start.map .normal)) := by
  intro names
  induction names with
  | nil =>
    intro current loc b hw hin _ start hs
    rw [List.prefix_nil.1 hs, List.map_nil, List.append_nil, hw]
    exact hin
  | cons name names ih =>
    intro current loc b hw hin hc start hs
    cases start with
    | nil => rw [List.map_nil, List.append_nil, hw]; exact hin
    | cons first start =>
      obtain ⟨rfl, hs'⟩ := List.cons_prefix_cons.1 hs
      obtain ⟨hc₁, hc₂⟩ := checkComponents_cons hc
      have hend := checkComponent_confined hw hin hc₁
      have hsplit : current ++ (first :: start).map .normal =
          (current ++ [.normal first]) ++ start.map .normal := by simp
      rw [hsplit]
      by_cases hf : ∃ loc' b', fs.tree.walk fs.limit fs.cwd (current ++ [.normal first]) = .found loc' b'
      · obtain ⟨loc', b', hw'⟩ := hf
        rw [hw'] at hend
        exact ih _ loc' b' hw' hend hc₂ start hs'
      · -- the resolution has ended: what follows is only more names
        rw [walk_append]
        exact EndsWithin.append hend (fun loc' b' hr => hf ⟨loc', b', hr⟩) start

/-! ## The validation -/

theorem validatePathInWorkspace_ok {toLowercase : Str → Str} {path workspace : Str} {p : SafePath}
    (h : validatePathInWorkspace fs toLowercase path workspace = .ok p) :
    IsNormalized p.path ∧ canonicalWorkspace fs workspace <+: p.path ∧
      checkSymlinkEscape fs p.path (canonicalWorkspace fs workspace) = .ok () := by
  unfold validatePathInWorkspace at h
  by_cases ht : containsTraversalPattern toLowercase path = true
  · simp [ht, bind, Except.bind, throw, throwThe, MonadExceptOf.throw] at h
  · simp only [ht, bind, Except.bind, pure, Except.pure, throw, throwThe, MonadExceptOf.throw] at h
    set q := normalizePath fs (components (if path.head? = some '/' then path else joinPath workspace path))
      with hq
    cases hc : checkSymlinkEscape fs q (canonicalWorkspace fs workspace) with
    | error e => simp [hc] at h
    | ok u =>
      by_cases hp : canonicalWorkspace fs workspace <+: q
      · simp [hc, hp] at h
        subst h
        exact ⟨normalizePath_normalized fs _, hp, hc⟩
      · simp [hc, hp] at h

/-- **A validated path stays in the workspace.** -/
theorem validatePathInWorkspace_confined (fs : FileSystem) (toLowercase : Str → Str) (path workspace : Str)
    (cw : Loc) (hcw : fs.tree.realpath fs.limit fs.cwd (kernelComps workspace) = some cw) (p : SafePath)
    (h : validatePathInWorkspace fs toLowercase path workspace = .ok p) : StaysWithin fs cw p.path := by
  obtain ⟨hnorm, hpre, hcheck⟩ := validatePathInWorkspace_ok h
  have hcanon : canonicalWorkspace fs workspace = Loc.path cw := by
    unfold canonicalWorkspace FileSystem.canonicalize
    rw [hcw]; rfl
  rw [hcanon] at hpre hcheck
  obtain ⟨names, hpath⟩ := hnorm.below hpre
  have hreal : fs.tree.IsReal cw := by
    obtain ⟨b, hb⟩ := realpath_walk hcw
    exact walk_real fs.limit _ fs.cwd (Or.inl fs.cwd_dir) cw b hb
  have hstart : fs.tree.walk fs.limit fs.cwd (Loc.path cw) = .found cw fs.limit :=
    walk_path_of_real fs.limit hreal fs.cwd fs.cwd_dir
  rw [checkSymlinkEscape, if_pos hpre, hpath, List.drop_left] at hcheck
  refine ⟨hpre, fun current h₁ h₂ => ?_⟩
  obtain ⟨start, rfl⟩ := h₁
  rw [hpath, List.prefix_append_right_inj] at h₂
  obtain ⟨t, ht⟩ := h₂
  obtain ⟨l₁, l₂, rfl, rfl, -⟩ := List.append_eq_map_iff.1 ht
  exact checkComponents_confined _ _ cw fs.limit hstart List.prefix_rfl hcheck l₁ (List.prefix_append _ _)

/-- A workspace `/ws` with a directory `a` and a link `l` to it. -/
def linkedWorkspace : FileTree where
  entry loc :=
    if loc = [] then some .dir
    else if loc = [['w', 's']] then some .dir
    else if loc = [['w', 's'], ['a']] then some .dir
    else if loc = [['w', 's'], ['l']] then some (.link ['a'])
    else none
  root_dir := rfl
  parent_dir := by
    intro loc name h
    rcases loc with _ | ⟨x, _ | ⟨y, loc⟩⟩
    · rfl
    · by_cases hx : x = ['w', 's'] <;> simp_all
    · simp at h

theorem validatePathInWorkspace_confined_link :
    ∃ p, validatePathInWorkspace ⟨linkedWorkspace, 40, [], rfl⟩ (List.map Char.toLower) "l/new".toList
        "/ws".toList = .ok p ∧
      StaysWithin ⟨linkedWorkspace, 40, [], rfl⟩ [['w', 's']] p.path :=
  ⟨⟨[.root, .normal ['w', 's'], .normal ['l'], .normal ['n', 'e', 'w']]⟩, by decide,
    validatePathInWorkspace_confined _ (List.map Char.toLower) "l/new".toList "/ws".toList _ (by decide) _
      (by decide)⟩

end Zeptoclaw

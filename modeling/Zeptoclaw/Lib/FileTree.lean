import Zeptoclaw.Lib.Text

/-!
# File trees with symbolic links

A static tree of directories, files and symbolic links, and the resolution of a path
in it: component by component, following links, with a bound on the number of links
followed. `walk_append` cuts a resolution at any component; `walk_real` says that a
location the resolution reaches contains no link and resolves to itself.
-/

namespace Zeptoclaw

/-- A location: the names from the root to an entry, no link followed. -/
abbrev Loc := List Str

inductive Entry where
  | dir
  | file
  | link (target : Str)
  deriving DecidableEq, Repr

/-- A component of a path. -/
inductive PathComp where
  | root
  | cur
  | parent
  | normal (name : Str)
  deriving DecidableEq, Repr

/-- A tree: only directories have entries below them. -/
structure FileTree where
  entry : Loc → Option Entry
  root_dir : entry [] = some .dir
  parent_dir : ∀ loc name, entry (loc ++ [name]) ≠ none → entry loc = some .dir

/-- The text between the slashes. -/
def splitSlash : Str → List Str
  | [] => [[]]
  | c :: rest =>
    if c = '/' then [] :: splitSlash rest
    else
      match splitSlash rest with
      | [] => [[c]]
      | piece :: pieces => (c :: piece) :: pieces

/-- One piece of a path as a component; nothing between two slashes is none. -/
def pieceComp (piece : Str) : Option PathComp :=
  if piece = [] then none
  else if piece = ['.'] then some .cur
  else if piece = ['.', '.'] then some .parent
  else some (.normal piece)

/-- A path as the file system reads it: a trailing slash asks for a directory. -/
def kernelComps (path : Str) : List PathComp :=
  (if path.head? = some '/' then [.root] else []) ++ (splitSlash path).filterMap pieceComp ++
    (if path.getLast? = some '/' then [.cur] else [])

/-- The absolute path of a location. -/
def Loc.path (loc : Loc) : List PathComp := .root :: loc.map .normal

/-- How a resolution ends: at an entry, with the number of links it may still follow; at
a directory that lacks the next name; at a file with components left; or with too many
links. -/
inductive Resolved where
  | found (loc : Loc) (budget : ℕ)
  | missing (loc : Loc) (rest : List PathComp)
  | notDir (loc : Loc) (rest : List PathComp)
  | loop
  deriving DecidableEq, Repr

namespace FileTree

variable (tree : FileTree)

/-- Resolution up to the next link, which is handed to `onLink` with the directory it
is in and the components still to resolve. -/
def walkFrom (budget : ℕ) (onLink : Loc → List PathComp → Resolved) : Loc → List PathComp → Resolved
  | loc, [] => .found loc budget
  | loc, c :: rest =>
    if tree.entry loc = some .dir then
      match c with
      | .root => walkFrom budget onLink [] rest
      | .cur => walkFrom budget onLink loc rest
      | .parent => walkFrom budget onLink loc.dropLast rest
      | .normal name =>
        match tree.entry (loc ++ [name]) with
        | none => .missing loc (c :: rest)
        | some (.link target) => onLink loc (kernelComps target ++ rest)
        | some _ => walkFrom budget onLink (loc ++ [name]) rest
    else .notDir loc (c :: rest)

/-- Resolution of a path from a location, following at most `budget` links. -/
def walk : ℕ → Loc → List PathComp → Resolved
  | 0 => tree.walkFrom 0 fun _ _ => .loop
  | n + 1 => tree.walkFrom (n + 1) (walk n)

/-- The location of a path, all links followed. The empty path names nothing. -/
def realpath (limit : ℕ) (cwd : Loc) (path : List PathComp) : Option Loc :=
  if path = [] then none
  else
    match tree.walk limit cwd path with
    | .found loc _ => some loc
    | _ => none

/-- The entry a path names, the last component not followed. -/
def lstat (limit : ℕ) (cwd : Loc) (path : List PathComp) (name : Str) : Option Entry :=
  match tree.walk limit cwd path with
  | .found loc _ => if tree.entry loc = some .dir then tree.entry (loc ++ [name]) else none
  | _ => none

variable {tree} {n limit : ℕ} {loc cwd : Loc} {path rest : List PathComp}

/-- A resolution goes on with more components. -/
def andThen (tree : FileTree) (r : Resolved) (rest : List PathComp) : Resolved :=
  match r with
  | .found loc budget => tree.walk budget loc rest
  | .missing loc left => .missing loc (left ++ rest)
  | .notDir loc left => .notDir loc (left ++ rest)
  | .loop => .loop

theorem walk_nil (n : ℕ) (loc : Loc) : tree.walk n loc [] = .found loc n := by
  cases n <;> rfl

/-- One component of a resolution. -/
theorem walkFrom_cons (budget : ℕ) (onLink : Loc → List PathComp → Resolved) (loc : Loc) (c : PathComp)
    (rest : List PathComp) :
    tree.walkFrom budget onLink loc (c :: rest) =
      if tree.entry loc = some .dir then
        match c with
        | .root => tree.walkFrom budget onLink [] rest
        | .cur => tree.walkFrom budget onLink loc rest
        | .parent => tree.walkFrom budget onLink loc.dropLast rest
        | .normal name =>
          match tree.entry (loc ++ [name]) with
          | none => .missing loc (c :: rest)
          | some (.link target) => onLink loc (kernelComps target ++ rest)
          | some _ => tree.walkFrom budget onLink (loc ++ [name]) rest
      else .notDir loc (c :: rest) := by
  cases c <;> rfl

/-- **A resolution can be cut at any component.** -/
theorem walk_append : ∀ (n : ℕ) (path : List PathComp) (loc : Loc) (rest : List PathComp),
    tree.walk n loc (path ++ rest) = tree.andThen (tree.walk n loc path) rest := by
  -- the components up to the next link, given the statement behind that link
  have key : ∀ (n : ℕ) (onLink : Loc → List PathComp → Resolved)
      (_ : ∀ loc, tree.walk n loc = tree.walkFrom n onLink loc)
      (_ : ∀ loc path rest, onLink loc (path ++ rest) = tree.andThen (onLink loc path) rest)
      (path : List PathComp) (loc : Loc) (rest : List PathComp),
      tree.walkFrom n onLink loc (path ++ rest) = tree.andThen (tree.walkFrom n onLink loc path) rest := by
    intro n onLink hw hon path
    induction path with
    | nil =>
      intro loc rest
      show tree.walkFrom n onLink loc rest = tree.walk n loc rest
      rw [hw]
    | cons c path ih =>
      intro loc rest
      rw [List.cons_append, walkFrom_cons, walkFrom_cons]
      split
      · cases c with
        | root => exact ih _ _
        | cur => exact ih _ _
        | parent => exact ih _ _
        | normal name =>
          cases he : tree.entry (loc ++ [name]) with
          | none => simp only [he]; rfl
          | some e =>
            simp only [he]
            cases e with
            | dir => exact ih _ _
            | file => exact ih _ _
            | link target =>
              show onLink loc (kernelComps target ++ (path ++ rest)) = _
              rw [← List.append_assoc, hon]
      · rfl
  intro n
  induction n with
  | zero => exact key 0 _ (fun _ => rfl) (fun _ _ _ => rfl)
  | succ n ih => exact key (n + 1) _ (fun _ => rfl) (fun loc path rest => ih path loc rest)

/-- One more name, after a resolution that reached a directory. -/
theorem walk_name (n : ℕ) (loc : Loc) (name : Str) (hd : tree.entry loc = some .dir) :
    tree.walk n loc [.normal name] =
      match tree.entry (loc ++ [name]) with
      | none => .missing loc [.normal name]
      | some (.link target) =>
        match n with
        | 0 => .loop
        | n + 1 => tree.walk n loc (kernelComps target)
      | some _ => .found (loc ++ [name]) n := by
  cases n with
  | zero =>
    show tree.walkFrom 0 _ loc [.normal name] = _
    rw [walkFrom, if_pos hd]
    cases he : tree.entry (loc ++ [name]) with
    | none => rfl
    | some e => cases e <;> rfl
  | succ n =>
    show tree.walkFrom (n + 1) _ loc [.normal name] = _
    rw [walkFrom, if_pos hd]
    cases he : tree.entry (loc ++ [name]) with
    | none => rfl
    | some e =>
      cases e with
      | dir => rfl
      | file => rfl
      | link target => simp

/-- From a file no component can be resolved. -/
theorem walk_notDir (n : ℕ) (c : PathComp) (rest : List PathComp) (hd : tree.entry loc ≠ some .dir) :
    tree.walk n loc (c :: rest) = .notDir loc (c :: rest) := by
  cases n <;>
  · show tree.walkFrom _ _ loc (c :: rest) = _
    rw [walkFrom_cons, if_neg hd]

/-! ## Real locations -/

/-- An existing entry that is no link. -/
def IsReal (tree : FileTree) (loc : Loc) : Prop :=
  tree.entry loc = some .dir ∨ tree.entry loc = some .file

/-- Every location above an entry is a directory. -/
theorem entry_above : ∀ (names : List Str) (loc : Loc), tree.entry (loc ++ names) ≠ none → names ≠ [] →
    tree.entry loc = some .dir := by
  intro names
  induction names with
  | nil => intro _ _ h; exact absurd rfl h
  | cons name names ih =>
    intro loc he _
    by_cases hn : names = []
    · subst hn; exact tree.parent_dir loc name he
    · have h1 : tree.entry (loc ++ [name]) = some .dir := ih (loc ++ [name]) (by simpa using he) hn
      exact tree.parent_dir loc name (by rw [h1]; simp)

theorem dropLast_dir (hd : tree.entry loc = some .dir) : tree.entry loc.dropLast = some .dir := by
  rcases List.eq_nil_or_concat loc with rfl | ⟨l, name, rfl⟩
  · exact hd
  · rw [List.concat_eq_append, List.dropLast_concat]
    exact tree.parent_dir l name (by rw [← List.concat_eq_append, hd]; simp)

/-- **A resolution that starts at a real location reaches real locations only.** -/
theorem walk_real : ∀ (n : ℕ) (path : List PathComp) (loc : Loc), tree.IsReal loc →
    ∀ loc' b, tree.walk n loc path = .found loc' b → tree.IsReal loc' := by
  have key : ∀ (n : ℕ) (onLink : Loc → List PathComp → Resolved)
      (_ : ∀ loc path, tree.IsReal loc → ∀ loc' b, onLink loc path = .found loc' b → tree.IsReal loc')
      (path : List PathComp) (loc : Loc), tree.IsReal loc →
      ∀ loc' b, tree.walkFrom n onLink loc path = .found loc' b → tree.IsReal loc' := by
    intro n onLink hon path
    induction path with
    | nil =>
      intro loc hr loc' b h
      obtain ⟨rfl, -⟩ := Resolved.found.inj h
      exact hr
    | cons c path ih =>
      intro loc hr loc' b h
      rw [walkFrom_cons] at h
      split at h
      · rename_i hd
        cases c with
        | root => exact ih [] (Or.inl tree.root_dir) loc' b h
        | cur => exact ih loc hr loc' b h
        | parent => exact ih _ (Or.inl (dropLast_dir hd)) loc' b h
        | normal name =>
          cases he : tree.entry (loc ++ [name]) with
          | none => simp only [he] at h; cases h
          | some e =>
            simp only [he] at h
            cases e with
            | dir => exact ih _ (Or.inl he) loc' b h
            | file => exact ih _ (Or.inr he) loc' b h
            | link target => exact hon loc _ hr loc' b h
      · cases h
  intro n
  induction n with
  | zero => exact key 0 _ (fun _ _ _ _ _ h => by cases h)
  | succ n ih => exact key (n + 1) _ (fun loc path => ih path loc)

/-- **A real location resolves to itself**, and following its path uses no link. -/
theorem walk_path_of_real (n : ℕ) (hr : tree.IsReal loc) (cwd : Loc) (hcwd : tree.entry cwd = some .dir) :
    tree.walk n cwd (Loc.path loc) = .found loc n := by
  have hroot : tree.walk n cwd [.root] = .found [] n := by
    cases n <;>
    · show tree.walkFrom _ _ cwd [.root] = _
      rw [walkFrom, if_pos hcwd]; rfl
  have key : ∀ (names : List Str) (l : Loc), tree.IsReal (l ++ names) →
      tree.walk n l (names.map .normal) = .found (l ++ names) n := by
    intro names
    induction names with
    | nil => intro l _; rw [List.append_nil]; exact walk_nil n l
    | cons name names ih =>
      intro l hl
      have hne : tree.entry (l ++ name :: names) ≠ none := by
        rcases hl with h | h <;> rw [h] <;> simp
      have hd : tree.entry l = some .dir := entry_above (name :: names) l hne (by simp)
      have hreal : tree.IsReal (l ++ [name]) := by
        by_cases hn : names = []
        · subst hn; exact hl
        · exact Or.inl (entry_above names (l ++ [name]) (by simpa using hne) hn)
      have hstep : tree.walk n l [.normal name] = .found (l ++ [name]) n := by
        rw [walk_name n l name hd]
        rcases hreal with h | h <;> rw [h]
      rw [List.map_cons, ← List.singleton_append, walk_append, hstep]
      show tree.walk n (l ++ [name]) (names.map .normal) = _
      rw [ih (l ++ [name]) (by simpa using hl)]
      simp
  rw [Loc.path, ← List.singleton_append, walk_append, hroot]
  show tree.walk n [] (loc.map .normal) = _
  simpa using key loc [] (by simpa using hr)

theorem realpath_walk {loc : Loc} (h : tree.realpath limit cwd path = some loc) :
    ∃ b, tree.walk limit cwd path = .found loc b := by
  unfold realpath at h
  split at h
  · cases h
  · split at h
    · rename_i l b hw; rw [← Option.some.inj h]; exact ⟨b, hw⟩
    · cases h

end FileTree

end Zeptoclaw

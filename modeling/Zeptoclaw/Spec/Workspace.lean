import Zeptoclaw.Lib.FileTree
import Zeptoclaw.Spec.Error

/-!
# Workspace paths

Path validation (`security/path.rs`) over a static file system. A `PathBuf` is the list
of its components, which is what `starts_with` and `strip_prefix` compare.
-/

namespace Zeptoclaw

open Text

/-- What the process sees: the tree, the system's bound on the links of one resolution,
and the working directory. -/
structure FileSystem where
  tree : FileTree
  limit : ℕ
  cwd : Loc
  cwd_dir : tree.entry cwd = some .dir

abbrev PathBuf := List PathComp

/-- `Path::components`: `.` is kept only at the start of a relative path. -/
def components (path : Str) : PathBuf :=
  let comps := (splitSlash path).filterMap pieceComp
  if path.head? = some '/' then .root :: comps.filter (· ≠ .cur)
  else
    match comps with
    | [] => []
    | c :: rest => c :: rest.filter (· ≠ .cur)

/-- `Path::join` with a relative path. -/
def joinPath (base path : Str) : Str :=
  if base = [] ∨ base.getLast? = some '/' then base ++ path else base ++ '/' :: path

/-- `PathBuf::push` of one component. -/
def pushComponent (path : PathBuf) : PathComp → PathBuf
  | .root => [.root]
  | c => path ++ [c]

/-- `PathBuf::pop`: the root and the empty path stay. -/
def popComponent (path : PathBuf) : PathBuf :=
  match path.getLast? with
  | none => path
  | some .root => path
  | some _ => path.dropLast

def displayComp : PathComp → Str
  | .root => []
  | .cur => ['.']
  | .parent => ['.', '.']
  | .normal name => name

/-- `Path::display`. -/
def displayPath : PathBuf → Str
  | [.root] => ['/']
  | path => ['/'].intercalate (path.map displayComp)

namespace FileSystem

variable (fs : FileSystem)

/-- `Path::canonicalize`. -/
def canonicalize (path : PathBuf) : Option PathBuf :=
  (fs.tree.realpath fs.limit fs.cwd path).map Loc.path

/-- `std::fs::symlink_metadata`. -/
def symlinkMetadata (path : PathBuf) : Option Entry :=
  match path.getLast? with
  | none => none
  | some (.normal name) => fs.tree.lstat fs.limit fs.cwd path.dropLast name
  | some _ => (fs.tree.realpath fs.limit fs.cwd path).bind fs.tree.entry

end FileSystem

/-- The loop of `normalize_path`. -/
def normalizeComps : PathBuf → PathBuf → PathBuf
  | normalized, [] => normalized
  | normalized, .parent :: rest => normalizeComps (popComponent normalized) rest
  | normalized, .cur :: rest => normalizeComps normalized rest
  | normalized, c :: rest => normalizeComps (pushComponent normalized c) rest

/-- `normalize_path`: canonical if the normalized path exists. -/
def normalizePath (fs : FileSystem) (path : PathBuf) : PathBuf :=
  let normalized := normalizeComps [] path
  (fs.canonicalize normalized).getD normalized

def traversalPatterns : List Str :=
  ["..".toList, "%2e%2e".toList, "%252e%252e".toList, "..%2f".toList, "%2f..".toList, "..\\".toList,
    "\\..\\".toList]

/-- `contains_traversal_pattern`; `toLowercase` is `str::to_lowercase`. -/
def containsTraversalPattern (toLowercase : Str → Str) (path : Str) : Bool :=
  traversalPatterns.any fun p => contains (toLowercase path) p

def suspiciousPattern (path : Str) : ZeptoError :=
  .securityViolation ("Path contains suspicious traversal pattern: ".toList ++ path)

def symlinkEscape (current canonical : PathBuf) : ZeptoError :=
  .securityViolation ("Symlink escape detected: '".toList ++ displayPath current ++ "' resolves to '".toList ++
    displayPath canonical ++ "' which is outside workspace".toList)

def danglingSymlink (current : PathBuf) : ZeptoError :=
  .securityViolation ("Dangling symlink detected: '".toList ++ displayPath current ++
    "' target does not exist and cannot be validated".toList)

def pathEscapes (path workspace : Str) : ZeptoError :=
  .securityViolation ("Path escapes workspace: ".toList ++ path ++ " is not within ".toList ++ workspace)

/-- What `check_symlink_escape` does with one prefix of the path. -/
def checkComponent (fs : FileSystem) (canonicalWorkspace current : PathBuf) : Except ZeptoError Unit :=
  match fs.symlinkMetadata current with
  | some (.link _) =>
    match fs.canonicalize current with
    | some canonical =>
      if canonicalWorkspace <+: canonical then .ok () else .error (symlinkEscape current canonical)
    | none => .error (danglingSymlink current)
  | some .dir =>
    match fs.canonicalize current with
    | some canonical =>
      if canonicalWorkspace <+: canonical then .ok () else .error (symlinkEscape current canonical)
    | none => .ok ()
  | some .file => .ok ()
  -- not there yet: a file to be created
  | none => .ok ()

/-- The loop of `check_symlink_escape`. -/
def checkComponents (fs : FileSystem) (canonicalWorkspace : PathBuf) : PathBuf → PathBuf → Except ZeptoError Unit
  | _, [] => .ok ()
  | current, c :: rest => do
    checkComponent fs canonicalWorkspace (pushComponent current c)
    checkComponents fs canonicalWorkspace (pushComponent current c) rest

/-- `check_symlink_escape`: a path that does not start with the workspace passes here. -/
def checkSymlinkEscape (fs : FileSystem) (path canonicalWorkspace : PathBuf) : Except ZeptoError Unit :=
  if canonicalWorkspace <+: path then
    checkComponents fs canonicalWorkspace canonicalWorkspace (path.drop canonicalWorkspace.length)
  else .ok ()

structure SafePath where
  path : PathBuf
  deriving DecidableEq, Repr

/-- The workspace as the validation compares with it: normalized only if it does not exist. -/
def canonicalWorkspace (fs : FileSystem) (workspace : Str) : PathBuf :=
  (fs.canonicalize (kernelComps workspace)).getD (normalizePath fs (components workspace))

/-- `validate_path_in_workspace`. -/
def validatePathInWorkspace (fs : FileSystem) (toLowercase : Str → Str) (path workspace : Str) :
    Except ZeptoError SafePath := do
  if containsTraversalPattern toLowercase path then throw (suspiciousPattern path)
  let resolvedPath := if path.head? = some '/' then path else joinPath workspace path
  let normalizedPath := normalizePath fs (components resolvedPath)
  let canonicalWorkspace := canonicalWorkspace fs workspace
  checkSymlinkEscape fs normalizedPath canonicalWorkspace
  if canonicalWorkspace <+: normalizedPath then pure ⟨normalizedPath⟩
  else throw (pathEscapes path workspace)

end Zeptoclaw

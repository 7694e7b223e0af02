import Zeptoclaw.Lib.Utf8
import Zeptoclaw.Spec.Error

/-!
# Mount validation

`security/mount.rs` on Unix: a path of the system is its bytes, and a canonical path the list of its names.
-/

namespace Zeptoclaw

open Text Utf8

def slashByte : UInt8 := 47

/-- The name of a file or a directory. -/
def IsFileName (name : Bytes) : Prop := name ≠ [] ∧ slashByte ∉ name ∧ name ≠ encode ['.'] ∧ name ≠ encode ['.', '.']

instance (name : Bytes) : Decidable (IsFileName name) := inferInstanceAs (Decidable (_ ∧ _))

/-- What `canonicalize` returns: the names of an absolute path without links, `.` and `..`. -/
structure CanonicalPath where
  names : List Bytes
  names_ok : ∀ name ∈ names, IsFileName name

def CanonicalPath.bytes (path : CanonicalPath) : Bytes :=
  if path.names = [] then [slashByte] else path.names.flatMap (slashByte :: ·)

/-- `Path::display`, and `to_string_lossy`. -/
def CanonicalPath.display (path : CanonicalPath) : Str := fromUtf8Lossy path.bytes

/-- `PathBuf::join`. -/
def joinBytes (base path : Bytes) : Bytes :=
  if path.head? = some slashByte then path
  else if base = [] ∨ base.getLast? = some slashByte then base ++ path
  else base ++ slashByte :: path

structure AllowedRoot where
  path : Str
  allowReadWrite : Bool := false
  deriving DecidableEq, Repr

structure MountAllowlist where
  allowedRoots : List AllowedRoot := []
  blockedPatterns : List Str := []
  deriving DecidableEq, Repr

structure FileStat where
  isFile : Bool
  nlink : UInt64

/-- The system as one validation sees it, and `serde_json`. An error is its text. -/
structure MountSystem where
  homeDir : Option Bytes
  pathExists : Bytes → Bool
  canonicalize : Bytes → Except Str CanonicalPath
  metadata : CanonicalPath → Except Str FileStat
  readToString : Bytes → Except Str Str
  parseAllowlist : Str → Except Str MountAllowlist
  toLowercase : Str → Str

/-- What was validated of a mount. -/
structure ValidMount where
  host : CanonicalPath
  container : Str
  readOnly : Bool

def defaultBlockedPatterns : List Str :=
  [".ssh".toList, ".gnupg".toList, ".gpg".toList, ".aws".toList, ".azure".toList, ".gcloud".toList, ".kube".toList,
    ".docker".toList, "credentials".toList, ".env".toList, ".netrc".toList, "id_rsa".toList, "id_ed25519".toList,
    "private_key".toList]

def invalidMountMode (mode : Str) : ZeptoError :=
  .securityViolation ("Invalid mount mode '".toList ++ mode ++ "'; only 'ro' is supported".toList)

def invalidMountFormat (spec : Str) : ZeptoError :=
  .securityViolation
    ("Invalid mount format '".toList ++ spec ++ "'; expected 'host:container' or 'host:container:ro'".toList)

/-- `parse_mount_spec`: the host, the container and whether the mount is read-only. -/
def parseMountSpec (spec : Str) : Except ZeptoError (Str × Str × Bool) :=
  match spec.splitOn ':' with
  | [host, container] => .ok (host, container, false)
  | [host, container, mode] => if mode = ['r', 'o'] then .ok (host, container, true) else .error (invalidMountMode mode)
  | _ => .error (invalidMountFormat spec)

def invalidContainerPath (container mount : Str) : ZeptoError :=
  .securityViolation
    ("Invalid container mount path '".toList ++ container ++ "' in '".toList ++ mount ++ "'".toList)

def invalidMountPath (path : Bytes) (e : Str) : ZeptoError :=
  .securityViolation
    ("Mount path '".toList ++ fromUtf8Lossy path ++ "' is invalid or does not exist: ".toList ++ e)

def blockedByPattern (path : CanonicalPath) (pattern : Str) : ZeptoError :=
  .securityViolation ("Mount '".toList ++ path.display ++ "' blocked by pattern '".toList ++ pattern ++ "'".toList)

def cannotInspect (path : CanonicalPath) (e : Str) : ZeptoError :=
  .securityViolation ("Failed to inspect mount path '".toList ++ path.display ++ "': ".toList ++ e)

def hardlinkAlias (mount : Str) : ZeptoError :=
  .securityViolation ("Mount '".toList ++ mount ++ ("' points to a file with multiple hard links; " ++
    "use allowlist-based mount validation for sensitive mounts").toList)

def outsideRoots (path : CanonicalPath) (allowlistPath : Bytes) : ZeptoError :=
  .securityViolation ("Mount '".toList ++ path.display ++ "' is outside allowedRoots in '".toList ++
    fromUtf8Lossy allowlistPath ++ "'".toList)

def noAllowlist (path : Bytes) : ZeptoError :=
  .securityViolation ("Mount allowlist not found at '".toList ++ fromUtf8Lossy path ++ "'".toList)

def unreadableAllowlist (path : Bytes) (e : Str) : ZeptoError :=
  .securityViolation ("Failed to read mount allowlist '".toList ++ fromUtf8Lossy path ++ "': ".toList ++ e)

def invalidAllowlist (path : Bytes) (e : Str) : ZeptoError :=
  .securityViolation ("Invalid mount allowlist JSON at '".toList ++ fromUtf8Lossy path ++ "': ".toList ++ e)

def noAllowedRoots : ZeptoError := .securityViolation "Mount allowlist has no allowedRoots entries".toList

namespace MountSystem

variable (sys : MountSystem)

/-- `expand_path`. -/
def expandPath (path : Str) : Bytes :=
  match path, sys.homeDir with
  | '~' :: '/' :: suffix, some home => joinBytes home (encode suffix)
  | ['~'], some home => home
  | _, _ => encode path

/-- `canonicalize_existing`. -/
def canonicalizeExisting (path : Bytes) : Except ZeptoError CanonicalPath :=
  (sys.canonicalize path).mapError (invalidMountPath path)

/-- `path_contains_blocked_pattern`. -/
def pathContainsBlockedPattern (path : CanonicalPath) (patterns : List Str) : Option Str :=
  patterns.find? fun pattern => contains (sys.toLowercase path.display) (sys.toLowercase pattern)

/-- `validate_no_hardlink_alias`. -/
def validateNoHardlinkAlias (path : CanonicalPath) (mount : Str) : Except ZeptoError Unit :=
  match sys.metadata path with
  | .error e => .error (cannotInspect path e)
  | .ok stat => if stat.isFile = true ∧ 1 < stat.nlink then .error (hardlinkAlias mount) else .ok ()

/-- `load_allowlist`. -/
def loadAllowlist (path : Bytes) : Except ZeptoError MountAllowlist :=
  if sys.pathExists path = false then .error (noAllowlist path)
  else
    match sys.readToString path with
    | .error e => .error (unreadableAllowlist path e)
    | .ok content => (sys.parseAllowlist content).mapError (invalidAllowlist path)

/-- `is_under_root`: what `strip_prefix` leaves behind a canonical root is a relative path. -/
def isUnderRoot (path root : CanonicalPath) : Bool := decide (root.names <+: path.names)

/-- The first root that exists and that the path is under. -/
def findAllowedRoot (allowlist : MountAllowlist) (hostPath : CanonicalPath) : Option AllowedRoot :=
  allowlist.allowedRoots.find? fun root =>
    match sys.canonicalizeExisting (sys.expandPath root.path) with
    | .error _ => false
    | .ok rootPath => isUnderRoot hostPath rootPath

/-- What the loop of `validate_extra_mounts` checks of one mount. -/
def checkMount (allowlistPath : Bytes) (allowlist : MountAllowlist) (mount : Str) : Except ZeptoError ValidMount :=
  match parseMountSpec mount with
  | .error e => .error e
  | .ok (host, container, requestedReadOnly) =>
    if container = [] ∨ container.head? ≠ some '/' ∨ contains container ['.', '.'] = true then
      .error (invalidContainerPath container mount)
    else
      match sys.canonicalizeExisting (sys.expandPath host) with
      | .error e => .error e
      | .ok hostPath =>
        match sys.pathContainsBlockedPattern hostPath (defaultBlockedPatterns ++ allowlist.blockedPatterns) with
        | some pattern => .error (blockedByPattern hostPath pattern)
        | none =>
          match sys.validateNoHardlinkAlias hostPath mount with
          | .error e => .error e
          | .ok () =>
            match sys.findAllowedRoot allowlist hostPath with
            | none => .error (outsideRoots hostPath allowlistPath)
            | some root => .ok ⟨hostPath, container, requestedReadOnly || !root.allowReadWrite⟩

/-- The mount as it is returned. -/
def normalizedMount (v : ValidMount) : Str :=
  v.host.display ++ ':' :: v.container ++ if v.readOnly then [':', 'r', 'o'] else []

/-- `validate_extra_mounts`. -/
def validateExtraMounts (mounts : List Str) (allowlistPath : Str) : Except ZeptoError (List Str) :=
  if mounts = [] then .ok []
  else
    match sys.loadAllowlist (sys.expandPath allowlistPath) with
    | .error e => .error e
    | .ok allowlist =>
      if allowlist.allowedRoots = [] then .error noAllowedRoots
      else mounts.mapM fun mount => (sys.checkMount (sys.expandPath allowlistPath) allowlist mount).map normalizedMount

end MountSystem

end Zeptoclaw

import Zeptoclaw.Lib.Fields
import Zeptoclaw.Spec.Mount
import Mathlib.Data.List.Forall2

/-!
# Validated mounts

A mount is returned as `host:container` with the canonical host path in place of the one that was given, and
`parse_mount_spec` splits at every colon: it reads the mount back exactly if the canonical path is a text without a colon
(`validateExtraMounts_keeps_iff`).
-/

namespace Zeptoclaw.MountSystem

open Text Utf8 Fields

/-! ## The format -/

section Format

variable {spec host container : Str} {readOnly : Bool} {v : ValidMount}

/-- The parser reads exactly the texts of the format whose two paths have no colon. -/
theorem parseMountSpec_eq_ok_iff : parseMountSpec spec = .ok (host, container, readOnly) ↔
    spec = host ++ ':' :: container ++ (if readOnly then [':', 'r', 'o'] else []) ∧ ':' ∉ host ∧ ':' ∉ container := by
  constructor
  · intro h
    unfold parseMountSpec at h
    split at h
    next host' container' hparts =>
      obtain ⟨rfl, rfl, rfl⟩ : host' = host ∧ container' = container ∧ false = readOnly := by simpa using h
      obtain ⟨hspec, hfields⟩ := (splitOn_eq_iff (List.cons_ne_nil _ _)).mp hparts
      exact ⟨by simpa using hspec, hfields host' (by simp), hfields container' (by simp)⟩
    next host' container' mode hparts =>
      by_cases hmode : mode = ['r', 'o']
      · rw [if_pos hmode] at h
        obtain ⟨rfl, rfl, rfl⟩ : host' = host ∧ container' = container ∧ true = readOnly := by simpa using h
        obtain ⟨hspec, hfields⟩ := (splitOn_eq_iff (List.cons_ne_nil _ _)).mp hparts
        exact ⟨by simpa [hmode] using hspec, hfields host' (by simp), hfields container' (by simp)⟩
      · rw [if_neg hmode] at h
        exact absurd h (by simp)
    next => exact absurd h (by simp)
  · rintro ⟨rfl, hhost, hcontainer⟩
    unfold parseMountSpec
    cases readOnly with
    | false =>
      have hparts : (host ++ ':' :: container).splitOn ':' = [host, container] :=
        (splitOn_eq_iff (List.cons_ne_nil _ _)).mpr ⟨by simp, by simp [hhost, hcontainer]⟩
      simp [hparts]
    | true =>
      have hparts : (host ++ ':' :: container ++ [':', 'r', 'o']).splitOn ':' = [host, container, ['r', 'o']] :=
        (splitOn_eq_iff (List.cons_ne_nil _ _)).mpr ⟨by simp, by simp [hhost, hcontainer]⟩
      simp only [if_true, hparts]

/-- The text is read back as the canonical host path, the container path and the flag. -/
def ParsesBack (spec : Str) (v : ValidMount) : Prop :=
  ∃ host, parseMountSpec spec = .ok (host, v.container, v.readOnly) ∧ encode host = v.host.bytes

/-- The path is a text without a colon. -/
def CanonicalPath.Plain (path : CanonicalPath) : Prop := ∃ s, path.bytes = encode s ∧ ':' ∉ s

theorem parsesBack_iff (hcontainer : ':' ∉ v.container) :
    ParsesBack (normalizedMount v) v ↔ CanonicalPath.Plain v.host := by
  constructor
  · rintro ⟨host, hparse, hbytes⟩
    exact ⟨host, hbytes.symm, (parseMountSpec_eq_ok_iff.mp hparse).2.1⟩
  · rintro ⟨s, hbytes, hs⟩
    have hdisplay : v.host.display = s := by
      unfold CanonicalPath.display
      rw [hbytes, fromUtf8Lossy_encode]
    have htext : normalizedMount v = s ++ ':' :: v.container ++ (if v.readOnly then [':', 'r', 'o'] else []) := by
      rw [normalizedMount, hdisplay]
    exact ⟨s, parseMountSpec_eq_ok_iff.mpr ⟨htext, hs, hcontainer⟩, hbytes.symm⟩

end Format

/-! ## The checks -/

variable (sys : MountSystem)

/-- What is validated of a mount: the host path in its canonical form, the container path as given, and a flag that is
also set if the root is not writable. -/
def Validated (allowlistPath mount : Str) (v : ValidMount) : Prop :=
  ∃ allowlist host requested root, sys.loadAllowlist (sys.expandPath allowlistPath) = .ok allowlist ∧
    parseMountSpec mount = .ok (host, v.container, requested) ∧ sys.canonicalize (sys.expandPath host) = .ok v.host ∧
    sys.findAllowedRoot allowlist v.host = some root ∧ v.readOnly = (requested || !root.allowReadWrite)

/-- The host path of the mount leads to a plain path. -/
def PlainHost (mount : Str) : Prop :=
  ∀ host container readOnly path, parseMountSpec mount = .ok (host, container, readOnly) →
    sys.canonicalize (sys.expandPath host) = .ok path → CanonicalPath.Plain path

variable {sys} {mount allowlistPath : Str} {allowlist : MountAllowlist} {v : ValidMount} {mounts specs : List Str}

theorem canonicalizeExisting_eq_ok_iff {path : Bytes} {canonical : CanonicalPath} :
    sys.canonicalizeExisting path = .ok canonical ↔ sys.canonicalize path = .ok canonical := by
  unfold canonicalizeExisting
  cases sys.canonicalize path with
  | error e => simp [Except.mapError]
  | ok p => simp [Except.mapError]

theorem checkMount_eq_ok {path : Bytes} (h : sys.checkMount path allowlist mount = .ok v) :
    ∃ host requested root, parseMountSpec mount = .ok (host, v.container, requested) ∧
      sys.canonicalize (sys.expandPath host) = .ok v.host ∧ sys.findAllowedRoot allowlist v.host = some root ∧
      v.readOnly = (requested || !root.allowReadWrite) := by
  unfold checkMount at h
  split at h
  next => cases h
  next host container requested hparse =>
  split at h
  next => cases h
  next =>
  split at h
  next => cases h
  next hostPath hcanonical =>
  split at h
  next => cases h
  next =>
  split at h
  next => cases h
  next =>
  split at h
  next => cases h
  next root hroot =>
    obtain rfl := Except.ok.inj h
    exact ⟨host, requested, root, hparse, canonicalizeExisting_eq_ok_iff.mp hcanonical, hroot, rfl⟩

theorem mapM_eq_ok {α β ε : Type*} {f : α → Except ε β} : ∀ {l : List α} {out : List β},
    l.mapM f = .ok out → List.Forall₂ (fun a b => f a = .ok b) l out := by
  intro l
  induction l with
  | nil =>
    intro out h
    obtain rfl := Except.ok.inj h
    exact .nil
  | cons a l ih =>
    intro out h
    rw [List.mapM_cons] at h
    cases ha : f a with
    | error e =>
      rw [ha] at h
      cases h
    | ok b =>
      rw [ha] at h
      cases hl : l.mapM f with
      | error e =>
        rw [hl] at h
        cases h
      | ok more =>
        rw [hl] at h
        obtain rfl := Except.ok.inj h
        exact .cons ha (ih hl)

/-- Each string that is returned is the text of a mount that was validated. -/
theorem validateExtraMounts_eq_ok (h : sys.validateExtraMounts mounts allowlistPath = .ok specs) :
    List.Forall₂ (fun mount spec => ∃ v, sys.Validated allowlistPath mount v ∧ spec = normalizedMount v) mounts specs := by
  unfold validateExtraMounts at h
  by_cases hnil : mounts = []
  · rw [if_pos hnil] at h
    obtain rfl := Except.ok.inj h
    rw [hnil]
    exact .nil
  rw [if_neg hnil] at h
  cases hload : sys.loadAllowlist (sys.expandPath allowlistPath) with
  | error e =>
    rw [hload] at h
    cases h
  | ok allowlist =>
    rw [hload] at h
    dsimp only at h
    by_cases hroots : allowlist.allowedRoots = []
    · rw [if_pos hroots] at h
      cases h
    rw [if_neg hroots] at h
    refine (mapM_eq_ok h).imp fun mount spec hspec => ?_
    cases hcheck : sys.checkMount (sys.expandPath allowlistPath) allowlist mount with
    | error e =>
      rw [hcheck] at hspec
      cases hspec
    | ok v =>
      rw [hcheck] at hspec
      obtain ⟨host, requested, root, hvalid⟩ := checkMount_eq_ok hcheck
      exact ⟨v, ⟨allowlist, host, requested, root, hload, hvalid⟩, (Except.ok.inj hspec).symm⟩

/-- A colon ends a path, so no path that is parsed has one. -/
theorem Validated.parsesBack_iff (hv : sys.Validated allowlistPath mount v) :
    ParsesBack (normalizedMount v) v ↔ CanonicalPath.Plain v.host := by
  obtain ⟨-, host, requested, root, -, hparse, -⟩ := hv
  exact MountSystem.parsesBack_iff (parseMountSpec_eq_ok_iff.mp hparse).2.2

theorem Validated.unique {w : ValidMount} (hv : sys.Validated allowlistPath mount v)
    (hw : sys.Validated allowlistPath mount w) : v = w := by
  obtain ⟨vhost, vcontainer, vflag⟩ := v
  obtain ⟨whost, wcontainer, wflag⟩ := w
  obtain ⟨la, ha, qa, ra, hloada, hparsea, hcanona, hroota, hflaga⟩ := hv
  obtain ⟨lb, hb, qb, rb, hloadb, hparseb, hcanonb, hrootb, hflagb⟩ := hw
  dsimp only at hparsea hparseb hcanona hcanonb hroota hrootb hflaga hflagb
  obtain rfl := Except.ok.inj (hloada.symm.trans hloadb)
  obtain ⟨rfl, rfl, rfl⟩ : ha = hb ∧ vcontainer = wcontainer ∧ qa = qb := by
    simpa using Except.ok.inj (hparsea.symm.trans hparseb)
  obtain rfl := Except.ok.inj (hcanona.symm.trans hcanonb)
  obtain rfl := Option.some.inj (hroota.symm.trans hrootb)
  rw [hflaga, hflagb]

theorem Validated.plainHost_iff (hv : sys.Validated allowlistPath mount v) :
    sys.PlainHost mount ↔ CanonicalPath.Plain v.host := by
  obtain ⟨-, host, requested, root, -, hparse, hcanonical, -⟩ := hv
  constructor
  · intro hplain
    exact hplain host v.container requested v.host hparse hcanonical
  · intro hplain host' container readOnly path hparse' hcanonical'
    obtain ⟨rfl, -⟩ : host = host' ∧ _ := by simpa using Except.ok.inj (hparse.symm.trans hparse')
    obtain rfl := Except.ok.inj (hcanonical.symm.trans hcanonical')
    exact hplain

/-- **The returned mounts keep their meaning exactly if every host path leads to a text without a colon.** -/
theorem validateExtraMounts_keeps_iff (h : sys.validateExtraMounts mounts allowlistPath = .ok specs) :
    List.Forall₂ (fun mount spec => ∃ v, sys.Validated allowlistPath mount v ∧ ParsesBack spec v) mounts specs ↔
      ∀ mount ∈ mounts, sys.PlainHost mount := by
  have hall := validateExtraMounts_eq_ok h
  constructor
  · intro hback
    have hplain : List.Forall₂ (fun mount _ => sys.PlainHost mount ∧ True) mounts specs := by
      refine List.Forall₂.mp (fun mount spec hspec hparses => ⟨?_, trivial⟩) hall hback
      obtain ⟨v, hv, rfl⟩ := hspec
      obtain ⟨w, hw, hparses⟩ := hparses
      obtain rfl := hv.unique hw
      exact hv.plainHost_iff.mpr (hv.parsesBack_iff.mp hparses)
    exact ((List.forall₂_and_left _ _).mp hplain).1
  · intro hplain
    have hboth := (List.forall₂_and_left _ _).mpr ⟨hplain, hall⟩
    refine hboth.imp fun mount spec hspec => ?_
    obtain ⟨hmount, v, hv, rfl⟩ := hspec
    exact ⟨v, hv, hv.parsesBack_iff.mpr (hv.plainHost_iff.mp hmount)⟩

/-- A system with a directory `/data` that may be written, and a link in it that leads to a directory beside it. -/
def linkSystem (target : Str) (htarget : IsFileName (encode target)) : MountSystem where
  homeDir := none
  pathExists _ := true
  canonicalize path :=
    if path = encode "/data".toList then .ok ⟨[encode "data".toList], by decide⟩
    else if path = encode "/data/link".toList then
      .ok ⟨[encode "data".toList, encode target], by simpa using ⟨by decide, htarget⟩⟩
    else .error "No such file or directory (os error 2)".toList
  metadata _ := .ok ⟨false, 2⟩
  readToString _ := .ok "\x7b\"allowedRoots\":[\x7b\"path\":\"/data\",\"allowReadWrite\":true\x7d]\x7d".toList
  parseAllowlist _ := .ok ⟨[⟨"/data".toList, true⟩], []⟩
  toLowercase s := s.map Char.toLower

theorem validateExtraMounts_keeps : List.Forall₂
    (fun mount spec => ∃ v, (linkSystem ['a'] (by decide)).Validated "/allow".toList mount v ∧ ParsesBack spec v)
    ["/data/link:/w".toList] ["/data/a:/w".toList] ↔
      ∀ mount ∈ ["/data/link:/w".toList], (linkSystem ['a'] (by decide)).PlainHost mount :=
  validateExtraMounts_keeps_iff (by decide)

/-- A directory with a colon in its name: the parser takes the last part of the mount for a mode. -/
theorem validateExtraMounts_loses :
    (linkSystem ['a', ':', 'b'] (by decide)).validateExtraMounts ["/data/link:/w".toList] "/allow".toList =
      .ok ["/data/a:b:/w".toList] ∧
    parseMountSpec "/data/a:b:/w".toList = .error (invalidMountMode "/w".toList) ∧
    ¬ List.Forall₂ (fun mount spec => ∃ v,
      (linkSystem ['a', ':', 'b'] (by decide)).Validated "/allow".toList mount v ∧ ParsesBack spec v)
        ["/data/link:/w".toList] ["/data/a:b:/w".toList] := by
  have hparse : parseMountSpec "/data/a:b:/w".toList = .error (invalidMountMode "/w".toList) := by decide
  refine ⟨by decide, hparse, ?_⟩
  intro hback
  obtain ⟨⟨v, -, host, hok, -⟩, -⟩ := List.forall₂_cons.mp hback
  rw [hparse] at hok
  cases hok

end Zeptoclaw.MountSystem

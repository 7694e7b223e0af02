import Zeptoclaw.Lib.Utf8

/-!
# A file that is replaced through a temporary one

Two names in a directory and the contents they stand for. A writer opens the temporary name, which truncates
what is there, writes at its own offset, and renames. `Writing` is what a writer knows that is alone
between its opening and its renaming: what it has written is all that is in its file, and
the other name stands for what it stood for.
-/

namespace Zeptoclaw

/-- The contents, and which of them the temporary name and the name itself stand for. -/
structure ReplacedFile where
  files : List Bytes
  tmp : Option ℕ
  path : Option ℕ
  tmp_lt : ∀ k, tmp = some k → k < files.length
  path_lt : ∀ k, path = some k → k < files.length
  path_ne : ∀ k, tmp = some k → path ≠ some k

/-- `chunk` at an offset; a gap before it is filled with zeros. -/
def overwrite (offset : ℕ) (chunk old : Bytes) : Bytes :=
  old.take offset ++ List.replicate (offset - old.length) 0 ++ chunk ++ old.drop (offset + chunk.length)

theorem overwrite_end (old chunk : Bytes) : overwrite old.length chunk old = old ++ chunk := by
  rw [overwrite, List.take_length, Nat.sub_self, List.replicate_zero, List.append_nil,
    List.drop_eq_nil_of_le (Nat.le_add_right _ _), List.append_nil]

namespace ReplacedFile

/-- Neither name is there. -/
def absent : ReplacedFile := ⟨[], none, none, fun _ h => (by cases h), fun _ h => (by cases h), fun _ h => (by cases h)⟩

/-- What is under the name. -/
def read (f : ReplacedFile) : Option Bytes := f.path.bind fun k => f.files[k]?

/-- Opens the temporary name for writing: a file that is there is truncated. -/
def openTmp (f : ReplacedFile) : ReplacedFile × ℕ :=
  match htmp : f.tmp with
  | some k =>
    (⟨f.files.set k [], f.tmp, f.path, by simpa using f.tmp_lt, by simpa using f.path_lt, f.path_ne⟩, k)
  | none =>
    (⟨f.files ++ [[]], some f.files.length, f.path, fun k hk => (by cases hk; simp),
      fun k hk => (by rw [List.length_append]; exact Nat.lt_add_right _ (f.path_lt k hk)),
      fun k hk hpath => (by cases hk; exact Nat.lt_irrefl _ (f.path_lt _ hpath))⟩, f.files.length)

/-- A write to an open file. -/
def write (f : ReplacedFile) (fd offset : ℕ) (chunk : Bytes) : ReplacedFile :=
  ⟨f.files.modify fd (overwrite offset chunk), f.tmp, f.path, by simpa using f.tmp_lt, by simpa using f.path_lt, f.path_ne⟩

/-- The temporary name becomes the name; it fails if it is not there. -/
def rename (f : ReplacedFile) : Option ReplacedFile :=
  match htmp : f.tmp with
  | none => none
  | some k =>
    some ⟨f.files, none, some k, fun _ h => (by cases h), fun j hj => (by cases hj; exact f.tmp_lt k htmp),
      fun _ h => (by cases h)⟩

/-- A writer that is alone: its file is the temporary one, with what it has written. -/
def Writing (f : ReplacedFile) (fd : ℕ) (written : Bytes) : Prop := f.tmp = some fd ∧ f.files[fd]? = some written

variable {f : ReplacedFile} {fd : ℕ} {written : Bytes}

theorem openTmp_writing (f : ReplacedFile) : f.openTmp.1.Writing f.openTmp.2 [] := by
  unfold openTmp
  split
  · next k htmp => exact ⟨htmp, by simp [f.tmp_lt k htmp]⟩
  · next htmp => exact ⟨rfl, by simp⟩

theorem read_openTmp (f : ReplacedFile) : f.openTmp.1.read = f.read := by
  unfold openTmp
  split
  · next k htmp =>
    refine Option.bind_congr fun j hj => ?_
    have hne : k ≠ j := fun heq => f.path_ne k htmp (heq ▸ hj)
    exact List.getElem?_set_ne hne
  · next htmp => exact Option.bind_congr fun j hj => List.getElem?_append_left (f.path_lt j hj)

theorem Writing.write (h : f.Writing fd written) (chunk : Bytes) :
    (f.write fd written.length chunk).Writing fd (written ++ chunk) := by
  refine ⟨h.1, ?_⟩
  change (f.files.modify fd (overwrite written.length chunk))[fd]? = _
  rw [List.getElem?_modify_eq, h.2, Option.map_eq_map, Option.map_some, overwrite_end]

theorem Writing.read_write (h : f.Writing fd written) (offset : ℕ) (chunk : Bytes) :
    (f.write fd offset chunk).read = f.read := by
  refine Option.bind_congr fun j hj => ?_
  have hne : fd ≠ j := fun heq => f.path_ne fd h.1 (heq ▸ hj)
  exact List.getElem?_modify_ne _ _ hne

/-- **A writer that was alone leaves what it wrote.** -/
theorem Writing.rename (h : f.Writing fd written) : ∃ f', f.rename = some f' ∧ f'.read = some written := by
  unfold ReplacedFile.rename
  split
  · next htmp =>
    rw [h.1] at htmp
    cases htmp
  · next k htmp =>
    rw [h.1] at htmp
    cases htmp
    exact ⟨_, rfl, h.2⟩

end ReplacedFile

end Zeptoclaw

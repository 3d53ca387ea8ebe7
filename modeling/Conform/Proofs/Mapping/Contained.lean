import Conform.Mapping.Repository
import Conform.Proofs.FileTree
import Conform.Proofs.Path.Within
import Conform.Proofs.Schema.Batch

/-! Where the manifest of a repository is looked for. Both tests of whether a path lies in a directory come down to
the names of the two, and a manifest is looked for at one path, which passes the first of them: it is refused before
anything is read, or nothing but the file at that path is read, and that stands in the repository. -/
namespace Conform

namespace Path

variable {cwd p q : Text}

/-- Of a path that does not start at the root only the names matter. -/
theorem names_absolute_congr (hLeft : isAbsolute p = false) (hRight : isAbsolute q = false) (h : names p = names q)
    (cwd : Text) : names (absolute cwd p) = names (absolute cwd q) := by
  have hRelative : ∀ {p : Text}, isAbsolute p = false →
      names (absolute cwd p) = resolveUp (isAbsolute cwd) (names cwd ++ names p) := by
    intro p hStart
    rw [absolute, if_neg (by simp [hStart]), names_normal, isAbsolute_join hStart, names_join hStart]
  rw [hRelative hLeft, hRelative hRight, h]

end Path

namespace Files

theorem look_of_read {fs : Files} {path : Text} {bs : Bytes} (h : fs.read path = .ok bs) :
    fs.look path = .ok (.file bs) := by
  obtain ⟨t, hLook, h⟩ := exists_of_bind_ok h
  cases t with
  | file content =>
      obtain rfl := Except.ok.inj h
      exact hLook
  | directory es => cases h

end Files

namespace Mapping.Repository

variable {fs : Files} {s : Schema.Compiled} {cwd root manifest path : Text}

/-- Whether a manifest is refused for its path, before anything is read. -/
def IsPathRefusal (f : Failure) : Prop :=
  (∃ raw, f = .manifestPathTraversal raw) ∨ ∃ path root, f = .manifestOutside path root

/-- What there is to say of the path at which a manifest is looked for. -/
structure LoadsFrom (fs : Files) (s : Schema.Compiled) (root manifest path : Text) : Prop where
  /-- It lies in the repository. -/
  within : fs.place root <+: fs.place path
  /-- What else there is makes no difference. -/
  only : ∀ fs' : Files, fs'.cwd = fs.cwd → fs'.read path = fs.read path →
    load fs' s root manifest = load fs s root manifest
  /-- The file that is read stands at the place of the path, and the manifest is the one in it. -/
  stands : ∀ bs, fs.read path = .ok bs → FileTree.at? (fs.place path) fs.root = some (.file bs) ∧
    load fs s root manifest = (parse s path bs).map fun m => ⟨some (path, m), Manifest.builtin.merge m, []⟩

/-- A path is refused for what it is, or the names of the repository are the first of its own. -/
theorem pathIn_cases (cwd root manifest : Text) :
    (∃ f, pathIn cwd root manifest = .error f ∧ IsPathRefusal f) ∨
      ∃ path, pathIn cwd root manifest = .ok path ∧
        Path.names (Path.absolute cwd root) <+: Path.names (Path.absolute cwd path) := by
  cases hRun : pathIn cwd root manifest with
  | error f =>
      refine .inl ⟨f, rfl, ?_⟩
      rcases cases_of_bind_error hRun with hClean | ⟨clean, -, hRun⟩
      · obtain ⟨_, -, rfl⟩ := exists_of_mapError_error hClean
        exact .inl ⟨manifest, rfl⟩
      · dsimp only at hRun
        split at hRun
        · cases hRun
        · obtain rfl := Except.error.inj hRun
          exact .inr ⟨_, _, rfl⟩
  | ok path =>
      obtain ⟨clean, -, hRun⟩ := exists_of_bind_ok hRun
      dsimp only at hRun
      split at hRun
      · next hWithin =>
          obtain rfl := Except.ok.inj hRun
          exact .inr ⟨_, rfl, Path.names_prefix_of_ensureWithin hWithin⟩
      · cases hRun

/-- A repository without a name is the directory that paths are read in. -/
theorem place_dot (fs : Files) (root : Text) :
    fs.place (if root.isEmpty then Text.ofString "." else root) = fs.place root := by
  cases root with
  | nil => exact Path.names_absolute_congr (p := Text.ofString ".") (q := []) rfl rfl rfl fs.cwd
  | cons c rest => rfl

/-- Once it is known where the manifest is looked for, nothing else is read. -/
theorem load_of_path (hPath : pathIn fs.cwd (if root.isEmpty then Text.ofString "." else root)
      (if manifest.isEmpty then usualPath else manifest) = .ok path) :
    load fs s root manifest = match fs.read path with
      | .ok bs => (parse s path bs).map fun m => ⟨some (path, m), Manifest.builtin.merge m, []⟩
      | .error (.access .missing _) => .ok ⟨none, .builtin, [missing path]⟩
      | .error f => .error (if f.isAccess then .manifestUnreadable path f else f) := by
  rw [load]
  refine (bind_of_ok hPath).trans ?_
  cases fs.read path with
  | ok bs => cases parse s path bs <;> rfl
  | error f => cases f with
    | access fault p => cases fault <;> rfl
    | _ => rfl

/-- A manifest is refused for its path, or it is looked for at one path, in the repository. -/
theorem load_cases (hCwd : Path.isAbsolute fs.cwd = true) (s : Schema.Compiled) (root manifest : Text) :
    (∃ f, load fs s root manifest = .error f ∧ IsPathRefusal f) ∨ ∃ path, LoadsFrom fs s root manifest path := by
  rcases pathIn_cases fs.cwd (if root.isEmpty then Text.ofString "." else root)
    (if manifest.isEmpty then usualPath else manifest) with ⟨f, hFails, hRefusal⟩ | ⟨path, hPath, hWithin⟩
  · refine .inl ⟨f, ?_, hRefusal⟩
    rw [load]
    exact congrArg (· >>= _) hFails
  · refine .inr ⟨path, ?_, fun fs' hSame hRead => ?_, fun bs hRead => ⟨?_, ?_⟩⟩
    · rw [← place_dot]
      exact hWithin
    · rw [load_of_path hPath, load_of_path (hSame ▸ hPath), hRead]
    · exact Files.at?_place_of_look hCwd (Files.look_of_read hRead)
    · rw [load_of_path hPath, hRead]

/-- Both tests of where a path lies are about the first names of it, and a manifest never comes from outside of its
repository. -/
theorem load_stays_within (hCwd : Path.isAbsolute fs.cwd = true) :
    (∀ root target, Path.IsPlain root → Path.IsPlain target →
      Path.ensureWithin fs.cwd root target = (if Path.names root <+: Path.names target then .ok target
        else .error (.escapesRoot target root)) ∧
      (Path.isWithin fs.cwd target root = true → Path.names root <+: Path.names target) ∧
      ((∀ n ∈ Path.names target, Text.startsWith n ".." = false) →
        (Path.isWithin fs.cwd target root = true ↔ Path.names root <+: Path.names target))) ∧
    ∀ s root manifest, (∃ f, load fs s root manifest = .error f ∧ IsPathRefusal f) ∨
      ∃ path, LoadsFrom fs s root manifest path := by
  refine ⟨fun root target hRoot hTarget => ?_, load_cases hCwd⟩
  have hWithin : Path.isWithin fs.cwd target root = true → Path.names root <+: Path.names target := by
    intro h
    have hNames := Path.prefix_of_isWithin h
    rwa [hRoot.absolute_eq, hTarget.absolute_eq] at hNames
  refine ⟨hRoot.ensureWithin_eq hTarget fs.cwd, hWithin, fun hDots => ⟨hWithin, fun h => ?_⟩⟩
  apply Path.isWithin_of_prefix
  · rwa [hRoot.absolute_eq, hTarget.absolute_eq]
  · rwa [hTarget.absolute_eq]

/-- Two directories, one with a name that begins like that of the other. -/
def neighbours : Files where
  root := .directory [("repo", .directory [("m.yaml", .file (Text.utf8 "config: \x7b\x7d"))]),
    ("repo2", .directory [("m.yaml", .file [])])]
  cwd := "/"

theorem load_stays_within_neighbours : ∃ s r path, Path.isAbsolute neighbours.cwd = true ∧
    Schema.Compiled.read false true Schema.Batch.anything = .ok s ∧
    load neighbours s "repo" "m.yaml" = .ok r ∧ LoadsFrom neighbours s "repo" "m.yaml" path ∧
    Path.IsPlain "/repo" ∧ Path.IsPlain "/repo2" ∧ Path.IsPlain "/repo/m.yaml" ∧
    Path.ensureWithin "/" "/repo" "/repo2" = .error (.escapesRoot "/repo2" "/repo") ∧
    Path.ensureWithin "/" "/repo" "/repo/m.yaml" = .ok "/repo/m.yaml" ∧
    Path.isWithin "/" "/repo/m.yaml" "/repo" = true := by
  have hCwd : Path.isAbsolute neighbours.cwd = true := by decide
  have hRun : ((Schema.Compiled.read false true Schema.Batch.anything).toOption.any fun s =>
      (load neighbours s "repo" "m.yaml").toOption.any fun r => r.own.isSome) = true := by
    decide +kernel
  obtain ⟨s, hSchema, hRun⟩ := exists_of_any hRun
  obtain ⟨r, hLoad, -⟩ := exists_of_any hRun
  obtain ⟨hTests, hLoads⟩ := load_stays_within hCwd
  obtain ⟨path, hPath⟩ : ∃ path, LoadsFrom neighbours s "repo" "m.yaml" path := by
    rcases hLoads s "repo" "m.yaml" with ⟨f, hFails, -⟩ | hPath
    · cases hLoad.symm.trans hFails
    · exact hPath
  have hRoot : Path.IsPlain "/repo" := ⟨by decide, by decide⟩
  have hOther : Path.IsPlain "/repo2" := ⟨by decide, by decide⟩
  have hFile : Path.IsPlain "/repo/m.yaml" := ⟨by decide, by decide⟩
  obtain ⟨hRefused, -⟩ := hTests _ _ hRoot hOther
  obtain ⟨hReturned, -, hSame⟩ := hTests _ _ hRoot hFile
  rw [if_neg (by decide)] at hRefused
  rw [if_pos (by decide)] at hReturned
  exact ⟨s, r, path, hCwd, hSchema, hLoad, hPath, hRoot, hOther, hFile, hRefused, hReturned,
    (hSame (by decide)).mpr (by decide)⟩

end Mapping.Repository
end Conform

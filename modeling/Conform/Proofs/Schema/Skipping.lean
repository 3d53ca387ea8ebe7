import Conform.Proofs.FileTree.Removal
import Conform.Proofs.Schema.Scan
import Conform.Schema.Compiled
import Mathlib

/-! Files that are no schemas in the way of a scan. A scan passes over a file in no language and over one without a
name, so it comes to the same without them. All else that may be wrong with a file ends the scan. -/
namespace Conform

namespace Files

open FileTree

variable {fs : Files} {path p : Text} {t : FileTree} {content : Bytes} (hCwd : Path.up ∉ Path.names fs.cwd)
  (hFile : at? (fs.place path) fs.root = some (file content))

include hCwd hFile

/-- A path that leads elsewhere leads to a directory after a removal just if it did before. -/
theorem isDirectory_delete (hUp : Path.up ∉ Path.names p) (hApart : fs.place p ≠ fs.place path) :
    (fs.delete path).exists_ p = fs.exists_ p ∧ (fs.delete path).isDirectory p = fs.isDirectory p := by
  unfold exists_ isDirectory
  cases hLook : fs.look p with
  | error f =>
      obtain ⟨f', hLook'⟩ := look_delete_error hCwd hFile hUp hLook
      rw [hLook']
      exact ⟨rfl, rfl⟩
  | ok u =>
      obtain ⟨u', hLook', hCases⟩ := look_delete hCwd hFile hUp hApart hLook
      rw [hLook']
      refine ⟨rfl, ?_⟩
      rcases hCases with ⟨-, rfl⟩ | ⟨rest, hSome, hPlace, rfl⟩
      · rfl
      · obtain ⟨name, rest, rfl⟩ := List.exists_cons_of_ne_nil hSome
        rw [hPlace, at?_append, at?_of_look hCwd hUp hLook] at hFile
        obtain ⟨es, -, rfl, -, -⟩ := exists_of_at?_cons hFile
        exact isDirectory_remove _ _ _

end Files

namespace Schema

variable {strip : Bool} {content : Bytes} {f : Failure}

namespace Parsed

/-- What is kept of a document that is read as a schema. -/
def kept (strip : Bool) (d : Document) : Document := if strip then withoutDeclaration d else d

/-- Bytes have no reading for one reason: they are YAML, and a scalar in them is not what it is said to be. -/
theorem document_eq_error_iff : Document.read? content = .error f ↔
    ∃ fault, fault ≠ .malformed ∧ Yaml.Value.read false content = .error fault ∧ f = .scalar fault := by
  rw [Document.read?]
  cases Yaml.Value.read false content with
  | ok v => simp
  | error fault => cases fault <;> simp [eq_comm]

/-- Why bytes may be no schema: they are in no language, they have no reading, or what they hold has no canonical
text. -/
theorem read_eq_error_iff : read strip content = .error f ↔
    (Document.read? content = .ok none ∧ f = .malformedSchema) ∨ Document.read? content = .error f ∨
      ∃ d format, Document.read? content = .ok (some (d, format)) ∧ (kept strip d).canonical = .error f := by
  have hDocument : ∀ d, ofDocument strip d = .error f ↔ (kept strip d).canonical = .error f := by
    intro d
    have hBind : ofDocument strip d = (kept strip d).canonical.map fun normalized =>
        ⟨kept strip d, idOf (kept strip d), normalized, (d.get? "$schema").bind Document.text?⟩ := rfl
    rw [hBind]
    cases (kept strip d).canonical <;> simp [Except.map]
  rw [read]
  cases hRead : Document.read? content with
  | error f' => simp [bind, Except.bind]
  | ok found =>
      cases found with
      | none => simp [bind, Except.bind, throw, throwThe, MonadExceptOf.throw, eq_comm]
      | some r =>
          obtain ⟨d, format⟩ := r
          simp [bind, Except.bind, hDocument]

end Parsed

namespace Index

variable {fs : Files} {dirs : List Text} {seed : Index} {path raw : Text}

/-- Whether a scan goes on after a file with the content as if there was none. -/
def Skips (strip : Bool) (content : Bytes) : Prop :=
  Parsed.read strip content = .error .malformedSchema ∨ ∃ p, Parsed.read strip content = .ok p ∧ p.id = []

theorem passedOver_of_skips (h : Skips strip content) (path : Text) :
    ∃ reason, visitContent strip path content = .passedOver path reason := by
  unfold visitContent
  rcases h with hMalformed | ⟨p, hRead, hId⟩
  · rw [hMalformed]
    exact ⟨_, rfl⟩
  · rw [hRead]
    dsimp only
    rw [hId]
    exact ⟨_, rfl⟩

theorem blocked_of_read (hRead : Parsed.read strip content = .error f) (hOther : f ≠ .malformedSchema) (path : Text) :
    visitContent strip path content = .blocked f := by
  unfold visitContent
  rw [hRead]
  cases f <;> first | rfl | exact absurd rfl hOther

/-- Whether a scan comes to the place of a path by the path `p`. -/
def MeetsAt (fs : Files) (dirs : List Text) (path p : Text) : Prop :=
  ∃ raw ∈ dirs, ∃ dir, directory fs raw = .ok dir ∧ p ∈ fs.walk dir ∧ isSchemaFile p = true ∧
    fs.place p = fs.place path

/-- Whether a scan comes to a file. -/
def Meets (fs : Files) (dirs : List Text) (path : Text) : Prop := ∃ p, MeetsAt fs dirs path p

/-- Whether a file is not itself given as a directory, and is read wherever a scan comes to it. -/
structure Lies (fs : Files) (dirs : List Text) (path : Text) : Prop where
  apart : ∀ raw ∈ dirs, ∀ dir, Path.clean raw = .ok dir → fs.place dir ≠ fs.place path
  reads : ∀ p, MeetsAt fs dirs path p → (fs.read p).isOk = true

theorem directory_ok {dir : Text} (h : directory fs raw = .ok dir) : ∃ d, Path.clean raw = .ok d ∧ dir = Path.tidy d ∧
    Path.up ∉ Path.names dir := by
  unfold directory at h
  rcases Path.clean_cases raw with ⟨d, hClean, hDots⟩ | ⟨hClean, -⟩
  · rw [hClean] at h
    simp only [Except.mapError, bind, Except.bind, pure, Except.pure] at h
    split at h <;> first | cases h | skip
    split at h <;> cases h
    refine ⟨d, hClean, rfl, ?_⟩
    rw [Path.names_tidy]
    exact Path.up_not_mem_names hDots
  · rw [hClean] at h
    cases h

theorem place_tidy (hCwd : Path.up ∉ Path.names fs.cwd) {d : Text} (hUp : Path.up ∉ Path.names d) :
    fs.place (Path.tidy d) = fs.place d := by
  have hUp' : Path.up ∉ Path.names (Path.tidy d) := by rwa [Path.names_tidy]
  rw [Files.place, Files.place, Path.names_absolute hCwd hUp, Path.names_absolute hCwd hUp', Path.names_tidy,
    Path.isAbsolute_tidy]

/-- A step that changes nothing may be left out, and one that fails in one of some ways may only make the rest fail
so. -/
theorem foldlM_visitFile_filter {fs' : Files} {keep : Text → Bool} {Ends : Failure → Prop} :
    ∀ (ps : List Text) (ix : Index),
      (∀ p ∈ ps, keep p = true → visitFile fs' strip p = visitFile fs strip p) →
      (∀ p ∈ ps, isSchemaFile p = true → keep p = false → ∀ ix,
        accept ix (visitFile fs strip p) = .ok ix ∨ ∃ f, Ends f ∧ accept ix (visitFile fs strip p) = .error f) →
      ((ps.filter isSchemaFile).map (visitFile fs strip)).foldlM accept ix =
        (((ps.filter keep).filter isSchemaFile).map (visitFile fs' strip)).foldlM accept ix ∨
      ∃ f, Ends f ∧ ((ps.filter isSchemaFile).map (visitFile fs strip)).foldlM accept ix = .error f
  | [], _, _, _ => .inl rfl
  | p :: ps, ix, hKept, hDropped => by
    have ih := fun ix => foldlM_visitFile_filter ps ix (fun q hq => hKept q (.tail _ hq))
      (fun q hq => hDropped q (.tail _ hq))
    by_cases hKind : isSchemaFile p = true
    · rw [List.filter_cons_of_pos hKind, List.map_cons, List.foldlM_cons]
      cases hKeep : keep p with
      | false =>
          rw [List.filter_cons_of_neg (by rw [hKeep]; decide)]
          rcases hDropped p (.head _) hKind hKeep ix with hOver | ⟨f, hEnds, hFails⟩
          · rw [hOver]
            exact ih ix
          · rw [hFails]
            exact .inr ⟨f, hEnds, rfl⟩
      | true =>
          rw [List.filter_cons_of_pos hKeep, List.filter_cons_of_pos hKind, List.map_cons, List.foldlM_cons,
            hKept p (.head _) hKeep]
          cases accept ix (visitFile fs strip p) with
          | error f => exact .inl rfl
          | ok ix' => exact ih ix'
    · rw [List.filter_cons_of_neg hKind]
      cases hKeep : keep p with
      | false =>
          rw [List.filter_cons_of_neg (by rw [hKeep]; decide)]
          exact ih ix
      | true =>
          rw [List.filter_cons_of_pos hKeep, List.filter_cons_of_neg hKind]
          exact ih ix

section Removal

variable (hProper : fs.Proper) (hCwd : Path.up ∉ Path.names fs.cwd)
  (hFile : FileTree.at? (fs.place path) fs.root = some (.file content))

include hCwd hFile in
theorem directory_delete (hApart : ∀ dir, Path.clean raw = .ok dir → fs.place dir ≠ fs.place path) :
    directory (fs.delete path) raw = directory fs raw := by
  unfold directory
  rcases Path.clean_cases raw with ⟨d, hClean, hDots⟩ | ⟨hClean, -⟩
  · obtain ⟨hExists, hDirectory⟩ :=
      Files.isDirectory_delete hCwd hFile (Path.up_not_mem_names hDots) (hApart d hClean)
    rw [hClean]
    simp only [Except.mapError, bind, Except.bind, hExists, hDirectory]
  · rw [hClean]
    rfl

include hProper hCwd hFile

/-- A scan that comes to the file meets what its content makes of it. -/
theorem visitFile_eq (hLies : Lies fs dirs path) {p : Text} (hMeets : MeetsAt fs dirs path p) :
    visitFile fs strip p = visitContent strip p content := by
  obtain ⟨bs, hRead⟩ := exists_of_isOk (hLies.reads p hMeets)
  obtain ⟨raw, -, dir, hDir, hMem, -, hHere⟩ := hMeets
  obtain ⟨-, -, -, hUp⟩ := directory_ok hDir
  have hLimit : Files.limit? p = none := by
    cases hLimit : Files.limit? p with
    | none => rfl
    | some f =>
        rw [Files.read, Files.look_eq, hLimit] at hRead
        cases hRead
  obtain ⟨content', hLook, hAt⟩ := Files.look_of_mem_walk hProper hCwd hUp hMem hLimit
  rw [hHere, hFile] at hAt
  obtain rfl : content = content' := FileTree.file.inj (Option.some.inj hAt)
  rw [visitFile, Files.read, hLook]
  rfl

variable (hApart : ∀ raw ∈ dirs, ∀ dir, Path.clean raw = .ok dir → fs.place dir ≠ fs.place path)
  {Ends : Failure → Prop} (hDropped : ∀ p, MeetsAt fs dirs path p → ∀ ix,
    accept ix (visitFile fs strip p) = .ok ix ∨ ∃ f, Ends f ∧ accept ix (visitFile fs strip p) = .error f)

include hApart hDropped

theorem foldlM_visitDirectory_delete (hRaw : raw ∈ dirs) (ix : Index) :
    (visitDirectory fs strip raw).foldlM accept ix = (visitDirectory (fs.delete path) strip raw).foldlM accept ix ∨
      ∃ f, Ends f ∧ (visitDirectory fs strip raw).foldlM accept ix = .error f := by
  rw [visitDirectory, visitDirectory, directory_delete hCwd hFile (hApart raw hRaw)]
  cases hDir : directory fs raw with
  | error f => exact .inl rfl
  | ok dir =>
      obtain ⟨d, hClean, rfl, hUp⟩ := directory_ok hDir
      have hHere : fs.place (Path.tidy d) ≠ fs.place path := by
        rw [Path.names_tidy] at hUp
        rw [place_tidy hCwd hUp]
        exact hApart raw hRaw d hClean
      dsimp only
      rw [Files.walk_delete hProper hCwd hUp hFile hHere]
      refine foldlM_visitFile_filter _ ix (fun p hMem hKeep => ?_) fun p hMem hKind hKeep => ?_
      · rw [visitFile, visitFile, Files.read_delete hProper hCwd hUp hFile hMem (bne_iff_ne.mp hKeep)]
      · exact hDropped p ⟨raw, hRaw, _, hDir, hMem, hKind, by simpa using hKeep⟩

/-- A scan with the file is the scan without it, or the file ends it. -/
theorem scan_delete : scan fs dirs seed strip = scan (fs.delete path) dirs seed strip ∨
    ∃ f, Ends f ∧ scan fs dirs seed strip = .error f := by
  have hPart : ∀ raws ⊆ dirs, ∀ ix : Index,
      (visits fs raws strip).foldlM accept ix = (visits (fs.delete path) raws strip).foldlM accept ix ∨
        ∃ f, Ends f ∧ (visits fs raws strip).foldlM accept ix = .error f := by
    intro raws hSub
    induction raws with
    | nil => exact fun _ => .inl rfl
    | cons raw rest ih =>
        intro ix
        obtain ⟨hRaw, hRest⟩ := List.cons_subset.mp hSub
        rw [visits, visits, List.flatMap_cons, List.flatMap_cons, List.foldlM_append, List.foldlM_append]
        rcases foldlM_visitDirectory_delete hProper hCwd hFile hApart hDropped hRaw ix with hSame | ⟨f, hEnds, hFails⟩
        · rw [← hSame]
          cases (visitDirectory fs strip raw).foldlM accept ix with
          | error f => exact .inl rfl
          | ok ix' => exact ih hRest ix'
        · rw [hFails]
          exact .inr ⟨f, hEnds, rfl⟩
  exact hPart dirs (List.Subset.refl dirs) seed

omit hApart hDropped

/-- A file that is passed over might as well not be there. -/
theorem scan_delete_of_skips (hLies : Lies fs dirs path) (hSkips : Skips strip content) :
    scan fs dirs seed strip = scan (fs.delete path) dirs seed strip := by
  have hDropped : ∀ p, MeetsAt fs dirs path p → ∀ ix, accept ix (visitFile fs strip p) = .ok ix ∨
      ∃ f, False ∧ accept ix (visitFile fs strip p) = .error f := by
    intro p hMeets ix
    obtain ⟨reason, hOver⟩ := passedOver_of_skips hSkips p
    rw [visitFile_eq hProper hCwd hFile hLies hMeets, hOver]
    exact .inl rfl
  exact (scan_delete hProper hCwd hFile hLies.apart hDropped).resolve_right fun ⟨_, hNone, _⟩ => hNone

/-- A scan that does not come to a file does not depend on it. -/
theorem scan_delete_of_not_meets (hLies : Lies fs dirs path) (hNot : ¬ Meets fs dirs path) :
    scan fs dirs seed strip = scan (fs.delete path) dirs seed strip := by
  have hDropped : ∀ p, MeetsAt fs dirs path p → ∀ ix, accept ix (visitFile fs strip p) = .ok ix ∨
      ∃ f, False ∧ accept ix (visitFile fs strip p) = .error f := fun p hMeets => absurd ⟨p, hMeets⟩ hNot
  exact (scan_delete hProper hCwd hFile hLies.apart hDropped).resolve_right fun ⟨_, hNone, _⟩ => hNone

/-- A file that makes no schema and is not passed over ends every scan that comes to it. -/
theorem scan_of_meets (hLies : Lies fs dirs path) (hRead : Parsed.read strip content = .error f)
    (hOther : f ≠ .malformedSchema) (hMeets : Meets fs dirs path) : scan fs dirs seed strip = .error f ∨
      ∃ f', scan (fs.delete path) dirs seed strip = .error f' ∧ scan fs dirs seed strip = .error f' := by
  have hBlocked : ∀ p, MeetsAt fs dirs path p → visitFile fs strip p = .blocked f := by
    intro p hMeets
    rw [visitFile_eq hProper hCwd hFile hLies hMeets, blocked_of_read hRead hOther]
  have hDropped : ∀ p, MeetsAt fs dirs path p → ∀ ix, accept ix (visitFile fs strip p) = .ok ix ∨
      ∃ f', f' = f ∧ accept ix (visitFile fs strip p) = .error f' := by
    intro p hMeets ix
    rw [hBlocked p hMeets]
    exact .inr ⟨f, rfl, rfl⟩
  have hScans : scan fs dirs seed strip = scan (fs.delete path) dirs seed strip ∨
      ∃ f', f' = f ∧ scan fs dirs seed strip = .error f' := scan_delete hProper hCwd hFile hLies.apart hDropped
  rcases hScans with hSame | ⟨_, rfl, hFails⟩
  · cases hScan : scan fs dirs seed strip with
    | error f' => exact .inr ⟨f', hSame.symm.trans hScan, rfl⟩
    | ok ix =>
        obtain ⟨p, hMeets⟩ := hMeets
        have hVisit : visitFile fs strip p ∈ visits fs dirs strip := by
          obtain ⟨raw, hRaw, dir, hDir, hMem, hKind, -⟩ := hMeets
          refine List.mem_flatMap.mpr ⟨raw, hRaw, ?_⟩
          rw [visitDirectory, hDir]
          exact List.mem_map_of_mem (List.mem_filter.mpr ⟨hMem, hKind⟩)
        have hOpen := readable_of_scan hScan _ hVisit
        rw [hBlocked p hMeets] at hOpen
        cases hOpen
  · exact .inl hFails

end Removal

/-! ### A file beside a schema -/

/-- A schema in one directory and a file in another. -/
def beside (content : Bytes) : Files :=
  (Files.write ⟨.directory [], "/"⟩ "one/a.json" (Text.utf8 "\x7b\"$id\": \"https://x/a\"\x7d")).write
    "two/b.yaml" content

/-- The two directories. -/
def twoNames : List Text := ["one", "two"]

theorem proper_beside (content : Bytes) : (beside content).Proper :=
  (Files.Proper.write ⟨FileTree.proper_empty, by decide⟩ _ _).write _ _

theorem at?_beside (content : Bytes) :
    FileTree.at? ((beside content).place "two/b.yaml") (beside content).root = some (.file content) := by
  have hNames : Path.names (Path.absolute "/" "two/b.yaml") = [Text.ofString "two", Text.ofString "b.yaml"] := by
    decide +kernel
  have hPlace : (beside content).place "two/b.yaml" = [Text.ofString "two", Text.ofString "b.yaml"] := hNames
  rw [hPlace]
  cbv

theorem clean_twoNames {d : Text} (hRaw : raw ∈ twoNames) (hClean : Path.clean raw = .ok d) : d = raw ∧
    Path.tidy raw = raw ∧ Path.names (Path.absolute "/" raw) ≠ Path.names (Path.absolute "/" "two/b.yaml") := by
  have hNames : ∀ raw ∈ twoNames, (Path.clean raw).toOption = some raw ∧ Path.tidy raw = raw ∧
      Path.names (Path.absolute "/" raw) ≠ Path.names (Path.absolute "/" "two/b.yaml") := by decide +kernel
  obtain ⟨hSome, hRest⟩ := hNames raw hRaw
  rw [hClean] at hSome
  exact ⟨Option.some.inj hSome, hRest⟩

theorem lies_beside (content : Bytes) : Lies (beside content) twoNames "two/b.yaml" where
  apart raw hRaw dir hClean := by
    obtain ⟨rfl, -, hElse⟩ := clean_twoNames hRaw hClean
    exact hElse
  reads p := by
    rintro ⟨raw, hRaw, dir, hDir, hMem, -, hHere⟩
    obtain ⟨d, hClean, hTidy, -⟩ := directory_ok hDir
    obtain ⟨rfl, hSame, -⟩ := clean_twoNames hRaw hClean
    rw [hTidy, hSame] at hMem
    have hFirst : (beside content).walk "one" = [Text.ofString "one/a.json"] := by cbv
    have hSecond : (beside content).walk "two" = [Text.ofString "two/b.yaml"] := by cbv
    have hRead : (beside content).read "two/b.yaml" = .ok content := by cbv
    have hElse : Path.names (Path.absolute "/" "one/a.json") ≠ Path.names (Path.absolute "/" "two/b.yaml") := by
      decide +kernel
    simp only [twoNames, List.mem_cons, List.not_mem_nil, or_false] at hRaw
    rcases hRaw with hRaw | hRaw
    · rw [hRaw, hFirst, List.mem_singleton] at hMem
      rw [hMem] at hHere
      exact absurd hHere hElse
    · rw [hRaw, hSecond, List.mem_singleton] at hMem
      rw [hMem, hRead]
      rfl

/-- Bytes in no language. -/
def unclosed : Bytes := Text.utf8 "["

/-- A scalar that is said to be a number and is none. -/
def notNumber : Bytes := Text.utf8 "n: !!int many"

end Index
end Schema
end Conform

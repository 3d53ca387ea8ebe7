import Conform.Proofs.FileTree.Walk
import Conform.Suite.Discovery

/-! Files that are discovered. Each is told by the way to it from the repository, and no two files of a tree have
one way. -/
namespace Conform.Suite

variable {fs : Files} {root dataRoot : Text} {exclude paths : List Text}

/-- The files with data among those that a walk has found, as seen from the repository. -/
def kept (fs : Files) (root : Text) (exclude found : List Text) : List Text :=
  ((found.filter fun p => hasDataEnding (Path.name p)).map fun p =>
    Path.normal (Path.relative fs.cwd p root)).filter fun p => !Glob.acceptsAny exclude p

/-- Discovered files were found by a walk and are not left out. -/
theorem discover_eq_ok_iff : discover fs root dataRoot exclude = .ok paths ↔
    ∃ clean, Path.clean dataRoot = .ok clean ∧ fs.isDirectory (Path.absolute fs.cwd clean) = true ∧
      kept fs root exclude (fs.walk (Path.absolute fs.cwd clean)) = paths := by
  unfold discover
  cases hClean : Path.clean dataRoot with
  | error f => exact iff_of_false nofun nofun
  | ok clean =>
      have hMapped : ((.ok clean : Except Failure Text).mapError fun _ => Failure.suiteRootTraversal dataRoot) =
          .ok clean := rfl
      rw [bind_of_ok hMapped]
      dsimp only
      rcases hDir : fs.isDirectory (Path.absolute fs.cwd clean) with _ | _
      · refine iff_of_false nofun ?_
        rintro ⟨_, hSame, hTrue, -⟩
        obtain rfl := Except.ok.inj hSame
        exact Bool.false_ne_true (hDir.symm.trans hTrue)
      · constructor
        · exact fun h => ⟨clean, rfl, hDir, Except.ok.inj h⟩
        · rintro ⟨_, hSame, -, rfl⟩
          obtain rfl := Except.ok.inj hSame
          rfl

/-- No file is discovered twice. -/
theorem nodup_of_discover (hFiles : fs.Proper) (h : discover fs root dataRoot exclude = .ok paths) : paths.Nodup := by
  obtain ⟨clean, -, -, rfl⟩ := discover_eq_ok_iff.mp h
  have hBelow := hFiles.below_walk (Path.absolute fs.cwd clean)
  have hNames : ∀ p ∈ fs.walk (Path.absolute fs.cwd clean),
      Path.up ∉ Path.names p ∧ Path.names (Path.absolute fs.cwd p) = Path.names p := by
    intro p hMem
    obtain ⟨n, rest, hNames, hRest⟩ := hBelow.names p hMem
    have hUp : Path.up ∉ Path.names p := by
      rw [hNames]
      exact fun hMem => (List.mem_append.mp hMem).elim (Path.up_not_mem_absolute hFiles.cwd clean) hRest
    have hStart := (hBelow.isAbsolute p hMem).trans (Path.isAbsolute_absolute hFiles.cwd clean)
    exact ⟨hUp, Path.names_absolute_of_isAbsolute hStart hUp⟩
  refine List.Nodup.filter _ (List.Nodup.map_on (fun p hP q hQ hSame => ?_) (hBelow.nodup.of_map.filter _))
  have hP := (List.mem_filter.mp hP).1
  have hQ := (List.mem_filter.mp hQ).1
  obtain ⟨hUpP, hNamesP⟩ := hNames p hP
  obtain ⟨hUpQ, hNamesQ⟩ := hNames q hQ
  have hWay := Path.names_eq_of_relative_eq (hNamesP ▸ hUpP) (hNamesQ ▸ hUpQ) hSame
  rw [hNamesP, hNamesQ] at hWay
  exact List.inj_on_of_nodup_map hBelow.nodup hP hQ hWay

end Conform.Suite

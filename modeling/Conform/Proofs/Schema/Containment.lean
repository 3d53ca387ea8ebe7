import Conform.Proofs.FileTree
import Conform.Proofs.Schema.Schedule

/-! Files outside the allowed directories. A path is looked at only if it lies in an allowed directory, and
then nothing on its way leads out of it again. So two trees that agree on the allowed directories give the
same answers: neither the content nor the size nor the existence of any other file shows in them. -/
namespace Conform

namespace Files

open FileTree (content?)

variable {fs fs' : Files} {path : Text}

/-- What a path names counts only for its content. -/
theorem size_congr (h : (fs.look path).map content? = (fs'.look path).map content?) : fs.size path = fs'.size path := by
  have hSize : ∀ fs : Files, fs.size path = ((fs.look path).map content?).map fun c => c.elim 4096 List.length := by
    intro fs
    rw [size]
    cases fs.look path with
    | error f => rfl
    | ok t => cases t <;> rfl
  rw [hSize, hSize, h]

theorem read_congr (h : (fs.look path).map content? = (fs'.look path).map content?) : fs.read path = fs'.read path := by
  have hRead : ∀ fs : Files, fs.read path = ((fs.look path).map content?).bind fun c =>
      c.elim (.error (.access .isDirectory path)) .ok := by
    intro fs
    rw [read]
    cases fs.look path with
    | error f => rfl
    | ok t => cases t <;> rfl
  rw [hRead, hRead, h]

end Files

namespace Schema

open Batch (Reached run validateOne content twoWorkers anything)

variable {root root' : FileTree} {cwd raw path : Text} {g : Guard}

section Agree

variable (hCwd : Path.up ∉ Path.names cwd) (hAgree : ∀ dir ∈ g.allowed, Files.AgreeAt ⟨root, cwd⟩ ⟨root', cwd⟩ dir)

include hCwd hAgree

/-- A cleaned path that lies in an allowed directory has one size and one content in both trees. -/
theorem file_eq_of_isWithinAny (hClean : Path.clean raw = .ok path)
    (hWithin : Path.isWithinAny cwd path g.allowed = true) :
    Files.size ⟨root, cwd⟩ path = Files.size ⟨root', cwd⟩ path ∧
      Files.read ⟨root, cwd⟩ path = Files.read ⟨root', cwd⟩ path := by
  have hDots : ¬ Path.HasDots path := by
    rcases Path.clean_cases raw with ⟨q, hSame, hDots⟩ | ⟨hRefused, -⟩
    · exact Except.ok.inj (hClean.symm.trans hSame) ▸ hDots
    · cases hClean.symm.trans hRefused
  obtain ⟨dir, hAllowed, hDir⟩ := List.any_eq_true.mp hWithin
  have hLook := Files.look_congr hCwd (Path.up_not_mem_names hDots) hDir (hAgree dir hAllowed)
  exact ⟨Files.size_congr hLook, Files.read_congr hLook⟩

theorem Guard.read_congr (raw : Text) : g.read ⟨root, cwd⟩ raw = g.read ⟨root', cwd⟩ raw := by
  have hRead : ∀ fs : Files, g.read fs raw = (cleanAs "path" raw).bind fun path =>
      if !Path.isWithinAny fs.cwd path g.allowed then .error (.outsideAllowed path g.allowed)
      else (fs.size path).bind fun size =>
        if g.maxSize < size then .error (.overSize path g.maxSize size) else (fs.read path).map fun bs => (path, bs) := by
    intro fs
    rw [read]
    rfl
  rw [hRead, hRead, cleanAs]
  cases hClean : Path.clean raw with
  | error f => rfl
  | ok path =>
      simp only [Except.mapError, Except.bind]
      cases hWithin : Path.isWithinAny cwd path g.allowed with
      | false => rfl
      | true =>
          obtain ⟨hSize, hRead⟩ := file_eq_of_isWithinAny hCwd hAgree hClean hWithin
          rw [hSize, hRead]

theorem Batch.content_congr (hClean : Path.clean raw = .ok path) :
    content g ⟨root, cwd⟩ path = content g ⟨root', cwd⟩ path := by
  unfold content
  cases hWithin : Path.isWithinAny cwd path g.allowed with
  | false => rfl
  | true =>
      obtain ⟨hSize, hRead⟩ := file_eq_of_isWithinAny hCwd hAgree hClean hWithin
      rw [hSize, hRead]

theorem Batch.validateOne_eq (schema : Except Failure Compiled) :
    validateOne ⟨root, cwd⟩ g schema = validateOne ⟨root', cwd⟩ g schema := by
  funext raw
  unfold validateOne
  cases hClean : Path.clean raw with
  | error f => rfl
  | ok path =>
      dsimp only
      rw [content_congr hCwd hAgree hClean]

end Agree

/-- Trees of files that agree on the allowed directories cannot be told apart: a batch comes to the same,
also at every step of every schedule, and so does the validation of a file by itself. -/
theorem answers_eq_of_agreeAt {o : BatchOptions} (hCwd : Path.up ∉ Path.names cwd)
    (hAgree : ∀ dir ∈ o.guard.allowed, Files.AgreeAt ⟨root, cwd⟩ ⟨root', cwd⟩ dir) (offline : Bool) (bs : Bytes) :
    (∀ paths cancelled, run ⟨root, cwd⟩ offline o bs paths cancelled = run ⟨root', cwd⟩ offline o bs paths cancelled) ∧
    (∀ paths cancelled s, Reached ⟨root, cwd⟩ offline o bs paths cancelled s ↔
      Reached ⟨root', cwd⟩ offline o bs paths cancelled s) ∧
    ∀ raw, Compiled.validateGuarded ⟨root, cwd⟩ offline o.guard bs raw =
      Compiled.validateGuarded ⟨root', cwd⟩ offline o.guard bs raw := by
  have hJobs := Batch.validateOne_eq hCwd hAgree
  refine ⟨fun paths cancelled => ?_, fun paths cancelled s => ?_, fun raw => ?_⟩
  · simp only [run, hJobs]
  · simp only [Reached, hJobs]
  · rw [Compiled.validateGuarded, Compiled.validateGuarded, Guard.read_congr hCwd hAgree]

/-- A directory with one file in it, and something else beside it. -/
def besides (entries : List (Text × FileTree)) : FileTree :=
  .directory (("in", .directory [("a.json", .file (Text.utf8 "[1]"))]) :: entries)

theorem answers_eq_of_agreeAt_besides : ∃ o : BatchOptions, o.guard.allowed = ["in"] ∧
    Path.up ∉ Path.names "/" ∧
    Files.AgreeAt ⟨besides [], "/"⟩ ⟨besides [("b.json", .file [])], "/"⟩ "in" ∧
    Files.exists_ ⟨besides [], "/"⟩ "b.json" = false ∧
    Files.exists_ ⟨besides [("b.json", .file [])], "/"⟩ "b.json" = true ∧
    run ⟨besides [], "/"⟩ false o anything ["in/a.json", "b.json"] =
      run ⟨besides [("b.json", .file [])], "/"⟩ false o anything ["in/a.json", "b.json"] := by
  let o : BatchOptions := { twoWorkers with guard := { Guard.usual with allowed := ["in"] } }
  have hCwd : Path.up ∉ Path.names (Text.ofString "/") := by decide
  have hAgree : ∀ dir ∈ o.guard.allowed,
      Files.AgreeAt ⟨besides [], "/"⟩ ⟨besides [("b.json", .file [])], "/"⟩ dir := by
    intro dir hDir
    obtain rfl := List.mem_singleton.mp hDir
    exact ⟨_, _, rfl, rfl, FileTree.Same.refl _⟩
  obtain ⟨hRun, -⟩ := answers_eq_of_agreeAt hCwd hAgree false anything
  exact ⟨o, rfl, hCwd, hAgree _ List.mem_cons_self, by decide, by decide, hRun _ false⟩

end Schema
end Conform

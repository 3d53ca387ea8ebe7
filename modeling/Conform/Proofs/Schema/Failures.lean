import Conform.FileTree
import Conform.Proofs.Schema.Reach
import Conform.Schema.Compiled

/-! What can go wrong with a file. A batch and a suite report what is wrong in the library's own terms and
what cannot be used in the file tree; the failures listed here are all that there are, so those among them
that are of neither kind are the ones that end a batch or a suite. -/
namespace Conform

variable {f : Failure} {bs : Bytes} {path : Text}

/-- Whether a batch or a suite passes a failure on. -/
def Failure.isForeign (f : Failure) : Bool := !f.isDomain && !f.isAccess

theorem Failure.isForeign_of_isLocal (h : f.isLocal = true) : f.isForeign = true := by
  cases f <;> first | rfl | cases h

theorem Failure.isForeign_iff : f.isForeign = true ↔ f.isDomain = false ∧ f.isAccess = false := by
  simp [isForeign]

theorem Failure.isForeign_eq_false_iff : f.isForeign = false ↔ f.isDomain = true ∨ f.isAccess = true := by
  rw [isForeign]
  cases f.isDomain <;> cases f.isAccess <;> simp

/-- A run over items that comes to an end exactly if none of them derails. If it does not, what is passed on is
the failure of one that does, and neither the library's own nor one of access. -/
structure EndsUnless {α ι : Type} (outcome : Except Failure α) (items : List ι) (derails : ι → Failure → Prop) :
    Prop where
  ends : (∃ a, outcome = .ok a) ↔ ∀ i ∈ items, ∀ f, ¬ derails i f
  culprit : ∀ f, outcome = .error f → f.isForeign = true ∧ ∃ i ∈ items, derails i f

section EndsUnless

variable {α β ι : Type} {x : Except Failure α} {items : List ι} {job : ι → Except Failure β}
  {derails : ι → Failure → Prop}

theorem EndsUnless.map (h : EndsUnless x items derails) (g : α → β) : EndsUnless (x.map g) items derails := by
  refine ⟨Iff.trans ?_ h.ends, fun f hFails => h.culprit f ?_⟩
  · cases x <;> simp [Except.map]
  · cases x with
    | error f' => exact congrArg _ (Except.error.inj hFails)
    | ok a => cases hFails

/-- What is done for each item by itself ends with the first that fails. -/
theorem endsUnless_mapM (hJob : ∀ i f, job i = .error f ↔ derails i f)
    (hForeign : ∀ i f, derails i f → f.isForeign = true) : EndsUnless (items.mapM job) items derails := by
  refine ⟨by simp only [exists_mapM_ok_iff, ne_eq, hJob], fun f h => ?_⟩
  obtain ⟨i, hMem, hFails⟩ := exists_of_mapM_error h
  have hDerails := (hJob i f).mp hFails
  exact ⟨hForeign i f hDerails, i, hMem, hDerails⟩

end EndsUnless

/-- Data cannot be read if they are in neither language, or if a scalar in them is not what it is said to
be. -/
theorem Document.failure_of_readData (h : readData bs = .error f) :
    f = .malformedData ∨ ∃ fault, f = .scalar fault := by
  unfold readData read? at h
  split at h
  · cases h
  · cases hJson : Json.read? bs with
    | none =>
        rw [hJson] at h
        exact Or.inl (Except.error.inj h).symm
    | some d =>
        rw [hJson] at h
        cases h
  · next fault _ _ => exact Or.inr ⟨fault, (Except.error.inj h).symm⟩

namespace Files

variable {fs : Files}

/-- A path that holds a NUL names nothing at all; what else cannot be found is missing. -/
theorem failure_of_look (h : fs.look path = .error f) :
    (path.any (·.val == 0) = true ∧ f = .nulInPath) ∨ f.isAccess = true := by
  unfold look at h
  split at h
  · next hNul => exact Or.inl ⟨hNul, (Except.error.inj h).symm⟩
  · split at h
    · cases h
      exact Or.inr rfl
    · split at h
      · cases h
        exact Or.inr rfl
      · obtain ⟨fault, -, rfl⟩ := exists_of_mapError_error h
        exact Or.inr rfl

theorem look_of_nul (h : path.any (·.val == 0) = true) : fs.look path = .error .nulInPath := if_pos h

theorem failure_of_size (h : fs.size path = .error f) :
    (path.any (·.val == 0) = true ∧ f = .nulInPath) ∨ f.isAccess = true := by
  unfold size at h
  cases hLook : fs.look path with
  | error f' =>
      rw [hLook] at h
      obtain rfl : f' = f := Except.error.inj h
      exact failure_of_look hLook
  | ok t =>
      rw [hLook] at h
      cases t <;> cases h

theorem failure_of_read (h : fs.read path = .error f) :
    (path.any (·.val == 0) = true ∧ f = .nulInPath) ∨ f.isAccess = true := by
  unfold read at h
  cases hLook : fs.look path with
  | error f' =>
      rw [hLook] at h
      obtain rfl : f' = f := Except.error.inj h
      exact failure_of_look hLook
  | ok t =>
      rw [hLook] at h
      cases t <;> cases h
      exact Or.inr rfl

theorem read_of_nul (h : path.any (·.val == 0) = true) : fs.read path = .error .nulInPath := by
  rw [read, look_of_nul h]
  rfl

/-- What has a size and cannot be read is a directory. -/
theorem isAccess_of_read {n : Nat} (hSize : fs.size path = .ok n) (h : fs.read path = .error f) :
    f.isAccess = true := by
  rcases failure_of_read h with ⟨hNul, -⟩ | hAccess
  · rw [size, look_of_nul hNul] at hSize
    cases hSize
  · exact hAccess

end Files

namespace Schema

open Resolver

theorem Resolver.isLocal_of_lookup {r : Resolver} {ref : Text} (h : r.lookup ref = .error f) : f.isLocal = true := by
  have hSelf : Agree (fun f _ => f.isLocal = true) Eq (r.lookup ref) (r.lookup ref) :=
    lookup_agree (fun _ h => h) r ref
  exact hSelf.bearable_of_error h

/-- A check stops only where a reference leads nowhere, or over a schema or a value by itself. -/
theorem check_agree_self (c : Context) (schema x : Document) :
    (check c schema x).Agree (fun f _ => (∃ named why, f = .deadEnd named why) ∨ f.isLocal = true)
      (check c schema x) := by
  let bearable : Failure → Failure → Prop := fun f _ => (∃ named why, f = .deadEnd named why) ∨ f.isLocal = true
  have hLocal : ∀ f : Failure, f.isLocal = true → bearable f f := fun f hMet => Or.inr hMet
  have hSim : Simulation bearable (fun _ => True) .null fun c' c'' sub => c' = c'' ∧ Reaches c schema c' sub :=
    Reaches.simulation c schema hLocal fun named why _ => Or.inl ⟨named, why, rfl⟩
  exact hSim.check_agree hLocal (.refl schema) ⟨rfl, .root⟩ x

theorem failure_of_check {c : Context} {schema x : Document} (h : (check c schema x).all = .error f) :
    (∃ named why, f = .deadEnd named why) ∨ f.isLocal = true :=
  (check_agree_self c schema x).all.bearable_of_error h

theorem failure_of_first? {c : Context} {schema x : Document} (h : (check c schema x).first? = .error f) :
    (∃ named why, f = .deadEnd named why) ∨ f.isLocal = true :=
  (check_agree_self c schema x).first?.bearable_of_error h

theorem Compiled.failure_of_validate {s : Compiled} {d : Document} (h : s.validate d = .error f) :
    (∃ named why, f = .deadEnd named why) ∨ f.isLocal = true := by
  unfold validate at h
  cases hAll : (check s.context s.document d).all with
  | error f' =>
      rw [hAll] at h
      obtain rfl : f' = f := Except.error.inj h
      exact failure_of_check hAll
  | ok findings =>
      rw [hAll] at h
      cases h

theorem Compiled.validateBytes_eq_error_iff {s : Compiled} {source : Option Source} :
    s.validateBytes bs source = .error f ↔ Document.readData bs = .error f ∨
      ∃ d format, Document.readData bs = .ok (d, format) ∧ s.validate d = .error f := by
  unfold validateBytes
  cases Document.readData bs with
  | error f' => simp [bind, Except.bind]
  | ok read =>
      obtain ⟨d, format⟩ := read
      cases hRun : s.validate d <;> simp [hRun, bind, Except.bind, pure, Except.pure]

/-- Data that cannot be validated are in no language or meet a dead reference, or the failure is passed on. -/
theorem Compiled.failure_of_validateBytes {s : Compiled} {source : Option Source}
    (h : s.validateBytes bs source = .error f) : f.isDomain = true ∨ f.isForeign = true := by
  rcases validateBytes_eq_error_iff.mp h with hData | ⟨d, format, -, hRun⟩
  · rcases Document.failure_of_readData hData with rfl | ⟨fault, rfl⟩
    · exact Or.inl rfl
    · exact Or.inr rfl
  · rcases failure_of_validate hRun with ⟨named, why, rfl⟩ | hMet
    · exact Or.inl rfl
    · exact Or.inr (Failure.isForeign_of_isLocal hMet)

end Schema
end Conform

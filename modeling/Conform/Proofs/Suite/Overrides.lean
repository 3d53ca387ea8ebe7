import Conform.Proofs.Mapping.Precedence
import Conform.Proofs.Mapping.Written
import Conform.Suite.Run
import Mathlib.Data.List.Find

/-! Where a suite finds a schema that is in a file. A manifest answers with the last override of a schema, as it
does with the last of its other entries that apply. A suite asks for a path only, and takes that of the first override
that has one. -/
namespace Conform.Suite

open Mapping (Manifest Override IsLast)

/-- Whether an override says where the file of a schema is. -/
def places (id : Text) (o : Override) : Bool := o.schemaId == id && !o.path.isEmpty

/-- Whether an override is the first of a manifest that says where the file of a schema is. -/
def IsFirstPlace (m : Manifest) (id : Text) (o : Override) : Prop :=
  ∃ before after, m.overrides = before ++ o :: after ∧ places id o = true ∧ ∀ o' ∈ before, places id o' = false

variable {m : Manifest} {id : Text} {o last : Override} {d : Document}

theorem places_iff : places id o = true ↔ o.schemaId = id ∧ o.path ≠ [] := by simp [places]

theorem find?_places_eq_some_iff : m.overrides.find? (places id) = some o ↔ IsFirstPlace m id o := by
  rw [List.find?_eq_some_iff_append]
  constructor
  · rintro ⟨hPlaces, before, after, hOverrides, hBefore⟩
    exact ⟨before, after, hOverrides, hPlaces, fun o' hMem => by simpa using hBefore o' hMem⟩
  · rintro ⟨before, after, hOverrides, hPlaces, hBefore⟩
    exact ⟨hPlaces, before, after, hOverrides, fun o' hMem => by simp [hBefore o' hMem]⟩

/-- Where nothing has blanks around it, the search compares the names and paths themselves. -/
theorem overridePath?_of_tidy (hTidy : ∀ o ∈ m.overrides, o.IsTidy) (hTrimmed : id.IsTrimmed) (hName : id ≠ []) :
    overridePath? m id = (m.overrides.find? (places id)).map (·.path) := by
  have hSearch : m.overrides.find? (fun o => o.schemaId.strip == id && !o.path.strip.isEmpty) =
      m.overrides.find? (places id) := by
    refine List.find?_congr fun o hMem => ?_
    rw [(hTidy o hMem).schemaId.1, (hTidy o hMem).path, places]
  have hWanted : id.strip = id := hTrimmed
  rw [overridePath?, hWanted, if_neg (by simpa using hName), hSearch]
  cases hFound : m.overrides.find? (places id) with
  | none => rfl
  | some o => exact congrArg some (hTidy o (List.mem_of_find?_eq_some hFound)).path

theorem override?_eq_some_iff : m.override? id = some o ↔ IsLast (·.schemaId == id) m.overrides o :=
  Mapping.find?_reverse_eq_some_iff

/-- The built-in manifest has no overrides, so those of a repository stand alone. -/
theorem overridePath?_merge_builtin (m : Manifest) (id : Text) :
    overridePath? (Manifest.builtin.merge m) id = overridePath? m id := rfl

/-- If the last override of a schema has a path, a suite finds a path too: the one of the first override of the
schema that has any. So it is the path of the last override just if these two are the same. -/
theorem overridePath?_of_override? (hRead : Manifest.ofDocument d = .ok m) (hTrimmed : id.IsTrimmed)
    (hLast : m.override? id = some last) (hPath : last.path ≠ []) :
    ∃ first, IsFirstPlace m id first ∧ overridePath? m id = some first.path ∧
      overridePath? (Manifest.builtin.merge m) id = some first.path ∧
      (overridePath? m id = (m.override? id).map (·.path) ↔ first.path = last.path) := by
  have hTidy : ∀ o ∈ m.overrides, o.IsTidy := (Manifest.tidy_of_ofDocument hRead).1.overrides
  obtain ⟨before, after, hOverrides, hHolds, -⟩ := override?_eq_some_iff.mp hLast
  have hMem : last ∈ m.overrides := hOverrides ▸ List.mem_append_right before List.mem_cons_self
  have hId : last.schemaId = id := beq_iff_eq.mp hHolds
  have hFound : overridePath? m id = (m.overrides.find? (places id)).map (·.path) :=
    overridePath?_of_tidy hTidy hTrimmed (hId ▸ (hTidy last hMem).schemaId.2)
  obtain ⟨first, hFirst⟩ : ∃ first, m.overrides.find? (places id) = some first :=
    Option.isSome_iff_exists.mp (List.find?_isSome.mpr ⟨last, hMem, places_iff.mpr ⟨hId, hPath⟩⟩)
  rw [hFirst] at hFound
  refine ⟨first, find?_places_eq_some_iff.mp hFirst, hFound, (overridePath?_merge_builtin m id).trans hFound, ?_⟩
  rw [hFound, hLast]
  exact Option.some_inj

/-- A document that says twice where the file of a schema is. -/
def moved : Document := .record [("overrides", .list [
  .record [("schema_id", .string "a"), ("path", .string "old.json")],
  .record [("schema_id", .string "a"), ("path", .string "new.json ")]])]

/-- What that document is read as. -/
def movedManifest : Manifest where
  overrides := [{ schemaId := "a", path := "old.json" }, { schemaId := "a", path := "new.json" }]

theorem overridePath?_moved : Manifest.ofDocument moved = .ok movedManifest ∧
    movedManifest.override? "a" = some { schemaId := "a", path := "new.json" } ∧
    ∃ first, IsFirstPlace movedManifest "a" first ∧ overridePath? movedManifest "a" = some first.path ∧
      first.path = Text.ofString "old.json" := by
  have hLast : movedManifest.override? "a" = some { schemaId := "a", path := "new.json" } := rfl
  obtain ⟨first, hFirst, hFound, -, -⟩ :=
    overridePath?_of_override? (d := moved) (m := movedManifest) rfl (by decide) hLast (by decide)
  have hOld : overridePath? movedManifest "a" = some (Text.ofString "old.json") := rfl
  exact ⟨rfl, hLast, first, hFirst, hFound, Option.some_inj.mp (hFound.symm.trans hOld)⟩

/-- A suite does not always go by the last override of a schema. -/
theorem not_overridePath?_eq_last : ¬ ∀ d m id last, Manifest.ofDocument d = .ok m → Text.IsTrimmed id →
    m.override? id = some last → last.path ≠ [] → overridePath? m id = some last.path := by
  intro h
  have hNew := h moved movedManifest "a" { schemaId := "a", path := "new.json" } rfl (by decide) rfl (by decide)
  have hOld : overridePath? movedManifest "a" = some (Text.ofString "old.json") := rfl
  exact absurd (hOld.symm.trans hNew) (by decide)

end Conform.Suite

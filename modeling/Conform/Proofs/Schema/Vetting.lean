import Conform.Proofs.Schema.Gate
import Conform.Proofs.Schema.Passing
import Conform.Proofs.Schema.Stripped
import Conform.Schema.Conformance

/-! The two ways in which schemas are held against the schemas of schemas. One of them answers what is wrong with a
schema, and the other one refuses to compile it. Only the other one asks for the form of regular expressions. -/
namespace Conform.Schema

variable {d : Dialect} {x : Document} {bs : Bytes} {format : Format} {offline : Bool} {p : Parsed} {f : Failure}

namespace Parsed

/-- Whether the root of a document names its dialect in the standard way, or names none. -/
inductive Declares (x : Document) : Dialect → Prop where
  | latest (hNone : x.get? "$schema" = none) : Declares x .draft2020
  | named {d : Dialect} {t : Text} (hDialect : d = .draft7 ∨ d = .draft2020)
      (hSays : x.get? "$schema" = some (.text t)) (hStandard : t ∈ d.names) : Declares x d

theorem withoutDeclaration_of_get? (hNone : x.get? "$schema" = none) : withoutDeclaration x = x := by
  cases x with
  | object ms =>
      refine congrArg _ (erase_of_notMem fun hMem => ?_)
      obtain ⟨m, hMem, hName⟩ := List.mem_map.mp hMem
      have hOther := List.lookup_eq_none_iff.mp hNone m hMem
      rw [hName] at hOther
      simp at hOther
  | _ => rfl

namespace Declares

variable (h : Declares x d)

include h

theorem dialect : d = .draft7 ∨ d = .draft2020 := by
  cases h with
  | latest => exact .inr rfl
  | named hDialect => exact hDialect

theorem ofDeclaration : Dialect.ofDeclaration ((x.get? "$schema").bind Document.text?) = d := by
  cases h with
  | latest hNone => rw [hNone]; rfl
  | named _ hSays hStandard =>
      rw [hSays]
      exact Dialect.ofDeclaration_of_mem_names hStandard

/-- The gate lets the schema through. -/
theorem checkDialect : checkDialect ((x.get? "$schema").bind Document.text?) = .ok () := by
  cases h with
  | latest hNone => rw [hNone]; rfl
  | @named _ t hDialect hSays hStandard =>
      rw [hSays]
      have hSupported : ∀ d : Dialect, d = .draft7 ∨ d = .draft2020 → ∀ t ∈ d.names,
          supported.any (Text.contains · t) = true := by
        rintro d (rfl | rfl) <;> decide +kernel
      exact if_pos (hSupported d hDialect t hStandard)

theorem metaFindings_withoutDeclaration (formats : Bool) :
    d.metaFindings formats (withoutDeclaration x) = d.metaFindings formats x := by
  cases h with
  | latest hNone => rw [withoutDeclaration_of_get? hNone]
  | named hDialect hSays =>
      cases x with
      | object ms => exact Dialect.metaFindings_erase hDialect hSays formats
      | _ => rfl

variable (hDocument : Document.read? bs = .ok (some (x, format)))

include hDocument

/-- Whether a schema can be read has nothing to do with whether its declaration is taken away. -/
theorem exists_read_iff (offline : Bool) : (∃ p, read offline bs = .ok p) ↔ ∃ t, x.canonical = .ok t := by
  have hStay : (∃ p, read false bs = .ok p) ↔ ∃ t, x.canonical = .ok t := by
    rw [read, bind_of_ok hDocument]
    constructor
    · rintro ⟨p, hRead⟩
      obtain ⟨t, hText, -⟩ := exists_of_bind_ok hRead
      exact ⟨t, hText⟩
    · rintro ⟨t, hText⟩
      exact ⟨_, bind_of_ok hText⟩
  cases offline with
  | false => exact hStay
  | true =>
      refine Iff.trans ?_ hStay
      cases h with
      | latest hNone =>
          have hSame : read true bs = read false bs := by
            rw [read, read, bind_of_ok hDocument, bind_of_ok hDocument]
            simp only [ofDocument, if_true, withoutDeclaration_of_get? hNone]
            rfl
          rw [hSame]
      | named _ hSays hStandard =>
          cases x with
          | object ms => exact (read_stripped hDocument hSays hStandard).ok_iff.symm
          | _ => cases hSays

end Declares

theorem declares_of_test (hDialect : d = .draft7 ∨ d = .draft2020)
    (h : ((Document.read? bs).toOption.any fun found => found.any fun r =>
      ((r.1.get? "$schema").bind Document.text?).any d.names.contains) = true) :
    ∃ x format, Document.read? bs = .ok (some (x, format)) ∧ Declares x d := by
  obtain ⟨found, hDocument, hTest⟩ := exists_of_any h
  obtain ⟨⟨x, format⟩, rfl, hSays⟩ := (Option.any_eq_true ..).mp hTest
  obtain ⟨u, hGet, hStandard⟩ := (Option.any_eq_true ..).mp hSays
  obtain ⟨v, hGet, hIs⟩ := Option.bind_eq_some_iff.mp hGet
  cases v <;> cases hIs
  exact ⟨x, format, hDocument, .named hDialect hGet (List.contains_iff_mem.mp hStandard)⟩

end Parsed

namespace Meta

variable (hDialect : d = .draft7 ∨ d = .draft2020)

include hDialect

theorem exists_landmark_root :
    ∃ l ∈ landmarks documents d, l.role = .schema ∧ l.base = d.uri ∧ d.meta = .object l.schema := by
  have hObject : d.meta.isObject = true := by rcases hDialect with rfl | rfl <;> decide +kernel
  cases hMeta : d.meta with
  | object schema =>
      refine ⟨⟨d.uri, [], .schema, d.uri, schema⟩, ?_, rfl, rfl, rfl⟩
      refine List.mem_flatMap.mpr ⟨_, mem_root hDialect, ?_⟩
      simp only [BEq.rfl, if_true]
      refine List.mem_filterMap.mpr ⟨([], .schema), by simp [fragments], ?_⟩
      simp [landing?, hMeta]
  | _ =>
      rw [hMeta] at hObject
      cases hObject

/-- With the forms the schema of schemas finds nothing exactly if it finds nothing without them and all regular
expressions can be read. -/
theorem metaFindings_eq_done_iff :
    d.metaFindings true x = .done ↔ d.metaFindings false x = .done ∧ Legible d .schema x := by
  obtain ⟨l, hMem, hRole, hBase, hRoot⟩ := exists_landmark_root hDialect
  have hKeywords : ∀ formats, d.metaFindings formats x =
      checkKeywords (Evaluator.ofLevels Evaluator.maxLevels) d ⟨d, d.metaRoot, formats⟩ l.schema x := by
    intro formats
    rw [Dialect.metaFindings, hRoot]
    rfl
  have hBearing := bearing_root hDialect
  have hSame : Legible d .schema x → d.metaFindings true x = d.metaFindings false x := by
    intro hLegible
    have hAsks := asksOnly_of_mem hDialect hMem
    rw [hBase] at hAsks
    rw [hKeywords, hKeywords]
    exact checkKeywords_eq hDialect _ hBearing hAsks (hRole.symm ▸ hLegible)
  have hLegible : d.metaFindings true x = .done → Legible d .schema x := by
    intro hDone t hIn
    have hPasses : Passes d d.uri l.schema x := ⟨_, _, hBearing, (hKeywords true).symm.trans hDone⟩
    obtain ⟨xs, rfl⟩ := exists_of_expression hIn
    cases hIn with
    | keyword hGet hIn =>
        obtain ⟨u, sub, hAsks, hPasses⟩ := exists_passes_of_root hDialect hPasses hRoot hIn.role_ne hGet
        exact isOk_of_passes hDialect hIn hAsks hPasses
    | value _ hIn => exact absurd rfl hIn.role_ne
    | name _ hIn => exact absurd rfl hIn.role_ne
    | choice hMem => cases hMem
  exact ⟨fun hDone => ⟨(hSame (hLegible hDone)).symm.trans hDone, hLegible hDone⟩,
    fun ⟨hDone, hLegible⟩ => (hSame hLegible).trans hDone⟩

end Meta

namespace Dialect

/-- Nothing is said to be wrong with a schema exactly if it can be read and nothing is found in it. -/
theorem checkSchema_eq_nil_iff : checkSchema d.metaName bs = .ok [] ↔
    ∃ p, Parsed.read false bs = .ok p ∧ d.metaFindings false p.document = .done := by
  have hName : ofMetaName? d.metaName = some d := by cases d <;> decide +kernel
  unfold checkSchema
  rw [hName]
  constructor
  · intro h
    obtain ⟨p, hRead, h⟩ := exists_of_bind_ok h
    obtain ⟨found, hAll, h⟩ := exists_of_bind_ok h
    have hNil : found.mergeSort leFinding = [] := List.map_eq_nil_iff.mp (Except.ok.inj h)
    have hLength : (found.mergeSort leFinding).length = found.length := List.length_mergeSort found
    rw [hNil] at hLength
    obtain rfl := List.eq_nil_of_length_eq_zero hLength.symm
    exact ⟨p, hRead, Findings.all_eq_nil.mp hAll⟩
  · rintro ⟨p, hRead, hDone⟩
    refine (bind_of_ok hRead).trans ((bind_of_ok (Findings.all_eq_nil.mpr hDone)).trans ?_)
    rw [List.mergeSort_nil]
    rfl

end Dialect

namespace Compiled

theorem checkConforms_eq_ok_iff : checkConforms d x = .ok () ↔ d.metaFindings true x = .done := by
  unfold checkConforms
  cases d.metaFindings true x with
  | done => exact ⟨fun _ => rfl, fun _ => rfl⟩
  | found first rest => exact ⟨nofun, nofun⟩
  | stopped why => exact ⟨nofun, nofun⟩

/-- A schema that is not let through is refused for the first thing that is found, unless the check stops before it
finds something. -/
theorem failure_of_checkConforms (h : checkConforms d x = .error f) :
    (∃ pointer reason, f = .nonconforming pointer reason) ∨ (d.metaFindings true x).first? = .error f := by
  unfold checkConforms at h
  cases hFirst : (d.metaFindings true x).first? with
  | error why =>
      rw [hFirst] at h
      exact .inr (congrArg _ (Except.error.inj h))
  | ok found =>
      rw [hFirst] at h
      cases found with
      | none => cases h
      | some first => exact .inl ⟨_, _, (Except.error.inj h).symm⟩

/-- What goes wrong after a schema has been let through is not said to be nonconforming. -/
theorem checkConforms_of_nonconforming {others : List (Text × Document)} {pointer reason : Text}
    (h : ofParsed p others = .error (.nonconforming pointer reason)) :
    checkConforms (.ofDeclaration p.declared) p.document ≠ .ok () := by
  intro hConforms
  unfold ofParsed at h
  rw [bind_of_ok hConforms] at h
  rcases cases_of_bind_error h with hLibrary | ⟨docs, -, h⟩
  · obtain ⟨e, -, hFails⟩ := exists_of_mapM_error hLibrary
    dsimp only at hFails
    split at hFails <;> cases hFails
  rcases cases_of_bind_error h with hReferences | ⟨_, -, h⟩
  · obtain ⟨ref, -, hFails⟩ := exists_of_forM_error hReferences
    rcases cases_of_bind_error hFails with hLookup | ⟨found, -, hDead⟩
    · cases Resolver.isLocal_of_lookup hLookup
    · cases found <;> cases hDead
  · cases h

section Accepted

variable (hDocument : Document.read? bs = .ok (some (x, format))) (hDeclares : Parsed.Declares x d)

include hDocument hDeclares

/-- What is read of a schema, with or without its declaration, is held against the schema of its dialect first. -/
theorem read_eq_ofParsed (hRead : Parsed.read offline bs = .ok p) (enforce : Bool) :
    read offline enforce bs = ofParsed p [] ∧ Dialect.ofDeclaration p.declared = d ∧
      ∀ formats, d.metaFindings formats p.document = d.metaFindings formats x := by
  obtain ⟨y, _, hRead', hDeclared, hStripped, -⟩ := Parsed.document_of_read hRead
  obtain ⟨rfl, -⟩ : x = y ∧ _ := Prod.mk.inj (Option.some.inj (Except.ok.inj (hDocument.symm.trans hRead')))
  refine ⟨?_, hDeclared ▸ hDeclares.ofDeclaration, fun formats => ?_⟩
  · refine (bind_of_ok hRead).trans ?_
    cases enforce with
    | false => rfl
    | true => exact bind_of_ok (hDeclared ▸ hDeclares.checkDialect)
  · rw [hStripped]
    cases offline with
    | false => rfl
    | true => exact hDeclares.metaFindings_withoutDeclaration formats

theorem accepted_iff : Dialect.checkSchema d.metaName bs = .ok [] ∧ Legible d .schema x ↔
    (∃ t, x.canonical = .ok t) ∧ d.metaFindings true x = .done := by
  rw [Dialect.checkSchema_eq_nil_iff, Meta.metaFindings_eq_done_iff hDeclares.dialect,
    ← hDeclares.exists_read_iff hDocument false]
  constructor
  · rintro ⟨⟨p, hRead, hDone⟩, hLegible⟩
    have hSame := (read_eq_ofParsed hDocument hDeclares hRead false).2.2
    exact ⟨⟨p, hRead⟩, (hSame false).symm.trans hDone, hLegible⟩
  · rintro ⟨⟨p, hRead⟩, hDone, hLegible⟩
    have hSame := (read_eq_ofParsed hDocument hDeclares hRead false).2.2
    exact ⟨⟨p, hRead, (hSame false).trans hDone⟩, hLegible⟩

/-- It is enough to look at a schema without its declaration. -/
theorem checkSchema_of_test (hTest : ((Parsed.read true bs).toOption.any fun p =>
    (d.metaFindings false p.document).all.toOption.any (·.isEmpty)) = true) :
    Dialect.checkSchema d.metaName bs = .ok [] := by
  obtain ⟨p, hRead, hTest⟩ := exists_of_any hTest
  obtain ⟨found, hAll, hNone⟩ := exists_of_any hTest
  rw [List.isEmpty_iff.mp hNone] at hAll
  have hDone := Findings.all_eq_nil.mp hAll
  obtain ⟨q, hWhole⟩ := (hDeclares.exists_read_iff hDocument false).mpr
    ((hDeclares.exists_read_iff hDocument true).mp ⟨p, hRead⟩)
  have hSame := (read_eq_ofParsed hDocument hDeclares hRead false).2.2 false
  have hSame' := (read_eq_ofParsed hDocument hDeclares hWhole false).2.2 false
  exact Dialect.checkSchema_eq_nil_iff.mpr ⟨q, hWhole, hSame'.trans (hSame.symm.trans hDone)⟩

end Accepted

/-- A schema that is not said to have anything wrong with it conforms to the schema of its dialect when it is compiled,
if all of its regular expressions can be read as well. Any other schema does not compile: it is refused as
nonconforming, unless it has no canonical text or the check stops before it finds anything. -/
theorem nonconforming_unless_accepted (hDocument : Document.read? bs = .ok (some (x, format)))
    (hDeclares : Parsed.Declares x d) (offline enforce : Bool) :
    ((∃ pointer reason, read offline enforce bs = .error (.nonconforming pointer reason)) →
      ¬ (Dialect.checkSchema d.metaName bs = .ok [] ∧ Legible d .schema x)) ∧
    (¬ (Dialect.checkSchema d.metaName bs = .ok [] ∧ Legible d .schema x) →
      (∃ pointer reason, read offline enforce bs = .error (.nonconforming pointer reason)) ∨
      ∃ f, read offline enforce bs = .error f ∧
        ((∃ why, x.canonical = .error why) ∨ (d.metaFindings true x).first? = .error f)) := by
  rw [accepted_iff hDocument hDeclares]
  have hReads := hDeclares.exists_read_iff hDocument offline
  cases hRead : Parsed.read offline bs with
  | error why =>
      have hText : ∀ t, x.canonical ≠ .ok t := by
        intro t hOk
        obtain ⟨p, hRead'⟩ := hReads.mpr ⟨t, hOk⟩
        cases hRead.symm.trans hRead'
      have hRun : read offline enforce bs = .error why := by
        rw [read, hRead]
        rfl
      refine ⟨fun _ ⟨⟨t, hOk⟩, _⟩ => hText t hOk, fun _ => .inr ⟨why, hRun, .inl ?_⟩⟩
      cases hCanonical : x.canonical with
      | error why => exact ⟨why, rfl⟩
      | ok t => exact absurd hCanonical (hText t)
  | ok p =>
      obtain ⟨hRun, hDialect, hSame⟩ := read_eq_ofParsed hDocument hDeclares hRead enforce
      rw [hRun]
      refine ⟨fun ⟨pointer, reason, hFails⟩ ⟨_, hDone⟩ => ?_, fun hNot => ?_⟩
      · refine checkConforms_of_nonconforming hFails ?_
        rw [hDialect]
        exact checkConforms_eq_ok_iff.mpr ((hSame true).trans hDone)
      · cases hConforms : checkConforms d p.document with
        | ok _ =>
            have hDone := (hSame true).symm.trans (checkConforms_eq_ok_iff.mp hConforms)
            exact absurd ⟨hReads.mp ⟨p, hRead⟩, hDone⟩ hNot
        | error f =>
            have hFails : ofParsed p [] = .error f := by
              rw [ofParsed, hDialect, hConforms]
              rfl
            rcases failure_of_checkConforms hConforms with ⟨pointer, reason, rfl⟩ | hStops
            · exact .inl ⟨pointer, reason, hFails⟩
            · exact .inr ⟨f, hFails, .inr (hSame true ▸ hStops)⟩

/-- A schema of texts of one letter. -/
def letters : Bytes :=
  Text.utf8 "\x7b\"$schema\": \"http://json-schema.org/draft-07/schema#\", \"pattern\": \"^[a-z]$\"\x7d"

theorem nonconforming_unless_accepted_letters : ∃ x format, Document.read? letters = .ok (some (x, format)) ∧
    Parsed.Declares x .draft7 ∧ Dialect.checkSchema Dialect.draft7.metaName letters = .ok [] ∧
    (read true true letters).isOk = true ∧
    ((∃ pointer reason, read true true letters = .error (.nonconforming pointer reason)) →
      ¬ (Dialect.checkSchema Dialect.draft7.metaName letters = .ok [] ∧ Legible .draft7 .schema x)) := by
  obtain ⟨x, format, hDocument, hDeclares⟩ : ∃ x format, Document.read? letters = .ok (some (x, format)) ∧
      Parsed.Declares x .draft7 := Parsed.declares_of_test (.inl rfl) (by decide +kernel)
  exact ⟨x, format, hDocument, hDeclares, checkSchema_of_test hDocument hDeclares (by decide +kernel), by decide +kernel,
    (nonconforming_unless_accepted hDocument hDeclares true true).1⟩

/-- The same schema without the end of its class of letters. -/
def unclosedClass : Bytes :=
  Text.utf8 "\x7b\"$schema\": \"http://json-schema.org/draft-07/schema#\", \"pattern\": \"^[a-z$\"\x7d"

/-- So a schema that is not said to have anything wrong with it may be refused as nonconforming. -/
theorem not_conforming_of_accepted : ¬ ∀ bs x format d, Document.read? bs = .ok (some (x, format)) →
    Parsed.Declares x d → (Dialect.checkSchema d.metaName bs = .ok [] ↔
      ∀ pointer reason, read true true bs ≠ .error (.nonconforming pointer reason)) := by
  intro hAll
  obtain ⟨x, format, hDocument, hDeclares⟩ : ∃ x format, Document.read? unclosedClass = .ok (some (x, format)) ∧
      Parsed.Declares x .draft7 := Parsed.declares_of_test (.inl rfl) (by decide +kernel)
  have hAccepted : Dialect.checkSchema Dialect.draft7.metaName unclosedClass = .ok [] :=
    checkSchema_of_test hDocument hDeclares (by decide +kernel)
  have hRefused : ((fault? (read true true unclosedClass)).any fun | .nonconforming .. => true | _ => false) = true := by
    decide +kernel
  obtain ⟨f, hFault, hKind⟩ := (Option.any_eq_true ..).mp hRefused
  split at hKind
  · next pointer reason =>
      exact (hAll _ x format _ hDocument hDeclares).mp hAccepted pointer reason (eq_error_of_fault? hFault)
  · cases hKind

end Compiled
end Conform.Schema

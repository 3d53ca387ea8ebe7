import Conform.Mapping.Repository
import Conform.Proofs.Mapping.Format
import Conform.Proofs.Schema.Parsed
import Conform.Proofs.Schema.Provided
import Conform.Proofs.Yaml.Flushed

/-! The schema of manifests that comes with the library. It is the one that describes their format, so what it finds
nothing wrong with is read unless it is unreadable. -/
namespace Conform.Mapping

open Schema (Catalog Compiled Parsed Report)

/-- What the schema says of itself. -/
def heading : Members :=
  [("$schema", .text "https://json-schema.org/draft/2020-12/schema"),
    ("$id", .text "https://schemas.goneat.dev/mapping/v1.0.0/schema-mapping-manifest.json"),
    ("title", .text "goneat schema mapping manifest"),
    ("description", .text "Repository overlay mapping files to the schemas that govern them.")]

/-- The schema as it is used; offline it does not say its dialect. -/
def embedded (offline : Bool) : Members :=
  if offline then Members.erase "$schema" (heading ++ manifestSchema) else heading ++ manifestSchema

/-- The schema with lists of characters for its texts. -/
noncomputable def spelledSchema : { ms : Members // heading ++ manifestSchema = ms } := by
  apply Subtype.mk
  simp only [heading, manifestSchema, manifestFields, definitions, configFields, ruleFields, exclusionFields,
    overrideFields, conditionFields, plainFields, recordSchema, under, listSchema, originSchema, wordSchema, textSchema,
    nameSchema, flagSchema, shareSchema, countSchema, Origin.words, Inference.words, Priority.words, Action.words,
    Members.one, Members.ofItems, List.map_cons, List.map_nil, List.cons_append, List.nil_append, List.concat_cons,
    List.concat_nil, List.isEmpty_cons, List.isEmpty_nil, Bool.false_eq_true, if_true, if_false]
  repeat' first
    | with_reducible apply congrArg₂ List.cons
    | with_reducible apply congrArg₂ Prod.mk
    | with_reducible apply congrArg Document.text
    | with_reducible apply congrArg Document.object
    | with_reducible apply congrArg Document.list
    | apply Schema.Meta.ofString_ofList
    | with_reducible apply congrArg₂ HAppend.hAppend
    | with_reducible rfl

theorem embedded_spelled : embedded false = spelledSchema.1 := spelledSchema.2

/-- Whether lines are spelled by lists of characters. A line in quotes is compared with its characters at once, while
taking it apart goes through its bytes. -/
inductive Spelled : List String → List (List Char) → Prop where
  | nil : Spelled [] []
  | cons {cs : List Char} {lines : List String} {spellings : List (List Char)} (h : Spelled lines spellings) :
      Spelled (String.ofList cs :: lines) (cs :: spellings)

/-- The text of lines that are spelled. -/
def spelledText (spellings : List (List Char)) : Text := spellings.flatMap fun cs => Text.ofChars (cs ++ ['\n'])

theorem Spelled.ofLines_eq {lines : List String} {spellings : List (List Char)} (h : Spelled lines spellings) :
    Assets.ofLines lines = (spelledText spellings).utf8 := by
  unfold Assets.ofLines
  congr 1
  induction h with
  | nil => rfl
  | cons _ ih =>
      rw [List.flatMap_cons, ih]
      simp [spelledText, Text.ofString, Text.ofChars]

namespace Repository

variable {offline : Bool} {s : Compiled} {d : Document} {r : Report}

-- The one evaluation of the whole text.
theorem exists_spelled_embedded : ∃ spellings, Spelled Assets.mappingsSchema spellings ∧
    Text.isAscii (spelledText spellings) = true ∧ (spelledText spellings).all Yaml.Value.isStreamChar = true ∧
    (Yaml.Value.readPieces false (Text.chars (spelledText spellings))).toOption.map Yaml.Value.toDocument =
      some (.object (heading ++ manifestSchema)) := by
  apply Exists.intro
  refine ⟨?spelled, ?ascii, ?visible, ?value⟩
  case spelled =>
    unfold Assets.mappingsSchema
    repeat' constructor
  case ascii => decide +kernel
  case visible => decide +kernel
  case value =>
    rw [spelledSchema.2]
    decide +kernel

theorem read?_embedded : Document.read? (Assets.ofLines Assets.mappingsSchema) =
    .ok (some (.object (heading ++ manifestSchema), .yaml)) := by
  obtain ⟨spellings, hSpelled, hAscii, hVisible, hValue⟩ := exists_spelled_embedded
  rw [Document.read?, hSpelled.ofLines_eq, Yaml.Value.read_utf8 hAscii hVisible]
  cases hRead : Yaml.Value.readPieces false (Text.chars (spelledText spellings)) with
  | error f =>
      rw [hRead] at hValue
      cases hValue
  | ok v =>
      rw [hRead] at hValue
      rw [← Option.some.inj hValue]

theorem get?_embedded : Assets.provider.get? (Catalog.pathFor Assets.provider schemaName) =
    some (Assets.ofLines Assets.mappingsSchema) := by
  have hPath : Catalog.pathFor Assets.provider schemaName =
      "embedded_schemas/schemas/mapping/v1.0.0/schema-mapping-manifest.yaml" := by decide +kernel
  rw [hPath]
  rfl

theorem read_of_schema (h : schema Assets.provider offline = .ok s) :
    Compiled.read offline true (Assets.ofLines Assets.mappingsSchema) = .ok s := by
  have hProvided := ((Catalog.mirrors_empty Assets.provider offline).get schemaName).2
  rw [exists_of_mapError_ok h, Catalog.provided_of_bytes offline get?_embedded] at hProvided
  exact hProvided.symm

/-- The schema that a repository's manifest has to conform to. -/
theorem document_of_schema (h : schema Assets.provider offline = .ok s) :
    s.document = .object (embedded offline) ∧ s.context.Within s.document := by
  obtain ⟨p, hParsed, hCompiled⟩ := Compiled.ofParsed_of_read (read_of_schema h)
  obtain ⟨d, format, hRead, hDeclared, hDocument, -⟩ := Parsed.document_of_read hParsed
  obtain ⟨rfl, -⟩ : Document.object (heading ++ manifestSchema) = d ∧ Format.yaml = format := by
    simpa using read?_embedded.symm.trans hRead
  have hDialect : Schema.Dialect.ofDeclaration p.declared = .draft2020 := by
    rw [hDeclared]
    decide +kernel
  refine ⟨?_, Compiled.within_of_ofParsed hCompiled hDialect⟩
  rw [(Compiled.ofParsed_ok hCompiled).1, hDocument]
  cases offline <;> rfl

theorem refuses_ofDocument (hSchema : schema Assets.provider offline = .ok s) (hReport : s.validate d = .ok r)
    (hValid : r.valid = true) : Refuses (Manifest.ofDocument d) (Unreadable d) := by
  obtain ⟨hDocument, hWithin⟩ := document_of_schema hSchema
  have hAccepts := Compiled.accepts_of_valid hWithin hDocument hReport hValid
  have hRoot : HasDefinitions s.document := by
    rw [hDocument]
    cases offline <;> rfl
  refine Manifest.refuses_ofDocument hRoot hAccepts ?_ ?_
  · cases offline <;> rfl
  · cases offline <;> rfl

/-- What conforms to the schema is read, or it is refused because of a field, and it is refused exactly if a text
that is needed has nothing but blanks, the least confidence is no number, or the count of suggestions is a float. -/
theorem refused_iff_unreadable (hSchema : schema Assets.provider offline = .ok s) (hReport : s.validate d = .ok r)
    (hValid : r.valid = true) :
    (∀ f, Manifest.ofDocument d = .error f → ∃ path reason, f = .manifestField path reason) ∧
      ((∃ f, Manifest.ofDocument d = .error f) ↔ Unreadable d) ∧
      (¬ Unreadable d → ∃ m, Manifest.ofDocument d = .ok m) := by
  have hRefuses := refuses_ofDocument hSchema hReport hValid
  exact ⟨fun f => hRefuses.eq_of_error, hRefuses.error_iff, hRefuses.exists_ok⟩

/-- A manifest with a pattern of blanks. -/
def blankPattern : Document := .object [("mappings", .list [.object [("pattern", .text "  ")]])]

/-- A manifest with a whole number as a float. -/
def floatCount : Document := .object [("config", .object [("max_suggestions", .float (.ofDecimal false 3 0))])]

/-- A manifest with a rule under a condition. -/
def guarded : Document := .object [("mappings", .list [.object [("pattern", .text "*.yaml"),
  ("conditions", .list [.object [("field", .text "kind")]])]])]

/-- What the schema is read as, with a canonical text. -/
def parsed (normalized : Text) : Parsed where
  document := .object (embedded false)
  id := Parsed.idOf (.object (embedded false))
  normalized := normalized
  declared := some "https://json-schema.org/draft/2020-12/schema"

theorem schema_of_ofParsed {s : Compiled} (h : ∀ normalized, Compiled.ofParsed (parsed normalized) [] = .ok s) :
    schema Assets.provider false = .ok s := by
  have hSimple : (Document.object (embedded false)).every Document.isSimple = true := by
    rw [embedded_spelled]
    decide +kernel
  obtain ⟨normalized, hCanonical⟩ := (Document.isJson_of_isSimple hSimple).canonical
  have hParsed : Parsed.read false (Assets.ofLines Assets.mappingsSchema) = .ok (parsed normalized) := by
    rw [Parsed.read, bind_of_ok read?_embedded]
    dsimp only
    rw [Parsed.ofDocument]
    exact bind_of_ok hCanonical
  have hSupported : Parsed.checkDialect (parsed normalized).declared = .ok () := by
    rw [parsed, Parsed.checkDialect]
    exact if_pos (by decide +kernel)
  have hRead : Compiled.read false true (Assets.ofLines Assets.mappingsSchema) = .ok s := by
    rw [Compiled.read, bind_of_ok hParsed]
    dsimp only
    rw [if_pos rfl, bind_of_ok hSupported]
    exact h normalized
  have hGet := ((Catalog.mirrors_empty Assets.provider false).get schemaName).2
  rw [Catalog.provided_of_bytes false get?_embedded, hRead] at hGet
  rw [schema, hGet]
  rfl

theorem exists_valid_embedded : ∃ s, schema Assets.provider false = .ok s ∧
    ∀ d ∈ [blankPattern, floatCount, guarded], ∃ r, s.validate d = .ok r ∧ r.valid = true := by
  have hRun : ((Compiled.ofParsed (parsed []) []).toOption.any fun s =>
      [blankPattern, floatCount, guarded].all fun d =>
        (Schema.check s.context s.document d).all.toOption.any List.isEmpty) = true := by
    unfold parsed Compiled.ofParsed Compiled.checkConforms Schema.Dialect.metaFindings Schema.Store.ofLibrary
    simp only [embedded_spelled, Schema.Meta.metaRoot_spelled, Schema.Dialect.meta_spelled, Schema.Meta.shelf_spelled]
    decide +kernel
  obtain ⟨s, hCompiled, hAll⟩ := exists_of_any hRun
  refine ⟨s, schema_of_ofParsed fun _ => hCompiled, fun d hMem => ?_⟩
  obtain ⟨fs, hFindings, hNone⟩ := exists_of_any (List.all_eq_true.mp hAll d hMem)
  exact ⟨.ofFindings fs, bind_of_ok hFindings, Schema.Report.valid_ofFindings.mpr (List.isEmpty_iff.mp hNone)⟩

theorem refused_iff_unreadable_embedded : ∃ s r r' r'', schema Assets.provider false = .ok s ∧
    s.validate blankPattern = .ok r ∧ r.valid = true ∧ s.validate floatCount = .ok r' ∧ r'.valid = true ∧
    s.validate guarded = .ok r'' ∧ r''.valid = true ∧
    (∃ path reason, Manifest.ofDocument blankPattern = .error (.manifestField path reason)) ∧
    (∃ path reason, Manifest.ofDocument floatCount = .error (.manifestField path reason)) ∧ ¬ Unreadable guarded := by
  obtain ⟨s, hSchema, hEach⟩ := exists_valid_embedded
  obtain ⟨r, hReport, hValid⟩ := hEach blankPattern (by simp)
  obtain ⟨r', hReport', hValid'⟩ := hEach floatCount (by simp)
  obtain ⟨r'', hReport'', hValid''⟩ := hEach guarded (by simp)
  obtain ⟨hField, hRefused, -⟩ := refused_iff_unreadable hSchema hReport hValid
  obtain ⟨hField', hRefused', -⟩ := refused_iff_unreadable hSchema hReport' hValid'
  obtain ⟨-, hRefused'', -⟩ := refused_iff_unreadable hSchema hReport'' hValid''
  have hBlanks : ∀ p ∈ Text.ofString "  ", p.isBlank = true := List.all_eq_true.mp (by decide +kernel)
  obtain ⟨f, hFails⟩ := hRefused.mpr (.pattern List.mem_cons_self ⟨"  ", rfl, by decide +kernel, hBlanks⟩)
  obtain ⟨f', hFails'⟩ := hRefused'.mpr (.suggestions rfl rfl)
  obtain ⟨m, hRead⟩ := exists_of_isOk (by decide +kernel : (Manifest.ofDocument guarded).isOk = true)
  obtain ⟨path, reason, rfl⟩ := hField f hFails
  obtain ⟨path', reason', rfl⟩ := hField' f' hFails'
  refine ⟨s, r, r', r'', hSchema, hReport, hValid, hReport', hValid', hReport'', hValid'', ⟨path, reason, hFails⟩,
    ⟨path', reason', hFails'⟩, fun hBad => ?_⟩
  obtain ⟨f, hFails⟩ := hRefused''.mpr hBad
  cases hFails.symm.trans hRead

example : (Manifest.ofDocument blankPattern).isOk = false ∧ (Manifest.ofDocument guarded).isOk = true := by
  decide +kernel

end Repository
end Conform.Mapping

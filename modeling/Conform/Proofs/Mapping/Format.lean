import Conform.Mapping.Manifest
import Conform.Proofs.Except
import Conform.Proofs.Mapping.Field
import Conform.Proofs.Schema.Accepted
import Conform.Proofs.Text.Cutting

/-! The format of mapping manifests as a schema has it, and as the readers have it. A reader is exact about what it
refuses if it fails there, with the path of a field, and reads everything else; readers put together refuse what one of
them refuses. What the schema accepts is read, but for texts of blanks where a text is needed, floats where a whole
number is, and NaN. -/
namespace Conform.Mapping

variable {α β : Type} {run : Except Failure α} {bad bad' : Prop}

/-- Whether a run fails exactly if something is wrong, and then because of a field. -/
def Refuses (run : Except Failure α) (bad : Prop) : Prop :=
  (bad ∧ ∃ path reason, run = .error (.manifestField path reason)) ∨ (¬ bad ∧ ∃ a, run = .ok a)

namespace Refuses

theorem of_ok (h : ∃ a, run = .ok a) : Refuses run False := Or.inr ⟨id, h⟩

theorem of_error {path reason : Text} (h : run = .error (.manifestField path reason)) : Refuses run True :=
  Or.inl ⟨trivial, path, reason, h⟩

theorem congr (h : Refuses run bad) (hSame : bad ↔ bad') : Refuses run bad' := by
  rwa [Refuses, ← hSame]

theorem bind {f : α → Except Failure β} (h : Refuses run bad) (hRest : ∀ a, run = .ok a → Refuses (f a) bad') :
    Refuses (run >>= f) (bad ∨ bad') := by
  rcases h with ⟨hBad, path, reason, hRun⟩ | ⟨hGood, a, hRun⟩
  · refine Or.inl ⟨Or.inl hBad, path, reason, ?_⟩
    rw [hRun]
    rfl
  · rw [bind_of_ok hRun]
    exact (hRest a hRun).congr (or_iff_right hGood).symm

/-- What is read before without fail makes no difference. -/
theorem after {f : α → Except Failure β} (h : ∃ a, run = .ok a) (hRest : ∀ a, run = .ok a → Refuses (f a) bad) :
    Refuses (run >>= f) bad :=
  ((of_ok h).bind hRest).congr (by simp)

/-- What is done with the result makes no difference if it does not fail. -/
theorem before {f : α → Except Failure β} (h : Refuses run bad) (hRest : ∀ a, ∃ b, f a = .ok b) :
    Refuses (run >>= f) bad :=
  (h.bind fun a _ => of_ok (hRest a)).congr (by simp)

theorem object {f : Members → Except Failure α} {path : Text} {ms : Members} (h : Refuses (f ms) bad) :
    Refuses (Field.object path (.object ms) >>= f) bad :=
  h

theorem mapM {f : α → Except Failure β} {as : List α} {bad : α → Prop} (h : ∀ a ∈ as, Refuses (f a) (bad a)) :
    Refuses (as.mapM f) (∃ a ∈ as, bad a) := by
  induction as with
  | nil => exact (of_ok ⟨[], rfl⟩).congr (by simp)
  | cons a rest ih =>
      obtain ⟨hFirst, hRest⟩ := List.forall_mem_cons.mp h
      rw [List.mapM_cons]
      have hBoth := hFirst.bind fun b _ => (ih hRest).before (f := fun bs => pure (b :: bs)) fun bs => ⟨_, rfl⟩
      exact hBoth.congr (by simp)

theorem each {read : Text → Document → Except Failure α} {ds : List Document} {bad : Document → Prop}
    (h : ∀ d ∈ ds, ∀ path, Refuses (read path d) (bad d)) (path : Text) :
    Refuses (Field.each path ds read) (∃ d ∈ ds, bad d) := by
  have hAll : Refuses (Field.each path ds read) (∃ e ∈ ds.zipIdx, bad e.1) :=
    mapM fun e hMem => h e.1 (List.fst_mem_of_mem_zipIdx hMem) _
  refine hAll.congr ⟨?_, ?_⟩
  · rintro ⟨e, hMem, hBad⟩
    exact ⟨e.1, List.fst_mem_of_mem_zipIdx hMem, hBad⟩
  · rintro ⟨d, hMem, hBad⟩
    rw [← List.zipIdx_map_fst 0 ds] at hMem
    obtain ⟨e, hThere, rfl⟩ := List.mem_map.mp hMem
    exact ⟨e, hThere, hBad⟩

theorem error_iff (h : Refuses run bad) : (∃ f, run = .error f) ↔ bad := by
  rcases h with ⟨hBad, path, reason, rfl⟩ | ⟨hGood, a, rfl⟩
  · exact iff_of_true ⟨_, rfl⟩ hBad
  · exact iff_of_false nofun hGood

theorem eq_of_error (h : Refuses run bad) {f : Failure} (hRun : run = .error f) :
    ∃ path reason, f = .manifestField path reason := by
  rcases h with ⟨-, path, reason, hField⟩ | ⟨-, a, hOk⟩
  · exact ⟨path, reason, Except.error.inj (hRun.symm.trans hField)⟩
  · cases hRun.symm.trans hOk

theorem exists_ok (h : Refuses run bad) (hGood : ¬ bad) : ∃ a, run = .ok a := by
  rcases h with ⟨hBad, -⟩ | ⟨-, hOk⟩
  · exact absurd hBad hGood
  · exact hOk

end Refuses

end Conform.Mapping

namespace Conform.Mapping

open Schema (Accepts Defines Dialect PointsTo Unnamed)

/-! ### The schema -/

def textSchema : Members := [("type", .text "string")]

/-- A text that is not empty. -/
def nameSchema : Members := [("type", .text "string"), ("minLength", .int 1)]

def flagSchema : Members := [("type", .text "boolean")]

def wordSchema (words : List Text) : Members := [("type", .text "string"), ("enum", .list (words.map .text))]

/-- A number from zero to one. -/
def shareSchema : Members := [("type", .text "number"), ("minimum", .int 0), ("maximum", .int 1)]

def countSchema : Members := [("type", .text "integer"), ("minimum", .int 0)]

/-- A list whose items are defined under a name. -/
def listSchema (name : Text) : Members :=
  [("type", .text "array"), ("items", .object [("$ref", .text ("#/$defs/" ++ name))])]

/-- Schemas under their names. -/
def under (fields : List (Text × Members)) : Members := fields.map fun f => (f.1, .object f.2)

/-- An object with no fields but the given ones, of which some are required. -/
def recordSchema (required : List Text) (fields : List (Text × Members)) : Members :=
  Members.one "type" (.text "object") ++ Members.ofItems "required" (required.map .text)
    ++ Members.one "additionalProperties" (.bool false) ++ Members.one "properties" (.object (under fields))

def originSchema : Members := wordSchema (Origin.words.map Prod.fst)

/-- The fields that conditions of rules and of exclusions share. -/
def plainFields : List (Text × Members) := [("field", nameSchema), ("exists", flagSchema), ("equals", [])]

def conditionFields : List (Text × Members) := plainFields.concat ("schema_id", textSchema)

def ruleFields : List (Text × Members) :=
  [("pattern", nameSchema), ("schema_id", textSchema), ("inference_method", wordSchema (Inference.words.map Prod.fst)),
    ("fallback_schema", textSchema), ("source", originSchema), ("priority", wordSchema (Priority.words.map Prod.fst)),
    ("conditions", listSchema "condition")]

def exclusionFields : List (Text × Members) :=
  [("pattern", textSchema), ("content_pattern", recordSchema ["field"] plainFields), ("exclude_schema", textSchema),
    ("reason", textSchema), ("action", wordSchema (Action.words.map Prod.fst))]

def overrideFields : List (Text × Members) := [("schema_id", nameSchema), ("source", originSchema), ("path", textSchema)]

def configFields : List (Text × Members) :=
  [("inference_enabled", flagSchema), ("fallback_to_content", flagSchema), ("strict_mode", flagSchema),
    ("cache_inferences", flagSchema), ("respect_exclusions", flagSchema), ("auto_suggest_exclusions", flagSchema),
    ("min_confidence", shareSchema), ("max_suggestions", countSchema)]

def manifestFields : List (Text × Members) :=
  [("version", textSchema), ("config", recordSchema [] configFields), ("mappings", listSchema "mapping"),
    ("exclusions", listSchema "exclusion"), ("overrides", listSchema "override")]

def definitions : List (Text × Members) :=
  [("condition", recordSchema ["field"] conditionFields), ("mapping", recordSchema ["pattern"] ruleFields),
    ("exclusion", recordSchema [] exclusionFields), ("override", recordSchema ["schema_id"] overrideFields)]

/-- The schema of manifests, without what it says of itself. -/
def manifestSchema : Members := recordSchema [] manifestFields ++ Members.one "$defs" (.object (under definitions))

/-! ### What it accepts -/

variable {root x : Document} {required : List Text} {fields : List (Text × Members)} {schema xs : Members} {name : Text}

@[simp] theorem unnamed_nil : Unnamed [] := ⟨rfl, rfl⟩

@[simp] theorem unnamed_text : Unnamed textSchema := ⟨rfl, rfl⟩

@[simp] theorem unnamed_name : Unnamed nameSchema := ⟨rfl, rfl⟩

@[simp] theorem unnamed_flag : Unnamed flagSchema := ⟨rfl, rfl⟩

@[simp] theorem unnamed_word (words : List Text) : Unnamed (wordSchema words) := ⟨rfl, rfl⟩

@[simp] theorem unnamed_origin : Unnamed originSchema := unnamed_word _

@[simp] theorem unnamed_share : Unnamed shareSchema := ⟨rfl, rfl⟩

@[simp] theorem unnamed_count : Unnamed countSchema := ⟨rfl, rfl⟩

@[simp] theorem unnamed_list (name : Text) : Unnamed (listSchema name) := ⟨rfl, rfl⟩

@[simp] theorem unnamed_record (required : List Text) (fields : List (Text × Members)) :
    Unnamed (recordSchema required fields) := by
  cases required <;> exact ⟨rfl, rfl⟩

theorem exists_text (h : Accepts root textSchema x) : ∃ t, x = .text t := by
  have hType := h.hasType rfl
  cases x <;> first | exact ⟨_, rfl⟩ | cases hType

theorem exists_name (h : Accepts root nameSchema x) : ∃ t, x = .text t ∧ t ≠ [] := by
  have hType := h.hasType rfl
  cases x with
  | text t => exact ⟨t, rfl, List.ne_nil_of_length_pos (h.isNotShort (k := 1) rfl rfl)⟩
  | _ => cases hType

theorem exists_flag (h : Accepts root flagSchema x) : ∃ b, x = .bool b := by
  have hType := h.hasType rfl
  cases x <;> first | exact ⟨_, rfl⟩ | cases hType

theorem exists_word {words : List Text} (h : Accepts root (wordSchema words) x) : ∃ t ∈ words, x = .text t := by
  have hType := h.hasType rfl
  obtain ⟨d, hAllowed, hSame⟩ := h.isAllowed rfl
  obtain ⟨t, hMem, rfl⟩ := List.mem_map.mp hAllowed
  cases x with
  | text u =>
      obtain rfl : t = u := by simpa [Document.same] using hSame
      exact ⟨t, hMem, rfl⟩
  | _ => cases hType

/-- A number from zero to one is a whole number between the two, a finite float, or NaN, which passes no limit. -/
theorem cases_share (h : Accepts root shareSchema x) :
    (∃ n : Int, x = .int n ∧ 0 ≤ n ∧ n ≤ 1) ∨ ∃ y : Double, x = .float y ∧ (y = .nan ∨ y.isFinite = true) := by
  have hType := h.hasType rfl
  have hMinimum : Members.get? shareSchema "minimum" = some (.int 0) := rfl
  have hMaximum : Members.get? shareSchema "maximum" = some (.int 1) := rfl
  cases x with
  | int n =>
      have hLeast : some (compare n 0) ≠ some .lt := fun hLess => h.isNotLess hMinimum rfl (congrArg _ hLess)
      have hGreatest : some (compare n 1) ≠ some .gt := fun hMore => h.isNotGreater hMaximum rfl (congrArg _ hMore)
      rw [ne_eq, Option.some_inj, compare_lt_iff_lt] at hLeast
      rw [ne_eq, Option.some_inj, compare_gt_iff_gt] at hGreatest
      exact Or.inl ⟨n, rfl, by omega, by omega⟩
  | float y =>
      refine Or.inr ⟨y, rfl, ?_⟩
      cases y with
      | nan => exact Or.inl rfl
      | infinite negative =>
          cases negative with
          | true => exact absurd rfl (h.isNotLess hMinimum rfl)
          | false => exact absurd rfl (h.isNotGreater hMaximum rfl)
      | finite s m e => exact Or.inr rfl
  | _ => cases hType

theorem cases_count (h : Accepts root countSchema x) : (∃ n, x = .int n) ∨ ∃ y, x = .float y := by
  have hType := h.hasType rfl
  cases x with
  | int n => exact Or.inl ⟨n, rfl⟩
  | float y => exact Or.inr ⟨y, rfl⟩
  | _ => cases hType

/-- Whether each member of an object is accepted by the schema of its field. -/
def FieldsAccepted (root : Document) (fields : List (Text × Members)) (xs : Members) : Prop :=
  ∀ name schema v, (name, schema) ∈ fields → Members.get? xs name = some v → Accepts root schema v

theorem exists_object (h : Accepts root schema x) (hType : Members.get? schema "type" = some (.text "object"))
    (hFields : Members.get? schema "properties" = some (.object (under fields))) (hUnnamed : ∀ f ∈ fields, Unnamed f.2) :
    ∃ xs, x = .object xs ∧ FieldsAccepted root fields xs := by
  have hObject := h.hasType hType
  cases x with
  | object xs =>
      refine ⟨xs, rfl, fun name schema v hMem hGet => ?_⟩
      have hField : (name, Document.object schema) ∈ under fields := List.mem_map_of_mem (f := fun f => (f.1, _)) hMem
      exact h.property rfl hFields hField (hUnnamed _ hMem) hGet
  | _ => cases hObject

theorem exists_record (h : Accepts root (recordSchema required fields) x) (hUnnamed : ∀ f ∈ fields, Unnamed f.2) :
    ∃ xs, x = .object xs ∧ (∀ name ∈ required, Members.has xs name = true) ∧ FieldsAccepted root fields xs := by
  have hType : Members.get? (recordSchema required fields) "type" = some (.text "object") := by
    cases required <;> rfl
  have hFields : Members.get? (recordSchema required fields) "properties" = some (.object (under fields)) := by
    cases required <;> rfl
  obtain ⟨xs, rfl, hAccepted⟩ := exists_object h hType hFields hUnnamed
  refine ⟨xs, rfl, fun name hMem => ?_, hAccepted⟩
  cases required with
  | nil => cases hMem
  | cons first rest =>
      have hRequired : Members.get? (recordSchema (first :: rest) fields) "required" =
          some (.list ((first :: rest).map .text)) := rfl
      exact h.has rfl hRequired hMem

/-- Whether a document has the definitions of this format. -/
def HasDefinitions (root : Document) : Prop := root.get? "$defs" = some (.object (under definitions))

theorem HasDefinitions.defines (h : HasDefinitions root) (hMem : (name, schema) ∈ definitions) :
    Defines root name schema where
  found := by
    refine ⟨under definitions, h, rfl, ?_⟩
    have hNames : (definitions.map Prod.fst).Nodup :=
      (by decide : (["condition", "mapping", "exclusion", "override"] : List Text).Nodup)
    rw [Members.get?, under, lookup_map, lookup_of_mem hNames hMem]
    rfl
  unnamed := by
    have hAll : ∀ f ∈ definitions, Unnamed f.2 := by simp [definitions]
    exact hAll _ hMem

theorem pointsTo_of_mem (hMem : name ∈ definitions.map Prod.fst) : PointsTo ("#/$defs/" ++ name) name where
  fragment := rfl
  steps := by
    have hSteps : ∀ name ∈ definitions.map Prod.fst,
        Text.splitOn '/' (Uri.unescape ("$defs/" ++ name)) = [Text.ofString "$defs", name] := by decide +kernel
    exact hSteps name hMem
  unescaped := by
    have hSame : ∀ name ∈ definitions.map Prod.fst,
        Text.replacePair '~' '0' "~" (Text.replacePair '~' '1' "/" name) = name := by decide +kernel
    exact hSame name hMem

theorem exists_list (h : Accepts root (listSchema name) x) (hRoot : HasDefinitions root)
    (hMem : (name, schema) ∈ definitions) : ∃ ds, x = .list ds ∧ ∀ d ∈ ds, Accepts root schema d := by
  have hType := h.hasType rfl
  cases x with
  | list ds =>
      refine ⟨ds, rfl, fun d hItem => ?_⟩
      have hItems : Members.get? (listSchema name) "items" = some (.object [("$ref", .text ("#/$defs/" ++ name))]) := rfl
      have hRef := h.item rfl hItems rfl ⟨rfl, rfl⟩ hItem
      exact hRef.referenced rfl (pointsTo_of_mem (List.mem_map_of_mem hMem)) (hRoot.defines hMem)
  | _ => cases hType

/-! ### What is read of it -/

/-- Whether a text that is not empty stands under a name, but has nothing but blanks. -/
def BlankAt (d : Document) (name : Text) : Prop :=
  ∃ t : Text, d.get? name = some (.text t) ∧ t ≠ [] ∧ ∀ p ∈ t, p.isBlank = true

theorem exists_textOrEmpty_of_text {d : Option Document} (h : ∀ v ∈ d, ∃ t, v = .text t) (path : Text) :
    ∃ t, Field.textOrEmpty path d = .ok t := by
  cases d with
  | none => exact ⟨_, rfl⟩
  | some v =>
      obtain ⟨t, rfl⟩ := h v rfl
      exact ⟨_, rfl⟩

section Fields

variable {α : Type} (h : FieldsAccepted root fields xs) (path : Text)

include h

theorem exists_textOrEmpty (hField : (name, textSchema) ∈ fields) :
    ∃ t, Field.textOrEmpty path (Members.get? xs name) = .ok t :=
  exists_textOrEmpty_of_text (fun v hGet => exists_text (h _ _ v hField hGet)) path

theorem exists_bool? (hField : (name, flagSchema) ∈ fields) :
    ∃ b, Field.bool? path (Field.member xs name) = .ok b := by
  rw [Field.member]
  cases hGet : Members.get? xs name with
  | none => exact ⟨_, rfl⟩
  | some v =>
      obtain ⟨b, rfl⟩ := exists_flag (h _ _ v hField hGet)
      exact ⟨_, rfl⟩

theorem exists_word? {words : List (Text × α)} (hField : (name, wordSchema (words.map Prod.fst)) ∈ fields) :
    ∃ a, Field.word? words path (Field.member xs name) = .ok a := by
  rw [Field.member]
  cases hGet : Members.get? xs name with
  | none => exact ⟨_, rfl⟩
  | some v =>
      obtain ⟨t, hMem, rfl⟩ := exists_word (h _ _ v hField hGet)
      obtain ⟨a, hFound⟩ : ∃ a, words.lookup t = some a := by
        obtain ⟨e, hEntry, rfl⟩ := List.mem_map.mp hMem
        rw [← Option.ne_none_iff_exists']
        intro hNone
        simpa using List.lookup_eq_none_iff.mp hNone e hEntry
      by_cases hEmpty : t.isEmpty = true
      · exact ⟨none, by simp [Field.word?, hEmpty]⟩
      · exact ⟨some a, by simp [Field.word?, hEmpty, hFound]⟩

theorem refuses_text (hField : (name, nameSchema) ∈ fields) (hHas : Members.has xs name = true) :
    Refuses (Field.text path (Field.member xs name)) (BlankAt (.object xs) name) := by
  obtain ⟨v, hGet⟩ := Members.exists_get?_of_has hHas
  obtain ⟨t, rfl, hSome⟩ := exists_name (h _ _ v hField hGet)
  have hBlank : BlankAt (.object xs) name ↔ t.strip = [] := by
    rw [Text.strip_eq_nil_iff]
    constructor
    · rintro ⟨u, hThere, -, hAll⟩
      obtain rfl : t = u := Document.text.inj (Option.some.inj (hGet.symm.trans hThere))
      exact hAll
    · exact fun hAll => ⟨t, hGet, hSome, hAll⟩
  have hMember : Field.member xs name = .text t := by
    rw [Field.member, hGet]
    rfl
  rw [hMember]
  by_cases hEmpty : t.strip = []
  · have hFails : Field.text path (.text t) = .error (.manifestField path "must be at least 1 character(s)") :=
      if_pos (List.isEmpty_iff.mpr hEmpty)
    exact (Refuses.of_error hFails).congr (iff_of_true trivial (hBlank.mpr hEmpty))
  · refine (Refuses.of_ok ⟨t.strip, ?_⟩).congr (iff_of_false id fun hBad => hEmpty (hBlank.mp hBad))
    exact if_neg fun hNil => hEmpty (List.isEmpty_iff.mp hNil)

theorem refuses_float? (hField : (name, shareSchema) ∈ fields) :
    Refuses (Field.float? path (Field.member xs name)) (Members.get? xs name = some (.float .nan)) := by
  rw [Field.member]
  cases hGet : Members.get? xs name with
  | none => exact (Refuses.of_ok ⟨none, rfl⟩).congr (by simp)
  | some v =>
      rcases cases_share (h _ _ v hField hGet) with ⟨n, rfl, hLeast, hGreatest⟩ | ⟨y, rfl, rfl | hFinite⟩
      · obtain rfl | rfl : n = 0 ∨ n = 1 := by omega
        · exact (Refuses.of_ok ⟨_, rfl⟩).congr (by simp)
        · exact (Refuses.of_ok ⟨_, rfl⟩).congr (by simp)
      · exact (Refuses.of_error rfl).congr (iff_of_true trivial rfl)
      · refine (Refuses.of_ok ⟨some y, if_pos hFinite⟩).congr (iff_of_false id ?_)
        rintro ⟨⟩
        cases hFinite

theorem refuses_int? (hField : (name, countSchema) ∈ fields) :
    Refuses (Field.int? path (Field.member xs name)) (∃ x, Members.get? xs name = some (.float x)) := by
  rw [Field.member]
  cases hGet : Members.get? xs name with
  | none => exact (Refuses.of_ok ⟨none, rfl⟩).congr (by simp)
  | some v =>
      rcases cases_count (h _ _ v hField hGet) with ⟨n, rfl⟩ | ⟨y, rfl⟩
      · exact (Refuses.of_ok ⟨some n, rfl⟩).congr (by simp)
      · exact (Refuses.of_error rfl).congr (by simp)

/-- A list is refused for the items that are, if all that follows is read. -/
theorem refuses_list {defined at_ : Text} {read : Text → Document → Except Failure α} {bad : Document → Prop}
    {β : Type} {rest : List α → Except Failure β} {bad' : Prop} (hField : (name, listSchema defined) ∈ fields)
    (hRoot : HasDefinitions root) (hMem : (defined, schema) ∈ definitions)
    (hRead : ∀ {d}, Accepts root schema d → ∀ path, Refuses (read path d) (bad d))
    (hRest : ∀ as, Refuses (rest as) bad') :
    Refuses (Field.items at_ (Field.member xs name) >>= fun ds => Field.each path ds read >>= rest)
      ((∃ d ∈ Field.listed (.object xs) name, bad d) ∨ bad') := by
  have hMember : ((Document.object xs).get? name).getD .null = Field.member xs name := rfl
  rw [Field.listed, hMember, Field.member]
  cases hGet : Members.get? xs name with
  | none => exact (hRest []).congr (by simp)
  | some v =>
      obtain ⟨ds, rfl, hEach⟩ := exists_list (h _ _ v hField hGet) hRoot hMem
      exact (Refuses.each (fun d hItem => hRead (hEach d hItem)) path).bind fun as _ => hRest as

end Fields

namespace Condition

theorem refuses_plain (h : FieldsAccepted root fields xs) (hFields : plainFields ⊆ fields)
    (hHas : Members.has xs "field" = true) (path : Text) :
    Refuses (plain path xs) (BlankAt (.object xs) "field") := by
  refine (refuses_text h _ (hFields (by simp [plainFields])) hHas).before fun field => ?_
  exact exists_bind_ok (exists_bool? h _ (hFields (by simp [plainFields]))) fun isPresent => ⟨_, rfl⟩

theorem refuses_ofContent (h : Accepts root (recordSchema ["field"] plainFields) x) (path : Text) :
    Refuses (ofContent path x) (BlankAt x "field") := by
  obtain ⟨xs, rfl, hHas, hFields⟩ := exists_record h (by simp [plainFields])
  exact refuses_plain hFields (List.Subset.refl _) (hHas _ List.mem_cons_self) path

theorem refuses_ofDocument (h : Accepts root (recordSchema ["field"] conditionFields) x) (path : Text) :
    Refuses (ofDocument path x) (BlankAt x "field") := by
  obtain ⟨xs, rfl, hHas, hFields⟩ := exists_record h (by simp [conditionFields, plainFields])
  have hPlain : plainFields ⊆ conditionFields := by simp [conditionFields]
  refine .object ((refuses_plain hFields hPlain (hHas _ List.mem_cons_self) path).before fun c => ?_)
  exact exists_bind_ok (exists_textOrEmpty hFields _ (by simp [conditionFields])) fun schemaId => ⟨_, rfl⟩

end Condition

theorem Rule.refuses_ofDocument (hRoot : HasDefinitions root) (h : Accepts root (recordSchema ["pattern"] ruleFields) x)
    (path : Text) : Refuses (ofDocument path x)
      (BlankAt x "pattern" ∨ ∃ c ∈ Field.listed x "conditions", BlankAt c "field") := by
  obtain ⟨xs, rfl, hHas, hFields⟩ := exists_record h (by simp [ruleFields])
  have hText {name : Text} (hMem : (name, textSchema) ∈ ruleFields) (path : Text) := exists_textOrEmpty hFields path hMem
  refine .object ((refuses_text hFields _ (by simp [ruleFields]) (hHas _ List.mem_cons_self)).bind fun pattern _ => ?_)
  refine .after (hText (by simp [ruleFields]) _) fun schemaId _ => ?_
  refine .after (exists_word? hFields _ (by simp [ruleFields])) fun inference _ => ?_
  refine .after (hText (by simp [ruleFields]) _) fun fallback _ => ?_
  refine .after (exists_word? hFields _ (by simp [ruleFields, originSchema])) fun origin _ => ?_
  refine .after (exists_word? hFields _ (by simp [ruleFields])) fun priority _ => ?_
  refine Refuses.congr (refuses_list hFields _ (by simp [ruleFields] : (_, listSchema "condition") ∈ _) hRoot
    (by simp [definitions]) Condition.refuses_ofDocument fun conditions => .of_ok ⟨_, rfl⟩) (by simp)

theorem Exclusion.refuses_ofDocument (h : Accepts root (recordSchema [] exclusionFields) x) (path : Text) :
    Refuses (ofDocument path x) (∃ c, x.get? "content_pattern" = some c ∧ BlankAt c "field") := by
  obtain ⟨xs, rfl, -, hFields⟩ := exists_record h (by simp [exclusionFields])
  have hText {name : Text} (hMem : (name, textSchema) ∈ exclusionFields) (path : Text) :=
    exists_textOrEmpty hFields path hMem
  refine .object (.after (hText (by simp [exclusionFields]) _) fun pattern _ => ?_)
  have hRest : ∀ content : Option Condition, ∃ e : Exclusion, (do
      let schemaId ← Field.textOrEmpty (path ++ ".exclude_schema") (Members.get? xs "exclude_schema")
      let reason ← Field.textOrEmpty (path ++ ".reason") (Members.get? xs "reason")
      let action ← Field.word? Action.words (path ++ ".action") (Field.member xs "action")
      return ⟨pattern, content, schemaId, reason, action⟩) = Except.ok e := by
    intro content
    refine exists_bind_ok (hText (by simp [exclusionFields]) _) fun schemaId => ?_
    refine exists_bind_ok (hText (by simp [exclusionFields]) _) fun reason => ?_
    exact exists_bind_ok (exists_word? hFields _ (by simp [exclusionFields])) fun action => ⟨_, rfl⟩
  have hMember : Field.member xs "content_pattern" = ((Document.object xs).get? "content_pattern").getD .null := rfl
  rw [hMember]
  cases hGet : (Document.object xs).get? "content_pattern" with
  | none => exact (Refuses.of_ok (hRest none)).congr (by simp)
  | some c =>
      have hContent := hFields "content_pattern" (recordSchema ["field"] plainFields) c (by simp [exclusionFields]) hGet
      obtain ⟨cs, rfl, -⟩ := exists_record hContent (by simp [plainFields])
      have hRead := (Condition.refuses_ofContent hContent (path ++ ".content_pattern")).before
        (f := fun c => pure (some c)) fun c => ⟨_, rfl⟩
      exact (hRead.before hRest).congr (by simp)

theorem Override.refuses_ofDocument (h : Accepts root (recordSchema ["schema_id"] overrideFields) x) (path : Text) :
    Refuses (ofDocument path x) (BlankAt x "schema_id") := by
  obtain ⟨xs, rfl, hHas, hFields⟩ := exists_record h (by simp [overrideFields])
  -- The origin is one of some words, but is read as any text.
  have hOrigin : ∀ v ∈ Members.get? xs "source", ∃ t, v = .text t := by
    intro v hGet
    obtain ⟨t, -, rfl⟩ := exists_word (hFields "source" originSchema v (by simp [overrideFields]) hGet)
    exact ⟨t, rfl⟩
  have hSchemaId := refuses_text hFields (path ++ ".schema_id") (by simp [overrideFields]) (hHas _ List.mem_cons_self)
  refine .object (hSchemaId.before fun schemaId => ?_)
  refine exists_bind_ok (exists_textOrEmpty_of_text hOrigin _) fun origin => ?_
  exact exists_bind_ok (exists_textOrEmpty hFields _ (by simp [overrideFields])) fun location => ⟨_, rfl⟩

theorem Tuning.refuses_ofDocument (h : Accepts root (recordSchema [] configFields) x) :
    Refuses (ofDocument x) (x.get? "min_confidence" = some (.float .nan) ∨
      ∃ y, x.get? "max_suggestions" = some (.float y)) := by
  obtain ⟨xs, rfl, -, hFields⟩ := exists_record h (by simp [configFields])
  have hFlag {name : Text} (hMem : (name, flagSchema) ∈ configFields) := exists_bool? hFields "config" hMem
  refine .object (.after (hFlag (by simp [configFields])) fun inference _ => ?_)
  refine .after (hFlag (by simp [configFields])) fun fallback _ => ?_
  refine .after (hFlag (by simp [configFields])) fun isStrict _ => ?_
  refine .after (hFlag (by simp [configFields])) fun caches _ => ?_
  refine .after (hFlag (by simp [configFields])) fun respects _ => ?_
  refine .after (hFlag (by simp [configFields])) fun suggests _ => ?_
  refine (refuses_float? hFields _ (by simp [configFields])).bind fun confidence _ => ?_
  exact (refuses_int? hFields _ (by simp [configFields])).before fun count => ⟨_, rfl⟩

/-- What keeps a manifest that the schema accepts from being read: a text of blanks where a text is needed, a least
confidence that is no number, or a float for a count. -/
inductive Unreadable (d : Document) : Prop
  | pattern {r : Document} (hRule : r ∈ Field.listed d "mappings") (hBlank : BlankAt r "pattern")
  | condition {r c : Document} (hRule : r ∈ Field.listed d "mappings") (hCondition : c ∈ Field.listed r "conditions")
      (hBlank : BlankAt c "field")
  | content {e c : Document} (hExclusion : e ∈ Field.listed d "exclusions")
      (hContent : e.get? "content_pattern" = some c) (hBlank : BlankAt c "field")
  | override {o : Document} (hOverride : o ∈ Field.listed d "overrides") (hBlank : BlankAt o "schema_id")
  | confidence {c : Document} (hConfig : d.get? "config" = some c)
      (hConfidence : c.get? "min_confidence" = some (.float .nan))
  | suggestions {c : Document} {y : Double} (hConfig : d.get? "config" = some c)
      (hSuggestions : c.get? "max_suggestions" = some (.float y))

theorem unreadable_iff {d : Document} : Unreadable d ↔
    (∃ c, d.get? "config" = some c ∧ (c.get? "min_confidence" = some (.float .nan) ∨
      ∃ y, c.get? "max_suggestions" = some (.float y))) ∨
    (∃ r ∈ Field.listed d "mappings", BlankAt r "pattern" ∨ ∃ c ∈ Field.listed r "conditions", BlankAt c "field") ∨
    (∃ e ∈ Field.listed d "exclusions", ∃ c, e.get? "content_pattern" = some c ∧ BlankAt c "field") ∨
    ∃ o ∈ Field.listed d "overrides", BlankAt o "schema_id" := by
  constructor
  · intro h
    cases h with
    | pattern hRule hBlank => exact .inr (.inl ⟨_, hRule, .inl hBlank⟩)
    | condition hRule hCondition hBlank => exact .inr (.inl ⟨_, hRule, .inr ⟨_, hCondition, hBlank⟩⟩)
    | content hExclusion hContent hBlank => exact .inr (.inr (.inl ⟨_, hExclusion, _, hContent, hBlank⟩))
    | override hOverride hBlank => exact .inr (.inr (.inr ⟨_, hOverride, hBlank⟩))
    | confidence hConfig hConfidence => exact .inl ⟨_, hConfig, .inl hConfidence⟩
    | suggestions hConfig hSuggestions => exact .inl ⟨_, hConfig, .inr ⟨_, hSuggestions⟩⟩
  · rintro (⟨c, hConfig, hConfidence | ⟨y, hSuggestions⟩⟩ | ⟨r, hRule, hBlank | ⟨c, hCondition, hBlank⟩⟩ |
      ⟨e, hExclusion, c, hContent, hBlank⟩ | ⟨o, hOverride, hBlank⟩)
    · exact .confidence hConfig hConfidence
    · exact .suggestions hConfig hSuggestions
    · exact .pattern hRule hBlank
    · exact .condition hRule hCondition hBlank
    · exact .content hExclusion hContent hBlank
    · exact .override hOverride hBlank

theorem Tuning.refuses_config (h : FieldsAccepted root manifestFields xs) :
    Refuses (ofDocument (Field.member xs "config"))
      (∃ c, (Document.object xs).get? "config" = some c ∧ (c.get? "min_confidence" = some (.float .nan) ∨
        ∃ y, c.get? "max_suggestions" = some (.float y))) := by
  have hMember : Field.member xs "config" = ((Document.object xs).get? "config").getD .null := rfl
  rw [hMember]
  cases hGet : (Document.object xs).get? "config" with
  | none =>
      have hNull : ∃ t : Tuning, ofDocument .null = .ok t := ⟨_, rfl⟩
      exact (Refuses.of_ok hNull).congr (by simp)
  | some c => exact (refuses_ofDocument (h "config" _ c (by simp [manifestFields]) hGet)).congr (by simp)

/-- What the schema accepts is read unless it is unreadable. -/
theorem Manifest.refuses_ofDocument (hRoot : HasDefinitions root) (h : Accepts root schema x)
    (hType : Members.get? schema "type" = some (.text "object"))
    (hFields : Members.get? schema "properties" = some (.object (under manifestFields))) :
    Refuses (ofDocument x) (Unreadable x) := by
  obtain ⟨xs, rfl, hFields⟩ := exists_object h hType hFields (by simp [manifestFields])
  have hRest : ∀ version : Text, Refuses (do
      let tuning ← Tuning.ofDocument (Field.member xs "config")
      let rules ← Field.each "mappings" (← Field.items "mappings" (Field.member xs "mappings")) Rule.ofDocument
      let exclusions ←
        Field.each "exclusions" (← Field.items "exclusions" (Field.member xs "exclusions")) Exclusion.ofDocument
      let overrides ← Field.each "overrides" (← Field.items "overrides" (Field.member xs "overrides")) Override.ofDocument
      return Manifest.mk version tuning rules exclusions overrides) (Unreadable (.object xs)) := by
    intro version
    refine Refuses.congr ((Tuning.refuses_config hFields).bind fun tuning _ => ?_) unreadable_iff.symm
    refine refuses_list hFields _ (by simp [manifestFields] : (_, listSchema "mapping") ∈ _) hRoot (by simp [definitions])
      (Rule.refuses_ofDocument hRoot) fun rules => ?_
    refine refuses_list hFields _ (by simp [manifestFields] : (_, listSchema "exclusion") ∈ _) hRoot
      (by simp [definitions]) Exclusion.refuses_ofDocument fun exclusions => ?_
    refine Refuses.congr (refuses_list hFields _ (by simp [manifestFields] : (_, listSchema "override") ∈ _) hRoot
      (by simp [definitions]) Override.refuses_ofDocument fun overrides => .of_ok ⟨_, rfl⟩) (by simp)
  refine .object ?_
  dsimp only
  rw [Field.member]
  cases hGet : Members.get? xs "version" with
  | none => exact hRest []
  | some v =>
      obtain ⟨t, rfl⟩ := exists_text (hFields "version" textSchema v (by simp [manifestFields]) hGet)
      exact hRest t.strip

end Conform.Mapping

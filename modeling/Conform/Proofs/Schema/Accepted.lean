import Conform.Proofs.Schema.Library

/-! What a schema accepts. A check that ends without a finding has none for any keyword, and so each keyword says
something about the value. This is said here for the keywords of one dialect, and for schemas that stand inside one
document and have no names of their own. -/
namespace Conform.Schema

namespace Dialect

variable {k : Text} {rule : Rule}

/-- No keyword stands for two rules. -/
theorem rule?_of_mem (h : (k, rule) ∈ draft2020.rules) : draft2020.rule? k = some rule := by
  have hDistinct : (rules2020.map Prod.fst).Nodup := by decide +kernel
  exact lookup_of_mem hDistinct h

theorem mem_rules_of_later (h : (k, rule) ∈ laterRules) : (k, rule) ∈ draft2020.rules := by
  simp [rules, modernRules, RuleTable.with, h]

theorem mem_rules_of_shared (h : (k, rule) ∈ sharedRules) : (k, rule) ∈ draft2020.rules := by
  apply mem_rules_of_later
  simp [laterRules, RuleTable.with, h]

end Dialect

namespace Findings

variable {α : Type} {f : Findings} {next : Unit → Findings} {check : α → Findings} {items : List α} {step : Text}

theorem append_eq_done : f.append next = .done ↔ f = .done ∧ next () = .done := by
  cases f <;> simp [append]

theorem forEach_eq_done : forEach check items = .done ↔ ∀ a ∈ items, check a = .done := by
  induction items with
  | nil => simp [forEach]
  | cons a rest ih => rw [forEach, append_eq_done, ih, List.forall_mem_cons]

theorem under_eq_done : f.under step = .done ↔ f = .done := by
  cases f <;> simp [under]

theorem ofExcept_eq_done {e : Except Failure Findings} : ofExcept e = .done ↔ e = .ok .done := by
  cases e <;> simp [ofExcept]

theorem all_eq_nil : f.all = .ok [] ↔ f = .done := by
  cases f with
  | done => simp [all]
  | found first rest =>
      rw [all]
      cases (rest ()).all <;> simp [Except.map]
  | stopped => simp [all]

end Findings

theorem violationIf_eq_done {failed : Bool} {keyword message : Text} :
    violationIf failed keyword message = .done ↔ failed = false := by
  cases failed <;> simp [violationIf, violation, Findings.one]

theorem Report.valid_ofFindings {fs : List Finding} : (Report.ofFindings fs).valid = true ↔ fs = [] := by
  rw [Report.valid, Report.ofFindings, List.isEmpty_iff, List.map_eq_nil_iff]
  constructor
  · intro h
    have hLength : (fs.mergeSort Finding.le).length = fs.length := List.length_mergeSort fs
    exact List.eq_nil_of_length_eq_zero (by rw [← hLength, h]; rfl)
  · rintro rfl
    exact List.mergeSort_nil

/-- A document is valid exactly if a check of it ends without a finding. -/
theorem Compiled.check_of_valid {s : Compiled} {d : Document} {r : Report} (hReport : s.validate d = .ok r)
    (hValid : r.valid = true) : check s.context s.document d = .done := by
  obtain ⟨fs, hAll, hReport⟩ := exists_of_bind_ok hReport
  obtain rfl := Except.ok.inj hReport
  rw [Report.valid_ofFindings] at hValid
  exact Findings.all_eq_nil.mp (hValid ▸ hAll)

/-- Whether a check is made inside a document, in the latest dialect and under the document's own name. -/
structure Context.Within (c : Context) (root : Document) : Prop where
  dialect : c.dialect = .draft2020
  unexplored : c.resolver.explored = false
  there : c.resolver.store.entered.resource? c.resolver.base = some ⟨.draft2020, root⟩

/-- Whether a schema with some members, inside a document, accepts a value. It does not matter how deep the check
may go. -/
def Accepts (root : Document) (schema : Members) (x : Document) : Prop :=
  ∃ n c, c.Within root ∧ checkKeywords (Evaluator.ofLevels n) .draft2020 c schema x = .done

namespace Compiled

variable {p : Parsed} {others : List (Text × Document)} {s : Compiled} {d : Document} {r : Report} {schema : Members}

theorem within_of_ofParsed (h : ofParsed p others = .ok s) (hDialect : Dialect.ofDeclaration p.declared = .draft2020) :
    s.context.Within s.document := by
  obtain ⟨-, hSame, ⟨docs, -, hResolver⟩, -⟩ := ofParsed_ok h
  have hRoot : s.root = ⟨.draft2020, s.document⟩ := by rw [root, hSame, hDialect]
  refine ⟨hSame.trans hDialect, ?_, ?_⟩
  · rw [hResolver]
    rfl
  · rw [hResolver, ← hRoot]
    exact Shelf.resource?_insert_self _ _ _

theorem accepts_of_valid (hWithin : s.context.Within s.document) (hObject : s.document = .object schema)
    (hReport : s.validate d = .ok r) (hValid : r.valid = true) : Accepts s.document schema d := by
  have hDone := check_of_valid hReport hValid
  rw [hObject] at hDone
  exact ⟨Evaluator.maxLevels, s.context, hWithin, hWithin.dialect ▸ hDone⟩

end Compiled

/-- Whether a schema has neither a name nor a dialect of its own. -/
structure Unnamed (schema : Members) : Prop where
  id : Members.get? schema "$id" = none
  dialect : Members.get? schema "$schema" = none

section Descent

variable {root x v : Document} {schema sub : Members} {c : Context} {n : Nat} {e : Evaluator} {k : Text} {rule : Rule}

theorem Unnamed.of_eq (h : Unnamed schema) (c : Context) : c.of (.object schema) = c := by
  have hNone : (Document.object schema).get? "$schema" = none := h.dialect
  simp [Context.of, Dialect.inner, hNone]

theorem Unnamed.id?_eq_none (h : Unnamed schema) : (⟨.draft2020, .object schema⟩ : Resource).id? = none := by
  have hNone : (Document.object schema).get? "$id" = none := h.id
  simp [Resource.id?, Dialect.idKeyword, hNone]

theorem accepts_of_descend (hWithin : c.Within root) (hUnnamed : Unnamed schema)
    (h : (Evaluator.ofLevels n).descend c (.object schema) x = .done) : Accepts root schema x := by
  cases n with
  | zero => cases h
  | succ n =>
      have hEnter : c.resolver.enter ⟨c.dialect, .object schema⟩ = .ok c.resolver := by
        rw [Resolver.enter, hWithin.dialect, hUnnamed.id?_eq_none]
      have hDone : checkKeywords (Evaluator.ofLevels n) c.dialect c schema x = .done := by
        simpa only [Evaluator.ofLevels, Evaluator.above, checkSchema, hEnter, hUnnamed.of_eq] using h
      exact ⟨n, c, hWithin, hWithin.dialect ▸ hDone⟩

theorem accepts_of_below {step : Text} (hWithin : c.Within root) (hUnnamed : Unnamed schema)
    (h : (Evaluator.ofLevels n).below c step (.object schema) x = .done) : Accepts root schema x :=
  accepts_of_descend hWithin hUnnamed (Findings.under_eq_done.mp h)

/-- Where nothing is found, no keyword finds anything. -/
theorem check_of_get? (hWithin : c.Within root) (h : checkKeywords e .draft2020 c schema x = .done)
    (hGet : Members.get? schema k = some v) (hRule : (k, rule) ∈ Dialect.draft2020.rules) :
    rule.check e c k v schema x = .done := by
  have hEach := Findings.forEach_eq_done.mp h (k, v) (Members.mem_of_get? hGet)
  simpa only [checkKeyword, hWithin.dialect, Dialect.rule?_of_mem hRule] using hEach

end Descent

theorem Rules.exists_placed {ds : List Document} {x : Document} (h : x ∈ ds) (start : Nat) :
    ∃ i, (i, x) ∈ placed start ds := by
  induction ds generalizing start with
  | nil => cases h
  | cons d rest ih =>
      rw [placed]
      rcases List.mem_cons.mp h with rfl | hRest
      · exact ⟨start, List.mem_cons_self⟩
      · obtain ⟨i, hMem⟩ := ih hRest (start + 1)
        exact ⟨i, List.mem_cons_of_mem _ hMem⟩

/-- Whether a document defines a schema under a name. -/
structure Defines (root : Document) (name : Text) (schema : Members) : Prop where
  found : ∃ definitions, root.get? "$defs" = some (.object definitions) ∧ Members.get? definitions "$id" = none ∧
    Members.get? definitions name = some (.object schema)
  unnamed : Unnamed schema

/-- Whether a reference is a pointer to the definition with a name, in which no sign stands for another one. -/
structure PointsTo (ref name : Text) : Prop where
  fragment : ref.dropStart? "#" = some ("/$defs/" ++ name)
  steps : Text.splitOn '/' (Uri.unescape ("$defs/" ++ name)) = [Text.ofString "$defs", name]
  unescaped : Text.replacePair '~' '0' "~" (Text.replacePair '~' '1' "/" name) = name

/-- A pointer to a definition leads to it, wherever in the document it stands. -/
theorem Resolver.lookup_definition {r : Resolver} {root : Document} {ref name : Text} {schema : Members}
    (hPoints : PointsTo ref name) (hDefines : Defines root name schema) (hNear : r.explored = false)
    (hThere : r.store.entered.resource? r.base = some ⟨.draft2020, root⟩) :
    r.lookup ref = .ok (.ok ⟨.object schema, r.move r.base⟩) := by
  obtain ⟨definitions, hDefinitions, hNoId, hSchema⟩ := hDefines.found
  have hParts : r.parts ref = .ok (r.base, "/$defs/" ++ name) := by
    rw [parts, hPoints.fragment]
  have hSteps : Text.splitOn '/' (Uri.unescape (("/$defs/" ++ name : Text).drop 1)) = [Text.ofString "$defs", name] :=
    hPoints.steps
  have hFirst : child root "$defs" = .ok (some (.object definitions), .name "$defs") := by
    have hName : Text.replacePair '~' '0' "~" (Text.replacePair '~' '1' "/" "$defs") = "$defs" := by decide +kernel
    cases root with
    | object ms =>
        have hGet : Members.get? ms "$defs" = some (.object definitions) := hDefinitions
        rw [child, hName, hGet]
    | _ => cases hDefinitions
  have hSecond : child (.object definitions) name = .ok (some (.object schema), .name name) := by
    rw [child, hPoints.unescaped, hSchema]
  have hBetween : (⟨.draft2020, .object definitions⟩ : Resource).id? = none := by
    have hNone : (Document.object definitions).get? "$id" = none := hNoId
    simp [Resource.id?, Dialect.idKeyword, hNone]
  rw [lookup_of_pointer hParts rfl hNear hThere, hSteps]
  simp [follow, hFirst, hSecond, hBetween, hDefines.unnamed.id?_eq_none, bind, Except.bind]

namespace Accepts

variable {root x v bound : Document} {schema sub xs fields : Members} {allowed ds : List Document} {name type : Text}
  (h : Accepts root schema x)

include h

theorem hasType (hType : Members.get? schema "type" = some (.text type)) :
    Dialect.draft2020.hasType x type = .ok true := by
  obtain ⟨n, c, hWithin, hDone⟩ := h
  have hRule : (Text.ofString "type", Rule.type) ∈ Dialect.sharedRules := by simp [Dialect.sharedRules]
  have hCheck := check_of_get? hWithin hDone hType (Dialect.mem_rules_of_shared hRule)
  obtain ⟨fits, hFits, hCheck⟩ := exists_of_bind_ok (Findings.ofExcept_eq_done.mp hCheck)
  obtain rfl : fits = true := by simpa using violationIf_eq_done.mp (Except.ok.inj hCheck)
  obtain ⟨one, hOne, hFits⟩ := exists_of_bind_ok hFits
  cases one with
  | true => exact hWithin.dialect ▸ hOne
  | false => cases hFits

theorem isAllowed (hEnum : Members.get? schema "enum" = some (.list allowed)) : ∃ a ∈ allowed, a.same x = true := by
  obtain ⟨n, c, hWithin, hDone⟩ := h
  have hRule : (Text.ofString "enum", Rule.enum) ∈ Dialect.sharedRules := by simp [Dialect.sharedRules]
  have hCheck := check_of_get? hWithin hDone hEnum (Dialect.mem_rules_of_shared hRule)
  simpa using violationIf_eq_done.mp hCheck

theorem isNotPast {side : Side} {exclusive : Bool} {k : Text}
    (hRule : (k, .limit side exclusive) ∈ Dialect.laterRules) (hLimit : Members.get? schema k = some bound)
    (hNumber : x.isNumber = true) :
    ∃ order, compare x bound = .ok order ∧ Rules.isPast side exclusive order = false := by
  obtain ⟨n, c, hWithin, hDone⟩ := h
  have hCheck := check_of_get? hWithin hDone hLimit (Dialect.mem_rules_of_later hRule)
  rw [Rule.check, Rules.limit, hNumber] at hCheck
  obtain ⟨order, hOrder, hCheck⟩ := exists_of_bind_ok (Findings.ofExcept_eq_done.mp hCheck)
  exact ⟨order, hOrder, violationIf_eq_done.mp (Except.ok.inj hCheck)⟩

theorem isNotLess (hLimit : Members.get? schema "minimum" = some bound) (hNumber : x.isNumber = true) :
    compare x bound ≠ .ok (some .lt) := by
  have hRule : (Text.ofString "minimum", Rule.limit .least false) ∈ Dialect.laterRules := by
    simp [Dialect.laterRules, RuleTable.with]
  obtain ⟨order, hOrder, hPast⟩ := h.isNotPast hRule hLimit hNumber
  intro hLess
  obtain rfl : order = some .lt := Except.ok.inj (hOrder.symm.trans hLess)
  cases hPast

theorem isNotGreater (hLimit : Members.get? schema "maximum" = some bound) (hNumber : x.isNumber = true) :
    compare x bound ≠ .ok (some .gt) := by
  have hRule : (Text.ofString "maximum", Rule.limit .greatest false) ∈ Dialect.laterRules := by
    simp [Dialect.laterRules, RuleTable.with]
  obtain ⟨order, hOrder, hPast⟩ := h.isNotPast hRule hLimit hNumber
  intro hGreater
  obtain rfl : order = some .gt := Except.ok.inj (hOrder.symm.trans hGreater)
  cases hPast

theorem isNotShort {t : Text} {k : Nat} (hText : x = .text t) (hLength : Members.get? schema "minLength" = some (.int k)) :
    k ≤ t.length := by
  subst hText
  obtain ⟨n, c, hWithin, hDone⟩ := h
  have hRule : (Text.ofString "minLength", Rule.size .characters .least) ∈ Dialect.sharedRules := by
    simp [Dialect.sharedRules]
  have hCheck := check_of_get? hWithin hDone hLength (Dialect.mem_rules_of_shared hRule)
  simp only [Rule.check, Rules.size, Rules.size?] at hCheck
  obtain ⟨order, hOrder, hCheck⟩ := exists_of_bind_ok (Findings.ofExcept_eq_done.mp hCheck)
  obtain rfl : some (Ord.compare (t.length : Int) k) = order := Except.ok.inj hOrder
  have hNot := violationIf_eq_done.mp (Except.ok.inj hCheck)
  by_contra hShort
  rw [compare_lt_iff_lt.mpr (by omega)] at hNot
  cases hNot

theorem has (hObject : x = .object xs) {names : List Text}
    (hRequired : Members.get? schema "required" = some (.list (names.map .text))) (hMem : name ∈ names) :
    Members.has xs name = true := by
  subst hObject
  obtain ⟨n, c, hWithin, hDone⟩ := h
  have hRule : (Text.ofString "required", Rule.required) ∈ Dialect.sharedRules := by simp [Dialect.sharedRules]
  have hCheck := check_of_get? hWithin hDone hRequired (Dialect.mem_rules_of_shared hRule)
  have hEach := Findings.forEach_eq_done.mp hCheck (.text name) (List.mem_map_of_mem hMem)
  simpa using violationIf_eq_done.mp (Except.ok.inj (Findings.ofExcept_eq_done.mp hEach))

theorem property (hObject : x = .object xs) (hFields : Members.get? schema "properties" = some (.object fields))
    (hField : (name, .object sub) ∈ fields) (hUnnamed : Unnamed sub) (hGet : Members.get? xs name = some v) :
    Accepts root sub v := by
  subst hObject
  obtain ⟨n, c, hWithin, hDone⟩ := h
  have hRule : (Text.ofString "properties", Rule.properties) ∈ Dialect.sharedRules := by simp [Dialect.sharedRules]
  have hCheck := check_of_get? hWithin hDone hFields (Dialect.mem_rules_of_shared hRule)
  have hEach := Findings.forEach_eq_done.mp hCheck (name, .object sub) hField
  simp only [hGet] at hEach
  exact accepts_of_below hWithin hUnnamed hEach

theorem item (hList : x = .list ds) (hItems : Members.get? schema "items" = some (.object sub))
    (hNone : Members.get? schema "prefixItems" = none) (hUnnamed : Unnamed sub) (hMem : v ∈ ds) :
    Accepts root sub v := by
  subst hList
  obtain ⟨n, c, hWithin, hDone⟩ := h
  have hRule : (Text.ofString "items", Rule.items) ∈ Dialect.draft2020.rules := by simp [Dialect.rules, RuleTable.with]
  have hCheck := check_of_get? hWithin hDone hItems hRule
  have hListed : Rules.listedCount schema "prefixItems" = .ok 0 := by
    rw [Rules.listedCount, hNone]
  obtain ⟨first, rest, rfl⟩ := List.exists_cons_of_ne_nil (List.ne_nil_of_mem hMem)
  simp only [Rule.check, Rules.items, hListed] at hCheck
  have hAll := Except.ok.inj (Findings.ofExcept_eq_done.mp hCheck)
  obtain ⟨i, hPlaced⟩ := Rules.exists_placed hMem 0
  exact accepts_of_below hWithin hUnnamed (Findings.forEach_eq_done.mp hAll (i, v) hPlaced)

theorem referenced {ref : Text} (hRef : Members.get? schema "$ref" = some (.text ref)) (hPoints : PointsTo ref name)
    (hDefines : Defines root name sub) : Accepts root sub x := by
  obtain ⟨n, c, hWithin, hDone⟩ := h
  have hRule : (Text.ofString "$ref", Rule.reference) ∈ Dialect.sharedRules := by simp [Dialect.sharedRules]
  have hCheck := check_of_get? hWithin hDone hRef (Dialect.mem_rules_of_shared hRule)
  have hTarget : Rules.target c (.text ref) = .ok (.ok ⟨.object sub, c.resolver.move c.resolver.base⟩) :=
    Resolver.lookup_definition hPoints hDefines hWithin.unexplored hWithin.there
  rw [Rule.check, Rules.reference, hTarget] at hCheck
  have hFollow := Except.ok.inj (Findings.ofExcept_eq_done.mp hCheck)
  cases n with
  | zero => cases hFollow
  | succ n =>
      let there : Context := { c with resolver := c.resolver.move c.resolver.base }
      have hThere : there.Within root := by
        refine ⟨hWithin.dialect, ?_, ?_⟩
        · rw [Resolver.move_explored, hWithin.unexplored]
        · rw [Resolver.move_store, Resolver.move_base, hWithin.there]
      have hAt : c.at_ ⟨.object sub, c.resolver.move c.resolver.base⟩ = there := by
        rw [Context.at_, hDefines.unnamed.of_eq]
      have hKeywords : checkKeywords (Evaluator.ofLevels n) c.dialect there sub x = .done := hAt ▸ hFollow
      exact ⟨n, there, hThere, hWithin.dialect ▸ hKeywords⟩

end Accepts

end Conform.Schema

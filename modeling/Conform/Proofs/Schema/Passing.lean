import Conform.Proofs.Schema.Forms

/-! What passes a schema of schemas with the forms. All regular expressions in what passes can be read: the schemas of
schemas come to each of them, by the keywords under which they stand. -/
namespace Conform.Schema

variable {d : Dialect} {r : Resolver} {u k t : Text} {x v : Document} {role : Role} {rule : Rule}
  {schema ms xs subs sub one many : Members} {items : List Document}

namespace Dialect

/-- Both dialects have the rules that all dialects share. -/
theorem rule?_of_shared (hDialect : d = .draft7 ∨ d = .draft2020) (h : (k, rule) ∈ sharedRules) :
    d.rule? k = some rule := by
  have hShared : ∀ m ∈ sharedRules, draft7.rule? m.1 = some m.2 := by decide +kernel
  rcases hDialect with rfl | rfl
  · exact hShared _ h
  · exact rule?_of_mem (mem_rules_of_shared h)

/-- A keyword counts unless it stands beside a reference in a dialect that heeds nothing beside one. -/
theorem mem_keywords (hAlone : d.refAlone = true → k = "$ref" ∨ Members.get? ms "$ref" = none)
    (hGet : Members.get? ms k = some v) : (k, v) ∈ d.keywords ms := by
  have hMem := Members.mem_of_get? hGet
  unfold keywords
  split
  · next hRefAlone =>
      rcases hAlone hRefAlone with rfl | hNone
      · rw [hGet]
        cases v <;> first | exact hMem | exact List.mem_cons_self
      · rw [hNone]
        exact hMem
  · exact hMem

end Dialect

namespace Meta

theorem of_inner? (h : inner? ms k = some sub) : Members.get? ms k = some (.object sub) ∧
    Members.get? ms "$ref" = none ∧ isUnnamed sub = true := by
  unfold inner? at h
  split at h
  · next hGet =>
      split at h
      · next hTest =>
          obtain rfl := Option.some.inj h
          obtain ⟨hNone, hUnnamed⟩ := Bool.and_eq_true_iff.mp hTest
          exact ⟨hGet, Option.isNone_iff_eq_none.mp hNone, hUnnamed⟩
      · cases h
  · cases h

/-- A schema without properties of its own has all members of an object to itself. -/
theorem extraMembers_of_not_has (hNoProperties : Members.has ms "properties" = false)
    (hNoPatterns : Members.has ms "patternProperties" = false) (xs : Members) :
    Rules.extraMembers ms xs = .ok xs := by
  have hNames : ∀ k, Members.has ms k = false → Rules.namesIn ms k = .ok [] := by
    intro k hNot
    cases hGet : Members.get? ms k with
    | none => rw [Rules.namesIn, hGet]
    | some v =>
        have hHas : Members.has ms k = true := Members.has_iff.mpr (List.mem_map_of_mem (Members.mem_of_get? hGet))
        rw [hNot] at hHas
        cases hHas
  rw [Rules.extraMembers, hNames _ hNoProperties, hNames _ hNoPatterns]
  simp [bind, Except.bind, pure, Except.pure, Text.join]

theorem exists_of_firstFit {e : Evaluator} {c : Context} {fit : Document × List Document}
    (h : Rules.firstFit e c x items = .ok (some fit)) : ∃ sub ∈ items, e.descend c sub x = .done := by
  induction items with
  | nil => cases h
  | cons sub rest ih =>
      obtain ⟨found, hFound, h⟩ := exists_of_bind_ok h
      split at h
      · next hEmpty =>
          rw [List.isEmpty_iff.mp hEmpty] at hFound
          exact ⟨sub, List.mem_cons_self, Findings.all_eq_nil.mp hFound⟩
      · obtain ⟨sub', hMem, hDone⟩ := ih h
        exact ⟨sub', List.mem_cons_of_mem _ hMem, hDone⟩

/-- Whether a value passes a schema inside a schema of schemas, with the forms. It does not matter how far the check
may go. -/
def Passes (d : Dialect) (u : Text) (ms : Members) (x : Document) : Prop :=
  ∃ n r, Bearing d r u ∧ checkKeywords (Evaluator.ofLevels n) d ⟨d, r, true⟩ ms x = .done

section Passes

variable (hDialect : d = .draft7 ∨ d = .draft2020)

include hDialect

theorem passes_of_descend {n : Nat} (hBearing : Bearing d r u) (hUnnamed : isUnnamed ms = true)
    (h : (Evaluator.ofLevels n).descend ⟨d, r, true⟩ (.object ms) x = .done) : Passes d u ms x := by
  cases n with
  | zero => cases h
  | succ n => exact ⟨n, r, hBearing, (descend_of_isUnnamed hDialect hUnnamed _ r true x).symm.trans h⟩

namespace Passes

variable (h : Passes d u ms x)

include h

omit hDialect in
/-- What passes a schema passes each of its keywords. -/
theorem check (hRule : d.rule? k = some rule) (hGet : Members.get? ms k = some v)
    (hAlone : d.refAlone = true → k = "$ref" ∨ Members.get? ms "$ref" = none) :
    ∃ n r, Bearing d r u ∧ rule.check (Evaluator.ofLevels n) ⟨d, r, true⟩ k v ms x = .done := by
  obtain ⟨n, r, hBearing, hDone⟩ := h
  have hEach := Findings.forEach_eq_done.mp hDone _ (Dialect.mem_keywords hAlone hGet)
  simp only [checkKeyword, hRule] at hEach
  exact ⟨n, r, hBearing, hEach⟩

theorem check_shared (hShared : (k, rule) ∈ Dialect.sharedRules) (hGet : Members.get? ms k = some v)
    (hNoRef : Members.get? ms "$ref" = none) :
    ∃ n r, Bearing d r u ∧ rule.check (Evaluator.ofLevels n) ⟨d, r, true⟩ k v ms x = .done :=
  h.check (Dialect.rule?_of_shared hDialect hShared) hGet fun _ => .inr hNoRef

theorem referred {test : Landmark → Bool} (hRefers : refersTo documents d u test ms = true) :
    ∃ l ∈ landmarks documents d, test l = true ∧ Passes d l.base l.schema x := by
  obtain ⟨k, hKey, hRefers⟩ := List.any_eq_true.mp hRefers
  obtain ⟨hRule, hAim⟩ := Bool.and_eq_true_iff.mp hRefers
  split at hAim
  · next ref hGet =>
      obtain ⟨l, hMem, hTest⟩ := List.any_eq_true.mp hAim
      have hAlone : d.refAlone = true → k = "$ref" ∨ Members.get? ms "$ref" = none := by
        intro hRefAlone
        rcases hDialect with rfl | rfl
        · refine .inl ?_
          simp only [referenceKeywords, List.mem_cons, List.not_mem_nil, or_false] at hKey
          rcases hKey with rfl | rfl
          · exact absurd hRule (by decide +kernel)
          · rfl
        · cases hRefAlone
      obtain ⟨n, r, hBearing, hDone⟩ := h.check (eq_of_beq hRule) hGet hAlone
      obtain ⟨hMark, r', hLookup, hThere, hInner⟩ := lookup_of_mem_aims hDialect hBearing hMem
      simp only [Rule.check, Rules.reference, Rules.target, hLookup, bind, Except.bind] at hDone
      have hFollow := Except.ok.inj (Findings.ofExcept_eq_done.mp hDone)
      refine ⟨l, hMark, hTest, ?_⟩
      cases n with
      | zero => cases hFollow
      | succ n =>
          refine ⟨n, r', hThere, ?_⟩
          simpa only [Evaluator.ofLevels, Evaluator.above, checkSchema, Context.at_, Context.of, hInner] using hFollow
  · cases hAim

theorem property (hObject : x = .object xs) (hNoRef : Members.get? ms "$ref" = none)
    (hSubs : Members.get? ms "properties" = some (.object subs)) (hSub : Members.get? subs k = some (.object sub))
    (hUnnamed : isUnnamed sub = true) (hGet : Members.get? xs k = some v) : Passes d u sub v := by
  subst hObject
  have hRule : (Text.ofString "properties", Rule.properties) ∈ Dialect.sharedRules := by simp [Dialect.sharedRules]
  obtain ⟨n, r, hBearing, hDone⟩ := h.check_shared hDialect hRule hSubs hNoRef
  have hEach := Findings.forEach_eq_done.mp hDone _ (Members.mem_of_get? hSub)
  simp only [hGet] at hEach
  exact passes_of_descend hDialect hBearing hUnnamed (Findings.under_eq_done.mp hEach)

theorem combined (hNoRef : Members.get? ms "$ref" = none) (hParts : Members.get? ms "allOf" = some (.list items))
    (hMem : .object sub ∈ items) (hUnnamed : isUnnamed sub = true) : Passes d u sub x := by
  have hRule : (Text.ofString "allOf", Rule.allOf) ∈ Dialect.sharedRules := by simp [Dialect.sharedRules]
  obtain ⟨n, r, hBearing, hDone⟩ := h.check_shared hDialect hRule hParts hNoRef
  exact passes_of_descend hDialect hBearing hUnnamed (Findings.forEach_eq_done.mp hDone _ hMem)

theorem cases_anyOf (hNoRef : Members.get? ms "$ref" = none)
    (hParts : Members.get? ms "anyOf" = some (.list [.object one, .object many])) (hOne : isUnnamed one = true)
    (hMany : isUnnamed many = true) : Passes d u one x ∨ Passes d u many x := by
  have hRule : (Text.ofString "anyOf", Rule.anyOf) ∈ Dialect.sharedRules := by simp [Dialect.sharedRules]
  obtain ⟨n, r, hBearing, hDone⟩ := h.check_shared hDialect hRule hParts hNoRef
  obtain ⟨fit, hFit, hDone⟩ := exists_of_bind_ok (Findings.ofExcept_eq_done.mp hDone)
  cases fit with
  | none => cases hDone
  | some fit =>
      obtain ⟨part, hMem, hPart⟩ := exists_of_firstFit hFit
      simp only [List.mem_cons, List.not_mem_nil, or_false] at hMem
      rcases hMem with rfl | rfl
      · exact .inl (passes_of_descend hDialect hBearing hOne hPart)
      · exact .inr (passes_of_descend hDialect hBearing hMany hPart)

theorem extra (hObject : x = .object xs) (hNoProperties : Members.has ms "properties" = false)
    (hNoPatterns : Members.has ms "patternProperties" = false) (hInner : inner? ms "additionalProperties" = some sub)
    (hMem : (k, v) ∈ xs) : Passes d u sub v := by
  subst hObject
  have hRule : (Text.ofString "additionalProperties", Rule.additionalProperties) ∈ Dialect.sharedRules := by
    simp [Dialect.sharedRules]
  obtain ⟨hGet, hNoRef, hUnnamed⟩ := of_inner? hInner
  obtain ⟨n, r, hBearing, hDone⟩ := h.check_shared hDialect hRule hGet hNoRef
  simp only [Rule.check, Rules.additionalProperties, extraMembers_of_not_has hNoProperties hNoPatterns] at hDone
  have hAll := Except.ok.inj (Findings.ofExcept_eq_done.mp hDone)
  have hEach := Findings.forEach_eq_done.mp hAll _ hMem
  exact passes_of_descend hDialect hBearing hUnnamed (Findings.under_eq_done.mp hEach)

theorem name (hObject : x = .object xs) (hInner : inner? ms "propertyNames" = some sub) (hMem : (k, v) ∈ xs) :
    Passes d u sub (.text k) := by
  subst hObject
  have hRule : d.rule? "propertyNames" = some .propertyNames := by rcases hDialect with rfl | rfl <;> decide +kernel
  obtain ⟨hGet, hNoRef, hUnnamed⟩ := of_inner? hInner
  obtain ⟨n, r, hBearing, hDone⟩ := h.check hRule hGet fun _ => .inr hNoRef
  exact passes_of_descend hDialect hBearing hUnnamed (Findings.forEach_eq_done.mp hDone _ hMem)

theorem item (hList : x = .list items) (hNoPrefix : Members.get? ms "prefixItems" = none)
    (hInner : inner? ms "items" = some sub) (hMem : v ∈ items) : Passes d u sub v := by
  subst hList
  obtain ⟨hGet, hNoRef, hUnnamed⟩ := of_inner? hInner
  obtain ⟨i, hPlaced⟩ := Rules.exists_placed hMem 0
  have hAll : ∃ n r, Bearing d r u ∧
      Rules.checkAll (Evaluator.ofLevels n) ⟨d, r, true⟩ (.object sub) (Rules.placed 0 items) = .done := by
    rcases hDialect with rfl | rfl
    · have hRule : Dialect.draft7.rule? "items" = some .eitherItems := by decide +kernel
      exact h.check hRule hGet fun _ => .inr hNoRef
    · have hRule : Dialect.draft2020.rule? "items" = some .items := by decide +kernel
      obtain ⟨n, r, hBearing, hDone⟩ := h.check hRule hGet fun _ => .inr hNoRef
      have hListed : Rules.listedCount ms "prefixItems" = .ok 0 := by
        rw [Rules.listedCount, hNoPrefix]
      obtain ⟨first, rest, rfl⟩ := List.exists_cons_of_ne_nil (List.ne_nil_of_mem hMem)
      simp only [Rule.check, Rules.items, hListed] at hDone
      exact ⟨n, r, hBearing, Except.ok.inj (Findings.ofExcept_eq_done.mp hDone)⟩
  obtain ⟨n, r, hBearing, hDone⟩ := hAll
  have hEach := Findings.forEach_eq_done.mp hDone _ hPlaced
  exact passes_of_descend hDialect hBearing hUnnamed (Findings.under_eq_done.mp hEach)

theorem isOk_of_format (hText : x = .text t) (hNoRef : Members.get? ms "$ref" = none)
    (hForm : Members.get? ms "format" = some (.text "regex")) : (compilePattern t).isOk = true := by
  subst hText
  have hRule : (Text.ofString "format", Rule.format) ∈ Dialect.sharedRules := by simp [Dialect.sharedRules]
  obtain ⟨n, r, hBearing, hDone⟩ := h.check_shared hDialect hRule hForm hNoRef
  simp only [Rule.check, Rules.format, BEq.rfl, if_true] at hDone
  split at hDone
  · next compiled hOk => rw [hOk]; rfl
  · cases hDone
  · cases hDone

theorem fits (hNoRef : Members.get? ms "$ref" = none) {types : List Document}
    (hTypes : Members.get? ms "type" = some v) (hParts : (∃ t, v = .text t ∧ types = [.text t]) ∨ v = .list types) :
    Rules.hasSomeType d x types = .ok true := by
  have hRule : (Text.ofString "type", Rule.type) ∈ Dialect.sharedRules := by simp [Dialect.sharedRules]
  obtain ⟨n, r, hBearing, hDone⟩ := h.check_shared hDialect hRule hTypes hNoRef
  have hDone : Findings.ofExcept (do
      let fits ← Rules.hasSomeType d x types
      return violationIf (!fits) "type"
        (x.display ++ " is not of type " ++ Text.join ", " (types.map Document.display))) = .done := by
    rcases hParts with ⟨t, rfl, rfl⟩ | rfl <;> exact hDone
  obtain ⟨fits, hFits, hDone⟩ := exists_of_bind_ok (Findings.ofExcept_eq_done.mp hDone)
  obtain rfl : fits = true := by simpa using violationIf_eq_done.mp (Except.ok.inj hDone)
  exact hFits

/-- What passes a schema for lists is one. -/
theorem eq_list {l : Landmark} (hSchema : ms = l.schema) (hLists : l.isForLists = true) : ∃ items, x = .list items := by
  subst hSchema
  obtain ⟨hNone, hType⟩ := Bool.and_eq_true_iff.mp hLists
  split at hType
  · next type hGet =>
      have hFits := h.fits hDialect (Option.isNone_iff_eq_none.mp hNone) hGet (.inl ⟨type, rfl, rfl⟩)
      rw [eq_of_beq hType] at hFits
      cases x with
      | list items => exact ⟨items, rfl⟩
      | _ => cases hFits
  · cases hType

/-- No list passes the whole schema of schemas. -/
theorem ne_list (hSchema : d.meta = .object ms) (items : List Document) : x ≠ .list items := by
  rintro rfl
  have hNone : d.meta.get? "$ref" = none := by rcases hDialect with rfl | rfl <;> decide +kernel
  have hTypes : d.meta.get? "type" = some (.list [.text "object", .text "boolean"]) := by
    rcases hDialect with rfl | rfl <;> decide +kernel
  rw [hSchema] at hNone hTypes
  have hFits := h.fits hDialect hNone hTypes (.inr rfl)
  cases hFits

end Passes

omit hDialect in
theorem exists_of_expression (h : ExpressionIn d .schema x t) : ∃ xs, x = .object xs := by
  cases h with
  | keyword => exact ⟨_, rfl⟩
  | value => exact ⟨_, rfl⟩
  | name => exact ⟨_, rfl⟩
  | item _ h => exact absurd rfl h.role_ne
  | choice hMem => cases hMem

omit hDialect in
theorem exists_of_expressions (h : ExpressionIn d .schemas x t) : ∃ items, x = .list items := by
  cases h with
  | value _ h => exact absurd rfl h.role_ne
  | name _ h => exact absurd rfl h.role_ne
  | item => exact ⟨_, rfl⟩
  | choice hMem => cases hMem

/-- The schema of schemas comes to the value of each keyword that may have regular expressions in it. -/
theorem exists_passes_of_root (h : Passes d d.uri ms (.object xs)) (hRoot : d.meta = .object ms)
    (hRole : d.role k ≠ .other) (hGet : Members.get? xs k = some v) :
    ∃ u sub, asksAll documents d 4 u (d.role k) sub = true ∧ Passes d u sub v := by
  have hUnder : ∀ u ms, asksUnder documents d k u ms = true → Passes d u ms (.object xs) →
      ∃ u sub, asksAll documents d 4 u (d.role k) sub = true ∧ Passes d u sub v := by
    intro u ms hUnder hPasses
    obtain ⟨hNone, hUnder⟩ := Bool.and_eq_true_iff.mp hUnder
    split at hUnder
    · next subs hSubs =>
        split at hUnder
        · next sub hSub =>
            obtain ⟨hUnnamed, hAsks⟩ := Bool.and_eq_true_iff.mp hUnder
            exact ⟨u, sub, hAsks,
              hPasses.property hDialect rfl (Option.isNone_iff_eq_none.mp hNone) hSubs hSub hUnnamed hGet⟩
        · cases hUnder
    · cases hUnder
  have hAsks := asksAtRoot_of_role hDialect hRole
  rw [asksAtRoot, home?_root hDialect, hRoot] at hAsks
  rcases Bool.or_eq_true_iff.mp hAsks with hHere | hParts
  · exact hUnder _ _ hHere h
  · split at hParts
    · next parts hAllOf =>
        obtain ⟨part, hMem, hPart⟩ := List.any_eq_true.mp hParts
        split at hPart
        · next part =>
            obtain ⟨hUnnamed, hRefers⟩ := Bool.and_eq_true_iff.mp hPart
            have hNone : d.meta.get? "$ref" = none := by rcases hDialect with rfl | rfl <;> decide +kernel
            rw [hRoot] at hNone
            obtain ⟨l, -, hTest, hPasses⟩ :=
              (h.combined hDialect hNone hAllOf hMem hUnnamed).referred hDialect hRefers
            exact hUnder _ _ hTest hPasses
        · cases hPart
    · cases hParts

theorem exists_root_of_refersTo (h : Passes d u ms x) (hRefers : refersTo documents d u (·.isRoot d) ms = true) :
    ∃ schema, d.meta = .object schema ∧ Passes d d.uri schema x := by
  obtain ⟨l, hMark, hRoot, hPasses⟩ := h.referred hDialect hRefers
  obtain ⟨hBase, hSchema⟩ := eq_root_of_isRoot hDialect hMark hRoot
  exact ⟨l.schema, hSchema, hBase ▸ hPasses⟩

omit hDialect in
theorem asksAll_choice {depth : Nat} (hRole : role = .either ∨ role = .dependency) :
    asksAll documents d (depth + 1) u role ms =
      ((Members.get? ms "$ref").isNone && match Members.get? ms "anyOf" with
        | some (.list [.object one, .object many]) => isUnnamed one && isUnnamed many &&
            refersTo documents d u (·.isRoot d) one && refersTo documents d u (·.isForLists) many &&
            (role != .either || asksAll documents d depth u .schemas many)
        | _ => false) := by
  rcases hRole with rfl | rfl <;> rfl

/-- Where the schemas of schemas ask for a schema or a list of them, or for one or a list of names, objects pass as
schemas and lists as lists. -/
theorem passes_of_choice {depth : Nat} (hRole : role = .either ∨ role = .dependency)
    (hAsks : asksAll documents d (depth + 1) u role ms = true) (h : Passes d u ms x) :
    (∀ xs, x = .object xs → ∃ one, asksAll documents d (depth + 1) u .schema one = true ∧ Passes d u one x) ∧
      (∀ items, role = .either → x = .list items →
        ∃ many, asksAll documents d depth u .schemas many = true ∧ Passes d u many x) := by
  rw [asksAll_choice hRole] at hAsks
  obtain ⟨hNone, hAsks⟩ := Bool.and_eq_true_iff.mp hAsks
  split at hAsks
  · next one many hParts =>
      simp only [Bool.and_eq_true] at hAsks
      obtain ⟨⟨⟨⟨hOne, hMany⟩, hRoot⟩, hLists⟩, hEither⟩ := hAsks
      have hCases := h.cases_anyOf hDialect (Option.isNone_iff_eq_none.mp hNone) hParts hOne hMany
      constructor
      · rintro xs rfl
        refine ⟨one, hRoot, hCases.resolve_right fun hPasses => ?_⟩
        obtain ⟨l, -, hForLists, hPasses⟩ := hPasses.referred hDialect hLists
        obtain ⟨items, hList⟩ := hPasses.eq_list hDialect rfl hForLists
        cases hList
      · rintro items rfl rfl
        refine ⟨many, by simpa using hEither, hCases.resolve_left fun hPasses => ?_⟩
        obtain ⟨schema, hSchema, hPasses⟩ := exists_root_of_refersTo hDialect hPasses hRoot
        exact hPasses.ne_list hDialect hSchema items rfl
  · cases hAsks

omit hDialect in
theorem inner_of_asksAll {depth : Nat} (hRole : role.ofValues ≠ .other)
    (hAsks : asksAll documents d (depth + 1) u role ms = true) :
    Members.has ms "properties" = false ∧ Members.has ms "patternProperties" = false ∧
      ∃ sub, inner? ms "additionalProperties" = some sub ∧ asksAll documents d depth u role.ofValues sub = true := by
  cases role with
  | named | dependencies =>
      simp only [asksAll, Bool.and_eq_true, Bool.not_eq_true'] at hAsks
      exact ⟨hAsks.1.1, hAsks.1.2, (Option.any_eq_true _ _).mp hAsks.2⟩
  | patterned =>
      simp only [asksAll, Bool.and_eq_true, Bool.not_eq_true'] at hAsks
      exact ⟨hAsks.1.1.1, hAsks.1.1.2, (Option.any_eq_true _ _).mp hAsks.1.2⟩
  | _ => exact absurd rfl hRole

omit hDialect in
theorem names_of_asksAll {depth : Nat} (hRole : role.ofNames ≠ .other)
    (hAsks : asksAll documents d (depth + 1) u role ms = true) :
    ∃ sub, inner? ms "propertyNames" = some sub ∧ asksAll documents d depth u role.ofNames sub = true := by
  cases role with
  | patterned =>
      simp only [asksAll, Bool.and_eq_true] at hAsks
      exact (Option.any_eq_true _ _).mp hAsks.2
  | _ => exact absurd rfl hRole

/-- What stands where the schemas of schemas ask for the form of a regular expression can be read, if it passes. -/
theorem isOk_of_passes (h : ExpressionIn d role x t) : ∀ {depth : Nat} {u : Text} {ms : Members},
    asksAll documents d depth u role ms = true → Passes d u ms x → (compilePattern t).isOk = true := by
  -- The induction follows the way to the expression, and the check goes the same way through the schemas of schemas.
  induction h with
  | here t =>
      intro depth u ms hAsks hPasses
      cases depth with
      | zero => cases hAsks
      | succ depth =>
          obtain ⟨hNone, hForm⟩ := Bool.and_eq_true_iff.mp hAsks
          split at hForm
          · next form hGet =>
              rw [eq_of_beq hForm] at hGet
              exact hPasses.isOk_of_format hDialect rfl (Option.isNone_iff_eq_none.mp hNone) hGet
          · cases hForm
  | keyword hGet h ih =>
      intro depth u ms hAsks hPasses
      cases depth with
      | zero => cases hAsks
      | succ depth =>
          obtain ⟨schema, hSchema, hPasses⟩ := exists_root_of_refersTo hDialect hPasses hAsks
          obtain ⟨u, sub, hAsks, hPasses⟩ := exists_passes_of_root hDialect hPasses hSchema h.role_ne hGet
          exact ih hAsks hPasses
  | value hMem h ih =>
      intro depth u ms hAsks hPasses
      cases depth with
      | zero => cases hAsks
      | succ depth =>
          obtain ⟨hNoProperties, hNoPatterns, sub, hInner, hAsks⟩ := inner_of_asksAll h.role_ne hAsks
          exact ih hAsks (hPasses.extra hDialect rfl hNoProperties hNoPatterns hInner hMem)
  | name hMem h ih =>
      intro depth u ms hAsks hPasses
      cases depth with
      | zero => cases hAsks
      | succ depth =>
          obtain ⟨sub, hInner, hAsks⟩ := names_of_asksAll h.role_ne hAsks
          exact ih hAsks (hPasses.name hDialect rfl hInner hMem)
  | @item role items v t hMem h ih =>
      intro depth u ms hAsks hPasses
      cases depth with
      | zero => cases hAsks
      | succ depth =>
          cases role with
          | schemas =>
              obtain ⟨l, -, hTest, hPasses⟩ := hPasses.referred hDialect hAsks
              obtain ⟨hNone, hItems⟩ := Bool.and_eq_true_iff.mp hTest
              obtain ⟨sub, hInner, hAsks⟩ := (Option.any_eq_true _ _).mp hItems
              exact ih hAsks (hPasses.item hDialect rfl (Option.isNone_iff_eq_none.mp hNone) hInner hMem)
          | _ => exact absurd rfl h.role_ne
  | @choice role one v t hMem h ih =>
      intro depth u ms hAsks hPasses
      cases depth with
      | zero => cases hAsks
      | succ depth =>
          have hRole : role = .either ∨ role = .dependency := by
            cases role <;> first | exact .inl rfl | exact .inr rfl | cases hMem
          obtain ⟨hSchema, hSchemas⟩ := passes_of_choice hDialect hRole hAsks hPasses
          cases one with
          | schema =>
              obtain ⟨xs, hObject⟩ := exists_of_expression h
              obtain ⟨part, hAsks, hPasses⟩ := hSchema xs hObject
              exact ih hAsks hPasses
          | schemas =>
              obtain ⟨items, hList⟩ := exists_of_expressions h
              have hEither : role = .either := hRole.resolve_right fun h => by
                rw [h] at hMem
                simp [Role.choices] at hMem
              obtain ⟨part, hAsks, hPasses⟩ := hSchemas items hEither hList
              exact ih hAsks hPasses
          | other => exact absurd rfl h.role_ne
          | _ => rcases hRole with rfl | rfl <;> simp [Role.choices] at hMem

end Passes

end Meta
end Conform.Schema

import Conform.Proofs.Document
import Conform.Proofs.Schema.Agreement
import Conform.Schema.Check

/-! Every rule respects agreement. If two evaluators agree on the schemas that the keywords of a
schema apply and on what its references lead to, each rule finds the same with either. -/
namespace Conform.Schema

/-- The keywords whose value is a schema that is applied. -/
def appliedWhole : List Text :=
  ["additionalItems", "additionalProperties", "contains", "else", "if", "items", "not",
    "propertyNames", "then", "unevaluatedItems", "unevaluatedProperties"]

/-- The keywords whose value lists schemas that are applied. -/
def appliedListed : List Text := ["allOf", "anyOf", "items", "oneOf", "prefixItems"]

/-- The keywords whose value has applied schemas under names. -/
def appliedNamed : List Text :=
  ["dependencies", "dependentSchemas", "patternProperties", "properties"]

/-- The keywords whose value is a reference. -/
def referenceKeywords : List Text := ["$dynamicRef", "$ref"]

/-- The schemas that the keywords of a schema apply to a value or to parts of it. -/
inductive Applies (schema : Members) : Document → Prop where
  | whole {k : Text} {sub : Document} (hKey : k ∈ appliedWhole) (hMem : (k, sub) ∈ schema) :
      Applies schema sub
  | item {k : Text} {v sub : Document} (hKey : k ∈ appliedListed) (hMem : (k, v) ∈ schema)
      (hItem : sub ∈ Resource.itemsOf v) : Applies schema sub
  | member {k : Text} {v sub : Document} (hKey : k ∈ appliedNamed) (hMem : (k, v) ∈ schema)
      (hValue : sub ∈ Resource.valuesOf v) : Applies schema sub

/-- The schemas that a schema applies by keywords of the given kind. -/
inductive AppliesBy (live : Text → Prop) (schema : Members) : Document → Prop where
  | whole {k : Text} {sub : Document} (hLive : live k) (hKey : k ∈ appliedWhole) (hMem : (k, sub) ∈ schema) :
      AppliesBy live schema sub
  | item {k : Text} {v sub : Document} (hLive : live k) (hKey : k ∈ appliedListed) (hMem : (k, v) ∈ schema)
      (hItem : sub ∈ Resource.itemsOf v) : AppliesBy live schema sub
  | member {k : Text} {v sub : Document} (hLive : live k) (hKey : k ∈ appliedNamed) (hMem : (k, v) ∈ schema)
      (hValue : sub ∈ Resource.valuesOf v) : AppliesBy live schema sub

theorem AppliesBy.applies {live : Text → Prop} {schema : Members} {sub : Document}
    (h : AppliesBy live schema sub) : Applies schema sub := by
  cases h with
  | whole _ hKey hMem => exact .whole hKey hMem
  | item _ hKey hMem hItem => exact .item hKey hMem hItem
  | member _ hKey hMem hValue => exact .member hKey hMem hValue

/-- The keywords that count for what a schema takes care of. -/
def surveyKeywords (early : Bool) : List Text :=
  ["$ref", if early then "$recursiveRef" else "$dynamicRef", "additionalProperties", "allOf", "anyOf",
    "contains", "dependentSchemas", "else", "if", "oneOf", "then", "unevaluatedItems", "unevaluatedProperties"]

/-- Whether all those keywords are of the given kind. -/
def Surveys (live : Text → Prop) (early : Bool) : Prop := ∀ k ∈ surveyKeywords early, live k

/-- Whether a keyword counts in a dialect, by itself or for the condition beside it. -/
def Dialect.counts (d : Dialect) (k : Text) : Bool :=
  (d.rule? k).isSome || k == "then" || k == "else"

/-- Whether two outcomes of a reference correspond: both lead to related places, or both nowhere
for reasons that are borne together. -/
def Landing (bearable : Failure → Failure → Prop) (related : Target → Target → Prop) :
    Except Unresolved Target → Except Unresolved Target → Prop
  | .ok t, .ok t' => related t t'
  | .error why, .error why' => ∀ named, bearable (.deadEnd named why) (.deadEnd named why')
  | _, _ => False

/-- Whether two evaluators agree on a schema inside the present one, each in its own context. What the
schema takes care of matters only where the keywords for that count. -/
structure Evaluator.AgreeOn (bearable : Failure → Failure → Prop) (live : Text → Prop) (e e' : Evaluator) (c c' : Context)
    (sub : Document) : Prop where
  descend : ∀ x, (e.descend c sub x).Agree bearable (e'.descend c' sub x)
  inspect : ∀ x, (e.inspect c sub x).Agree bearable (e'.inspect c' sub x)
  names : ∀ early, Surveys live early → ∀ ms,
    Agree bearable Eq (e.names c early sub ms) (e'.names c' early sub ms)
  places : ∀ early, Surveys live early → ∀ items,
    Agree bearable Eq (e.places c early sub items) (e'.places c' early sub items)

/-- Whether two evaluators agree on what two references lead to. -/
structure Evaluator.AgreeBeyond (bearable : Failure → Failure → Prop) (live : Text → Prop) (e e' : Evaluator) (c c' : Context)
    (t t' : Target) : Prop where
  follow : ∀ x, (e.follow c t x).Agree bearable (e'.follow c' t' x)
  names : ∀ early, Surveys live early → ∀ ms, Agree bearable Eq (e.names (c.at_ t) early t.document ms)
    (e'.names (c'.at_ t') early t'.document ms)
  places : ∀ early, Surveys live early → ∀ items, Agree bearable Eq (e.places (c.at_ t) early t.document items)
    (e'.places (c'.at_ t') early t'.document items)

/-- Whether two evaluators agree on all that the keywords of a schema lead to that count. Only objects
need to be applied by a keyword: what is no object is no matter of evaluators. -/
structure Evaluator.AgreeAt (bearable : Failure → Failure → Prop) (live : Text → Prop) (e e' : Evaluator) (c c' : Context)
    (schema : Members) : Prop where
  dialect : c.dialect = c'.dialect
  formats : c.formats = c'.formats
  lives : ∀ k, c.dialect.counts k = true → live k
  applied : ∀ sub, (sub.isObject = true → AppliesBy live schema sub) → e.AgreeOn bearable live e' c c' sub
  reference : ∀ k ref, live k → k ∈ referenceKeywords → (k, .text ref) ∈ schema →
    Agree bearable (Landing bearable (e.AgreeBeyond bearable live e' c c'))
      (c.resolver.lookup ref) (c'.resolver.lookup ref)
  recursive : live "$recursiveRef" → Members.has schema "$recursiveRef" = true →
    Agree bearable (Landing bearable (e.AgreeBeyond bearable live e' c c'))
      c.resolver.lookupRecursive c'.resolver.lookupRecursive

theorem mem_itemsOf {value sub : Document} {ds : List Document} (hParts : parts? value = some ds)
    (hMem : sub ∈ ds) (hObject : sub.isObject = true) : sub ∈ Resource.itemsOf value := by
  cases value with
  | list items =>
      obtain rfl : items = ds := Option.some.inj hParts
      exact hMem
  | text t =>
      obtain rfl := Option.some.inj hParts
      obtain ⟨p, _, rfl⟩ := List.mem_map.mp hMem
      cases hObject
  | object ms =>
      obtain rfl := Option.some.inj hParts
      obtain ⟨m, _, rfl⟩ := List.mem_map.mp hMem
      cases hObject
  | _ => cases hParts

namespace Rules

variable {bearable : Failure → Failure → Prop} {live : Text → Prop} {e e' : Evaluator} {c c' : Context}
  {keyword : Text} {value x sub : Document} {schema ms : Members} {items ds : List Document}
  (hLocal : ∀ f : Failure, f.isLocal = true → bearable f f)

section Combined

include hLocal in
theorem allOf_agree
    (hParts : ∀ ds, parts? value = some ds → ∀ sub ∈ ds, e.AgreeOn bearable live e' c c' sub) :
    (allOf e c value x).Agree bearable (allOf e' c' value x) :=
  overParts_agree (hLocal _ rfl) fun ds hDs =>
    .forEach fun sub hSub => (hParts ds hDs sub hSub).descend x

theorem firstFit_agree (hParts : ∀ sub ∈ ds, e.AgreeOn bearable live e' c c' sub) :
    Agree bearable (fun r r' => r = r' ∧ ∀ first rest, r = some (first, rest) → rest ⊆ ds)
      (firstFit e c x ds) (firstFit e' c' x ds) := by
  induction ds with
  | nil => exact .pure ⟨rfl, nofun⟩
  | cons sub rest ih =>
      refine ((hParts sub List.mem_cons_self).descend x).all.bind fun found found' hSame => ?_
      subst hSame
      cases found.isEmpty with
      | true => exact .pure ⟨rfl, by grind⟩
      | false =>
          refine (ih fun s hs => hParts s (List.mem_cons_of_mem sub hs)).mono fun r r' h => ?_
          exact ⟨h.1, fun first after hSome => List.Subset.trans (h.2 first after hSome) (List.subset_cons_self ..)⟩

theorem alsoFitting_agree (hParts : ∀ sub ∈ ds, e.AgreeOn bearable live e' c c' sub) :
    Agree bearable Eq (alsoFitting e c x ds) (alsoFitting e' c' x ds) := by
  induction ds with
  | nil => exact .pure rfl
  | cons sub rest ih =>
      refine ((hParts sub List.mem_cons_self).inspect x).isClean.bind fun fits _ hFits => ?_
      refine (ih fun s hs => hParts s (List.mem_cons_of_mem sub hs)).bind fun more _ hMore => ?_
      subst hFits hMore
      exact .pure rfl

include hLocal in
theorem anyOf_agree
    (hParts : ∀ ds, parts? value = some ds → ∀ sub ∈ ds, e.AgreeOn bearable live e' c c' sub) :
    (anyOf e c keyword value x).Agree bearable (anyOf e' c' keyword value x) := by
  refine overParts_agree (hLocal _ rfl) fun ds hDs => .ofExcept ?_
  refine (firstFit_agree (hParts ds hDs)).bind fun fit fit' hFit => ?_
  obtain ⟨rfl, _⟩ := hFit
  cases fit with
  | none => exact .pure (.violation ..)
  | some _ => exact .pure .done

include hLocal in
theorem oneOf_agree
    (hParts : ∀ ds, parts? value = some ds → ∀ sub ∈ ds, e.AgreeOn bearable live e' c c' sub) :
    (oneOf e c keyword value x).Agree bearable (oneOf e' c' keyword value x) := by
  refine overParts_agree (hLocal _ rfl) fun ds hDs => .ofExcept ?_
  refine (firstFit_agree (hParts ds hDs)).bind fun fit fit' hFit => ?_
  obtain ⟨rfl, hRest⟩ := hFit
  cases fit with
  | none => exact .pure (.violation ..)
  | some pair =>
      obtain ⟨first, rest⟩ := pair
      refine (alsoFitting_agree fun s hs => hParts ds hDs s (hRest first rest rfl hs)).bind
        fun more _ hMore => ?_
      subst hMore
      exact .pure (.violationIf ..)

theorem not_agree (hValue : e.AgreeOn bearable live e' c c' value) :
    (Rules.not e c keyword value x).Agree bearable (Rules.not e' c' keyword value x) := by
  refine .ofExcept ((hValue.inspect x).isClean.bind fun fits _ hFits => ?_)
  subst hFits
  exact .pure (.violationIf ..)

theorem conditional_agree (hValue : e.AgreeOn bearable live e' c c' value)
    (hBranch : ∀ k, k ∈ (["then", "else"] : List Text) → ∀ sub, Members.get? schema k = some sub →
      e.AgreeOn bearable live e' c c' sub) :
    (conditional e c value schema x).Agree bearable (conditional e' c' value schema x) := by
  refine .ofExcept ((hValue.inspect x).isClean.bind fun fits _ hFits => ?_)
  subst hFits
  have hKey : (if fits then "then" else "else" : Text) ∈ (["then", "else"] : List Text) := by
    cases fits <;> simp
  cases hSub : Members.get? schema (if fits then "then" else "else") with
  | none => exact .pure .done
  | some sub => exact .pure ((hBranch _ hKey sub hSub).descend x)

theorem reference_agree
    (hTarget : Agree bearable (Landing bearable (e.AgreeBeyond bearable live e' c c'))
      (target c value) (target c' value)) :
    (reference e c value x).Agree bearable (reference e' c' value x) := by
  refine .ofExcept (hTarget.bind fun r r' hLanding => ?_)
  cases r <;> cases r'
  · exact .error (hLanding true)
  · exact hLanding.elim
  · exact hLanding.elim
  · exact .pure (Evaluator.AgreeBeyond.follow hLanding x)

theorem recursiveReference_agree
    (hTarget : Agree bearable (Landing bearable (e.AgreeBeyond bearable live e' c c'))
      c.resolver.lookupRecursive c'.resolver.lookupRecursive) :
    (recursiveReference e c x).Agree bearable (recursiveReference e' c' x) := by
  refine .ofExcept (hTarget.bind fun r r' hLanding => ?_)
  cases r <;> cases r'
  · exact .error (hLanding false)
  · exact hLanding.elim
  · exact hLanding.elim
  · exact .pure (Evaluator.AgreeBeyond.follow hLanding x)

include hLocal in
theorem target_agree (hAt : e.AgreeAt bearable live e' c c' schema) (hLive : live keyword)
    (hKey : keyword ∈ referenceKeywords) (hMem : (keyword, value) ∈ schema) :
    Agree bearable (Landing bearable (e.AgreeBeyond bearable live e' c c'))
      (target c value) (target c' value) := by
  cases value with
  | text ref => exact hAt.reference keyword ref hLive hKey hMem
  | _ => exact .error (hLocal _ rfl)

end Combined

section Lists

theorem below_agree (hSub : e.AgreeOn bearable live e' c c' sub) (step : Text) :
    (e.below c step sub x).Agree bearable (e'.below c' step sub x) := by
  cases sub with
  | bool b =>
      cases b
      · exact hSub.descend x
      · exact (hSub.descend x).under step
  | _ => exact (hSub.descend x).under step

theorem checkAll_agree (hValue : e.AgreeOn bearable live e' c c' value) (placed : List (Nat × Document)) :
    (checkAll e c value placed).Agree bearable (checkAll e' c' value placed) :=
  .forEach fun _ _ => below_agree hValue _

theorem checkEach_agree (hParts : ∀ sub ∈ ds, e.AgreeOn bearable live e' c c' sub) :
    (checkEach e c ds items).Agree bearable (checkEach e' c' ds items) :=
  .forEach fun _ hMem => below_agree (hParts _ (List.of_mem_zip hMem).2) _

include hLocal in
theorem prefixItems_agree
    (hItems : ∀ sub ∈ Resource.itemsOf value, e.AgreeOn bearable live e' c c' sub) :
    (prefixItems e c value x).Agree bearable (prefixItems e' c' value x) := by
  cases x with
  | list items =>
      cases value with
      | list ds => exact checkEach_agree hItems
      | _ => exact .stopped (hLocal _ rfl)
  | _ => exact .done

include hLocal in
theorem listedCount_agree (schema : Members) (keyword : Text) :
    Agree bearable Eq (listedCount schema keyword) (listedCount schema keyword) := by
  unfold listedCount
  split
  · exact .pure rfl
  · split
    · exact .pure rfl
    · exact .error (hLocal _ rfl)

include hLocal in
theorem items_agree
    (hValue : e.AgreeOn bearable live e' c c' value) :
    (Rules.items e c keyword value schema x).Agree bearable
      (Rules.items e' c' keyword value schema x) := by
  cases x with
  | list items =>
      refine .ofExcept ((listedCount_agree hLocal schema _).bind fun listed _ hSame => ?_)
      subst hSame
      cases hRest : items.drop listed with
      | nil => exact .pure .done
      | cons first rest =>
          cases value with
          | bool b =>
              cases b
              · exact .pure (.violation ..)
              · exact .pure (checkAll_agree hValue _)
          | _ => exact .pure (checkAll_agree hValue _)
  | _ => exact .done

theorem eitherItems_agree (hValue : e.AgreeOn bearable live e' c c' value)
    (hItems : ∀ sub ∈ Resource.itemsOf value, e.AgreeOn bearable live e' c c' sub) :
    (eitherItems e c value x).Agree bearable (eitherItems e' c' value x) := by
  cases x with
  | list items =>
      cases value with
      | list ds => exact checkEach_agree hItems
      | _ => exact checkAll_agree hValue _
  | _ => exact .done

include hLocal in
theorem additionalItems_agree
    (hValue : e.AgreeOn bearable live e' c c' value) :
    (additionalItems e c keyword value schema x).Agree bearable
      (additionalItems e' c' keyword value schema x) := by
  cases x with
  | list items =>
      simp only [additionalItems]
      split
      · exact .done
      · exact .done
      · refine .ofExcept ((listedCount_agree hLocal schema _).bind fun listed _ hSame => ?_)
        subst hSame
        split
        · exact .pure (checkAll_agree hValue _)
        · exact .pure (.violationIf ..)
  | _ => exact .done

include hLocal in
theorem compare_agree (a b : Document) :
    Agree bearable Eq (compare a b) (compare a b) := by
  unfold compare
  split
  · exact .pure rfl
  · exact .error (hLocal _ rfl)

include hLocal in
theorem countMatches_agree
    {test test' : Document → Except Failure Bool} (hTest : ∀ x, Agree bearable Eq (test x) (test' x))
    (most : Document) (n : Nat) :
    Agree bearable Eq (countMatches test most n items) (countMatches test' most n items) := by
  induction items generalizing n with
  | nil => exact .pure rfl
  | cons x rest ih =>
      refine (hTest x).bind fun fits _ hFits => ?_
      subst hFits
      cases fits with
      | false => exact ih n
      | true =>
          refine (compare_agree hLocal _ most).bind fun order _ hOrder => ?_
          subst hOrder
          split
          · exact .pure rfl
          · exact ih (n + 1)

include hLocal in
theorem contains_agree
    (hValue : e.AgreeOn bearable live e' c c' value) :
    (contains e c keyword value schema x).Agree bearable
      (contains e' c' keyword value schema x) := by
  cases x with
  | list items =>
      refine .ofExcept ?_
      refine (countMatches_agree hLocal (fun x => (hValue.inspect x).isClean) _ 0).bind
        fun count _ hCount => ?_
      subst hCount
      obtain ⟨n, tooMany⟩ := count
      cases tooMany with
      | true => exact .pure (.violation ..)
      | false =>
          refine (compare_agree hLocal _ _).bind fun order _ hOrder => ?_
          subst hOrder
          split
          · exact .pure .done
          · split
            · exact .pure (.violation ..)
            · exact .pure (.violation ..)
  | _ => exact .done

theorem someClean_agree {test test' : Document → Except Failure Bool}
    (hTest : ∀ x, Agree bearable Eq (test x) (test' x)) :
    Agree bearable Eq (someClean test items) (someClean test' items) := by
  induction items with
  | nil => exact .pure rfl
  | cons x rest ih =>
      refine (hTest x).bind fun fits _ hFits => ?_
      subst hFits
      cases fits with
      | true => exact .pure rfl
      | false => exact ih

theorem containsAny_agree (hValue : e.AgreeOn bearable live e' c c' value) :
    (containsAny e c keyword value x).Agree bearable (containsAny e' c' keyword value x) := by
  cases x with
  | list items =>
      refine .ofExcept ?_
      refine (someClean_agree fun x => (hValue.inspect x).isClean).bind fun found _ hFound => ?_
      subst hFound
      exact .pure (.violationIf ..)
  | _ => exact .done

end Lists

section Objects

include hLocal in
theorem hasMember_agree (ms : Members) (name : Document) :
    Agree bearable Eq (hasMember ms name) (hasMember ms name) := by
  unfold hasMember
  split
  · exact .pure rfl
  · exact .error (hLocal _ rfl)
  · exact .error (hLocal _ rfl)
  · exact .pure rfl

include hLocal in
theorem required_agree :
    (required keyword value x).Agree bearable (required keyword value x) := by
  cases x with
  | object ms =>
      refine overParts_agree (hLocal _ rfl) fun ds _ => .forEach fun name _ => .ofExcept ?_
      refine (hasMember_agree hLocal ms name).bind fun has _ hSame => ?_
      subst hSame
      exact .pure (.violationIf ..)
  | _ => exact .done

include hLocal in
theorem properties_agree
    (hValues : ∀ sub ∈ Resource.valuesOf value, e.AgreeOn bearable live e' c c' sub) :
    (properties e c value x).Agree bearable (properties e' c' value x) := by
  cases x with
  | object ms =>
      refine overMembers_agree (hLocal _ rfl) fun subs hSubs => .forEach fun m hMem => ?_
      subst hSubs
      cases hMember : Members.get? ms m.1 with
      | none => simpa only [hMember] using .done
      | some v =>
          simp only [hMember]
          exact below_agree (hValues m.2 (List.mem_map_of_mem hMem)) _
  | _ => exact .done

include hLocal in
theorem compilePattern_agree
    (t : Text) : Agree bearable Eq (compilePattern t) (compilePattern t) := by
  unfold compilePattern
  split
  · exact .pure rfl
  · refine .error ?_
    split
    · exact hLocal _ rfl
    · exact hLocal _ rfl

include hLocal in
theorem patternProperties_agree
    (hValues : ∀ sub ∈ Resource.valuesOf value, e.AgreeOn bearable live e' c c' sub) :
    (patternProperties e c value x).Agree bearable (patternProperties e' c' value x) := by
  cases x with
  | object ms =>
      cases ms with
      | nil => exact .done
      | cons m ms =>
          refine overMembers_agree (hLocal _ rfl) fun subs hSubs => .forEach fun sub hMem => ?_
          subst hSubs
          have hCompile := compilePattern_agree hLocal sub.1
          dsimp only
          cases hCompiled : compilePattern sub.1 with
          | error why => exact .stopped (hCompile.bearable_of_error hCompiled)
          | ok compiled =>
              refine .forEach fun v _ => ?_
              split
              · exact below_agree (hValues sub.2 (List.mem_map_of_mem hMem)) _
              · exact .done
  | _ => exact .done

theorem propertyNames_agree (hValue : e.AgreeOn bearable live e' c c' value) :
    (propertyNames e c value x).Agree bearable (propertyNames e' c' value x) := by
  cases x with
  | object ms => exact .forEach fun m _ => hValue.descend (.text m.1)
  | _ => exact .done

include hLocal in
theorem namesIn_agree (schema : Members) (keyword : Text) :
    Agree bearable Eq (namesIn schema keyword) (namesIn schema keyword) := by
  unfold namesIn
  split
  · exact .pure rfl
  · exact .pure rfl
  · exact .error (hLocal _ rfl)

include hLocal in
theorem extraMembers_agree (schema ms : Members) :
    Agree bearable Eq (extraMembers schema ms) (extraMembers schema ms) := by
  refine (namesIn_agree hLocal schema _).bind fun known _ hKnown => ?_
  refine (namesIn_agree hLocal schema _).bind fun patterns _ hPatterns => ?_
  subst hKnown hPatterns
  dsimp only
  split
  · exact .pure rfl
  · refine (compilePattern_agree hLocal _).bind fun compiled _ hCompiled => ?_
    subst hCompiled
    exact .pure rfl

include hLocal in
theorem additionalProperties_agree
    (hValue : e.AgreeOn bearable live e' c c' value) :
    (additionalProperties e c keyword value schema x).Agree bearable
      (additionalProperties e' c' keyword value schema x) := by
  cases x with
  | object ms =>
      refine .ofExcept ?_
      refine (extraMembers_agree hLocal schema ms).bind
        fun extras _ hExtras => ?_
      subst hExtras
      split
      · exact .pure (.forEach fun _ _ => below_agree hValue _)
      · exact .pure (.violationIf ..)
  | _ => exact .done

include hLocal in
theorem needed_agree (property : Text) (names : Document) :
    (needed keyword property ms names).Agree bearable (needed keyword property ms names) := by
  refine overParts_agree (hLocal _ rfl) fun ds _ => .forEach fun name _ => .ofExcept ?_
  refine (hasMember_agree hLocal ms name).bind fun has _ hSame => ?_
  subst hSame
  exact .pure (.violationIf ..)

include hLocal in
theorem dependentRequired_agree :
    (dependentRequired keyword value x).Agree bearable (dependentRequired keyword value x) := by
  cases x with
  | object ms =>
      refine overMembers_agree (hLocal _ rfl) fun subs _ => .forEach fun sub _ => ?_
      dsimp only
      split
      · exact needed_agree hLocal ..
      · exact .done
  | _ => exact .done

include hLocal in
theorem dependentSchemas_agree
    (hValues : ∀ sub ∈ Resource.valuesOf value, e.AgreeOn bearable live e' c c' sub) :
    (dependentSchemas e c value x).Agree bearable (dependentSchemas e' c' value x) := by
  cases x with
  | object ms =>
      refine overMembers_agree (hLocal _ rfl) fun subs hSubs => .forEach fun sub hMem => ?_
      subst hSubs
      dsimp only
      split
      · exact (hValues sub.2 (List.mem_map_of_mem hMem)).descend _
      · exact .done
  | _ => exact .done

include hLocal in
theorem dependencies_agree
    (hValues : ∀ sub ∈ Resource.valuesOf value, e.AgreeOn bearable live e' c c' sub) :
    (dependencies e c keyword value x).Agree bearable (dependencies e' c' keyword value x) := by
  cases x with
  | object ms =>
      refine overMembers_agree (hLocal _ rfl) fun subs hSubs => .forEach fun sub hMem => ?_
      subst hSubs
      dsimp only
      split
      · split
        · exact needed_agree hLocal ..
        · exact (hValues sub.2 (List.mem_map_of_mem hMem)).descend _
      · exact .done
  | _ => exact .done

end Objects

section Values

include hLocal in
theorem hasSomeType_agree (d : Dialect) :
    Agree bearable Eq (hasSomeType d x ds) (hasSomeType d x ds) := by
  induction ds with
  | nil => exact .pure rfl
  | cons t rest ih =>
      have hFits : Agree bearable Eq (d.hasType x t.plain) (d.hasType x t.plain) := by
        refine .refl fun f hError => ?_
        unfold Dialect.hasType at hError
        split_ifs at hError
        cases hError
        exact hLocal _ rfl
      cases t with
      | list _ => exact .error (hLocal _ rfl)
      | object _ => exact .error (hLocal _ rfl)
      | _ =>
          refine hFits.bind fun fits _ hSame => ?_
          subst hSame
          cases fits with
          | true => exact .pure rfl
          | false => exact ih

include hLocal in
theorem type_agree (hDialect : c.dialect = c'.dialect) :
    (type c keyword value x).Agree bearable (type c' keyword value x) := by
  have hCheck : ∀ types : List Document, (Findings.ofExcept do
      let fits ← hasSomeType c.dialect x types
      return violationIf (!fits) keyword
        (x.display ++ " is not of type " ++ Text.join ", " (types.map Document.display))).Agree
      bearable (Findings.ofExcept do
      let fits ← hasSomeType c.dialect x types
      return violationIf (!fits) keyword
        (x.display ++ " is not of type " ++ Text.join ", " (types.map Document.display))) := by
    intro types
    refine .ofExcept ((hasSomeType_agree hLocal _).bind fun fits _ hSame => ?_)
    subst hSame
    exact .pure (.violationIf ..)
  unfold type
  rw [← hDialect]
  split
  · exact hCheck _
  · exact overParts_agree (hLocal _ rfl) fun ds _ => hCheck ds

include hLocal in
theorem limit_agree (side : Side) (exclusive : Bool) :
    (limit side exclusive keyword value x).Agree bearable
      (limit side exclusive keyword value x) := by
  unfold limit
  split
  · exact .done
  · refine .ofExcept ((compare_agree hLocal x value).bind fun order _ hSame => ?_)
    subst hSame
    exact .pure (.violationIf ..)

include hLocal in
theorem toDouble_agree
    (x : Document) : Agree bearable Eq (toDouble x) (toDouble x) := by
  unfold toDouble
  split
  · split
    · exact .pure rfl
    · exact .error (hLocal _ rfl)
  · exact .pure rfl
  · exact .error (hLocal _ rfl)

include hLocal in
theorem isNoMultiple_agree :
    Agree bearable Eq (isNoMultiple x value) (isNoMultiple x value) := by
  unfold isNoMultiple
  split
  · refine (toDouble_agree hLocal _).bind fun n _ hSame => ?_
    subst hSame
    -- A step of zero is refused first, whatever the quotient is.
    split
    all_goals
      dsimp only
      split
      · exact .error (hLocal .unsuitable rfl)
    · exact .error (hLocal _ rfl)
    · split
      · exact .pure rfl
      · exact .error (hLocal _ rfl)
    · exact .pure rfl
  · split
    · exact .error (hLocal .unsuitable rfl)
    · exact .pure rfl
  · refine (toDouble_agree hLocal _).bind fun n _ hSame => ?_
    subst hSame
    split
    · exact .error (hLocal .unsuitable rfl)
    · exact .pure rfl
  · exact .error (hLocal _ rfl)

include hLocal in
theorem multipleOf_agree :
    (multipleOf keyword value x).Agree bearable (multipleOf keyword value x) := by
  unfold multipleOf
  split
  · exact .done
  · refine .ofExcept ((isNoMultiple_agree hLocal).bind fun failed _ hSame => ?_)
    subst hSame
    exact .pure (.violationIf ..)

include hLocal in
theorem size_agree (of : Sized) (side : Side) :
    (size of side keyword value x).Agree bearable (size of side keyword value x) := by
  unfold size
  split
  · exact .done
  · refine .ofExcept ((compare_agree hLocal _ value).bind fun order _ hSame => ?_)
    subst hSame
    exact .pure (.violationIf ..)

include hLocal in
theorem pattern_agree :
    (pattern keyword value x).Agree bearable (pattern keyword value x) := by
  unfold pattern
  split
  · split
    · refine .ofExcept ((compilePattern_agree hLocal _).bind fun compiled _ hSame => ?_)
      subst hSame
      exact .pure (.violationIf ..)
    · exact .stopped (hLocal _ rfl)
  · exact .done

include hLocal in
theorem format_agree
    (hFormats : c.formats = c'.formats) :
    (format c keyword value x).Agree bearable (format c' keyword value x) := by
  unfold format
  rw [← hFormats]
  split
  · next t hOn =>
      split
      · have hCompile := compilePattern_agree hLocal t
        cases hCompiled : compilePattern t with
        | ok compiled => exact .done
        | error why =>
            have hWhy := hCompile.bearable_of_error hCompiled
            cases why with
            | badPattern => exact .violation ..
            | _ => exact .stopped hWhy
      · exact .done
  · exact .done

theorem uniqueItems_agree :
    (uniqueItems keyword value x).Agree bearable (uniqueItems keyword value x) := by
  unfold uniqueItems
  split
  · exact .violationIf ..
  · exact .done

include hLocal in
theorem enum_agree :
    (enum keyword value x).Agree bearable (enum keyword value x) :=
  overParts_agree (hLocal _ rfl) fun _ _ => .violationIf ..

end Values

section Unevaluated

variable {α : Type} {inner inner' : Context → Document → Except Failure (List α)}

theorem throughReference_agree {related : Target → Target → Prop}
    {found found' : Except Failure (Except Unresolved Target)}
    (hFound : Agree bearable (Landing bearable related) found found')
    (hInner : ∀ t t', related t t' →
      Agree bearable Eq (inner (c.at_ t) t.document) (inner' (c'.at_ t') t'.document)) :
    Agree bearable Eq (throughReference c inner found) (throughReference c' inner' found') := by
  refine hFound.bind fun r r' hLanding => ?_
  cases r <;> cases r'
  · exact .error (hLanding false)
  · exact hLanding.elim
  · exact hLanding.elim
  · exact hInner _ _ hLanding

include hLocal in
theorem references_agree (hAt : e.AgreeAt bearable live e' c c' schema) {early : Bool}
    (hLive : Surveys live early) :
    List.Forall₂ (Agree bearable (Landing bearable (e.AgreeBeyond bearable live e' c c')))
      (references c early schema) (references c' early schema) := by
  have hTarget : ∀ k, live k → k ∈ referenceKeywords → ∀ v, Members.get? schema k = some v →
      Agree bearable (Landing bearable (e.AgreeBeyond bearable live e' c c')) (target c v) (target c' v) :=
    fun k hKeyLive hKey v hValue => target_agree hLocal hAt hKeyLive hKey (Members.mem_of_get? hValue)
  simp only [references]
  refine List.rel_append ?_ ?_
  · split
    · exact .nil
    · exact .nil
    · next v _ hValue =>
        exact .cons (hTarget "$ref" (hLive _ (by simp [surveyKeywords])) (by simp [referenceKeywords]) v hValue) .nil
  · split
    · next hEarly =>
        split
        · next hHas => exact .cons (hAt.recursive (hLive _ (by simp [surveyKeywords, hEarly])) hHas) .nil
        · exact .nil
    · next hLate =>
        split
        · exact .nil
        · exact .nil
        · next v _ hValue =>
            exact .cons (hTarget "$dynamicRef" (hLive _ (by simp [surveyKeywords, hLate]))
              (by simp [referenceKeywords]) v hValue) .nil

theorem applies_of_listed {k : Text} (hLive : live k) (hKey : k ∈ appliedListed) (hMem : sub ∈ listed schema k) :
    AppliesBy live schema sub := by
  unfold listed at hMem
  split at hMem
  · next ds hValue => exact .item hLive hKey (Members.mem_of_get? hValue) hMem
  · cases hMem

theorem applies_of_get? {k : Text} (hLive : live k) (hKey : k ∈ appliedWhole)
    (hValue : Members.get? schema k = some sub) : AppliesBy live schema sub :=
  .whole hLive hKey (Members.mem_of_get? hValue)

variable {early : Bool} (hLive : Surveys live early)

include hLive in
theorem combined_agree (hAt : e.AgreeAt bearable live e' c c' schema)
    (hInner : ∀ sub, AppliesBy live schema sub → Agree bearable Eq (inner c sub) (inner' c' sub)) :
    Agree bearable Eq (combined e c schema x inner) (combined e' c' schema x inner') := by
  unfold combined
  refine (Agree.mapM fun sub hSub => ?_).bind fun parts _ hParts => ?_
  · obtain ⟨k, hKey, hSub⟩ := List.mem_flatMap.mp hSub
    have hListed : k ∈ appliedListed := by
      simp only [List.mem_cons, List.not_mem_nil, or_false] at hKey
      rcases hKey with rfl | rfl | rfl <;> simp [appliedListed]
    have hCounts : live k := by
      simp only [List.mem_cons, List.not_mem_nil, or_false] at hKey
      rcases hKey with rfl | rfl | rfl <;> exact hLive _ (by simp [surveyKeywords])
    have hApplies := applies_of_listed hCounts hListed hSub
    refine ((hAt.applied sub fun _ => hApplies).descend x).isClean.bind fun fits _ hFits => ?_
    subst hFits
    cases fits with
    | true => exact hInner sub hApplies
    | false => exact .pure rfl
  · subst hParts
    exact .pure rfl

theorem branch_agree {k : Text} (hCounts : live k) (hKey : k ∈ appliedWhole)
    (hInner : ∀ sub, AppliesBy live schema sub → Agree bearable Eq (inner c sub) (inner' c' sub)) :
    Agree bearable Eq (branch c schema inner k) (branch c' schema inner' k) := by
  unfold branch
  cases hSub : Members.get? schema k with
  | none => exact .pure rfl
  | some sub => exact hInner sub (applies_of_get? hCounts hKey hSub)

include hLive in
theorem branches_agree (hAt : e.AgreeAt bearable live e' c c' schema)
    (hInner : ∀ sub, AppliesBy live schema sub → Agree bearable Eq (inner c sub) (inner' c' sub)) :
    Agree bearable Eq (branches e c schema x inner) (branches e' c' schema x inner') := by
  unfold branches
  cases hIf : Members.get? schema "if" with
  | none => exact .pure rfl
  | some condition =>
      have hApplies : AppliesBy live schema condition :=
        applies_of_get? (hLive "if" (by simp [surveyKeywords])) (by simp [appliedWhole]) hIf
      refine ((hAt.applied condition fun _ => hApplies).inspect x).isClean.bind fun fits _ hFits => ?_
      subst hFits
      cases fits with
      | true =>
          refine (hInner condition hApplies).bind fun taken _ hTaken => ?_
          refine (branch_agree (hLive "then" (by simp [surveyKeywords])) (by simp [appliedWhole]) hInner).bind fun more _ hMore => ?_
          subst hTaken hMore
          exact .pure rfl
      | false => exact branch_agree (hLive "else" (by simp [surveyKeywords])) (by simp [appliedWhole]) hInner

include hLocal in
theorem patternNames_agree (schema ms : Members) :
    Agree bearable Eq (patternNames schema ms) (patternNames schema ms) := by
  unfold patternNames
  split
  · split
    · exact .pure rfl
    · refine (Agree.mapM fun p _ => compilePattern_agree hLocal p.1).bind fun compiled _ hSame => ?_
      subst hSame
      exact .pure rfl
  · exact .pure rfl

theorem fittingNames_agree (hAt : e.AgreeAt bearable live e' c c' schema) (hCounts : live keyword)
    (hKey : keyword ∈ appliedWhole) (ms : Members) :
    Agree bearable Eq (fittingNames e c schema ms keyword) (fittingNames e' c' schema ms keyword) := by
  unfold fittingNames
  split
  · exact .pure rfl
  · exact .pure rfl
  · next sub _ hSub =>
      have hApplies : AppliesBy live schema sub := applies_of_get? hCounts hKey hSub
      refine (Agree.filterM fun m _ =>
        ((hAt.applied sub fun _ => hApplies).descend m.2).isClean).bind fun fitting _ hSame => ?_
      subst hSame
      exact .pure rfl

include hLive in
theorem dependentNames_agree {inner inner' : Document → Except Failure (List Text)} (ms : Members)
    (hInner : ∀ sub, AppliesBy live schema sub → Agree bearable Eq (inner sub) (inner' sub)) :
    Agree bearable Eq (dependentNames schema ms inner) (dependentNames schema ms inner') := by
  unfold dependentNames
  split
  · next ds hValue =>
      refine (Agree.mapM fun d hMem => ?_).bind fun parts _ hSame => ?_
      · split
        · exact hInner d.2 (.member (hLive "dependentSchemas" (by simp [surveyKeywords])) (by simp [appliedNamed]) (Members.mem_of_get? hValue)
            (List.mem_map_of_mem hMem))
        · exact .pure rfl
      · subst hSame
        exact .pure rfl
  · exact .pure rfl

include hLocal hLive in
theorem evaluatedNames_agree (hAt : e.AgreeAt bearable live e' c c' schema) (ms : Members) :
    Agree bearable Eq (evaluatedNames e c early (.object schema) ms)
      (evaluatedNames e' c' early (.object schema) ms) := by
  have hInner : ∀ sub, AppliesBy live schema sub →
      Agree bearable Eq (e.names c early sub ms) (e'.names c' early sub ms) :=
    fun sub hApplies => (hAt.applied sub fun _ => hApplies).names early hLive ms
  unfold evaluatedNames
  refine (Agree.mapM_zip ((references_agree hLocal hAt hLive).imp fun _ _ hFound =>
    throughReference_agree hFound fun _ _ hBeyond => hBeyond.names early hLive ms)).bind
      fun referred referred' hReferred => ?_
  rw [List.forall₂_eq_eq_eq] at hReferred
  subst hReferred
  have hRest : ∀ further : List Text, Agree bearable Eq
      (do return referred.flatten ++ propertyNamesOf schema ms ++ further
        ++ (← patternNames schema ms) ++ (← dependentNames schema ms fun sub => e.names c early sub ms)
        ++ (← combined e c schema (.object ms) fun c sub => e.names c early sub ms)
        ++ (← branches e c schema (.object ms) fun c sub => e.names c early sub ms))
      (do return referred.flatten ++ propertyNamesOf schema ms ++ further
        ++ (← patternNames schema ms) ++ (← dependentNames schema ms fun sub => e'.names c' early sub ms)
        ++ (← combined e' c' schema (.object ms) fun c sub => e'.names c early sub ms)
        ++ (← branches e' c' schema (.object ms) fun c sub => e'.names c early sub ms)) := by
    intro further
    refine (patternNames_agree hLocal schema ms).bind fun matched _ hMatched => ?_
    refine (dependentNames_agree hLive ms hInner).bind fun dependent _ hDependent => ?_
    refine (combined_agree hLive hAt hInner).bind fun both _ hBoth => ?_
    refine (branches_agree hLive hAt hInner).bind fun branched _ hBranched => ?_
    subst hMatched hDependent hBoth hBranched
    exact .pure rfl
  cases early with
  | true => exact hRest _
  | false =>
      refine (fittingNames_agree hAt (hLive "additionalProperties" (by simp [surveyKeywords]))
        (by simp [appliedWhole]) ms).bind fun fitting _ hFitting => ?_
      refine (fittingNames_agree hAt (hLive "unevaluatedProperties" (by simp [surveyKeywords]))
        (by simp [appliedWhole]) ms).bind fun left _ hLeft => ?_
      subst hFitting hLeft
      exact hRest _

theorem fittingPlaces_agree (hAt : e.AgreeAt bearable live e' c c' schema) (hCounts : live keyword)
    (hKey : keyword ∈ appliedWhole) :
    Agree bearable Eq (fittingPlaces e c schema items keyword)
      (fittingPlaces e' c' schema items keyword) := by
  unfold fittingPlaces
  cases hSub : Members.get? schema keyword with
  | none => exact .pure rfl
  | some sub =>
      have hApplies : AppliesBy live schema sub := applies_of_get? hCounts hKey hSub
      refine (Agree.mapM fun x _ =>
        ((hAt.applied sub fun _ => hApplies).inspect x).isClean).bind fun tested _ hSame => ?_
      subst hSame
      exact .pure rfl

include hLocal hLive in
theorem evaluatedPlaces_agree (hAt : e.AgreeAt bearable live e' c c' schema) (items : List Document) :
    Agree bearable Eq (evaluatedPlaces e c early (.object schema) items)
      (evaluatedPlaces e' c' early (.object schema) items) := by
  have hInner : ∀ sub, AppliesBy live schema sub →
      Agree bearable Eq (e.places c early sub items) (e'.places c' early sub items) :=
    fun sub hApplies => (hAt.applied sub fun _ => hApplies).places early hLive items
  unfold evaluatedPlaces
  dsimp only
  split
  · exact .pure rfl
  · refine (Agree.mapM_zip ((references_agree hLocal hAt hLive).imp fun _ _ hFound =>
      throughReference_agree hFound fun _ _ hBeyond => hBeyond.places early hLive items)).bind
        fun referred referred' hReferred => ?_
    rw [List.forall₂_eq_eq_eq] at hReferred
    refine (branches_agree hLive hAt hInner).bind fun branched _ hBranched => ?_
    refine (fittingPlaces_agree hAt (hLive "contains" (by simp [surveyKeywords]))
      (by simp [appliedWhole])).bind fun some_ _ hSome => ?_
    refine (fittingPlaces_agree hAt (hLive "unevaluatedItems" (by simp [surveyKeywords]))
      (by simp [appliedWhole])).bind fun left _ hLeft => ?_
    refine (combined_agree hLive hAt hInner).bind fun both _ hBoth => ?_
    subst hReferred hBranched hSome hLeft hBoth
    exact .pure rfl

include hLocal hLive in
theorem unevaluatedItems_agree (hAt : e.AgreeAt bearable live e' c c' schema) :
    (unevaluatedItems e c early keyword schema x).Agree bearable
      (unevaluatedItems e' c' early keyword schema x) := by
  cases x with
  | list items =>
      refine .ofExcept ((evaluatedPlaces_agree hLocal hLive hAt items).bind fun done _ hSame => ?_)
      subst hSame
      exact .pure (.violationIf ..)
  | _ => exact .done

theorem namesWithFindings_agree (hValue : e.AgreeOn bearable live e' c c' value) (ms : Members) :
    Agree bearable Eq (namesWithFindings e c value ms) (namesWithFindings e' c' value ms) := by
  refine (Agree.mapM fun m _ => ?_).bind fun parts _ hSame => ?_
  · refine (hValue.descend m.2).all.bind fun found _ hFound => ?_
    subst hFound
    exact .pure rfl
  · subst hSame
    exact .pure rfl

include hLocal hLive in
theorem unevaluatedProperties_agree (hAt : e.AgreeAt bearable live e' c c' schema)
    (hValue : e.AgreeOn bearable live e' c c' value) :
    (unevaluatedProperties e c early keyword value schema x).Agree bearable
      (unevaluatedProperties e' c' early keyword value schema x) := by
  cases x with
  | object ms =>
      refine .ofExcept ((evaluatedNames_agree hLocal hLive hAt ms).bind fun done _ hDone => ?_)
      subst hDone
      refine (namesWithFindings_agree hValue _).bind fun left _ hLeft => ?_
      subst hLeft
      split
      · exact .pure .done
      · split
        · exact .pure (.violation ..)
        · exact .pure (.violation ..)
  | _ => exact .done

end Unevaluated

end Rules

namespace Rule

/-- Whether a keyword is one of those whose values are of the kind that a rule applies. -/
def suits (k : Text) : Rule → Bool
  | .reference => referenceKeywords.contains k
  | .recursiveReference => k == "$recursiveRef"
  | .additionalItems | .additionalProperties | .conditional | .contains | .containsAny | .items
  | .not | .propertyNames | .unevaluatedItems _ | .unevaluatedProperties _ =>
    appliedWhole.contains k
  | .eitherItems => appliedWhole.contains k && appliedListed.contains k
  | .allOf | .anyOf | .oneOf | .prefixItems => appliedListed.contains k
  | .dependencies | .dependentSchemas | .patternProperties | .properties => appliedNamed.contains k
  | _ => true

theorem mem_of_rule? {d : Dialect} {k : Text} {rule : Rule} (h : d.rule? k = some rule) : (k, rule) ∈ d.rules := by
  obtain ⟨before, after, hSplit, _⟩ :=
    List.lookup_eq_some_iff.mp (show d.rules.lookup k = some rule by cases d <;> exact h)
  simp [hSplit]

theorem suits_of_rule? {d : Dialect} {k : Text} {rule : Rule} (h : d.rule? k = some rule) :
    rule.suits k = true := by
  have hTables : ∀ d : Dialect, d.rules.all (fun p => p.2.suits p.1) = true := by
    intro d
    cases d <;> decide
  exact List.all_eq_true.mp (hTables d) (k, rule) (mem_of_rule? h)

/-- The way in which a rule asks what a schema takes care of, if it does. -/
def survey? : Rule → Option Bool
  | .unevaluatedItems early | .unevaluatedProperties early => some early
  | _ => none

/-- A dialect in which it matters what a schema takes care of has all the keywords for that. -/
theorem surveys_of_rule? {d : Dialect} {k : Text} {rule : Rule} {early : Bool} (h : d.rule? k = some rule)
    (hSurvey : rule.survey? = some early) : Surveys (d.counts · = true) early := by
  have hTables : ∀ d : Dialect, d.rules.all (fun p => p.2.survey?.all fun early =>
      (surveyKeywords early).all d.counts) = true := by
    intro d
    cases d <;> decide
  have hRule := List.all_eq_true.mp (hTables d) (k, rule) (mem_of_rule? h)
  rw [hSurvey] at hRule
  exact List.all_eq_true.mp hRule

variable {bearable : Failure → Failure → Prop} {live : Text → Prop} {e e' : Evaluator} {c c' : Context}
  {schema : Members}

/-- Two evaluators that agree on all that the keywords of a schema lead to find the same behind each
keyword. -/
theorem check_agree (hLocal : ∀ f : Failure, f.isLocal = true → bearable f f)
    (hAt : e.AgreeAt bearable live e' c c' schema) {keyword : Text} {value : Document} {rule : Rule}
    (hMem : (keyword, value) ∈ schema) (hRule : c.dialect.rule? keyword = some rule) (x : Document) :
    (rule.check e c keyword value schema x).Agree bearable
      (rule.check e' c' keyword value schema x) := by
  have hSuits := suits_of_rule? hRule
  have hCounts : live keyword := hAt.lives keyword (by rw [Dialect.counts, hRule]; rfl)
  have hSurvey : ∀ {early}, rule.survey? = some early → Surveys live early :=
    fun h k hKey => hAt.lives k (surveys_of_rule? hRule h k hKey)
  have hWhole : appliedWhole.contains keyword = true → e.AgreeOn bearable live e' c c' value :=
    fun hKey => hAt.applied value fun _ => .whole hCounts (List.contains_iff_mem.mp hKey) hMem
  have hItems : appliedListed.contains keyword = true →
      ∀ sub ∈ Resource.itemsOf value, e.AgreeOn bearable live e' c c' sub :=
    fun hKey sub hSub =>
      hAt.applied sub fun _ => .item hCounts (List.contains_iff_mem.mp hKey) hMem hSub
  have hParts : appliedListed.contains keyword = true →
      ∀ ds, parts? value = some ds → ∀ sub ∈ ds, e.AgreeOn bearable live e' c c' sub :=
    fun hKey ds hDs sub hSub => hAt.applied sub fun hObject =>
      .item hCounts (List.contains_iff_mem.mp hKey) hMem (mem_itemsOf hDs hSub hObject)
  have hValues : appliedNamed.contains keyword = true →
      ∀ sub ∈ Resource.valuesOf value, e.AgreeOn bearable live e' c c' sub :=
    fun hKey sub hSub =>
      hAt.applied sub fun _ => .member hCounts (List.contains_iff_mem.mp hKey) hMem hSub
  cases rule with
  | reference =>
      exact Rules.reference_agree
        (Rules.target_agree hLocal hAt hCounts (List.contains_iff_mem.mp hSuits) hMem)
  | recursiveReference =>
      refine Rules.recursiveReference_agree (hAt.recursive (eq_of_beq hSuits ▸ hCounts) ?_)
      exact List.any_eq_true.mpr ⟨_, hMem, hSuits⟩
  | type => exact Rules.type_agree hLocal hAt.dialect
  | enum => exact Rules.enum_agree hLocal
  | const => exact .violationIf ..
  | limit side exclusive => exact Rules.limit_agree hLocal side exclusive
  | switchedLimit side => exact Rules.limit_agree hLocal side _
  | multipleOf => exact Rules.multipleOf_agree hLocal
  | size of side => exact Rules.size_agree hLocal of side
  | pattern => exact Rules.pattern_agree hLocal
  | format => exact Rules.format_agree hLocal hAt.formats
  | uniqueItems => exact Rules.uniqueItems_agree
  | required => exact Rules.required_agree hLocal
  | properties => exact Rules.properties_agree hLocal (hValues hSuits)
  | patternProperties => exact Rules.patternProperties_agree hLocal (hValues hSuits)
  | propertyNames => exact Rules.propertyNames_agree (hWhole hSuits)
  | additionalProperties => exact Rules.additionalProperties_agree hLocal (hWhole hSuits)
  | prefixItems => exact Rules.prefixItems_agree hLocal (hItems hSuits)
  | items => exact Rules.items_agree hLocal (hWhole hSuits)
  | eitherItems =>
      obtain ⟨hOne, hMany⟩ := Bool.and_eq_true_iff.mp hSuits
      exact Rules.eitherItems_agree (hWhole hOne) (hItems hMany)
  | additionalItems => exact Rules.additionalItems_agree hLocal (hWhole hSuits)
  | contains => exact Rules.contains_agree hLocal (hWhole hSuits)
  | containsAny => exact Rules.containsAny_agree (hWhole hSuits)
  | dependencies => exact Rules.dependencies_agree hLocal (hValues hSuits)
  | dependentRequired => exact Rules.dependentRequired_agree hLocal
  | dependentSchemas => exact Rules.dependentSchemas_agree hLocal (hValues hSuits)
  | allOf => exact Rules.allOf_agree hLocal (hParts hSuits)
  | anyOf => exact Rules.anyOf_agree hLocal (hParts hSuits)
  | oneOf => exact Rules.oneOf_agree hLocal (hParts hSuits)
  | not => exact Rules.not_agree (hWhole hSuits)
  | conditional =>
      refine Rules.conditional_agree (hWhole hSuits) fun k hKey sub hSub => ?_
      refine hAt.applied sub fun _ => Rules.applies_of_get? (hAt.lives k ?_) ?_ hSub
      all_goals
        simp only [List.mem_cons, List.not_mem_nil, or_false] at hKey
        rcases hKey with rfl | rfl <;> simp [appliedWhole, Dialect.counts]
  | unevaluatedItems early => exact Rules.unevaluatedItems_agree hLocal (hSurvey rfl) hAt
  | unevaluatedProperties early =>
      exact Rules.unevaluatedProperties_agree hLocal (hSurvey rfl) hAt (hWhole hSuits)

end Rule

variable {bearable : Failure → Failure → Prop} {live : Text → Prop} {e e' : Evaluator} {c c' : Context}
  {schema : Members}

theorem Dialect.keywords_subset (d : Dialect) (schema : Members) : d.keywords schema ⊆ schema := by
  unfold Dialect.keywords
  split
  · split
    · exact List.Subset.refl _
    · exact List.Subset.refl _
    · next ref _ hRef => exact List.cons_subset.mpr ⟨Members.mem_of_get? hRef, List.nil_subset _⟩
  · exact List.Subset.refl _

theorem checkKeywords_agree (hLocal : ∀ f : Failure, f.isLocal = true → bearable f f)
    (hAt : e.AgreeAt bearable live e' c c' schema) (listing : Dialect) (x : Document) :
    (checkKeywords e listing c schema x).Agree bearable (checkKeywords e' listing c' schema x) := by
  refine .forEach fun m hMem => ?_
  unfold checkKeyword
  rw [← hAt.dialect]
  split
  · next rule hRule =>
      exact Rule.check_agree hLocal hAt (Dialect.keywords_subset listing schema hMem) hRule x
  · exact .done

end Conform.Schema

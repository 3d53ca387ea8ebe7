import Conform.Proofs.Schema.Library
import Conform.Proofs.Schema.Meta
import Conform.Proofs.Schema.Undeclared

/-! Whether a schema conforms to the schema of its dialect has nothing to do with its declaration, as
long as that is a text. -/
namespace Conform.Schema

variable {e : Evaluator} {c : Context} {schema ms : Members} {m : Text × Document} {d : Dialect}
  {sub whole : Document} {t u ref : Text} {home : Resource} {r : Resolver}

theorem Findings.forEach_congr {α : Type} {f g : α → Findings} {items : List α} (h : ∀ a ∈ items, f a = g a) :
    forEach f items = forEach g items := by
  induction items with
  | nil => rfl
  | cons a rest ih =>
      rw [forEach, forEach, h a List.mem_cons_self, ih fun b hMem => h b (List.mem_cons_of_mem a hMem)]

/-- Whether a keyword finds the same in an object without its declaration, for one of the reasons that
there are in the schemas of schemas. -/
inductive Overlooks (e : Evaluator) (c : Context) (ms : Members) : Text × Document → Prop where
  | inert {m : Text × Document} (hRule : c.dialect.rule? m.1 = none) : Overlooks e c ms m
  | type {k : Text} {rest : List Document} (hRule : c.dialect.rule? k = some .type) :
      Overlooks e c ms (k, .list (.text "object" :: rest))
  | properties {k : Text} {subs : Members} (hRule : c.dialect.rule? k = some .properties)
      (hDeclared : ∀ m ∈ subs, m.1 = "$schema" → ∀ v, Members.get? ms "$schema" = some v →
        e.below c m.1 m.2 v = .done) : Overlooks e c ms (k, .object subs)
  | allOf {k : Text} {items : List Document} (hRule : c.dialect.rule? k = some .allOf)
      (hItems : ∀ sub ∈ items,
        e.descend c sub (.object ms) = e.descend c sub (.object (Members.erase "$schema" ms))) :
      Overlooks e c ms (k, .list items)

theorem Overlooks.checkKeyword_eq (h : Overlooks e c ms m) :
    checkKeyword e c schema (.object ms) m =
      checkKeyword e c schema (.object (Members.erase "$schema" ms)) m := by
  cases h with
  | inert hRule => simp only [checkKeyword, hRule]
  | type hRule => 
      simp only [checkKeyword, hRule]
      rfl
  | @properties k subs hRule hDeclared =>
      simp only [checkKeyword, hRule, Rule.check, Rules.properties, overMembers]
      refine Findings.forEach_congr fun m hMem => ?_
      by_cases hName : m.1 = "$schema"
      · rw [hName, Members.get?_erase_self]
        cases hValue : Members.get? ms "$schema" with
        | none => rfl
        | some v => exact hName ▸ hDeclared m hMem hName v hValue
      · rw [Members.get?_erase_ne hName]
  | @allOf k items hRule hItems =>
      simp only [checkKeyword, hRule, Rule.check, Rules.allOf, overParts, parts?]
      exact Findings.forEach_congr hItems

theorem checkKeywords_eq_of_overlooks (listing : Dialect) (h : ∀ m ∈ schema, Overlooks e c ms m) :
    checkKeywords e listing c schema (.object ms) =
      checkKeywords e listing c schema (.object (Members.erase "$schema" ms)) :=
  Findings.forEach_congr fun m hMem => (h m (Dialect.keywords_subset listing schema hMem)).checkKeyword_eq

namespace Meta

/-- The schema of a text with the form of a URI. -/
def uriText : Document := .object [("type", .text "string"), ("format", .text "uri")]

def isUriText : Document → Bool
  | .object [(a, .text type), (b, .text form)] =>
    a == ("type" : Text) && type == ("string" : Text) && b == ("format" : Text) && form == ("uri" : Text)
  | _ => false

/-- Whether a schema inside another one asks for such a text, by itself or by what it refers to. -/
def acceptsUri (whole : Document) : Document → Bool
  | .object [(k, .text ref)] => k == ("$ref" : Text) && ref == ("#/$defs/uriString" : Text) &&
    match Resolver.walk whole ["$defs", "uriString"] with
    | .ok (some d) => isUriText d
    | _ => false
  | d => isUriText d

/-- Whether a keyword of a schema of schemas overlooks the declaration. Schemas that it combines are
tested by `combined`. -/
def overlooks (d : Dialect) (whole : Document) (combined : Document → Bool) (m : Text × Document) : Bool :=
  match d.rule? m.1, m.2 with
  | none, _ => true
  | some .type, .list (.text t :: _) => t == ("object" : Text)
  | some .properties, .object subs => subs.all fun s => s.1 != ("$schema" : Text) || acceptsUri whole s.2
  | some .allOf, .list items => items.all combined
  | _, _ => false

/-- Whether all keywords of a schema of schemas overlook the declaration. -/
def overlooksAll (d : Dialect) (combined : Document → Bool) (whole : Document) : Bool :=
  match whole with
  | .object ms => ms.all (overlooks d whole combined)
  | _ => false

/-- The schemas that the schema of schemas of 2020-12 combines. -/
def vocabularies : List Document :=
  [core2020, applicator2020, unevaluated2020, validation2020, metaData2020, formatAnnotation2020, content2020]

/-- Whether a reference to a whole document, seen from a name, leads to the given one. -/
def namesWhole (base ref : Text) (d : Document) : Bool :=
  (ref.dropStart? "#").isNone &&
    match (Uri.join? base ref).bind Uri.defragment? with
    | some (u, fragment) => (Resource.ofDocument .draft2020 d).id? == some u && fragment.isEmpty && u != base
    | none => false

/-- Whether a schema refers to one of the vocabularies, and that one overlooks the declaration. -/
def isVocabulary (base : Text) : Document → Bool
  | .object [(k, .text ref)] => k == ("$ref" : Text) && vocabularies.any fun d =>
    namesWhole base ref d && (Resource.ofDocument .draft2020 d).dialect == .draft2020 &&
      overlooksAll .draft2020 (fun _ => false) d
  | _ => false

theorem overlooksAll_draft7 : overlooksAll .draft7 (fun _ => false) draft7 = true := by decide +kernel

/-- The vocabularies by their places among all schemas of schemas. -/
theorem vocabularies_spelled : vocabularies = [11, 12, 13, 14, 15, 16, 18].map fun i => spelled.1.getD i .null := by
  have hAmong : vocabularies = [11, 12, 13, 14, 15, 16, 18].map fun i => documents.getD i .null := rfl
  rw [hAmong]
  exact congrArg (fun ds : List Document => [11, 12, 13, 14, 15, 16, 18].map fun i => ds.getD i .null) spelled.2

theorem overlooksAll_draft2020 :
    overlooksAll .draft2020 (isVocabulary Dialect.draft2020.uri) schema2020 = true := by
  rw [show schema2020 = Dialect.draft2020.metaAmong spelled.1 from Dialect.meta_spelled .draft2020]
  delta isVocabulary
  rw [vocabularies_spelled]
  decide +kernel

theorem mem_resources {d : Document} (hMem : d ∈ documents) (hId : (Resource.ofDocument .draft2020 d).id? = some u) :
    (u, .ofDocument .draft2020 d) ∈ resources :=
  List.mem_filterMap.mpr ⟨d, hMem, Option.map_eq_some_iff.mpr ⟨u, hId, rfl⟩⟩

/-- Whether a context stands in a schema of schemas under its own name. -/
structure StandsIn (c : Context) (u : Text) (home : Resource) : Prop where
  dialect : c.dialect = home.dialect
  member : (u, home) ∈ resources
  base : c.resolver.base = u
  near : c.resolver.explored = false
  held : c.resolver.store.entered.resource? u = some home

theorem eq_uriText (h : isUriText sub = true) : sub = uriText := by
  unfold isUriText at h
  split at h
  · simp only [Bool.and_eq_true, beq_iff_eq] at h
    obtain ⟨⟨⟨rfl, rfl⟩, rfl⟩, rfl⟩ := h
    rfl
  · cases h

section Accepts

variable (hDialect : c.dialect = .draft7 ∨ c.dialect = .draft2020)

include hDialect

/-- A schema that asks for a text with the form of a URI is content with any text: forms are not checked,
but for those of regular expressions. -/
theorem descend_uriText (t : Text) : e.above.descend c uriText (.text t) = .done := by
  obtain ⟨dialect, resolver, formats⟩ := c
  obtain rfl | rfl : dialect = .draft7 ∨ dialect = .draft2020 := hDialect
  all_goals cases formats <;> rfl

theorem follow_uriText (resolver : Resolver) (t : Text) : e.above.follow c ⟨uriText, resolver⟩ (.text t) = .done := by
  obtain ⟨dialect, _, formats⟩ := c
  obtain rfl | rfl : dialect = .draft7 ∨ dialect = .draft2020 := hDialect
  all_goals cases formats <;> rfl

theorem descend_of_acceptsUri (h : acceptsUri home.document sub = true) (hHome : StandsIn c u home) (t : Text) :
    e.above.above.descend c sub (.text t) = .done := by
  unfold acceptsUri at h
  split at h
  · next k ref =>
      simp only [Bool.and_eq_true, beq_iff_eq] at h
      obtain ⟨⟨rfl, rfl⟩, hWalk⟩ := h
      split at hWalk
      · next d hLast =>
          obtain rfl := eq_uriText hWalk
          have hLookup : c.resolver.lookup "#/$defs/uriString" = .ok (.ok ⟨uriText, c.resolver.move u⟩) := by
            have hParts : c.resolver.parts "#/$defs/uriString" = .ok (u, "/$defs/uriString") := hHome.base ▸ rfl
            have hSegments : Text.splitOn '/' (Uri.unescape (("/$defs/uriString" : Text).drop 1)) =
                [("$defs" : Text), ("uriString" : Text)] := by decide +kernel
            rw [Resolver.lookup_of_pointer hParts rfl hHome.near hHome.held, hSegments,
              Resolver.follow_eq_walk
                (fun _ hNested => (plain_of_mem hHome.member).unnamed trivial hNested) _ _ (Or.inl .refl), hLast]
            rfl
          have hReference : ∀ c' : Context, c'.dialect = c.dialect → c'.resolver = c.resolver →
              Rules.reference e.above c' (.text "#/$defs/uriString") (.text t) = .done := by
            intro c' hSame hResolver
            simp only [Rules.reference, Rules.target, hResolver, hLookup]
            exact follow_uriText (hSame ▸ hDialect) _ t
          obtain ⟨dialect, resolver, formats⟩ := c
          have hFound := hReference ⟨dialect, resolver, formats⟩ rfl rfl
          obtain rfl | rfl : dialect = .draft7 ∨ dialect = .draft2020 := hDialect
          · exact congrArg (fun f => Findings.append f fun _ => .done) hFound
          · exact congrArg (fun f => Findings.append f fun _ => .done) hFound
      · cases hWalk
  · exact eq_uriText h ▸ descend_uriText hDialect t

end Accepts

section Overlooking

variable {n : Nat} (combined : Document → Bool) (hSays : Members.get? ms "$schema" = some (.text t))

include hSays

/-- What the tests of the schemas of schemas say about a check. -/
theorem overlooks_of_test (hDialect : c.dialect = .draft7 ∨ c.dialect = .draft2020) (hHome : StandsIn c u home)
    (hTest : overlooks c.dialect home.document combined m = true)
    (hCombined : ∀ sub, combined sub = true → (Evaluator.ofLevels (n + 2)).descend c sub (.object ms) =
      (Evaluator.ofLevels (n + 2)).descend c sub (.object (Members.erase "$schema" ms))) :
    Overlooks (Evaluator.ofLevels (n + 2)) c ms m := by
  obtain ⟨k, v⟩ := m
  unfold overlooks at hTest
  split at hTest
  · next hRule => exact .inert hRule
  · next first rest hRule hValue =>
      obtain rfl : v = .list (.text first :: rest) := hValue
      obtain rfl := eq_of_beq hTest
      exact .type hRule
  · next subs hRule hValue =>
      obtain rfl : v = .object subs := hValue
      refine .properties hRule fun s hMem hName v hValue => ?_
      obtain rfl : Document.text t = v := Option.some.inj (hSays.symm.trans hValue)
      have hAccepts := List.all_eq_true.mp hTest s hMem
      simp only [hName, bne_self_eq_false, Bool.false_or] at hAccepts
      have hDone := descend_of_acceptsUri (e := Evaluator.ofLevels n) hDialect hAccepts hHome t
      unfold Evaluator.below
      split
      · exact hDone
      · rw [show (Evaluator.ofLevels (n + 2)).descend c s.2 (.text t) = .done from hDone]
        rfl
  · next items hRule hValue =>
      obtain rfl : v = .list items := hValue
      exact .allOf hRule fun sub hMem => hCombined sub (List.all_eq_true.mp hTest sub hMem)
  · cases hTest

end Overlooking

section Roots

theorem id?_root (hDialect : d = .draft7 ∨ d = .draft2020) :
    (⟨d, d.meta⟩ : Resource).id? = some d.uri ∧ (Resource.ofDocument .draft2020 d.meta).dialect = d := by
  rcases hDialect with rfl | rfl <;> decide +kernel

theorem held_root (hDialect : d = .draft7 ∨ d = .draft2020) (u : Text) :
    d.metaRoot.store.entered.resource? u = if u = d.uri then some ⟨d, d.meta⟩ else shelf.resource? u := by
  rw [metaRoot_eq]
  refine (Store.resource?_entered shelf d [] _ _ u).trans ?_
  rw [(id?_root hDialect).1]
  exact congrArg (ite _ _) Option.or_none

/-- A check of a schema begins in the schema of schemas under its own name. -/
theorem standsIn_root (hDialect : d = .draft7 ∨ d = .draft2020) (formats : Bool) :
    StandsIn ⟨d, d.metaRoot, formats⟩ d.uri ⟨d, d.meta⟩ where
  dialect := rfl
  member := by
    obtain ⟨hId, hDeclared⟩ := id?_root hDialect
    have hSame : Resource.ofDocument .draft2020 d.meta = ⟨d, d.meta⟩ := congrArg (Resource.mk · d.meta) hDeclared
    rw [← hSame]
    exact mem_resources (by cases d <;> simp [documents, Dialect.meta]) (hSame ▸ hId)
  base := by
    show d.metaRoot.base = _
    rw [metaRoot_eq]
    exact congrArg (Option.getD · []) (id?_root hDialect).1
  near := by
    show d.metaRoot.explored = _
    rw [metaRoot_eq]
    rfl
  held := by
    show d.metaRoot.store.entered.resource? _ = _
    rw [held_root hDialect, if_pos rfl]

end Roots

section Combined

variable {n : Nat} (hSays : Members.get? ms "$schema" = some (.text t))

include hSays

/-- What a reference to a vocabulary leads to overlooks the declaration. -/
theorem descend_vocabulary (formats : Bool) (h : isVocabulary Dialect.draft2020.uri sub = true) :
    (Evaluator.ofLevels (n + 4)).descend ⟨.draft2020, Dialect.draft2020.metaRoot, formats⟩ sub (.object ms) =
      (Evaluator.ofLevels (n + 4)).descend ⟨.draft2020, Dialect.draft2020.metaRoot, formats⟩ sub
        (.object (Members.erase "$schema" ms)) := by
  have hRoot := standsIn_root (d := .draft2020) (Or.inr rfl) formats
  unfold isVocabulary at h
  split at h
  · next k ref =>
      obtain ⟨hKey, hAny⟩ := Bool.and_eq_true_iff.mp h
      obtain rfl := eq_of_beq hKey
      obtain ⟨whole, hMem, hTest⟩ := List.any_eq_true.mp hAny
      simp only [Bool.and_eq_true, beq_iff_eq, namesWhole, Option.isNone_iff_eq_none] at hTest
      obtain ⟨⟨⟨hPlain, hJoin⟩, hDialect⟩, hOverlooks⟩ := hTest
      split at hJoin
      · next u fragment hParts =>
          simp only [Bool.and_eq_true, beq_iff_eq, List.isEmpty_iff, bne_iff_ne] at hJoin
          obtain ⟨⟨hId, rfl⟩, hOther⟩ := hJoin
          have hIn := mem_resources (by revert hMem; simp [vocabularies, documents]; grind) hId
          have hHeld : Dialect.draft2020.metaRoot.store.entered.resource? u =
              some (.ofDocument .draft2020 whole) := by
            rw [held_root (Or.inr rfl), if_neg hOther]
            exact resource?_shelf.mpr hIn
          have hLookup : Dialect.draft2020.metaRoot.lookup ref =
              .ok (.ok ⟨whole, Dialect.draft2020.metaRoot.move u⟩) := by
            refine Resolver.lookup_of_entered ?_ hRoot.near hHeld
            rw [Resolver.parts, hPlain, hRoot.base, hParts]
          let c : Context := ⟨.draft2020, Dialect.draft2020.metaRoot, formats⟩
          let there : Target := ⟨whole, Dialect.draft2020.metaRoot.move u⟩
          have hThere : StandsIn (c.at_ there) u (.ofDocument .draft2020 whole) :=
            { dialect := inner_of_mem hIn .draft2020
              member := hIn
              base := Resolver.move_base ..
              near := (Resolver.move_explored ..).trans hRoot.near
              held := (congrArg (·.entered.resource? u) (Resolver.move_store ..)).trans hHeld }
          have hFollow : (Evaluator.ofLevels (n + 3)).follow c there (.object ms) =
              (Evaluator.ofLevels (n + 3)).follow c there (.object (Members.erase "$schema" ms)) := by
            unfold overlooksAll at hOverlooks
            split at hOverlooks
            · next km =>
                have hDialect' : (c.at_ there).dialect = .draft2020 := hThere.dialect.trans hDialect
                refine checkKeywords_eq_of_overlooks c.dialect fun m hM => ?_
                refine overlooks_of_test (fun _ => false) hSays (Or.inr hDialect') hThere ?_
                  fun _ hNone => Bool.noConfusion hNone
                rw [hDialect']
                exact List.all_eq_true.mp hOverlooks m hM
            · cases hOverlooks
          have hReference : Rules.reference (Evaluator.ofLevels (n + 3)) c (.text ref) (.object ms) =
              Rules.reference (Evaluator.ofLevels (n + 3)) c (.text ref)
                (.object (Members.erase "$schema" ms)) := by
            simp only [Rules.reference, Rules.target, c, hLookup]
            exact hFollow
          exact congrArg (fun f => Findings.append f fun _ => .done) hReference
      · cases hJoin
  · cases h

end Combined

end Meta

namespace Dialect

/-- What the schema of schemas finds has nothing to do with a declaration that is a text. -/
theorem metaFindings_erase (hDialect : d = .draft7 ∨ d = .draft2020)
    (hSays : Members.get? ms "$schema" = some (.text t)) (formats : Bool) :
    d.metaFindings formats (.object (Members.erase "$schema" ms)) = d.metaFindings formats (.object ms) := by
  have hRoot := Meta.standsIn_root hDialect formats
  unfold metaFindings check
  rcases hDialect with rfl | rfl
  · refine (checkKeywords_eq_of_overlooks _ fun m hMem => ?_).symm
    refine Meta.overlooks_of_test (n := 998) (fun _ => false) hSays (Or.inl rfl) hRoot ?_
      fun _ hNone => Bool.noConfusion hNone
    exact List.all_eq_true.mp Meta.overlooksAll_draft7 m hMem
  · refine (checkKeywords_eq_of_overlooks _ fun m hMem => ?_).symm
    refine Meta.overlooks_of_test (n := 998) (Meta.isVocabulary draft2020.uri) hSays (Or.inr rfl) hRoot ?_
      fun sub hSub => Meta.descend_vocabulary (n := 996) hSays formats hSub
    exact List.all_eq_true.mp Meta.overlooksAll_draft2020 m hMem

end Dialect

end Conform.Schema

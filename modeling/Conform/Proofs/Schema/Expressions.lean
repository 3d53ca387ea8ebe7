import Conform.Proofs.Schema.Accepted
import Conform.Proofs.Schema.Conformance
import Conform.Proofs.Schema.Spelling

/-! The regular expressions in a schema. The schemas of schemas ask for the form of a regular expression at the places
where schemas have one, and nowhere else: where all of these can be read, a check of a schema finds the same whether
or not the forms are checked. -/
namespace Conform.Schema

/-- What a part of a schema is. -/
inductive Role where
  | schema
  /-- A list of schemas. -/
  | schemas
  /-- A schema or a list of schemas. -/
  | either
  /-- Schemas under names. -/
  | named
  /-- Schemas under regular expressions. -/
  | patterned
  /-- Schemas under names, or lists of names. -/
  | dependencies
  /-- A schema or a list of names. -/
  | dependency
  | expression
  /-- There are no schemas in it. -/
  | other
deriving DecidableEq, Repr

namespace Role

/-- What the values of an object are. -/
def ofValues : Role → Role
  | named | patterned => schema
  | dependencies => dependency
  | _ => other

/-- What the names of the members of an object are. -/
def ofNames : Role → Role
  | patterned => expression
  | _ => other

/-- What the items of a list are. -/
def ofItems : Role → Role
  | schemas => schema
  | _ => other

/-- What a part may be that is of one kind or another. -/
def choices : Role → List Role
  | either => [schema, schemas]
  | dependency => [schema, other]
  | _ => []

end Role

/-- What the value of a keyword is. -/
def Dialect.role (d : Dialect) (k : Text) : Role :=
  if k == "pattern" then .expression
  else if k == "patternProperties" then .patterned
  else if k == "dependencies" then .dependencies
  else if d.placement.eitherItems && k == "items" then .either
  else if d.placement.single.contains k then .schema
  else if d.placement.listed.contains k then .schemas
  else if d.placement.named.contains k then .named
  else .other

/-- Whether a text is one of the regular expressions in a part of a schema. -/
inductive ExpressionIn (d : Dialect) : Role → Document → Text → Prop where
  | here (t : Text) : ExpressionIn d .expression (.text t) t
  | keyword {ms : Members} {k t : Text} {v : Document} (hGet : Members.get? ms k = some v)
      (h : ExpressionIn d (d.role k) v t) : ExpressionIn d .schema (.object ms) t
  | value {role : Role} {ms : Members} {k t : Text} {v : Document} (hMem : (k, v) ∈ ms)
      (h : ExpressionIn d role.ofValues v t) : ExpressionIn d role (.object ms) t
  | name {role : Role} {ms : Members} {k t : Text} {v : Document} (hMem : (k, v) ∈ ms)
      (h : ExpressionIn d role.ofNames (.text k) t) : ExpressionIn d role (.object ms) t
  | item {role : Role} {items : List Document} {v : Document} {t : Text} (hMem : v ∈ items)
      (h : ExpressionIn d role.ofItems v t) : ExpressionIn d role (.list items) t
  | choice {role one : Role} {v : Document} {t : Text} (hMem : one ∈ role.choices) (h : ExpressionIn d one v t) :
      ExpressionIn d role v t

variable {d : Dialect} {r : Resolver} {u v w ref fragment : Text} {home sub x value : Document} {role : Role}
  {e : Evaluator} {schema ms : Members} {keyword : Text}

theorem ExpressionIn.role_ne {t : Text} (h : ExpressionIn d role x t) : role ≠ .other := by
  induction h with
  | here => decide
  | keyword => decide
  | value _ _ ih => 
      rintro rfl
      exact ih rfl
  | name _ _ ih =>
      rintro rfl
      exact ih rfl
  | item _ _ ih => 
      rintro rfl
      exact ih rfl
  | choice hMem =>
      rintro rfl
      cases hMem

/-- Whether all regular expressions in a part of a schema can be read. -/
def Legible (d : Dialect) (role : Role) (x : Document) : Prop :=
  ∀ t, ExpressionIn d role x t → (compilePattern t).isOk = true

/-- Whether a rule looks neither at schemas further inside nor at the form of a text. -/
def Rule.isSelfContained : Rule → Bool
  | type | enum | const | limit .. | switchedLimit _ | multipleOf | size .. | pattern | uniqueItems | required
  | dependentRequired => true
  | _ => false

namespace Meta

/-- The anchor that all parts of the latest schema of schemas have. -/
def anchorName : Text := "meta"

/-- The name and the fragment that a reference consists of, if it is read against a name. -/
def address? (u ref : Text) : Option (Text × Text) :=
  match ref.dropStart? "#" with
  | some fragment => some (u, fragment)
  | none => (Uri.join? u ref).bind Uri.defragment?

/-- The document that has a name. -/
def home? (ds : List Document) (u : Text) : Option Document := ((resourcesOf ds).lookup u).map Resource.document

/-- What a fragment stands for in a schema of schemas: the name against which references are read there, and the
schema. -/
def landing? (ds : List Document) (d : Dialect) (u : Text) (home : Document) (fragment : Text) :
    Option (Text × Document) :=
  if fragment.isEmpty then some (u, home)
  else if fragment.startsWith "/" then
    match Resolver.walk home (Text.splitOn '/' (Uri.unescape (fragment.drop 1))) with
    | .ok (some sub) => some (u, sub)
    | _ => none
  else if d == .draft2020 && fragment == anchorName then (home? ds d.uri).map (d.uri, ·)
  else none

/-- A place inside a schema of schemas that references lead to: the name and the fragment of such a reference, what the
schema there is about, the name against which references are read there, and the schema. -/
structure Landmark where
  name : Text
  fragment : Text
  role : Role
  base : Text
  schema : Members

/-- The fragments of references to a schema of schemas. What it defines is about lists of schemas, or about what has no
schemas in it. -/
def fragments (home : Document) : List (Text × Role) :=
  let defined (keyword : Text) : List (Text × Role) :=
    match home.get? keyword with
    | some (.object ms) => (Members.names ms).map fun name =>
        ("/" ++ keyword ++ "/" ++ name, if name == "schemaArray" then .schemas else .other)
    | _ => []
  [([], .schema), (anchorName, .schema)] ++ defined "definitions" ++ defined "$defs"

/-- The places in the schemas of schemas of a dialect that references lead to. -/
def landmarks (ds : List Document) (d : Dialect) : List Landmark :=
  (resourcesOf ds).flatMap fun (u, r) =>
    if r.dialect == d then (fragments r.document).filterMap fun (fragment, role) =>
      match landing? ds d u r.document fragment with
      | some (base, .object schema) => some ⟨u, fragment, role, base, schema⟩
      | _ => none
    else []

/-- Where a reference leads that is read against a name. -/
def aims (ds : List Document) (d : Dialect) (u ref : Text) : List Landmark :=
  match address? u ref with
  | some (v, fragment) => (landmarks ds d).filter fun l => l.fragment == fragment && l.name == v
  | none => []

/-- The schemas that a keyword of a schema of schemas applies, each with what it is about, if the keyword asks for the
form of a regular expression only where there is one. -/
def applied (ds : List Document) (d : Dialect) (u : Text) (role : Role) (m : Text × Document) :
    Option (List (Role × Document)) :=
  match d.rule? m.1, m.2 with
  | none, _ => some []
  | some .format, .text form => if form != "regex" || role == .expression then some [] else none
  | some .reference, .text ref => if (aims ds d u ref).any (·.role == role) then some [] else none
  | some .properties, .object subs => if role == .schema then some (subs.map fun s => (d.role s.1, s.2)) else none
  | some .additionalProperties, sub => some [(role.ofValues, sub)]
  | some .propertyNames, sub => some [(role.ofNames, sub)]
  | some .items, sub => some [(role.ofItems, sub)]
  | some .eitherItems, .object ms => some [(role.ofItems, .object ms)]
  | some .eitherItems, .bool b => some [(role.ofItems, .bool b)]
  | some .allOf, .list subs => some (subs.map (role, ·))
  | some .anyOf, .list subs =>
    if role.choices.isEmpty then some (subs.map (role, ·))
    else if role.choices.length == subs.length then some (role.choices.zip subs) else none
  | some rule, _ => if rule.isSelfContained then some [] else none

/-- Whether a schema has neither a name nor a dialect of its own. -/
def isUnnamed (ms : Members) : Bool := (Members.get? ms "$id").isNone && (Members.get? ms "$schema").isNone

/-- Whether the members of a schema ask for the form of a regular expression only where there is one. -/
def asksOnly (ds : List Document) (d : Dialect) (u : Text) : Nat → Role → Members → Bool
  | 0, _, _ => false
  | depth + 1, role, ms => ms.all fun m => match applied ds d u role m with
    | some subs => subs.all fun s => match s.2 with
      | .object inner => isUnnamed inner && asksOnly ds d u depth s.1 inner
      | _ => true
    | none => false

/-- The schema that a keyword of another one has for a value, if that one is no reference. -/
def inner? (ms : Members) (k : Text) : Option Members :=
  match Members.get? ms k with
  | some (.object inner) => if (Members.get? ms "$ref").isNone && isUnnamed inner then some inner else none
  | _ => none

/-- Whether a schema refers to a place of the given kind. -/
def refersTo (ds : List Document) (d : Dialect) (u : Text) (test : Landmark → Bool) (ms : Members) : Bool :=
  referenceKeywords.any fun k => d.rule? k == some .reference && match Members.get? ms k with
    | some (.text ref) => (aims ds d u ref).any test
    | _ => false

/-- Whether references to a place lead to the whole schema of schemas of the dialect. -/
def Landmark.isRoot (d : Dialect) (l : Landmark) : Bool :=
  l.fragment.isEmpty && l.name == d.uri || l.fragment == anchorName

/-- Whether a schema asks for lists. -/
def Landmark.isForLists (l : Landmark) : Bool :=
  (Members.get? l.schema "$ref").isNone && match Members.get? l.schema "type" with
    | some (.text type) => type == "array"
    | _ => false

/-- Whether a schema of a part of schemas asks for the form of a regular expression wherever there is one. -/
def asksAll (ds : List Document) (d : Dialect) : Nat → Text → Role → Members → Bool
  | 0, _, _, _ => false
  | depth + 1, u, role, ms =>
    let inside (k : Text) (role : Role) : Bool := (inner? ms k).any (asksAll ds d depth u role)
    match role with
    | .expression => (Members.get? ms "$ref").isNone && match Members.get? ms "format" with
      | some (.text form) => form == "regex"
      | _ => false
    | .schema => refersTo ds d u (·.isRoot d) ms
    | .schemas => refersTo ds d u (fun l => (Members.get? l.schema "prefixItems").isNone &&
        (inner? l.schema "items").any (asksAll ds d depth l.base .schema)) ms
    | .named | .dependencies => !Members.has ms "properties" && !Members.has ms "patternProperties" &&
        inside "additionalProperties" role.ofValues
    | .patterned => !Members.has ms "properties" && !Members.has ms "patternProperties" &&
        inside "additionalProperties" role.ofValues && inside "propertyNames" role.ofNames
    | .either | .dependency => (Members.get? ms "$ref").isNone && match Members.get? ms "anyOf" with
      | some (.list [.object one, .object many]) => isUnnamed one && isUnnamed many &&
          refersTo ds d u (·.isRoot d) one && refersTo ds d u (·.isForLists) many &&
          (role != .either || asksAll ds d depth u .schemas many)
      | _ => false
    | .other => true

/-- Whether a schema asks for the forms of all regular expressions under a keyword. -/
def asksUnder (ds : List Document) (d : Dialect) (k u : Text) (ms : Members) : Bool :=
  (Members.get? ms "$ref").isNone && match Members.get? ms "properties" with
    | some (.object subs) => match Members.get? subs k with
      | some (.object sub) => isUnnamed sub && asksAll ds d 4 u (d.role k) sub
      | _ => false
    | _ => false

/-- Whether the schema of schemas does so, by itself or by one of the schemas that it combines. -/
def asksAtRoot (ds : List Document) (d : Dialect) (k : Text) : Bool :=
  match home? ds d.uri with
  | some (.object ms) => asksUnder ds d k d.uri ms || (match Members.get? ms "allOf" with
    | some (.list parts) => parts.any fun
      | .object part => isUnnamed part && refersTo ds d d.uri (fun l => asksUnder ds d k l.base l.schema) part
      | _ => false
    | _ => false)
  | _ => false

/-- The keywords whose values have regular expressions in them. -/
def roleKeywords (d : Dialect) : List Text :=
  let others : List Text := ["pattern", "patternProperties", "dependencies", "items"]
  others ++ d.placement.single ++ d.placement.listed ++ d.placement.named

/-- Whether all that is to be known of the anchors and of the places in the schemas of schemas is so. -/
def asksTest (ds : List Document) : Bool :=
  ((resourcesOf ds).all fun (u, r) => r.dialect != .draft2020 ||
    ((shelfOf ds).anchor? u anchorName).any (·.isDynamic)) && [Dialect.draft7, .draft2020].all fun d =>
      (landmarks ds d).all (fun l => asksOnly ds d l.base 5 l.role l.schema) &&
        (roleKeywords d).all fun k => d.role k == .other || asksAtRoot ds d k

theorem asks_tested : asksTest documents = true := by
  unfold asksTest
  -- The shelf is the one laid out in advance, so that nothing is looked through.
  generalize hShelf : shelfOf documents = s
  rw [spelled.2, ← hShelf, shelfOf_documents, shelf_spelled]
  decide +kernel

section Tested

variable {l : Landmark} {k : Text} (hDialect : d = .draft7 ∨ d = .draft2020)

theorem hasAnchors : (resources.all fun (u, r) => r.dialect != .draft2020 ||
    (shelf.anchor? u anchorName).any (·.isDynamic)) = true := (Bool.and_eq_true_iff.mp asks_tested).1

include hDialect

theorem tested_of_dialect : ((landmarks documents d).all (fun l => asksOnly documents d l.base 5 l.role l.schema) &&
    (roleKeywords d).all fun k => d.role k == .other || asksAtRoot documents d k) = true :=
  List.all_eq_true.mp (Bool.and_eq_true_iff.mp asks_tested).2 d (by simpa using hDialect)

theorem asksOnly_of_mem (hMem : l ∈ landmarks documents d) : asksOnly documents d l.base 5 l.role l.schema = true :=
  List.all_eq_true.mp (Bool.and_eq_true_iff.mp (tested_of_dialect hDialect)).1 l hMem

omit hDialect in
theorem mem_roleKeywords (hRole : d.role k ≠ .other) : k ∈ roleKeywords d := by
  unfold Dialect.role at hRole
  unfold roleKeywords
  simp only [List.mem_append, List.mem_cons, List.not_mem_nil, or_false]
  grind

theorem asksAtRoot_of_role (hRole : d.role k ≠ .other) : asksAtRoot documents d k = true := by
  have hAll := (Bool.and_eq_true_iff.mp (tested_of_dialect hDialect)).2
  have hTest := List.all_eq_true.mp hAll k (mem_roleKeywords hRole)
  simpa [hRole] using hTest

end Tested

end Meta
end Conform.Schema

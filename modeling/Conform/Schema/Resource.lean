import Conform.Schema.Dialect

/-!
Resources: documents together with the dialect in which their keywords are read. A resource may
have a name, anchors, and other resources inside it.
-/
namespace Conform.Schema

structure Resource where
  dialect : Dialect
  document : Document

/-- A step of a pointer: into a list or into an object. -/
inductive Segment where
  | index (n : Int)
  | name (t : Text)
deriving DecidableEq

/-- A named place in a resource. A dynamic anchor gives way to one of the same name in the schema
from which the check came. -/
structure Anchor where
  isDynamic : Bool
  resource : Resource

namespace Resource

/-- A document with the dialect it declares, or else the given one. -/
def ofDocument (default : Dialect) (d : Document) : Resource :=
  let declared := ((d.get? "$schema").bind Document.text?).bind Dialect.ofUri?
  ⟨declared.getD default, d⟩

/-- The name that the resource gives itself. Before 2019 a name beside a reference does not count,
and a name that is only a fragment is an anchor. -/
def id? (r : Resource) : Option Text := do
  let t ← (r.document.get? r.dialect.idKeyword).bind Document.text?
  if r.dialect.refAlone && ((r.document.get? "$ref").isSome || t.startsWith "#") then none
  else some (Text.dropEndWhile (·.char == '#') t)

/-- The resource under the name of an anchor, if there is a name. -/
def named (r : Resource) (isDynamic : Bool) (name? : Option Text) : List (Text × Anchor) :=
  name?.toList.map fun name => (name, ⟨isDynamic, r⟩)

/-- The anchors that the resource itself declares. -/
def anchors (r : Resource) : List (Text × Anchor) :=
  let text? (keyword : Text) : Option Text := (r.document.get? keyword).bind Document.text?
  match r.dialect with
  | .draft2020 => r.named false (text? "$anchor") ++ r.named true (text? "$dynamicAnchor")
  | .draft2019 => r.named false (text? "$anchor")
  | d => r.named false ((text? d.idKeyword).bind (·.dropStart? "#"))

def itemsOf : Document → List Document
  | .list items => items
  | _ => []

def valuesOf : Document → List Document
  | .object ms => ms.map (·.2)
  | _ => []

/-- The schemas that stand directly inside a schema. -/
def insideOf (d : Dialect) (ms : Members) : List Document :=
  let p := d.placement
  let at_ (keyword : Text) : List Document := (Members.get? ms keyword).toList
  p.single.flatMap at_
    ++ (p.listed.flatMap at_).flatMap itemsOf
    ++ (p.named.flatMap at_).flatMap valuesOf
    ++ (if p.eitherItems then
        (at_ "items").flatMap fun v => match v with
          | .null => []
          | .list items => items
          | v => [v]
      else [])
    ++ (if p.dependencies then
        (at_ "dependencies").flatMap fun v => match valuesOf v with
          | .object ms :: rest => .object ms :: rest
          | _ => []
      else [])
    ++ (if d == .draft4 then
        (Dialect.additional.flatMap at_).filter Document.isObject
      else [])

/-- The resources directly inside a resource. -/
def inside (r : Resource) : List Resource :=
  match r.document with
  | .object ms => (insideOf r.dialect ms).map (ofDocument r.dialect)
  | _ => []

/-- Whether steps from a schema end at another schema, as far as the keywords passed show. The
document is what stands at the end. -/
def leadsToSchema (d : Dialect) (target : Document) : List Segment → Bool
  | [] => true
  | .index _ :: _ => false
  | .name k :: rest =>
    let p := d.placement
    if target.isObject
        && ((p.eitherItems && k == "items") || (p.dependencies && k == "dependencies")) then true
    else if p.single.contains k || (d == .draft4 && Dialect.additional.contains k) then
      leadsToSchema d target rest
    else if p.listed.contains k || p.named.contains k then
      match rest with
      | [] => false
      | _ :: rest => leadsToSchema d target rest
    else false

end Resource
end Conform.Schema

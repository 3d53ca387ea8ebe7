import Conform.Schema.Store
import Conform.Text.Numeral

/-!
The way from a reference to a place in a resource. A resolver knows the name of the schema in which
it stands, against which references are joined, and the names it came through, from which dynamic
anchors are looked up.
-/
namespace Conform.Schema

structure Resolver where
  store : Store
  /-- Whether all that is found inside resources is in view. -/
  explored : Bool
  base : Text
  /-- The names of the schemas that were left, the last one first. -/
  scope : List Text

/-- A place that a reference leads to, and the resolver that stands there. -/
structure Target where
  document : Document
  resolver : Resolver

namespace Resolver

/-- A resolver at the root of a document. -/
def ofRoot (store : Store) (root : Resource) : Resolver :=
  let uri := root.id?.getD []
  ⟨store.insert uri root, false, uri, []⟩

/-- Goes to a schema with another name. -/
def move (r : Resolver) (base : Text) : Resolver :=
  if !r.base.isEmpty && (r.scope.isEmpty || base != r.base) then
    { r with base, scope := r.base :: r.scope }
  else { r with base }

/-- Enters a schema inside the present one, which may have a name of its own. -/
def enter (r : Resolver) (inner : Resource) : Except Failure Resolver :=
  match inner.id? with
  | none => .ok r
  | some id => match Uri.join? r.base id with
    | some base => .ok { r with base }
    | none => .error .unreadableReference

/-- All that is found inside resources. -/
def foundShelf (r : Resolver) : Except Failure Shelf :=
  match r.store.found with
  | some s => .ok s
  | none => .error .unreadableReference

def shelf (r : Resolver) : Except Failure Shelf :=
  if r.explored then r.foundShelf else .ok r.store.entered

/-- The resource with a name, and a resolver that has it in view. -/
def resource? (r : Resolver) (uri : Text) : Except Failure (Option (Resource × Resolver)) := do
  match (← r.shelf).resource? uri with
  | some found => return some (found, r)
  | none => return ((← r.foundShelf).resource? uri).map (·, { r with explored := true })

/-- The anchor in the resource with a name, and a resolver that has it in view; it may be declared
under the name that the resource gives itself. -/
def anchor (r : Resolver) (uri name : Text) : Except Failure (Except Unresolved (Anchor × Resolver)) :=
  do
    let near ← r.shelf
    if let some a := near.anchor? uri name then return .ok (a, r)
    let far ← r.foundShelf
    let whole := { r with explored := true }
    if let some a := far.anchor? uri name then return .ok (a, whole)
    match near.resource? (Text.dropEndWhile (·.char == '#') uri) with
    | none => throw (.resourceGone uri)
    | some resource =>
      if let some a := resource.id?.bind (far.anchor? · name) then return .ok (a, whole)
      if name.containsChar '/' then return .error (.anchorForm name)
      return .error (.anchor name resource.document)

/-- What stands at an anchor. A dynamic one is replaced by the outermost of its name among the
schemas that the resolver came through. -/
def atAnchor (r : Resolver) (name : Text) (a : Anchor) : Except Failure Target := do
  if !a.isDynamic then return ⟨a.resource.document, r⟩
  let last ← r.scope.foldlM (fun last uri => do
    match ← r.anchor uri name with
    | .ok (other, _) => return if other.isDynamic then other.resource else last
    | .error _ => return last) a.resource
  return ⟨last.document, ← r.enter last⟩

/-- What a step of a pointer leads to; none if there is nothing. -/
def child (d : Document) (segment : Text) : Except Failure (Option Document × Segment) :=
  match d with
  | .object ms =>
    let name := Text.replacePair '~' '0' "~" (Text.replacePair '~' '1' "/" segment)
    .ok (Members.get? ms name, .name name)
  | .list items => at_ items segment
  | .text t => at_ (t.map fun p => Document.text [p]) segment
  | d => .error (.noParts d.kind)
where
  at_ (items : List Document) (segment : Text) : Except Failure (Option Document × Segment) :=
    match Text.int? 10 segment with
    | none => .error (.segmentNotNumber segment)
    | some n =>
      let place := if n < 0 then n + items.length else n
      .ok (if place < 0 then none else items[place.toNat]?, .index n)

/-- Follows the steps of a pointer. Schemas with names that are passed on the way change the base. -/
def follow (whole : Resource) (pointer : Text) :
    Resolver → Document → List Segment → List Text → Except Failure (Except Unresolved Target)
  | r, d, _, [] => .ok (.ok ⟨d, r⟩)
  | r, d, passed, segment :: rest => do
    match ← child d segment with
    | (none, _) => return .error (.pointer pointer whole.document)
    | (some next, step) =>
      let passed := passed ++ [step]
      let inner : Resource := ⟨whole.dialect, next⟩
      if Resource.leadsToSchema whole.dialect next passed && inner.id?.isSome then
        follow whole pointer (← r.enter inner) next [] rest
      else follow whole pointer r next passed rest

/-- The name of a resource and the fragment that a reference consists of. -/
def parts (r : Resolver) (ref : Text) : Except Failure (Text × Text) :=
  match ref.dropStart? "#" with
  | some fragment => .ok (r.base, fragment)
  | none => match (Uri.join? r.base ref).bind Uri.defragment? with
    | some parts => .ok parts
    | none => .error .unreadableReference

/-- What a reference leads to. -/
def lookup (r : Resolver) (ref : Text) : Except Failure (Except Unresolved Target) := do
  let (uri, fragment) ← r.parts ref
  match ← r.resource? uri with
  | none => return .error (.resource ref)
  | some (resource, r) =>
    if fragment.startsWith "/" then
      follow resource fragment (r.move uri) resource.document []
        (Text.splitOn '/' (Uri.unescape (fragment.drop 1)))
    else if fragment.isEmpty then return .ok ⟨resource.document, r.move uri⟩
    else
      match ← r.anchor uri fragment with
      | .error why => return .error why
      | .ok (a, r) => return .ok (← (r.move uri).atAnchor fragment a)

/-- Whether a document passes a reference to the root on to the schema around it. -/
def isRecursive (d : Document) : Bool :=
  match d.get? "$recursiveAnchor" with
  | none => false
  | some v => v.isTrue

/-- What a reference to the root leads to: the outermost of the schemas that pass it on. -/
def lookupRecursive (r : Resolver) : Except Failure (Except Unresolved Target) := do
  match ← r.lookup "#" with
  | .error why => return .error why
  | .ok near => if isRecursive near.document then outward near r.scope else return .ok near
where
  outward : Target → List Text → Except Failure (Except Unresolved Target)
    | last, [] => .ok (.ok last)
    | last, uri :: rest => do
      match ← r.lookup uri with
      | .error why => return .error why
      | .ok next => if isRecursive next.document then outward next rest else return .ok last

end Resolver
end Conform.Schema

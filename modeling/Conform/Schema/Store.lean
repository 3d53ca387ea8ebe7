import Conform.Failure
import Conform.Schema.Resource

/-!
The store of resources that references can lead to. Nothing is ever fetched: what the store does
not hold cannot be reached.
-/
namespace Conform.Schema

/-- Resources by name, and anchors by the name of the resource and their own. -/
structure Shelf where
  resources : List (Text × Resource)
  anchors : List ((Text × Text) × Anchor)

namespace Shelf

def empty : Shelf := ⟨[], []⟩

def resource? (s : Shelf) (uri : Text) : Option Resource := s.resources.lookup uri

def anchor? (s : Shelf) (uri name : Text) : Option Anchor := s.anchors.lookup (uri, name)

/-- Puts a resource under a name, in place of one that was there. -/
def insert (s : Shelf) (uri : Text) (r : Resource) : Shelf :=
  { s with resources := (uri, r) :: s.resources.filter (·.1 != uri) }

/-- Adds the anchors that a resource declares. -/
def insertAnchors (s : Shelf) (uri : Text) (r : Resource) : Shelf :=
  { s with anchors := r.anchors.foldl (fun as a =>
      ((uri, a.1), a.2) :: as.filter (·.1 != (uri, a.1))) s.anchors }

/-- Enters a resource that is seen from `uri`, with all that is inside it. Of two resources with
one name the one that stands first in its document wins. None if a name cannot be joined with the
name around it. -/
def explore : Nat → Text → Resource → Shelf → Option Shelf
  | 0, _, _, s => some s
  | depth + 1, uri, r, s => do
    let uri ← match r.id? with
      | some id => Uri.join? uri id
      | none => some uri
    let s := if r.id?.isSome then s.insert uri r else s
    r.inside.reverse.foldlM (fun s inner => explore depth uri inner s) (s.insertAnchors uri r)

/-- Looks inside the resource that a shelf has under a name. -/
def exploreNamed (base acc : Shelf) (uri : Text) : Option Shelf :=
  match base.resource? uri with
  | some r => explore (r.document.depth + 1) uri r acc
  | none => some acc

/-- Looks inside the resources under the given names. -/
def exploreAll (names : List Text) (s : Shelf) : Option Shelf := names.foldlM s.exploreNamed s

/-- A shelf with all that another one has; the other one wins. -/
def laidOver (other s : Shelf) : Shelf :=
  ⟨other.resources ++ s.resources.filter (fun r => !other.resources.any (·.1 == r.1)),
    other.anchors ++ s.anchors.filter (fun a => !other.anchors.any (·.1 == a.1))⟩

end Shelf

/-- A store: what was put into it by name, and what is found on looking inside all of that. The
latter is consulted only for what the former lacks. -/
structure Store where
  entered : Shelf
  /-- The names under which something was put since the shelf was last looked through. -/
  names : List Text
  /-- None if some name inside cannot be joined with the names around it. -/
  found : Option Shelf

namespace Store

/-- The store with what was put into it under the given names. It is looked through in the order of
the names, not in the order in which they came, which has no meaning. -/
def ofShelf (entered : Shelf) (names : List Text) : Store :=
  ⟨entered, names, entered.exploreAll (Text.sorted names)⟩

/-- The documents under their names. -/
def ofDocuments (dialect : Dialect) (docs : List (Text × Document)) : Store :=
  let shelf := docs.foldl (fun s d => s.insert d.1 (.ofDocument dialect d.2)) Shelf.empty
  ofShelf shelf (docs.map (·.1))

/-- The store with all of a shelf that was looked through before; the shelf wins. -/
def withShelf (s : Store) (shelf : Shelf) : Store := ofShelf (shelf.laidOver s.entered) s.names

/-- The store with one more resource, which wins. -/
def insert (s : Store) (uri : Text) (r : Resource) : Store :=
  ofShelf (s.entered.insert uri r) (s.names.filter (· != uri) ++ [uri])

end Store
end Conform.Schema

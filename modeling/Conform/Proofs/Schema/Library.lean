import Conform.Proofs.Except
import Conform.Proofs.Schema.Meta
import Conform.Schema.Compiled

/-! What the store of a compiled schema holds: the schema itself, the schemas of schemas, and the
other documents, each under its name. -/
namespace Conform.Schema

variable {u uri name : Text} {dialect : Dialect} {docs : List (Text × Document)}

namespace Shelf

/-- What was put under a name before is seen only where the shelf that is laid over has nothing. -/
theorem resource?_laidOver (other s : Shelf) (u : Text) :
    (other.laidOver s).resource? u = (other.resource? u).or (s.resource? u) :=
  lookup_append_filter u other.resources s.resources

theorem anchor?_laidOver (other s : Shelf) (u name : Text) :
    (other.laidOver s).anchor? u name = (other.anchor? u name).or (s.anchor? u name) :=
  lookup_append_filter (u, name) other.anchors s.anchors

end Shelf

namespace Store

theorem entered_ofDocuments (dialect : Dialect) (docs : List (Text × Document)) :
    (ofDocuments dialect docs).entered =
      (docs.map fun d => (d.1, Resource.ofDocument dialect d.2)).foldl (fun s e => s.insert e.1 e.2)
        Shelf.empty := by
  rw [List.foldl_map]
  rfl

/-- What a store has under a name after a shelf was laid over its documents and a root was put in:
the root comes first, then the shelf, then the last of the documents with that name. -/
theorem resource?_entered (shelf : Shelf) (dialect : Dialect) (docs : List (Text × Document))
    (root : Resource) (uri u : Text) :
    (((ofDocuments dialect docs).withShelf shelf).insert uri root).entered.resource? u =
      if u = uri then some root
      else (shelf.resource? u).or
        ((docs.map fun d => (d.1, Resource.ofDocument dialect d.2)).reverse.lookup u) := by
  split
  · next hHere =>
      subst hHere
      exact Shelf.resource?_insert_self _ _ _
  · next hOther =>
      refine (Shelf.resource?_insert_ne hOther).trans ?_
      refine (Shelf.resource?_laidOver _ _ u).trans ?_
      rw [entered_ofDocuments, Shelf.resource?_foldl_insert]
      exact congrArg _ Option.or_none

theorem anchor?_entered (shelf : Shelf) (dialect : Dialect) (docs : List (Text × Document))
    (root : Resource) (uri u name : Text) :
    (((ofDocuments dialect docs).withShelf shelf).insert uri root).entered.anchor? u name =
      shelf.anchor? u name := by
  refine (Shelf.anchor?_laidOver _ _ u name).trans ?_
  have hNone : (ofDocuments dialect docs).entered.anchor? u name = none := by
    rw [entered_ofDocuments, Shelf.anchor?, Shelf.anchors_foldl_insert]
    rfl
  rw [hNone, Option.or_none]

theorem names_insert (shelf : Shelf) (dialect : Dialect) (docs : List (Text × Document))
    (root : Resource) (uri : Text) :
    (((ofDocuments dialect docs).withShelf shelf).insert uri root).names =
      (docs.map (·.1)).filter (· != uri) ++ [uri] := rfl

theorem found_insert (s : Store) (uri : Text) (root : Resource) :
    (s.insert uri root).found =
      (s.insert uri root).entered.exploreAll (Text.sorted (s.insert uri root).names) := rfl

end Store

namespace Compiled

variable {p : Parsed} {others : List (Text × Document)} {s : Compiled} {d : Document}

/-- The schema as the resource that a check starts from. -/
def root (s : Compiled) : Resource := ⟨s.context.dialect, s.document⟩

/-- What is known of a schema that was compiled: how its store was made, and that all references
that were collected from it lead somewhere. -/
theorem ofParsed_ok (h : ofParsed p others = .ok s) :
    s.document = p.document ∧ s.context.dialect = Dialect.ofDeclaration p.declared ∧
      (∃ docs, library p others = .ok docs ∧
        s.context.resolver = .ofRoot (.ofLibrary s.context.dialect docs) s.root) ∧
      ∀ ref ∈ references true s.document, ∃ t, s.context.resolver.lookup ref = .ok (.ok t) := by
  obtain ⟨_, _, h⟩ := exists_of_bind_ok h
  obtain ⟨docs, hDocs, h⟩ := exists_of_bind_ok h
  obtain ⟨_, hCheck, h⟩ := exists_of_bind_ok h
  obtain rfl := Except.ok.inj h
  refine ⟨rfl, rfl, ⟨docs, hDocs, rfl⟩, fun ref hRef => ?_⟩
  obtain ⟨found, hLookup, hOk⟩ := exists_of_bind_ok (ok_of_forM_ok hCheck hRef)
  cases found with
  | ok t => exact ⟨t, hLookup⟩
  | error why => cases hOk

theorem ofParsed_of_read {offline enforce : Bool} {bs : Bytes} (h : read offline enforce bs = .ok s) :
    ∃ p, Parsed.read offline bs = .ok p ∧ ofParsed p [] = .ok s := by
  obtain ⟨p, hParsed, h⟩ := exists_of_bind_ok h
  refine ⟨p, hParsed, ?_⟩
  dsimp only at h
  split at h
  · obtain ⟨_, _, h⟩ := exists_of_bind_ok h
    exact h
  · exact h

/-- The name under which a library holds a document that gives itself the name `id`. -/
def shelfName? (id : Text) : Option Text :=
  (Uri.defragment? id).map fun parts => Text.dropEndWhile (·.char == '#') parts.1

/-- The documents of a library, the schema itself among them. -/
def members (p : Parsed) (others : List (Text × Document)) : List (Text × Document) :=
  if p.id.isEmpty then others else Members.set p.id p.document others

theorem map_library (h : library p others = .ok docs) :
    (members p others).map (fun e => (shelfName? e.1, e.2)) = docs.map fun e => (some e.1, e.2) := by
  have hAll : List.Forall₂ (fun e e' => (shelfName? e.1, e.2) = (some e'.1, e'.2))
      (members p others) docs := by
    refine (forall₂_of_mapM_ok h).imp fun e e' hStep => ?_
    dsimp only at hStep
    split at hStep
    · next rest fragment hParts =>
        obtain rfl := Except.ok.inj hStep
        simp [shelfName?, hParts]
    · cases hStep
  clear h
  revert hAll
  generalize members p others = items
  intro hAll
  induction hAll with
  | nil => rfl
  | cons hFirst _ ih => rw [List.map_cons, List.map_cons, hFirst, ih]

theorem mem_library (h : library p others = .ok docs) (hMem : (name, d) ∈ docs) :
    ∃ id, shelfName? id = some name ∧ (id, d) ∈ members p others := by
  have hMapped : (some name, d) ∈ (members p others).map fun e => (shelfName? e.1, e.2) := by
    rw [map_library h]
    exact List.mem_map_of_mem hMem
  obtain ⟨e, hE, hSame⟩ := List.mem_map.mp hMapped
  obtain ⟨hName, rfl⟩ := Prod.mk.inj hSame
  exact ⟨e.1, hName, hE⟩

end Compiled
end Conform.Schema

import Conform.Schema.Check
import Conform.Schema.Meta
import Conform.Schema.Parsed
import Conform.Schema.Report

/-!
Schemas made ready for validation. A schema is compiled only if it conforms to the schema of its
dialect and every reference in it leads somewhere, so most mistakes come to light before any data
are seen.
-/
namespace Conform.Schema

structure Compiled where
  id : Text
  document : Document
  context : Context

namespace Dialect

/-- What the dialect's schema of schemas finds in a document. -/
def metaFindings (d : Dialect) (formats : Bool) (schema : Document) : Findings :=
  check ⟨d, d.metaRoot, formats⟩ d.meta schema

end Dialect

namespace Compiled

/-- The keywords whose values are data, so that nothing in them is a schema. -/
def dataKeywords : List Text := ["const", "default", "enum", "examples"]

mutual

/-- The references in a document that are read against the name of the whole; a part with a name of
its own is left out. -/
def references (top : Bool) : Document → List Text
  | .object ms =>
    if !top && ((Members.get? ms "$id").bind Document.text?).isSome then []
    else
      ((Members.get? ms "$ref").bind Document.text?).toList ++ memberReferences ms
  | .list items => itemReferences items
  | _ => []

def itemReferences : List Document → List Text
  | [] => []
  | d :: rest => references false d ++ itemReferences rest

def memberReferences : List (Text × Document) → List Text
  | [] => []
  | (k, d) :: rest =>
    (if dataKeywords.contains k then [] else references false d) ++ memberReferences rest

end

/-- Refuses a document that does not conform to the schema of its dialect. -/
def checkConforms (d : Dialect) (document : Document) : Except Failure Unit := do
  match ← (d.metaFindings true document).first? with
  | none => return ()
  | some f => throw (.nonconforming ("/" ++ Text.join "/" f.path) f.message)

/-- Refuses a document with a reference that leads nowhere. -/
def checkReferences (r : Resolver) (document : Document) : Except Failure Unit :=
  (references true document).forM fun ref => do
    match ← r.lookup ref with
    | .ok _ => return ()
    | .error why => throw (.deadReference ref why)

/-- The documents under their names without fragments, the schema itself among them. -/
def library (p : Parsed) (others : List (Text × Document)) : Except Failure (List (Text × Document)) :=
  let docs := if p.id.isEmpty then others else Members.set p.id p.document others
  docs.mapM fun (uri, d) =>
    match Uri.defragment? uri with
    | some (uri, _) => .ok (Text.dropEndWhile (·.char == '#') uri, d)
    | none => .error .unreadableReference

/-- Compiles a schema. Its references may lead into the other documents, each under its name. -/
def ofParsed (p : Parsed) (others : List (Text × Document)) : Except Failure Compiled := do
  let dialect := Dialect.ofDeclaration p.declared
  checkConforms dialect p.document
  let store := Store.ofLibrary dialect (← library p others)
  let resolver := Resolver.ofRoot store ⟨dialect, p.document⟩
  checkReferences resolver p.document
  return ⟨p.id, p.document, ⟨dialect, resolver, false⟩⟩

/-- Reads and compiles a schema that refers only to itself. -/
def read (offline enforce : Bool) (bs : Bytes) : Except Failure Compiled := do
  let p ← Parsed.read offline bs
  if enforce then Parsed.checkDialect p.declared
  ofParsed p []

/-- Validates a document. -/
def validate (s : Compiled) (d : Document) : Except Failure Report := do
  return .ofFindings (← (check s.context s.document d).all)

/-- Reads and validates data. A source is completed by the language that the data are in. -/
def validateBytes (s : Compiled) (bs : Bytes) (source : Option Source := none) :
    Except Failure Report := do
  let (d, format) ← Document.readData bs
  let r ← s.validate d
  return r.withSource (source.map fun src => { src with type := format.name })

end Compiled
end Conform.Schema

import Conform.Schema.Compiled
import Conform.Schema.Index

/-!
Schemas whose references lead into other schemas, which are found by name: in directories, or in an
index that was made before. No schema is fetched from anywhere.
-/
namespace Conform.Schema

namespace Parsed

/-- The schema as an entry, for the comparison with copies of it. -/
def entry (p : Parsed) : Entry := ⟨p.id, "root schema", p.normalized, p.declared⟩

end Parsed

namespace Compiled

/-- The documents of entries under their names. -/
def documents (es : List Entry) : List (Text × Document) := es.map fun e => (e.id, e.document)

/-- Compiles a schema whose references may lead to the schemas of an index. One with its own name is
passed over. -/
def ofEntries (p : Parsed) (es : List Entry) : Except Failure Compiled :=
  ofParsed p (documents (es.filter (·.id != p.id)))

/-- Reads a schema, and makes the index that a scan for its references starts with: it holds the
schema itself, if that has a name. -/
def readSeed (bs : Bytes) : Except Failure (Parsed × Index) := do
  let p ← Parsed.read true bs
  Parsed.checkDialect p.declared
  return (p, if p.id.isEmpty then .empty else ⟨[p.entry]⟩)

/-- Reads and compiles a schema whose references may lead to schemas in directories. Copies of the
schema itself may be among them, but nothing else under its name. -/
def readWithDirectories (fs : Files) (offline : Bool) (dirs : List Text) (bs : Bytes) :
    Except Failure Compiled := do
  if dirs.isEmpty then read offline true bs
  else
    let (p, seed) ← readSeed bs
    let ix ← Index.scan fs dirs seed
    ofEntries p ix.entries

/-- What is reported while a schema is compiled with directories. -/
def directoryEvents (fs : Files) (dirs : List Text) (bs : Bytes) : List Log.Event :=
  match readSeed bs with
  | .ok (_, seed) => Index.scanEvents fs dirs seed
  | .error _ => []

/-- Reads and compiles a schema whose references may lead to the schemas of an index. What is given
as declared stands in for a declaration that the schema lacks. -/
def readWithIndex (ix : Index) (declared : Option Text) (bs : Bytes) : Except Failure Compiled := do
  let p ← Parsed.read true bs
  let p := match p.declared, declared with
    | none, some t => if t.isEmpty then p else { p with declared := some t }
    | _, _ => p
  Parsed.checkDialect p.declared
  ofEntries p ix.sorted

end Compiled
end Conform.Schema

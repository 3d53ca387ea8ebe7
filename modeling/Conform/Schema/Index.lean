import Conform.Assets
import Conform.FileTree
import Conform.Log
import Conform.Schema.Parsed
import Conform.Text.Case

/-!
Indexes of schemas by the name that each gives itself. An index is filled from directories: a second
copy of a schema is passed over, and two different schemas with one name are refused.
-/
namespace Conform.Schema

/-- A schema that was found in a file. -/
structure Entry where
  id : Text
  path : Text
  /-- The canonical text of the schema, from which its declaration may have been taken away. -/
  normalized : Text
  /-- The dialect that it declared. -/
  declared : Option Text
deriving DecidableEq

/-- Entries in the order in which they were found; no two have one name. -/
structure Index where
  entries : List Entry

/-- What a scan meets on its way. -/
inductive Visit where
  | found (e : Entry)
  /-- A file that is passed over, and why. -/
  | passedOver (path reason : Text)
  /-- The scan cannot go on. -/
  | blocked (f : Failure)

namespace Entry

/-- The schema itself. A declaration that the canonical text lacks is put back. -/
def document (e : Entry) : Document :=
  match (Json.read? e.normalized.utf8).getD .null, e.declared with
  | .object ms, some declared =>
    if declared.isEmpty || Members.has ms "$schema" then .object ms
    else .object (Members.set "$schema" (.text declared) ms)
  | d, _ => d

end Entry

namespace Index

def empty : Index := ⟨[]⟩

def get? (ix : Index) (id : Text) : Option Entry := ix.entries.find? (·.id == id)

def size (ix : Index) : Nat := ix.entries.length

/-- The entries in the order of their names. -/
def sorted (ix : Index) : List Entry := ix.entries.mergeSort fun a b => a.id.le b.id

/-- Adds an entry, unless the same schema is there already. -/
def add (ix : Index) (e : Entry) : Except Failure Index :=
  match ix.get? e.id with
  | none => .ok ⟨ix.entries ++ [e]⟩
  | some old =>
    if old.normalized == e.normalized then .ok ix
    else .error (.referenceConflict e.id e.path old.path)

/-- The endings of the files that are looked at. -/
def endings : List Text := [".json", ".yaml", ".yml"]

def isSchemaFile (path : Text) : Bool := endings.contains (Path.suffix path).lower

/-- The directory that a text names. -/
def directory (fs : Files) (raw : Text) : Except Failure Text := do
  let dir ← (Path.clean raw).mapError fun _ => .refDirTraversal raw
  if !fs.exists_ dir then throw (.refDirMissing dir)
  if !fs.isDirectory dir then throw (.refDirNotDirectory dir)
  return Path.tidy dir

/-- What the content of a file makes of it. Two copies of a schema whose declarations differ are the
same only if declarations are stripped. -/
def visitContent (strip : Bool) (path : Text) (bs : Bytes) : Visit :=
  match Parsed.read strip bs with
  | .ok p =>
    if p.id.isEmpty then .passedOver path "no $id"
    else .found ⟨p.id, path, p.normalized, p.declared⟩
  | .error .malformedSchema => .passedOver path Failure.malformedSchema.message
  | .error f => .blocked f

def visitFile (fs : Files) (strip : Bool) (path : Text) : Visit :=
  match fs.read path with
  | .ok bs => visitContent strip path bs
  | .error (.access fault _) => .blocked (.refSchemaUnreadable path fault)
  | .error f => .blocked f

/-- What a scan meets in a directory, file by file in the order of a walk. -/
def visitDirectory (fs : Files) (strip : Bool) (raw : Text) : List Visit :=
  match directory fs raw with
  | .ok dir => ((fs.walk dir).filter isSchemaFile).map (visitFile fs strip)
  | .error f => [.blocked f]

/-- What a scan meets in several directories, one after the other. -/
def visits (fs : Files) (dirs : List Text) (strip : Bool := true) : List Visit :=
  dirs.flatMap (visitDirectory fs strip)

/-- Adds what was met. -/
def accept (ix : Index) : Visit → Except Failure Index
  | .found e => ix.add e
  | .passedOver .. => .ok ix
  | .blocked f => .error f

/-- Adds what is found in several directories. The first failure ends the scan. -/
def scan (fs : Files) (dirs : List Text) (seed : Index := empty) (strip : Bool := true) :
    Except Failure Index :=
  (visits fs dirs strip).foldlM accept seed

/-- The files that are passed over until the scan ends, each with the reason. -/
def passedOver (ix : Index) : List Visit → List (Text × Text)
  | [] => []
  | v :: rest =>
    let here := match v with
      | .passedOver path reason => [(path, reason)]
      | _ => []
    here ++ match ix.accept v with
      | .ok ix => passedOver ix rest
      | .error _ => []

/-- What a scan reports: the files that it passes over. -/
def scanEvents (fs : Files) (dirs : List Text) (seed : Index := empty) (strip : Bool := true) :
    List Log.Event :=
  (passedOver seed (visits fs dirs strip)).map fun (path, reason) =>
    { level := .debug, logger := "goneat.schema.id_index", message := "schema_ref_dir_skip"
      fields := [("file_path", .text path), ("reason", .text reason)] }

end Index
end Conform.Schema

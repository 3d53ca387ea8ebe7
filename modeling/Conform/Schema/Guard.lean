import Conform.FileTree
import Conform.Schema.Compiled

/-!
Limits on the files that a validation may touch: where they lie, how large they are, and in which
dialects their schema may be written.
-/
namespace Conform.Schema

structure Guard where
  /-- The directories in which files may lie. -/
  allowed : List Text
  /-- The largest number of bytes in a file. -/
  maxSize : Nat
  maxSize_pos : 0 < maxSize
  /-- Whether only the supported dialects may be declared. -/
  enforceDialect : Bool

namespace Guard

/-- Ten mebibytes. -/
def usualSize : Nat := 10485760

/-- The current directory and what is in it, up to the usual size. -/
def usual : Guard := ⟨["."], usualSize, by decide, true⟩

/-- A guard with the given limits; the size has to be positive. -/
def ofLimits (allowed : List Text) (maxSize : Int) (enforceDialect : Bool) : Except Failure Guard :=
  if h : 0 < maxSize.toNat then .ok ⟨allowed, maxSize.toNat, h, enforceDialect⟩
  else .error (.notPositive .fileSize)

def toDocument (g : Guard) : Document :=
  .record [("allowed_dirs", .list (g.allowed.map .text)),
    ("max_file_size_bytes", .int g.maxSize), ("enforce_draft_only", .bool g.enforceDialect)]

/-- A path as it may be read; the label tells which one it is. -/
def cleanAs (label path : Text) : Except Failure Text :=
  (Path.clean path).mapError fun
    | .pathTraversal raw => .unsafePath label raw
    | f => f

/-- The content of a file that keeps to the limits, with its path. -/
def read (g : Guard) (fs : Files) (path : Text) : Except Failure (Text × Bytes) := do
  let path ← cleanAs "path" path
  if !Path.isWithinAny fs.cwd path g.allowed then throw (.outsideAllowed path g.allowed)
  let size ← fs.size path
  if g.maxSize < size then throw (.overSize path g.maxSize size)
  return (path, ← fs.read path)

end Guard

namespace Compiled

/-- Reads and compiles a schema, and validates data against it. That the data can be read is found
out first. -/
def validateData (offline enforce : Bool) (schema data : Bytes) (source : Option Source := none) :
    Except Failure Report := do
  let (d, format) ← Document.readData data
  let s ← read offline enforce schema
  return (← s.validate d).withSource (source.map ({ · with type := format.name }))

/-- Validates the data in a file. -/
def validateFile (fs : Files) (offline : Bool) (schema : Bytes) (path : Text) :
    Except Failure Report := do
  validateData offline true schema (← fs.read (← Guard.cleanAs "path" path))

/-- Validates the data in a file against the schema in another one. -/
def validateFileWith (fs : Files) (offline : Bool) (schemaPath path : Text) :
    Except Failure Report := do
  let schema ← fs.read (← Guard.cleanAs "schema path" schemaPath)
  validateData offline true schema (← fs.read (← Guard.cleanAs "data path" path))

/-- Validates data against the schema in a file. -/
def validateWith (fs : Files) (offline : Bool) (schemaPath : Text) (data : Bytes) :
    Except Failure Report := do
  validateData offline true (← fs.read (← Guard.cleanAs "schema path" schemaPath)) data

/-- Validates the data in a file that has to keep to limits. -/
def validateGuarded (fs : Files) (offline : Bool) (g : Guard) (schema : Bytes) (path : Text) :
    Except Failure Report := do
  let (path, data) ← g.read fs path
  validateData offline g.enforceDialect schema data (some { file := path, type := "file" })

end Compiled
end Conform.Schema

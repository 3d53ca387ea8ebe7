import Conform.Mapping.Manifest
import Conform.Schema.Catalog
import Conform.FileTree
import Conform.Log

/-!
The manifest of a repository, laid over the built-in one. It has to conform to its schema, and it
may be missing.
-/
namespace Conform.Mapping

inductive Severity where
  | info
  | warn
  | error
deriving DecidableEq, Repr

/-- Something to tell about a manifest. -/
structure Diagnostic where
  severity : Severity
  message : Text
  source : Text

/-- The manifest of a repository and what it leads to. -/
structure Repository where
  /-- The manifest of the repository itself, with the path where it was found. -/
  own : Option (Text × Manifest)
  /-- The manifest that is in effect. -/
  effective : Manifest
  diagnostics : List Diagnostic

namespace Severity

def name : Severity → Text
  | info => "info"
  | warn => "warn"
  | error => "error"

end Severity

namespace Diagnostic

def toDocument (d : Diagnostic) : Document :=
  .record [("severity", .text d.severity.name), ("message", .text d.message),
    ("source", .text d.source)]

end Diagnostic

namespace Repository

/-- Where a manifest is looked for. -/
def usualPath : Text := ".goneat/schema-mappings.yaml"

/-- The name of the schema of manifests. -/
def schemaName : Text := "schema-mapping-manifest-v1.0.0"

/-- The schema of manifests. -/
def schema (p : Provider) (offline : Bool) : Except Failure Schema.Compiled :=
  (Schema.Catalog.empty.get p offline schemaName).2.mapError fun f =>
    if f.isDomain then .manifestValidator f else f

/-- The path of a manifest in a repository. -/
def pathIn (cwd root manifest : Text) : Except Failure Text := do
  let clean ← (Path.clean manifest).mapError fun _ => .manifestPathTraversal manifest
  let path := Path.join root clean
  match Path.ensureWithin cwd root path with
  | .ok _ => return path
  | .error _ => throw (.manifestOutside (Path.absolute cwd path) (Path.absolute cwd root))

/-- The manifest that a text is, if it conforms to the schema. -/
def parse (s : Schema.Compiled) (path : Text) (bs : Bytes) : Except Failure Manifest := do
  let report ← (s.validateBytes bs).mapError fun
    | .malformedData => .manifestMalformed path .malformedData
    | f => f
  if !report.valid then
    throw (.manifestInvalid path (Text.join "; " (report.issues.map (·.message))))
  let m ← Manifest.ofDocument (← Document.readData bs).1
  let version := if m.version.isEmpty then Manifest.currentVersion else m.version
  if version != Manifest.currentVersion then
    throw (.manifestVersion version Manifest.currentVersion)
  return { m with version, tuning := m.tuning.withDefaults Manifest.builtin.tuning }

/-- What is said when a repository has no manifest. -/
def missing (path : Text) : Diagnostic :=
  ⟨.info, "schema mapping manifest not found; using built-in defaults (" ++ path ++ ")", path⟩

/-- Loads the manifest of a repository; empty paths stand for the usual ones. -/
def load (fs : Files) (s : Schema.Compiled) (root manifest : Text) : Except Failure Repository := do
  let root : Text := if root.isEmpty then "." else root
  let manifest := if manifest.isEmpty then usualPath else manifest
  let path ← pathIn fs.cwd root manifest
  match fs.read path with
  | .ok bs =>
    let m ← parse s path bs
    return ⟨some (path, m), Manifest.builtin.merge m, []⟩
  | .error (.access .missing _) => return ⟨none, .builtin, [missing path]⟩
  | .error f => throw (if f.isAccess then .manifestUnreadable path f else f)

/-- What is reported while the manifest is loaded. -/
def events (r : Repository) : List Log.Event :=
  r.diagnostics.map fun d =>
    { level := .debug, logger := "goneat.mapping.manager", message := "mapping_manifest_missing"
      fields := [("manifest_path", .text d.source)] }

end Repository
end Conform.Mapping

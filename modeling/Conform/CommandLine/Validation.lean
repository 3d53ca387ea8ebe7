import Conform.CommandLine.Host
import Conform.Document.Reading
import Conform.Schema.Catalog
import Conform.Schema.Linked
import Conform.Suite.Run

/-!
The commands that validate data: a single file, or a whole suite.
-/
namespace Conform.CommandLine

open Schema (Compiled Index Report)

namespace Call

def wantsJson (c : Call) : Bool := c.given.text "--format" == "json"

def refDirs (c : Call) : List Text := trimmed (c.given.texts "--ref-dir")

def resolution (c : Call) : Except Failure Suite.Resolution :=
  Suite.Resolution.read (c.given.text "--schema-resolution" Suite.Resolution.preferId.name)

/-- Validates data against a schema in a file. -/
def checkFile (c : Call) (path : Text) (index : Option Index) (data : Document) :
    Log.Traced Report := do
  let schema ← c.host.read "schema file" path
  let compiled ← match index with
    | some ix => Compiled.readWithIndex ix none schema
    | none => do
      Log.Traced.report (Compiled.directoryEvents c.files c.refDirs schema)
      Compiled.readWithDirectories c.files c.settings.offline c.refDirs schema
  compiled.validate data

/-- Validates data against a schema that is found by its name in directories. -/
def checkIndexed (name : Text) (index : Option Index) (data : Document) : Except Failure Report := do
  match index with
  | none => throw (.usage ("cannot resolve schema_id " ++ name.quoted ++ " without --ref-dir"))
  | some ix =>
    match ix.get? name with
    | none => throw (.usage ("schema_id not found in --ref-dir index: " ++ name.quoted))
    | some e => (← Compiled.readWithIndex ix e.declared e.normalized.utf8).validate data

/-- Validates data against a schema that comes with the library. -/
def checkEmbedded (c : Call) (name : Text) (data : Document) : Except Failure Report := do
  (← (Schema.Catalog.empty.get Assets.provider c.settings.offline name).2).validate data

/-- What is said about a report on data. -/
def showReport (c : Call) (r : Report) : Except Failure Text :=
  if c.wantsJson then jsonLine r.toDocument
  else if r.valid then .ok (c.screen.ok "Validation passed")
  else .ok (c.screen.fail "Validation failed:"
    ++ Screen.items (r.issues.map fun i => i.path ++ ": " ++ i.message))

/-- Validates a file. -/
def validateData (c : Call) : Log.Traced Answer := do
  let name := (c.given.text "--schema").strip
  let path := (c.given.text "--schema-file").strip
  if name.isEmpty && path.isEmpty then
    throw (.usage "either --schema or --schema-file is required")
  if !name.isEmpty && !path.isEmpty then
    throw (.usage "both --schema and --schema-file provided; use one")
  let resolution ← c.resolution
  let bytes ← c.host.read "data file" (c.given.text "--data")
  let (data, _) ← Document.readData bytes
  let index ← Suite.indexFor c.files resolution c.refDirs
  let report ←
    if !path.isEmpty then c.checkFile path index data
    else if Suite.isAddress name && resolution ≠ .pathOnly then checkIndexed name index data
    else c.checkEmbedded name data
  let out ← c.showReport report
  return { passed := report.valid, out }

/-- How a suite is to be run. -/
def suiteOptions (c : Call) : Except Failure Suite.Options := do
  let g := c.given
  let resolution ← c.resolution
  let dataRoot := g.text "--data"
  let workers := (g.whole? "--workers").getD c.host.processors
  let timeout := ((g.real? "--timeout").map Seconds.fraction).getD Suite.Options.usualTimeout
  let pool ← Suite.Options.check dataRoot workers timeout
  return { dataRoot, resolution, pool, timeout
           manifest := g.text "--manifest" Mapping.Repository.usualPath
           refDirs := c.refDirs, skip := trimmed (g.texts "--skip")
           expectFail := trimmed (g.texts "--expect-fail")
           exclude := trimmed (g.texts "--exclude"), strict := g.isSet "--strict"
           failOnUnmapped := !g.isSet "--no-fail-on-unmapped" }

/-- Validates a suite. -/
def validateSuite (c : Call) : Log.Traced Answer := do
  let options ← c.suiteOptions
  let o ← Suite.runAs ("suite-" ++ c.host.runName) c.files c.settings.offline options
  let out ← if c.wantsJson then jsonLine o.toDocument else pure o.markdown
  return { passed := !o.shouldFail, out }

end Call
end Conform.CommandLine

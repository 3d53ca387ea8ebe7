import Conform.Log
import Conform.Mapping.Resolver
import Conform.Schema.Catalog
import Conform.Schema.Linked
import Conform.Suite.Discovery
import Conform.Suite.Result

/-!
The run of a suite. Which schema each file belongs to is settled first; then the files are validated
independently of each other.
-/
namespace Conform.Suite

open Schema (Compiled Index Report)

/-- What is done with a file. -/
inductive Plan where
  /-- The result is known without a look at the file. -/
  | settled (r : FileResult)
  /-- The file is to be validated by a rule. -/
  | validate (path : Text) (rule : Mapping.Rule) (expectFail : Bool)

/-- What a run of a suite can see. -/
structure Setting where
  files : Files
  offline : Bool
  root : Text
  options : Options
  manifest : Mapping.Manifest
  /-- Schemas by name, where schemas may be found so. -/
  index : Option Index

namespace Plan

/-- Settles what is done with a file. -/
def ofPath (o : Options) (m : Mapping.Manifest) (path : Text) : Plan :=
  if Glob.acceptsAny o.skip path then .settled { path, status := .skipped, valid := true }
  else match m.resolve path with
    | .excluded _ => .settled { path, status := .skipped, valid := true }
    | .mapped rule => .validate path rule (Glob.acceptsAny o.expectFail path)
    | .unmatched =>
      .settled { path, status := .unmapped, valid := false, error := "no schema mapping" }

def isSettled : Plan → Bool
  | settled _ => true
  | validate .. => false

end Plan

/-- Whether a text looks like the path of a schema. -/
def looksLikePath (t : Text) : Bool :=
  let t := t.strip
  Text.containsChar t '/' || Text.containsChar t '\\' || hasDataEnding t

/-- Whether a name of a schema is an absolute address. -/
def isAddress (id : Text) : Bool :=
  let t := id.strip.lower
  t.startsWith "https://" || t.startsWith "http://"

/-- The first path among the overrides of a schema. -/
def overridePath? (m : Mapping.Manifest) (schemaId : Text) : Option Text :=
  let wanted := schemaId.strip
  if wanted.isEmpty then none
  else (m.overrides.find? fun o => o.schemaId.strip == wanted && !o.path.strip.isEmpty).map
    (·.path.strip)

/-- The result for a file that could not be validated. -/
def failed (path : Text) (ref : SchemaRef) (error : Text) : FileResult :=
  { path, status := .fail, valid := false, schema := some ref, error }

/-- The result for a report on a file. -/
def classify (path : Text) (expectFail : Bool) (ref : SchemaRef) (r : Report) : FileResult :=
  let schema := some ref
  match r.valid, expectFail with
  | true, true =>
    { path, status := .unexpectedPass, valid := true, schema,
      error := "file was expected to fail but passed" }
  | true, false => { path, status := .pass, valid := true, schema, issues := r.issues }
  | false, true => { path, status := .expectedFail, valid := false, schema, issues := r.issues }
  | false, false => { path, status := .fail, valid := false, schema, issues := r.issues }

namespace Setting

/-- The path of a schema in the repository, or why there is none. -/
def schemaPath (s : Setting) (schemaId : Text) : Except Text Text :=
  let path := (overridePath? s.manifest schemaId).getD schemaId
  if !looksLikePath path then
    .error ("local schema mapping for " ++ schemaId.quoted
      ++ " requires overrides.path or schema_path")
  else match Path.clean path with
    | .error f => .error f.message
    | .ok p => .ok (if Path.isAbsolute p then p else Path.normal (Path.join s.root p))

/-- Validates data against a schema that comes with the library. -/
def checkEmbedded (s : Setting) (id : Text) (data : Bytes) : Except Failure Report := do
  (← (Schema.Catalog.empty.get Assets.provider s.offline id).2).validateBytes data

/-- Validates data against a schema in a file. -/
def checkLocal (s : Setting) (path : Text) (data : Bytes) : Except Failure Report := do
  let schema ← s.files.read path
  let (d, _) ← Document.readData data
  let compiled ← match s.index with
    | some ix => Compiled.readWithIndex ix none schema
    | none => Compiled.readWithDirectories s.files s.offline s.options.refDirs schema
  compiled.validate d

/-- The entry for a schema that is found by its name, or why there is none. -/
def entry (s : Setting) (id : Text) : Except Text (Index × Schema.Entry) :=
  if !isAddress id then .error ("external schema_id must be an absolute URL: " ++ id.quoted)
  else if s.options.resolution = .pathOnly then
    .error ("schema-resolution=path-only cannot resolve external schema_id " ++ id.quoted)
  else match s.index with
    | none => .error ("cannot resolve external schema_id " ++ id.quoted ++ " without --ref-dir")
    | some ix =>
      match ix.get? id with
      | none => .error ("schema_id not found in --ref-dir index: " ++ id.quoted)
      | some e => .ok (ix, e)

/-- Validates data against a schema that was found by its name. -/
def checkExternal (ix : Index) (e : Schema.Entry) (data : Bytes) : Except Failure Report := do
  let (d, _) ← Document.readData data
  (← Compiled.readWithIndex ix e.declared e.normalized.utf8).validate d

/-- Turns a failure that concerns only one file into the result for that file. -/
def finish (path : Text) (expectFail : Bool) (ref : SchemaRef) (r : Except Failure Report) :
    Except Failure FileResult :=
  match r with
  | .ok report => .ok (classify path expectFail ref report)
  | .error f => if f.isDomain || f.isAccess then .ok (failed path ref f.message) else .error f

/-- Reads a file and goes on with its content; a file that cannot be read has failed. -/
def withContent (s : Setting) (path : Text) (ref : SchemaRef)
    (use : Bytes → Except Failure FileResult) : Except Failure FileResult :=
  match s.files.read (Path.join s.root path) with
  | .ok data => use data
  | .error f => if f.isAccess then .ok (failed path ref f.message) else .error f

/-- The result for a file that has a rule. -/
def validateOne (s : Setting) (path : Text) (rule : Mapping.Rule) (expectFail : Bool) :
    Except Failure FileResult :=
  let origin := rule.origin.getD .embedded
  let ref : SchemaRef := { id := rule.schemaId, origin }
  match origin with
  | .embedded =>
    s.withContent path ref fun data =>
      finish path expectFail ref (s.checkEmbedded rule.schemaId data)
  | .locally =>
    match s.schemaPath rule.schemaId with
    | .error why => .ok (failed path ref why)
    | .ok p =>
      let ref := { ref with path := p }
      s.withContent path ref fun data => finish path expectFail ref (s.checkLocal p data)
  | .external =>
    s.withContent path ref fun data =>
      match s.entry rule.schemaId.strip with
      | .error why => .ok (failed path ref why)
      | .ok (ix, e) =>
        finish path expectFail { ref with id := rule.schemaId.strip, path := e.path }
          (checkExternal ix e data)

/-- Carries out a plan. -/
def carryOut (s : Setting) : Plan → Except Failure FileResult
  | .settled r => .ok r
  | .validate path rule expectFail => s.validateOne path rule expectFail

end Setting

/-- The manifest of the repository of a suite. -/
def repository (fs : Files) (offline : Bool) (root : Text) (o : Options) :
    Except Failure Mapping.Repository :=
  let loaded := do
    Mapping.Repository.load fs (← Mapping.Repository.schema Assets.provider offline) root o.manifest
  loaded.mapError fun f => if f.isDomain then .suiteManifest f else f

/-- What is reported while a file is validated against a schema in a file: the directories are
looked through for that schema alone, unless there is an index of them. -/
def Setting.localEvents (s : Setting) (path schemaId : Text) : List Log.Event :=
  match s.schemaPath schemaId, s.files.read (Path.join s.root path) with
  | .ok p, .ok data =>
    match s.files.read p, Document.readData data with
    | .ok schema, .ok _ => Compiled.directoryEvents s.files s.options.refDirs schema
    | _, _ => []
  | _, _ => []

/-- What is reported while a plan is carried out. -/
def Setting.eventsOf (s : Setting) : Plan → List Log.Event
  | .settled _ => []
  | .validate path rule _ =>
    if rule.origin = some .locally ∧ s.index.isNone ∧ !s.options.refDirs.isEmpty then
      s.localEvents path rule.schemaId
    else []

/-- What is reported of a whole suite. -/
def summaryEvent (root : Text) (s : Summary) : Log.Event :=
  let count (n : Nat) : Log.Value := .int n
  { level := .info, logger := "goneat.suite", message := "schema_suite_validated"
    fields := [("repo_root", .text root), ("total", count s.total), ("passed", count s.passed),
      ("failed", count s.failed), ("skipped", count s.skipped), ("unmapped", count s.unmapped)] }

/-- The schemas by name, where schemas may be found so. -/
def indexFor (fs : Files) (r : Resolution) (dirs : List Text) : Log.Traced (Option Index) := do
  if r = .pathOnly || dirs.isEmpty then return none
  Log.Traced.report (Index.scanEvents fs dirs)
  let ix ← Index.scan fs dirs
  return some ix

/-- Carries out the plans for all files, unless there is no time for it. -/
def Setting.results (s : Setting) (plans : List Plan) : Log.Traced (List FileResult) := do
  if s.options.timeout.isInstant && plans.any (!·.isSettled) then
    throw (.suiteTimeout s.options.timeout.display)
  Log.Traced.report (plans.flatMap s.eventsOf)
  match s.options.pool.run false s.carryOut plans with
  | .ok rs => return rs.mergeSort fun a b => a.path.le b.path
  | .error .cancelled => throw .cancelled
  | .error (.failed f) => throw f

/-- Runs a suite. -/
def run (fs : Files) (offline : Bool) (o : Options) : Log.Traced Outcome := do
  let root ← repositoryRoot fs o.dataRoot
  let repo ← repository fs offline root o
  Log.Traced.report repo.events
  let paths ← discover fs root o.dataRoot o.exclude
  let index ← indexFor fs o.resolution o.refDirs
  let setting : Setting := ⟨fs, offline, root, o, repo.effective, index⟩
  let files ← setting.results (paths.map (Plan.ofPath o repo.effective))
  let outcome : Outcome := ⟨root, o, repo, files⟩
  Log.Traced.report [summaryEvent root outcome.summary]
  return outcome

/-- Runs a suite under a name, by which all that it reports can be found. -/
def runAs (name : Text) (fs : Files) (offline : Bool) (o : Options) : Log.Traced Outcome :=
  let x := run fs offline o
  { x with events := x.events.map fun e => (e.under "goneat.suite").within [("run_id", name)] }

end Conform.Suite

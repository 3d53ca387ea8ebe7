import Conform.CommandLine.Host
import Conform.Glob.Listing
import Conform.Schema.Conformance
import Conform.Schema.Index
import Conform.Signatures.Detector
import Conform.Signatures.Overlay

/-!
The commands that look at schemas: they check schemas against their dialects, list those that come
with the library, and tell what kind of document a file holds.
-/
namespace Conform.CommandLine

open Signatures (Detector Match Scope)

/-- What was found out about the schema in a file. -/
structure SchemaCheck where
  file : Text
  /-- The kind of schema, if it is known. -/
  kind : Option Text := none
  valid : Bool
  errors : List Text := []

namespace SchemaCheck

def failed (file reason : Text) (kind : Option Text := none) : SchemaCheck :=
  { file, kind, valid := false, errors := [reason] }

def toDocument (s : SchemaCheck) : Document :=
  .object (Members.one "file" (.text s.file)
    ++ Members.ofOption "schema_id" (s.kind.map Document.text)
    ++ Members.one "valid" (.bool s.valid)
    ++ Members.ofItems "errors" (s.errors.map Document.text))

/-- The lines on a file. -/
def lines (screen : Screen) (s : SchemaCheck) : Text :=
  let label := match s.kind with
    | some k => if k.isEmpty then s.file else s.file ++ " (" ++ k ++ ")"
    | none => s.file
  if s.valid then screen.ok label else screen.fail label ++ Screen.items s.errors

/-- Checks a schema of a known kind. -/
def ofContent (file kind : Text) (bs : Bytes) : Except Failure SchemaCheck :=
  match Schema.Dialect.checkSchema kind bs with
  | .ok errors => .ok { file, kind := some kind, valid := errors.isEmpty, errors }
  | .error f => if f.isDomain then .ok (failed file f.message (some kind)) else .error f

/-- How the kind of schema in a file is found out. -/
inductive Kind where
  | known (id : Text)
  | detected (d : Detector)

/-- Checks the schema in a file. -/
def ofFile (fs : Files) (kind : Kind) (raw : Text) : Except Failure SchemaCheck :=
  match Path.clean raw with
  | .error f => .ok (failed raw ("invalid path: " ++ f.message))
  | .ok path =>
    match fs.read path with
    | .error f =>
      if f.isAccess then .ok (failed path ("failed to read schema: " ++ f.message)) else .error f
    | .ok bs =>
      match kind with
      | .known id => ofContent path id bs
      | .detected d =>
        match d.detect {} path bs.textLossy with
        | some m => ofContent path m.signature.id bs
        | none => .ok (failed path "unable to detect schema signature")

end SchemaCheck

namespace Call

/-- The signatures in effect. -/
def signatures (c : Call) : Log.Traced Signatures.Manifest := do
  Log.Traced.report (Signatures.Manifest.userEvents c.files c.settings.home)
  Signatures.Manifest.effective Assets.provider c.files c.settings.home

/-- The files that an operand stands for. -/
def schemaFiles (c : Call) (raw : Text) : Except Failure (List Text) :=
  if Glob.hasWildcard raw then
    let found := Glob.pathsFor c.files raw
    if found.isEmpty then .error (.usage ("glob pattern matched no files: " ++ raw)) else .ok found
  else if c.files.isDirectory raw then
    if !c.given.isSet "--recursive" then
      .error (.usage (raw ++ " is a directory (use --recursive)"))
    else
      let found := (c.files.walk raw).filter Schema.Index.isSchemaFile
      if found.isEmpty then .error (.usage ("no schema files found under " ++ raw)) else .ok found
  else .ok [raw]

/-- How the kinds of the schemas are found out. -/
def schemaKind (c : Call) (m : Signatures.Manifest) : Except Failure SchemaCheck.Kind := do
  let requested := (c.given.text "--schema-id").strip
  if requested.isEmpty then return .detected (← Detector.ofManifest m)
  match m.find? requested with
  | some s => if s.id.isEmpty then return .detected (← Detector.ofManifest m) else return .known s.id
  | none => throw (.usage ("schema-id " ++ requested ++ " not found in signature manifest"))

/-- What is said about the schemas in files. -/
def showChecks (c : Call) (checks : List SchemaCheck) : Text :=
  if c.given.text "--format" == "json" then
    Json.render .pretty (.list (checks.map (·.toDocument))) ++ "\n"
  else checks.flatMap (·.lines c.screen)

/-- Checks the schemas in all files, in the order of their paths. -/
def checkAll (c : Call) (kind : SchemaCheck.Kind) : Except Failure (List SchemaCheck) := do
  let files ← c.given.operands.mapM c.schemaFiles
  (Text.sorted files.flatten).mapM (SchemaCheck.ofFile c.files kind)

/-- Checks schemas against their dialects. -/
def checkSchemas (c : Call) : Log.Traced Answer := do
  let kind ← c.schemaKind (← c.signatures)
  let checks ← c.checkAll kind
  let failures := checks.countP (!·.valid)
  return { passed := failures = 0, out := c.showChecks checks
           complaint := if failures = 0 then []
             else "error: " ++ Text.ofNat failures ++ " schema file(s) failed validation\n" }

/-- Lists the schemas that come with the library. -/
def listSchemas (c : Call) : Log.Traced Answer := do
  let infos ← Assets.listing
  if c.given.isSet "--json" then
    let schemas := infos.map fun (name, path, draft) =>
      Document.record [("name", .text name), ("path", .text path), ("draft", .text draft)]
    return { passed := true, out := ← jsonLine (.record [("schemas", .list schemas)]) }
  let rows := infos.map fun (name, path, draft) => [name, draft, path]
  return { passed := true, out := Screen.table ["NAME", "DRAFT", "PATH"] rows }

/-- What is said about the kinds of document that a file may hold. -/
def showMatches (c : Call) (path : Text) (found : List Match) : Except Failure Text :=
  if c.given.isSet "--json" then
    jsonLine (.record [("path", .text path),
      ("matches", .list (found.map (·.toValue.toDocument)))])
  else if found.isEmpty then .ok (c.screen.fail (path ++ ": no schema signature detected"))
  else .ok (Screen.table ["ID", "CATEGORY", "SCORE"] (found.map fun m =>
    [m.signature.id, m.signature.category, m.score.fixed 2]))

/-- Tells what kind of document a file holds. -/
def detect (c : Call) : Log.Traced Answer := do
  let path ← Host.cleanPath "path" (c.given.operands.headD [])
  let sample := (← c.host.read "file" path).textLossy
  let d ← Detector.ofManifest (← c.signatures)
  let found :=
    if c.given.isSet "--all" then d.detectAll {} path sample else (d.detect {} path sample).toList
  return { passed := !found.isEmpty, out := ← c.showMatches path found }

end Call
end Conform.CommandLine

import Conform.Schema.Report
import Conform.Suite.Options

/-!
What came out of a suite: a result for each file, their numbers, and whether the suite as a whole
has failed.
-/
namespace Conform.Suite

open Schema (Issue)

inductive Status where
  | pass
  | fail
  /-- The file does not conform, and ought not to. -/
  | expectedFail
  /-- The file conforms but ought not to. -/
  | unexpectedPass
  | skipped
  /-- No schema belongs to the file. -/
  | unmapped
deriving DecidableEq, Repr

/-- A schema as results name it. -/
structure SchemaRef where
  id : Text
  origin : Mapping.Origin
  path : Text := []

structure FileResult where
  path : Text
  status : Status
  valid : Bool
  schema : Option SchemaRef := none
  issues : List Issue := []
  /-- Why the file could not be validated. -/
  error : Text := []

structure Summary where
  total : Nat
  passed : Nat
  failed : Nat
  expectedFail : Nat
  unexpectedPass : Nat
  skipped : Nat
  unmapped : Nat
deriving DecidableEq, Repr

structure Outcome where
  root : Text
  options : Options
  repository : Mapping.Repository
  /-- The results in the order of their paths. -/
  files : List FileResult

namespace Status

def name : Status → Text
  | pass => "pass"
  | fail => "fail"
  | expectedFail => "expected_fail"
  | unexpectedPass => "unexpected_pass"
  | skipped => "skipped"
  | unmapped => "unmapped"

end Status

namespace SchemaRef

def toDocument (r : SchemaRef) : Document :=
  .object (Members.one "id" (.text r.id) ++ Members.one "source" (.text r.origin.name)
    ++ Members.ofText "path" r.path)

end SchemaRef

namespace FileResult

/-- A run is a function of what it is given, so no time passes in it. -/
def noTime : Members := Members.one "duration_seconds" (.int 0)

def toDocument (r : FileResult) : Document :=
  .object (Members.one "path" (.text r.path) ++ Members.one "status" (.text r.status.name)
    ++ Members.one "valid" (.bool r.valid)
    ++ Members.ofOption "schema" (r.schema.map SchemaRef.toDocument)
    ++ Members.ofItems "errors" (r.issues.map Issue.toDocument)
    ++ Members.ofText "error" r.error ++ noTime)

/-- The section on a file in a report. -/
def lines (r : FileResult) : List Text :=
  let head : List Text := [[], "## " ++ r.path ++ " (" ++ r.status.name ++ ")"]
  let schema : List Text := match r.schema with
    | some s => ["- Schema: " ++ s.id ++ " (" ++ s.origin.name ++ ")"]
    | none => []
  let error : List Text := if r.error.isEmpty then [] else ["- Error: " ++ r.error]
  let issues : List Text := r.issues.map fun i => "- " ++ i.path ++ ": " ++ i.message
  head ++ schema ++ error ++ issues

end FileResult

namespace Summary

/-- The numbers of results of each status. -/
def ofResults (rs : List FileResult) : Summary :=
  let count (s : Status) : Nat := rs.countP (·.status = s)
  ⟨rs.length, count .pass, count .fail, count .expectedFail, count .unexpectedPass, count .skipped,
    count .unmapped⟩

def validated (s : Summary) : Nat := s.passed + s.failed + s.expectedFail + s.unexpectedPass

def toDocument (s : Summary) : Document :=
  .record [("total", .int s.total), ("validated", .int s.validated), ("passed", .int s.passed),
    ("failed", .int s.failed), ("expected_fail", .int s.expectedFail),
    ("unexpected_pass", .int s.unexpectedPass), ("skipped", .int s.skipped),
    ("unmapped", .int s.unmapped)]

/-- Whether every file of the suite came out as it ought to. -/
def isClean (s : Summary) : Bool := s.failed == 0 && s.unexpectedPass == 0 && s.unmapped == 0

end Summary

namespace Outcome

def summary (o : Outcome) : Summary := .ofResults o.files

/-- Whether the suite has failed under its options. -/
def shouldFail (o : Outcome) : Bool :=
  let s := o.summary
  0 < s.failed || 0 < s.unexpectedPass || (o.options.failOnUnmapped && 0 < s.unmapped)
    || (o.options.strict && (0 < s.skipped || 0 < s.unmapped))

/-- The statuses that have a section of their own in a report. -/
def reported : List Status := [.fail, .unexpectedPass, .unmapped]

/-- A report to be read, a line for each number and a section for each file that came out wrong. -/
def markdown (o : Outcome) : Text :=
  let s := o.summary
  let line (label : Text) (n : Nat) : Text := "- " ++ label ++ ": " ++ Text.ofNat n
  let head : List Text := ["# Validation Suite Results", "", line "Total" s.total,
    line "Passed" s.passed, line "Failed" s.failed, line "Expected fail" s.expectedFail,
    line "Unexpected pass" s.unexpectedPass, line "Skipped" s.skipped,
    line "Unmapped" s.unmapped, ""]
  let rest : List Text :=
    if s.isClean then ["Suite passed"]
    else Text.ofString "Suite has failures"
      :: (o.files.filter fun r => reported.contains r.status).flatMap FileResult.lines
  Text.join "\n" (head ++ rest) ++ "\n"

def mappingDocument (r : Mapping.Repository) : List (String × Document) :=
  [("repository", match r.own with
      | some (_, m) => m.toDocument
      | none => .null),
    ("repository_path", match r.own with
      | some (path, _) => .text path
      | none => .text []),
    ("effective", r.effective.toDocument),
    ("diagnostics", .list (r.diagnostics.map Mapping.Diagnostic.toDocument))]

def toDocument (o : Outcome) : Document :=
  .record [("metadata", .object (Members.one "tool" (.text "goneat")
      ++ Members.one "repo_root" (.text o.root) ++ FileResult.noTime
      ++ o.options.toMembers.map fun m => (Text.ofString m.1, m.2))),
    ("mapping", .record (("builtin", Mapping.Manifest.builtin.toDocument)
      :: mappingDocument o.repository)),
    ("summary", o.summary.toDocument),
    ("files", .list (o.files.map FileResult.toDocument))]

end Outcome
end Conform.Suite

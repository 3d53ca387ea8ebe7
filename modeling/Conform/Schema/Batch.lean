import Conform.Glob.Segment
import Conform.Pool
import Conform.Schema.Guard

/-!
Validation of many files against one schema. A file that cannot be used is reported as an invalid
one, and the others are validated all the same. The reports stand under the cleaned paths.
-/
namespace Conform.Schema

/-- How a batch is to be run. -/
structure BatchOptions where
  pool : Pool
  timeout : Seconds
  guard : Guard

/-- What became of a batch. -/
structure Batch where
  total : Nat
  valid : Nat
  invalid : Nat
  /-- The reports by path. -/
  reports : List (Text × Report)

namespace BatchOptions

/-- Options with a positive number of workers and a positive timeout. -/
def ofLimits (workers : Int) (timeout : Seconds) (guard : Guard) : Except Failure BatchOptions := do
  let pool ← Pool.ofWorkers .concurrency workers
  timeout.checkPositive
  return ⟨pool, timeout, guard⟩

end BatchOptions

namespace Batch

def empty : Batch := ⟨0, 0, 0, []⟩

/-- Puts a report under a path, in place of one that was there. -/
def put (path : Text) (r : Report) : List (Text × Report) → List (Text × Report)
  | [] => [(path, r)]
  | (p, s) :: rest => if p == path then (p, r) :: rest else (p, s) :: put path r rest

/-- Counts a report and keeps it. -/
def record (b : Batch) (path : Text) (r : Report) : Batch :=
  { b with
    valid := if r.valid then b.valid + 1 else b.valid
    invalid := if r.valid then b.invalid else b.invalid + 1
    reports := put path r b.reports }

/-- The report on a file that could not be validated. -/
def failed (path message : Text) : Report :=
  ⟨[{ path, message, source := some { file := path, severity := "error" } }]⟩

/-- Why a schema or data could not be used, in words. -/
def setupError (f : Failure) : Text := "validation setup error: " ++ f.message

/-- Puts words before those of a file that cannot be used; other failures are passed on. -/
def explain {α : Type} (words : Text) (r : Except Failure α) :
    Except Failure (Except Text α) :=
  match r with
  | .ok a => .ok (.ok a)
  | .error f => if f.isAccess then .ok (.error (words ++ f.message)) else .error f

/-- The content of a file, or the words for why it is not looked at. -/
def content (g : Guard) (fs : Files) (path : Text) : Except Failure (Except Text Bytes) := do
  if !Path.isWithinAny fs.cwd path g.allowed then
    return .error "path not in allowed directories"
  match ← explain "failed to stat: " (fs.size path) with
  | .error why => return .error why
  | .ok size =>
    if g.maxSize < size then
      return .error ("file exceeds max size " ++ Text.ofNat g.maxSize ++ " bytes (actual: "
        ++ Text.ofNat size ++ ")")
    explain "failed to read file: " (fs.read path)

/-- The report on the content of a file. Failures of the library's own subject are reported, others
are passed on. -/
def reportOn (schema : Except Failure Compiled) (path : Text) (bs : Bytes) :
    Except Failure Report := do
  let r : Except Failure Report := do
    (← schema).validateBytes bs (some { file := path, type := "file" })
  match r with
  | .ok r => return r
  | .error f => if f.isDomain then return failed path (setupError f) else throw f

/-- The report on one file, with the path under which it is kept. -/
def validateOne (fs : Files) (g : Guard) (schema : Except Failure Compiled) (raw : Text) :
    Except Failure (Text × Report) := do
  match Path.clean raw with
  | .error f => return (raw, failed raw ("invalid path: " ++ f.message))
  | .ok path =>
    match ← content g fs path with
    | .error why => return (path, failed path why)
    | .ok bs => return (path, ← reportOn schema path bs)

/-- The batch made of the reports on all files. -/
def ofReports (rs : List (Text × Report)) : Batch :=
  rs.foldl (fun b r => b.record r.1 r.2) { empty with total := rs.length }

/-- The schema of a batch. What is wrong with it in the library's own terms is kept for the reports,
any other failure ends the batch. -/
def schemaOf (offline : Bool) (g : Guard) (bs : Bytes) :
    Except Failure (Except Failure Compiled) :=
  match Compiled.read offline g.enforceDialect bs with
  | .ok s => .ok (.ok s)
  | .error f => if f.isDomain then .ok (.error f) else .error f

/-- Validates files. A batch may have been called off before it began. -/
def run (fs : Files) (offline : Bool) (o : BatchOptions) (schema : Bytes) (paths : List Text)
    (cancelled : Bool := false) : Except Failure Batch := do
  let s ← schemaOf offline o.guard schema
  if o.timeout.isInstant && !paths.isEmpty then throw (.batchTimeout o.timeout.display)
  match o.pool.run cancelled (validateOne fs o.guard s) paths with
  | .ok rs => return ofReports rs
  | .error .cancelled => throw .cancelled
  | .error (.failed f) => throw f

/-- The files in and below a directory whose names match a pattern. -/
def filesIn (fs : Files) (dir pattern : Text) : List Text :=
  (fs.walk dir).filter fun p => Glob.matchName pattern (Path.name p)

/-- Whether something was validated and nothing is wrong. -/
def isValid (b : Batch) : Bool := 0 < b.valid && b.invalid == 0

def severity (b : Batch) : Text := if b.invalid == 0 then "pass" else "fail"

def summary (b : Batch) : Text :=
  "Total: " ++ Text.ofNat b.total ++ ", Valid: " ++ Text.ofNat b.valid ++ ", Invalid: "
    ++ Text.ofNat b.invalid

/-- The reports in the order of their paths. -/
def sorted (b : Batch) : List (Text × Report) := b.reports.mergeSort fun a b => a.1.le b.1

def toDocument (b : Batch) : Document :=
  .record [("valid", .bool b.isValid), ("total_files", .int b.total),
    ("valid_files", .int b.valid), ("invalid_files", .int b.invalid),
    ("overall_severity", .text b.severity), ("summary", .list [.text b.summary]),
    ("file_results", .object (b.sorted.map fun r => (r.1, r.2.toDocument)))]

end Batch
end Conform.Schema

import Conform.Document
import Conform.Failure
import Conform.Mapping.Repository
import Conform.Pool
import Conform.Text.Blank
import Conform.Text.Case

/-!
How a suite is to be run.
-/
namespace Conform.Suite

/-- Whether schemas may be found by their names in directories. -/
inductive Resolution where
  | preferId
  | idStrict
  | pathOnly
deriving DecidableEq, Repr

structure Options where
  dataRoot : Text
  manifest : Text
  refDirs : List Text
  /-- Patterns of files that are not validated. -/
  skip : List Text
  /-- Patterns of files that ought not to conform. -/
  expectFail : List Text
  /-- Patterns of files that do not belong to the suite. -/
  exclude : List Text
  /-- Whether files that are not validated are a failure. -/
  strict : Bool
  failOnUnmapped : Bool
  resolution : Resolution
  pool : Pool
  timeout : Seconds

namespace Resolution

def name : Resolution → Text
  | preferId => "prefer-id"
  | idStrict => "id-strict"
  | pathOnly => "path-only"

def all : List Resolution := [preferId, idStrict, pathOnly]

/-- Reads the name of a resolution, whatever its case. -/
def read (t : Text) : Except Failure Resolution :=
  match all.find? fun r => r.name == t.strip.lower with
  | some r => .ok r
  | none => .error (.suiteResolution t)

end Resolution

namespace Options

/-- Refuses a suite without data, without workers or without time. -/
def check (dataRoot : Text) (workers : Int) (timeout : Seconds) : Except Failure Pool := do
  if dataRoot.strip.isEmpty then throw .suiteDataMissing
  let pool ← (Pool.ofWorkers .workers workers).mapError fun _ => .suiteNotPositive .workers
  if !timeout.isPositive then throw (.suiteNotPositive .timeout)
  return pool

/-- The time that a suite may take unless another one is set. -/
def usualTimeout : Seconds := .fraction (.ofDecimal false 180 0)

def toMembers (o : Options) : List (String × Document) :=
  let list (ts : List Text) : Document := .list (ts.map .text)
  [("data_root", .text o.dataRoot), ("manifest_path", .text o.manifest),
    ("ref_dirs", list o.refDirs), ("skip", list o.skip), ("expect_fail", list o.expectFail),
    ("exclude", list o.exclude), ("strict", .bool o.strict),
    ("fail_on_unmapped", .bool o.failOnUnmapped),
    ("schema_resolution", .text o.resolution.name), ("max_workers", .int o.pool.workers)]

end Options
end Conform.Suite

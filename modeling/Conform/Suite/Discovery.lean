import Conform.FileTree
import Conform.Glob
import Conform.Text.Case

/-!
The files of a suite: which repository they are in, and which files below a directory hold data.
-/
namespace Conform.Suite

/-- The nearest directory at or above the first with an entry `.git`, or else `start`. Above the
root there is nothing; a path has no more directories above it than names. -/
def rootAbove (fs : Files) (start : Text) : Nat → Text → Text
  | 0, _ => start
  | fuel + 1, here =>
    if fs.exists_ (Path.join here ".git") then here
    else
      let up := Path.parent here
      if up == here then start else rootAbove fs start fuel up

/-- The repository that a directory is in, or the directory itself. -/
def repositoryRoot (fs : Files) (dataRoot : Text) : Except Failure Text := do
  let clean ← (Path.clean dataRoot).mapError fun _ => .suiteDataTraversal dataRoot
  let start := Path.absolute fs.cwd clean
  return rootAbove fs start (start.length + 1) start

/-- The endings of files with data. -/
def dataEndings : List Text := [".yaml", ".yml", ".json"]

def hasDataEnding (name : Text) : Bool := dataEndings.any fun e => Text.endsWith name.lower e

/-- The files with data in and below a directory, as seen from the repository, in the order of a
walk. -/
def discover (fs : Files) (root dataRoot : Text) (exclude : List Text) :
    Except Failure (List Text) := do
  let clean ← (Path.clean dataRoot).mapError fun _ => .suiteRootTraversal dataRoot
  let dir := Path.absolute fs.cwd clean
  if !fs.isDirectory dir then throw (.suiteRootMissing dir)
  let found := (fs.walk dir).filter fun p => hasDataEnding (Path.name p)
  return (found.map fun p => Path.normal (Path.relative fs.cwd p root)).filter fun p =>
    !Glob.acceptsAny exclude p

end Conform.Suite

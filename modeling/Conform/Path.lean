import Conform.Failure

/-!
Paths as texts with slashes. Paths are compared and normalised by their texts alone, without a look
at any file; what they name is decided from the directory in which they are read.
-/
namespace Conform.Path

def isAbsolute (p : Text) : Bool := p.startsWith "/"

/-- The slashes in front: none, one, or exactly two, which are kept apart from one. -/
def rootOf (p : Text) : Text :=
  if p.startsWith "//" && !p.startsWith "///" then "//" else if p.startsWith "/" then "/" else []

/-- The parts between slashes that name something; neither empty ones nor `.` do. -/
def names (p : Text) : List Text :=
  (Text.splitOn '/' p).filter fun s => !s.isEmpty && s != "."

/-- Takes back the name before each `..`. At the root there is nothing to take back. -/
def resolveUp (absolute : Bool) (ns : List Text) : List Text :=
  ns.foldl (fun (acc : List Text) (n : Text) =>
    if n != ".." then acc ++ [n]
    else match acc.getLast? with
      | some last => if last == ".." then acc ++ [n] else acc.dropLast
      | none => if absolute then acc else [n]) []

/-- A path from its root and names. -/
def ofNames (root : Text) (ns : List Text) : Text :=
  let p := root ++ Text.join "/" ns
  if p.isEmpty then "." else p

/-- The path without empty parts, `.`, and `..` as far as they can be taken back. -/
def normal (p : Text) : Text := ofNames (rootOf p) (resolveUp (isAbsolute p) (names p))

/-- The path without empty parts and `.` alone. -/
def tidy (p : Text) : Text := ofNames (rootOf p) (names p)

/-- The second path as seen from the first. -/
def join (a b : Text) : Text :=
  if isAbsolute b then b
  else if a.isEmpty || a.endsWith "/" then a ++ b
  else a ++ "/" ++ b

/-- The path from the root, when read in the directory `cwd`. -/
def absolute (cwd p : Text) : Text := normal (if isAbsolute p then p else join cwd p)

/-- How many names two lists share at the start. -/
def commonLength : List Text → List Text → Nat
  | a :: s, b :: t => if a == b then commonLength s t + 1 else 0
  | _, _ => 0

/-- The path that leads from the directory `start` to `p`. -/
def relative (cwd p start : Text) : Text :=
  let here := names (absolute cwd start)
  let there := names (absolute cwd p)
  let shared := commonLength here there
  ofNames [] (List.replicate (here.length - shared) (Text.ofString "..") ++ there.drop shared)

/-- What stands after the last slash. -/
def base (p : Text) : Text :=
  match Text.cutLast? '/' p with
  | some (_, name) => name
  | none => p

/-- What stands before the last slash, without slashes at its end. -/
def parent (p : Text) : Text :=
  match Text.cutLast? '/' p with
  | some (head, _) =>
    let head := head ++ "/"
    if head.all (·.char == '/') then head else Text.dropEndWhile (·.char == '/') head
  | none => []

/-- The last name of a path. -/
def name (p : Text) : Text := (names p).getLast?.getD []

/-- The ending of the last name, from its last dot on; a dot at the start or the end makes none. -/
def suffix (p : Text) : Text :=
  match Text.cutLast? '.' (name p) with
  | some (stem, ending) => if stem.isEmpty || ending.isEmpty then [] else "." ++ ending
  | none => []

/-- The ending of what stands after the last slash, from its last dot on; dots at the start make
none. -/
def extension (p : Text) : Text :=
  match Text.cutLast? '.' (base p) with
  | some (stem, ending) => if stem.all (·.char == '.') then [] else "." ++ ending
  | none => []

/-- A normalised path; two dots in a row anywhere are refused. -/
def clean (p : Text) : Except Failure Text :=
  let n := normal p
  if Text.contains ".." n then .error (.pathTraversal p) else .ok n

/-- Whether one path lies in another. A name that starts with two dots counts as outside. -/
def isWithin (cwd child parent : Text) : Bool := !(relative cwd child parent).startsWith ".."

def isWithinAny (cwd child : Text) (parents : List Text) : Bool :=
  parents.any (isWithin cwd child ·)

/-- The target from the root, if it lies in the given directory. -/
def ensureWithin (cwd root target : Text) : Except Failure Text :=
  let root := absolute cwd root
  let target := absolute cwd target
  if (target ++ "/").startsWith (Text.dropEndWhile (·.char == '/') root ++ "/") then
    .ok (tidy target)
  else .error (.escapesRoot target root)

end Conform.Path

import Conform.Path
import Conform.Text.Encoding

/-!
Trees of files. What a program may read is a value: a tree from the root down, and the directory
from which relative paths are read. There are no links, so every file has one place.
-/
namespace Conform

inductive FileTree where
  | file (content : Bytes)
  | directory (entries : List (Text × FileTree))
deriving Inhabited

namespace FileTree

def isDirectory : FileTree → Bool
  | directory _ => true
  | file _ => false

/-- What is in a directory; a file has nothing in it. -/
def entries : FileTree → List (Text × FileTree)
  | directory es => es
  | file _ => []

/-- The longest name a file may have, in bytes. -/
def maxName : Nat := 255

/-- The longest path that is looked up, in bytes. -/
def maxPath : Nat := 4095

/-- Goes down along the parts of a path. `above` are the directories passed, the nearest first. -/
def locate : List Text → List FileTree → FileTree → Except AccessFault FileTree
  | [], _, t => .ok t
  | part :: rest, above, t =>
    match t with
    | file _ => .error .notDirectory
    | directory es =>
      if part.isEmpty || part == "." then locate rest above t
      else if part == ".." then
        match above with
        | [] => locate rest [] t
        | up :: above => locate rest above up
      else match es.lookup part with
        | some inner => locate rest (t :: above) inner
        | none => .error (if maxName < part.utf8.length then .nameTooLong else .missing)

/-- Puts a tree at the end of a list of names, making the directories on the way. -/
def insert (t new : FileTree) : List Text → FileTree
  | [] => new
  | name :: rest =>
    let es := t.entries
    let inner := insert ((es.lookup name).getD (directory [])) new rest
    directory (es.filter (·.1 != name) ++ [(name, inner)])

/-- Makes a directory at the end of a list of names, if there is none. -/
def makeDirectory (t : FileTree) : List Text → FileTree
  | [] => t
  | name :: rest =>
    let es := t.entries
    let inner := makeDirectory ((es.lookup name).getD (directory [])) rest
    directory (es.filter (·.1 != name) ++ [(name, inner)])

/-- Removes what is at the end of a list of names. -/
def remove (t : FileTree) : List Text → FileTree
  | [] => t
  | [name] => directory (t.entries.filter (·.1 != name))
  | name :: rest =>
    directory (t.entries.map fun e => if e.1 == name then (e.1, remove e.2 rest) else e)

mutual

/-- The files of a directory in the order of their names, then those of its subdirectories in the
order of theirs. The path of the directory is given. -/
def walk (path : Text) : FileTree → List Text
  | file _ => []
  | directory es =>
    let files := es.filter fun e => !e.2.isDirectory
    (Text.sorted (files.map (·.1))).map (Path.join path)
      ++ ((walkInside path es).mergeSort fun a b => Text.le a.1 b.1).flatMap (·.2)

/-- The files of each subdirectory, with its name. -/
def walkInside (path : Text) : List (Text × FileTree) → List (Text × List Text)
  | [] => []
  | (name, t) :: rest =>
    (name, walk (Path.join path name) t) :: walkInside path rest

end

end FileTree

/-- A tree from the root down, and the directory from which relative paths are read. -/
structure Files where
  root : FileTree
  cwd : Text
deriving Inhabited

namespace Files

/-- What a path names. -/
def look (fs : Files) (path : Text) : Except Failure FileTree :=
  if path.any (·.val == 0) then .error .nulInPath
  else if path.isEmpty then .error (.access .missing path)
  else if FileTree.maxPath < path.utf8.length then .error (.access .nameTooLong path)
  else
    let whole := if Path.isAbsolute path then path else fs.cwd ++ "/" ++ path
    (FileTree.locate (Text.splitOn '/' whole) [] fs.root).mapError (.access · path)

def read (fs : Files) (path : Text) : Except Failure Bytes := do
  match ← fs.look path with
  | .file content => return content
  | .directory _ => throw (.access .isDirectory path)

/-- The number of bytes; for a directory some number that fits every limit. -/
def size (fs : Files) (path : Text) : Except Failure Nat := do
  match ← fs.look path with
  | .file content => return content.length
  | .directory _ => return 4096

def exists_ (fs : Files) (path : Text) : Bool := (fs.look path).isOk

def isDirectory (fs : Files) (path : Text) : Bool :=
  match fs.look path with
  | .ok t => t.isDirectory
  | .error _ => false

def isFile (fs : Files) (path : Text) : Bool :=
  match fs.look path with
  | .ok t => !t.isDirectory
  | .error _ => false

/-- The names in a directory. -/
def list (fs : Files) (path : Text) : Except Failure (List Text) := do
  match ← fs.look path with
  | .directory es => return es.map (·.1)
  | .file _ => throw (.access .notDirectory path)

/-- The files in and below a directory; where there is no directory there are none. -/
def walk (fs : Files) (path : Text) : List Text :=
  match fs.look path with
  | .ok t => (t.walk path).map Path.tidy
  | .error _ => []

/-- The names from the root to what a path names. -/
def place (fs : Files) (path : Text) : List Text := Path.names (Path.absolute fs.cwd path)

def write (fs : Files) (path : Text) (content : Bytes) : Files :=
  { fs with root := fs.root.insert (.file content) (fs.place path) }

def makeDirectory (fs : Files) (path : Text) : Files :=
  { fs with root := fs.root.makeDirectory (fs.place path) }

def delete (fs : Files) (path : Text) : Files :=
  { fs with root := fs.root.remove (fs.place path) }

end Files
end Conform

import Conform.FileTree
import Conform.Glob.Segment

/-!
The files that a pattern names. Stars, question marks and brackets stand for parts of one name
each, and names that begin with a dot are found only by patterns that do.
-/
namespace Conform.Glob

/-- Whether a text has a character that stands for others. -/
def hasWildcard (t : Text) : Bool :=
  t.any fun p => p.char == '*' || p.char == '?' || p.char == '['

/-- The names in a directory that match a pattern; the empty path is the current directory. -/
def namesIn (fs : Files) (dirsOnly : Bool) (dir pattern : Text) : List Text :=
  let dir : Text := if dir.isEmpty then "." else dir
  let names := match fs.list dir with
    | .ok names => names
    | .error _ => []
  names.filter fun n =>
    (!dirsOnly || fs.isDirectory (Path.join dir n))
      && (pattern.startsWith "." || !n.startsWith ".") && matchName pattern n

/-- A name in a directory, if there is such a file. No name stands for the directory itself. -/
def nameIn (fs : Files) (dir name : Text) : List Text :=
  if name.isEmpty then (if fs.isDirectory dir then [name] else [])
  else if fs.exists_ (Path.join dir name) then [name] else []

/-- What a pattern names, part by part from the front. Each step is about a shorter path. -/
def listing (fs : Files) : Nat → Bool → Text → List Text
  | 0, _, _ => []
  | fuel + 1, dirsOnly, path =>
    let dir := Path.parent path
    let name := Path.base path
    if dir.isEmpty then namesIn fs dirsOnly [] name
    else
      let dirs := if dir != path && hasWildcard dir then listing fs fuel true dir else [dir]
      dirs.flatMap fun d =>
        (if hasWildcard name then namesIn fs dirsOnly d name else nameIn fs d name).map
          (Path.join d)

/-- The paths that a pattern names. -/
def pathsFor (fs : Files) (pattern : Text) : List Text :=
  listing fs (pattern.length + 1) false pattern

end Conform.Glob

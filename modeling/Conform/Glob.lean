import Conform.Glob.Segment
import Conform.Text.Blank

/-!
Patterns for paths. A segment of two stars stands for any number of whole segments; in all others
stars, question marks and brackets stay within one segment. Braces hold alternatives, which are
written out before anything is matched.
-/
namespace Conform.Glob

/-- What braces hold, split at the commas that are not in further braces, and what follows the
closing one; none if it is missing. The text starts after the opening brace. -/
def alternatives? : Nat → Text → Text → Option (List Text × Text)
  | _, _, [] => none
  | depth, acc, p :: rest =>
    let c := p.char
    if c == '\x7b' then alternatives? (depth + 1) (p :: acc) rest
    else if c == '\x7d' then
      match depth with
      | 0 => some ([acc.reverse], rest)
      | depth + 1 => alternatives? depth (p :: acc) rest
    else if c == ',' && depth == 0 then
      (alternatives? 0 [] rest).map fun (more, after) => (acc.reverse :: more, after)
    else alternatives? depth (p :: acc) rest

/-- Writes out the alternatives in braces, those of the first braces outermost. Braces without a
partner stand for themselves, and so do all after them. -/
def expand : Nat → Text → List Text
  | 0, t => [t]
  | fuel + 1, t =>
    match Text.cut? '\x7b' t with
    | none => [t]
    | some (before, inside) =>
      match alternatives? 0 [] inside with
      | none => [t]
      | some (options, after) => options.flatMap fun o => expand fuel (before ++ o ++ after)

/-- The patterns that a pattern with braces stands for. Each writing out removes a pair of braces,
so their number bounds the work. -/
def expandBraces (t : Text) : List Text := expand (t.countP (·.char == '\x7b')) t

/-- A pattern for one segment. A caret after the opening bracket negates as an exclamation mark
does. -/
def segmentPattern (t : Text) : Text := Text.replacePair '[' '^' "[!" t

/-- Whether some end of a list passes a test. -/
def someTail (test : List Text → Bool) : List Text → Bool
  | [] => test []
  | s :: rest => test (s :: rest) || someTail test rest

/-- Whether the segments of a path match those of a pattern. -/
def matchSegments : List Text → List Text → Bool
  | [], path => path.isEmpty
  | s :: pattern, path =>
    if s == "**" then pattern.isEmpty || someTail (matchSegments pattern) path
    else match path with
      | [] => false
      | name :: rest => matchName s name && matchSegments pattern rest

/-- Segments of two stars next to each other are one. -/
def joinStars : List Text → List Text
  | s :: t :: rest =>
    if s == "**" && t == "**" then joinStars (t :: rest) else s :: joinStars (t :: rest)
  | ss => ss

/-- Whether a path matches a pattern. -/
def accepts (pattern path : Text) : Bool :=
  !pattern.isEmpty && (expandBraces pattern).any fun p =>
    matchSegments (joinStars ((Text.splitOn '/' p).map segmentPattern)) (Text.splitOn '/' path)

/-- A path with slashes only, without a `./` at the start. -/
def normalPath (p : Text) : Text :=
  let p := Text.replaceChar '\\' '/' p
  (p.dropStart? "./").getD p

/-- Whether a pattern has a character with a meaning of its own. -/
def isPattern (t : Text) : Bool :=
  t.any fun p => p.char == '*' || p.char == '?' || p.char == '[' || p.char == '\x7b'

/-- Whether a path matches one of several patterns, each without blanks around it. -/
def acceptsAny (patterns : List Text) (path : Text) : Bool :=
  patterns.any fun raw => accepts (normalPath raw.strip) (normalPath path)

end Conform.Glob

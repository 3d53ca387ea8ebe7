import Conform.Document
import Conform.Text.Numeral

/-!
Writing of documents as JSON text. The canonical form has its members sorted by name and no gaps,
so equal documents have one text.
-/
namespace Conform.Json

/-- How a document is laid out. -/
structure Style where
  /-- Members in the order of their names, not of the document. -/
  sorted : Bool
  /-- Each item on a line of its own, indented by two spaces for each level. -/
  lines : Bool
  /-- Only ASCII characters, with escapes for all others. -/
  ascii : Bool

namespace Style

def canonical : Style := ⟨true, false, false⟩

def pretty : Style := ⟨false, true, false⟩

def wire : Style := ⟨true, false, true⟩

end Style

def unit16 (n : Nat) : Text := "\\u" ++ Text.hexDigits 4 n

def escapePoint (ascii : Bool) (p : Point) : Text :=
  let c := p.char
  if c == '"' then "\\\""
  else if c == '\\' then "\\\\"
  else if c == '\n' then "\\n"
  else if c == '\r' then "\\r"
  else if c == '\t' then "\\t"
  else if c == '\x0c' then "\\f"
  else if c == '\x08' then "\\b"
  else if p.val < 0x20 then unit16 p.val
  else if !ascii || p.isAscii then
    if ascii && p.val == 0x7F then unit16 p.val else [p]
  else if p.val < 0x10000 then unit16 p.val
  else
    let n := p.val - 0x10000
    unit16 (0xD800 + n / 0x400) ++ unit16 (0xDC00 + n % 0x400)

def string (ascii : Bool) (t : Text) : Text := "\"" ++ t.flatMap (escapePoint ascii) ++ "\""

def float (x : Double) : Text :=
  match x with
  | .nan => "NaN"
  | .infinite s => if s then "-Infinity" else "Infinity"
  | x => x.display

/-- The members in the order in which they are written. -/
def arranged (sorted : Bool) (ms : List (Text × Text)) : List (Text × Text) :=
  if sorted then ms.mergeSort fun a b => Text.le a.1 b.1 else ms

/-- A line break and the indentation of a level. -/
def newline (s : Style) (level : Nat) : Text :=
  if s.lines then "\n" ++ Text.repeatChar (2 * level) ' ' else []

/-- Brackets around parts at the given level. -/
def wrap (s : Style) (level : Nat) (opening closing : Char) (parts : List Text) : Text :=
  if parts.isEmpty then Text.ofChars [opening, closing]
  else
    [Point.ofChar opening] ++ newline s (level + 1)
      ++ Text.join ("," ++ newline s (level + 1)) parts ++ newline s level ++ [Point.ofChar closing]

mutual

def print (s : Style) (level : Nat) : Document → Text
  | .null => "null"
  | .bool b => if b then "true" else "false"
  | .int n => Text.ofInt n
  | .float x => float x
  | .text t => string s.ascii t
  | .moment m => string s.ascii m.display
  | .list items => wrap s level '[' ']' (printItems s (level + 1) items)
  | .object ms =>
    wrap s level '\x7b' '\x7d'
      ((arranged s.sorted (printMembers s (level + 1) ms)).map fun (k, v) =>
        string s.ascii k ++ (if s.lines then ": " else ":") ++ v)

def printItems (s : Style) (level : Nat) : List Document → List Text
  | [] => []
  | d :: rest => print s level d :: printItems s level rest

def printMembers (s : Style) (level : Nat) : List (Text × Document) → List (Text × Text)
  | [] => []
  | (k, d) :: rest => (k, print s level d) :: printMembers s level rest

end

def render (s : Style) (d : Document) : Text := print s 0 d

/-- What JSON cannot write. -/
inductive Obstacle where
  | moment
  /-- A whole number with more digits than are ever written. -/
  | longNumber
deriving DecidableEq, Repr

mutual

/-- The first part of a document, in the order of the canonical form, that JSON cannot write. -/
def obstacle? : Document → Option Obstacle
  | .moment _ => some .moment
  | .int n => if Text.maxDigits < (Text.ofNat n.natAbs).length then some .longNumber else none
  | .list items => itemObstacle? items
  | .object ms =>
    ((memberObstacles ms).mergeSort fun a b => Text.le a.1 b.1).findSome? (·.2)
  | _ => none

def itemObstacle? : List Document → Option Obstacle
  | [] => none
  | d :: rest => (obstacle? d).or (itemObstacle? rest)

def memberObstacles : List (Text × Document) → List (Text × Option Obstacle)
  | [] => []
  | (k, d) :: rest => (k, obstacle? d) :: memberObstacles rest

end

end Conform.Json

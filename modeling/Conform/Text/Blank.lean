import Conform.Text

/-!
Sets of code points, blank characters among them, and what depends on these: stripping both ends of a
text.
-/
namespace Conform

/-- Ascending boundaries: the first starts a run of members, the second ends it, and so on. -/
abbrev PointSet := List Nat

namespace PointSet

/-- A point is a member if an odd number of boundaries is at most the point. -/
def has (bounds : PointSet) (n : Nat) : Bool := go bounds false
where
  go : List Nat → Bool → Bool
    | [], inside => inside
    | b :: rest, inside => if n < b then inside else go rest (!inside)

/-- The boundary that started the run of members `n` lies in. -/
def startOf (bounds : PointSet) (n : Nat) : Nat := go bounds 0
where
  go : List Nat → Nat → Nat
    | [], start => start
    | b :: rest, start => if n < b then start else go rest b

end PointSet

/-- The white space of all scripts. -/
def blankPoints : PointSet := [
  9, 14, 28, 33, 133, 134, 160, 161, 5760, 5761, 8192, 8203, 8232, 8234, 8239, 8240, 8287, 8288,
  12288, 12289]

namespace Point

def isBlank (p : Point) : Bool := blankPoints.has p.val

end Point

namespace Text

/-- The text without the blanks at its two ends. -/
def strip (t : Text) : Text := dropEndWhile Point.isBlank (t.dropWhile Point.isBlank)

/-- The text without the blanks at its end. -/
def stripEnd (t : Text) : Text := dropEndWhile Point.isBlank t

def isBlank (t : Text) : Bool := t.all Point.isBlank

end Text

end Conform

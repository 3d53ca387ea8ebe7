import Conform.Text.Case
import Conform.Text.Blank
import Conform.Text.Letter

/-!
Regular expressions with captures, assertions, lazy and possessive repetition, and flags that hold
for a part of the expression.
-/
namespace Conform

/-- Flags that say how a part of an expression matches. -/
structure Pattern.Flags where
  ignoreCase : Bool := false
  multiline : Bool := false
  dotAll : Bool := false
  verbose : Bool := false
  ascii : Bool := false
  /-- Forbids repetition altogether. -/
  template : Bool := false
deriving DecidableEq, Repr

/-- Classes of characters with names of their own. -/
inductive Pattern.Category where
  | digit
  | space
  | word
deriving DecidableEq, Repr

/-- A member of a character set. -/
inductive Pattern.SetItem where
  | point (p : Point)
  | range (low high : Point)
  | category (c : Pattern.Category) (negated : Bool)
deriving DecidableEq, Repr

/-- Places that can be asked for without passing a character. -/
inductive Pattern.Place where
  | textStart
  | textEnd
  | lineStart
  | lineEnd
  | boundary
  | noBoundary
deriving DecidableEq, Repr

inductive Pattern.Greed where
  | greedy
  | lazy
  | possessive
deriving DecidableEq, Repr

inductive Pattern where
  | point (p : Point)
  | any
  | set (negated : Bool) (items : List Pattern.SetItem)
  | place (p : Pattern.Place)
  | sequence (parts : List Pattern)
  | choice (branches : List Pattern)
  /-- Between `least` and `most` times, without a limit if `most` is none. -/
  | repetition (greed : Pattern.Greed) (least : Nat) (most : Option Nat) (body : Pattern)
  | group (index : Nat) (body : Pattern)
  /-- The body under flags that are set and cleared. -/
  | flagged (on off : Pattern.Flags) (body : Pattern)
  | atomic (body : Pattern)
  | reference (index : Nat)
  | conditional (index : Nat) (yes no : Pattern)
  | ahead (negated : Bool) (body : Pattern)
  /-- What stands before, exactly `width` characters of it. -/
  | behind (negated : Bool) (width : Nat) (body : Pattern)
deriving Inhabited

namespace Pattern

/-- A whole expression: its pattern and the flags it starts under. -/
structure Compiled where
  pattern : Pattern
  flags : Flags

def Flags.union (a b : Flags) : Flags :=
  ⟨a.ignoreCase || b.ignoreCase, a.multiline || b.multiline, a.dotAll || b.dotAll,
    a.verbose || b.verbose, a.ascii || b.ascii, a.template || b.template⟩

def Flags.without (a b : Flags) : Flags :=
  ⟨a.ignoreCase && !b.ignoreCase, a.multiline && !b.multiline, a.dotAll && !b.dotAll,
    a.verbose && !b.verbose, a.ascii && !b.ascii, a.template && !b.template⟩

def Category.has (ascii : Bool) (c : Category) (p : Point) : Bool :=
  match c with
  | .digit => if ascii then p.isAscii && p.isDecimal else p.isDecimal
  | .space =>
    if ascii then p.val == 0x20 || (9 ≤ p.val && p.val ≤ 13) else p.isBlank
  | .word => if ascii then p.isAscii && p.isWord else p.isWord

/-- Lower-case points that match each other although they differ. -/
def caseKin : List (List Nat) :=
  [[0x69, 0x131], [0x73, 0x17F], [0xB5, 0x3BC], [0x345, 0x3B9, 0x1FBE], [0x390, 0x1FD3],
    [0x3B0, 0x1FE3], [0x3B2, 0x3D0], [0x3B5, 0x3F5], [0x3B8, 0x3D1], [0x3BA, 0x3F0],
    [0x3C0, 0x3D6], [0x3C1, 0x3F1], [0x3C2, 0x3C3], [0x3C6, 0x3D5], [0x432, 0x1C80],
    [0x434, 0x1C81], [0x43E, 0x1C82], [0x441, 0x1C83], [0x442, 0x1C84, 0x1C85], [0x44A, 0x1C86],
    [0x463, 0x1C87], [0x1C88, 0xA64B], [0x1E61, 0x1E9B], [0xFB05, 0xFB06]]

/-- A lower-case point and its kin. -/
def kinOf (n : Nat) : List Nat := ((caseKin.find? (·.contains n)).getD [n])

def lowerOf (ascii : Bool) (p : Point) : Point :=
  if ascii && !p.isAscii then p else p.lower

/-- The points whose lower case is `n`, other than itself. -/
def upperSources (n : Nat) : List Nat :=
  (if n == 0x69 then [0x130] else []) ++ lowerRuns.filterMap fun r =>
    let s := ((n : Int) - r.shift).toNat
    if r.covers s then some s else none

/-- Whether the point has another case. -/
def isCased (ascii : Bool) (p : Point) : Bool :=
  if ascii then p.isAscii && p.char.isAlpha else p.lower != p || p.upper.head? != some p

/-- Whether two points match when case is ignored; the first is from the expression. -/
def sameCase (ascii : Bool) (a b : Point) : Bool :=
  a == b || (isCased ascii a &&
    (let la := lowerOf ascii a
     let lb := lowerOf ascii b
     la == lb || (!ascii && (kinOf la.val).contains lb.val)))

/-- The points whose lower case is `n` or kin of it. -/
def caseSources (ascii : Bool) (n : Nat) : List Nat :=
  if ascii then n :: (if 0x61 ≤ n && n ≤ 0x7A then [n - 32] else [])
  else (kinOf n).flatMap fun t => t :: upperSources t

def SetItem.has (ascii : Bool) (item : SetItem) (p : Point) : Bool :=
  match item with
  | .point q => p == q
  | .range lo hi => lo.val ≤ p.val && p.val ≤ hi.val
  | .category c negated => c.has ascii p != negated

/-- Whether a set has the point. Ignoring case, the lower case of the point is looked up among the
lower cases of the members. -/
def setHas (flags : Flags) (items : List SetItem) (p : Point) : Bool :=
  if flags.ignoreCase then
    let low := lowerOf flags.ascii p
    let sources := caseSources flags.ascii low.val
    items.any fun item => match item with
      | .category c negated => c.has flags.ascii low != negated
      | .point q => sources.contains q.val
      | .range lo hi => sources.any fun s => lo.val ≤ s && s ≤ hi.val
  else items.any (·.has flags.ascii p)

end Pattern
end Conform

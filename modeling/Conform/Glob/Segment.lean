import Conform.Text

/-!
Patterns for a single name: a star stands for any run of characters, a question mark for one
character, and brackets for one character of a set. Everything else stands for itself.
-/
namespace Conform.Glob

inductive Part where
  /-- Any run of characters. -/
  | run
  /-- Any one character. -/
  | one
  /-- No character at all: a set without members. -/
  | never
  | literal (p : Point)
  /-- One character inside, or outside, of some ranges. -/
  | set (negated : Bool) (ranges : List (Point × Point))
deriving DecidableEq

/-- The first place of a character from `start` on. -/
def placeFrom? (c : Char) (start : Nat) (t : Text) : Option Nat :=
  ((t.drop start).findIdx? (·.char == c)).map (· + start)

/-- Cuts the inside of brackets at the hyphens that join the ends of ranges. The first such hyphen
stands at `start` or later, and two characters at least lie between two of them. A hyphen at the
end joins nothing. -/
def cutRanges : Nat → Nat → Text → List Text
  | 0, _, t => [t]
  | fuel + 1, start, t =>
    match placeFrom? '-' start t with
    | none => [t]
    | some k =>
      let rest := t.drop (k + 1)
      if rest.isEmpty then [t] else t.take k :: cutRanges fuel 2 rest

/-- Drops the ranges whose ends are in the wrong order, beginning with the last. -/
def dropEmpty : List Text → List Text
  | [] => []
  | c :: rest =>
    match dropEmpty rest with
    | [] => [c]
    | d :: more =>
      match c.getLast?, d.head? with
      | some a, some b => if b < a then (c.dropLast ++ d.drop 1) :: more else c :: d :: more
      | _, _ => c :: d :: more

/-- The members of a set from its pieces: the last character of a piece and the first of the next
are the ends of a range, the others are members by themselves. -/
def rangesOf : List Text → List (Point × Point)
  | [] => []
  | [c] => c.map fun p => (p, p)
  | c :: d :: rest =>
    let ends := match c.getLast?, d.head? with
      | some a, some b => [(a, b)]
      | _, _ => []
    c.dropLast.map (fun p => (p, p)) ++ ends ++ rangesOf (d.drop 1 :: rest)
termination_by cs => cs.length

/-- What the inside of brackets stands for. An exclamation mark at its start negates, also one that comes
to stand there because all ranges before it are empty. -/
def setOf (inside : Text) : Part :=
  let pieces := dropEmpty (cutRanges inside.length (if inside.startsWith "!" then 2 else 1) inside)
  match pieces with
  | [] | [[]] => .never
  | first :: rest =>
    if !Text.startsWith first "!" then .set false (rangesOf pieces)
    else match first.drop 1, rest with
      | [], [] => .one
      -- A hyphen right behind the mark joins nothing.
      | [], rest => .set true ((Point.ofChar '-', Point.ofChar '-') :: rangesOf rest)
      | first, rest => .set true (rangesOf (first :: rest))

/-- The inside of brackets and what follows them, from the text after the opening one. A closing
bracket that comes first is a member. -/
def bracketed? (t : Text) : Option (Text × Text) :=
  let skip := if t.startsWith "!" then 1 else 0
  let skip := if Text.startsWith (t.drop skip) "]" then skip + 1 else skip
  (placeFrom? ']' skip t).map fun k => (t.take k, t.drop (k + 1))

/-- The parts of a pattern. A bracket without its partner stands for itself. -/
def partsOf : Nat → Text → List Part
  | 0, _ => []
  | _, [] => []
  | fuel + 1, p :: rest =>
    if p.char == '*' then .run :: partsOf fuel rest
    else if p.char == '?' then .one :: partsOf fuel rest
    else if p.char == '[' then
      match bracketed? rest with
      | some (inside, after) => setOf inside :: partsOf fuel after
      | none => .literal p :: partsOf fuel rest
    else .literal p :: partsOf fuel rest

def Part.accepts (part : Part) (p : Point) : Bool :=
  match part with
  | .run | .one => true
  | .never => false
  | .literal q => p == q
  | .set negated ranges => ranges.any (fun r => r.1 ≤ p && p ≤ r.2) != negated

/-- Whether some end of the text passes a test, the whole first. -/
def someEnd (test : Text → Bool) : Text → Bool
  | [] => test []
  | p :: rest => test (p :: rest) || someEnd test rest

def matchParts : List Part → Text → Bool
  | [], t => t.isEmpty
  | .run :: parts, t => someEnd (matchParts parts) t
  | _ :: _, [] => false
  | part :: parts, p :: rest => part.accepts p && matchParts parts rest

/-- Runs next to each other are one. -/
def joinRuns : List Part → List Part
  | .run :: .run :: rest => joinRuns (.run :: rest)
  | part :: rest => part :: joinRuns rest
  | [] => []

/-- Whether a name matches a pattern. -/
def matchName (pattern name : Text) : Bool :=
  matchParts (joinRuns (partsOf pattern.length pattern)) name

end Conform.Glob

import Conform.Pattern

/-!
Matching of regular expressions by backtracking. A pattern is run with a continuation, which says
whether the rest of the expression can go on from where the pattern stopped; the first way in which
it can is taken.
-/
namespace Conform.Pattern

/-- How far a match has come, and where the groups matched, the latest first. -/
structure State where
  pos : Nat
  groups : List (Nat × Nat × Nat)

abbrev Subject := Array Point

/-- The rest of a match. -/
abbrev Rest := State → Option State

/-- One part of a match, to be followed by a rest. -/
abbrev Step := State → Rest → Option State

namespace State

def group? (s : State) (n : Nat) : Option (Nat × Nat) := s.groups.lookup n

end State

/-- The step taken `n` times. -/
def times (step : Step) : Nat → Step
  | 0, s, k => k s
  | n + 1, s, k => step s fun t => times step n t k

/-- The step taken as often as the rest allows, at most `most` times. `last` is where the step
before began: a step that passed nothing is not taken again. -/
def greedyLoop (step : Step) : Nat → Option Nat → Option Nat → Step
  | 0, _, _, s, k => k s
  | fuel + 1, most, last, s, k =>
    if most == some 0 || last == some s.pos then k s
    else match step s fun t => greedyLoop step fuel (most.map (· - 1)) (some s.pos) t k with
      | some r => some r
      | none => k s

/-- The step taken as few times as the rest allows. -/
def lazyLoop (step : Step) : Nat → Option Nat → Option Nat → Step
  | 0, _, _, s, k => k s
  | fuel + 1, most, last, s, k =>
    match k s with
    | some r => some r
    | none =>
      if most == some 0 || last == some s.pos then none
      else step s fun t => lazyLoop step fuel (most.map (· - 1)) (some s.pos) t k

/-- The step taken as often as it can be, each time in the first way. -/
def possessiveLoop (step : Step) : Nat → Option Nat → Option Nat → State → State
  | 0, _, _, s => s
  | fuel + 1, most, last, s =>
    if most == some 0 || last == some s.pos then s
    else match step s some with
      | some t => possessiveLoop step fuel (most.map (· - 1)) (some s.pos) t
      | none => s

def possessiveTimes (step : Step) : Nat → State → Option State
  | 0, s => some s
  | n + 1, s => match step s some with
    | some t => possessiveTimes step n t
    | none => none

/-- Whether a pattern that passes just one character passes this one; none for other patterns. -/
def unit? (flags : Flags) : Pattern → Option (Point → Bool)
  | .point p => some fun q =>
    if flags.ignoreCase then sameCase flags.ascii p q else p == q
  | .any => some fun q => flags.dotAll || q.char != '\n'
  | .set negated items => some fun q => setHas flags items q != negated
  | _ => none

/-- How many characters from `pos` on pass, up to `most`. -/
def countUnits (subject : Subject) (ok : Point → Bool) : Nat → Nat → Nat
  | 0, _ => 0
  | most + 1, pos =>
    match subject[pos]? with
    | some p => if ok p then countUnits subject ok most (pos + 1) + 1 else 0
    | none => 0

/-- Tries the rest after `least + n` characters, then after fewer. -/
def fewer (least : Nat) (s : State) (k : Rest) : Nat → Option State
  | 0 => k { s with pos := s.pos + least }
  | n + 1 => match k { s with pos := s.pos + least + (n + 1) } with
    | some r => some r
    | none => fewer least s k n

/-- Tries the rest after `done` characters, then after one more, `n` times. -/
def more (s : State) (k : Rest) : Nat → Nat → Option State
  | 0, done => k { s with pos := s.pos + done }
  | n + 1, done => match k { s with pos := s.pos + done } with
    | some r => some r
    | none => more s k n (done + 1)

def repeatUnit (subject : Subject) (ok : Point → Bool) (greed : Greed) (least : Nat)
    (most : Option Nat) (s : State) (k : Rest) : Option State :=
  let left := subject.size - s.pos
  let n := countUnits subject ok (match most with | some m => min m left | none => left) s.pos
  if n < least then none
  else match greed with
    | .greedy => fewer least s k (n - least)
    | .lazy => more s k (n - least) least
    | .possessive => k { s with pos := s.pos + n }

def isLineFeed (subject : Subject) (i : Nat) : Bool :=
  match subject[i]? with
  | some p => p.char == '\n'
  | none => false

def wordAt (ascii : Bool) (subject : Subject) (i : Nat) : Bool :=
  match subject[i]? with
  | some p => Category.word.has ascii p
  | none => false

/-- Whether the place is here. -/
def atPlace (flags : Flags) (subject : Subject) (pos : Nat) : Place → Bool
  | .textStart => pos == 0
  | .textEnd => pos == subject.size
  | .lineStart => pos == 0 || (flags.multiline && isLineFeed subject (pos - 1))
  | .lineEnd =>
    pos == subject.size || (isLineFeed subject pos && (flags.multiline || pos + 1 == subject.size))
  | .boundary => onEdge
  | .noBoundary => subject.size != 0 && !onEdge
where
  onEdge : Bool :=
    (pos != 0 && wordAt flags.ascii subject (pos - 1)) != wordAt flags.ascii subject pos

/-- The place after a second copy of what stands between `a` and `b`, if one is at `pos`. -/
def copyAt (flags : Flags) (subject : Subject) (a b pos : Nat) : Option Nat :=
  let same (p q : Point) : Bool :=
    if flags.ignoreCase then lowerOf flags.ascii p == lowerOf flags.ascii q else p == q
  if subject.size < pos + (b - a) then none
  else if (List.range (b - a)).all fun i =>
      match subject[a + i]?, subject[pos + i]? with
      | some p, some q => same p q
      | _, _ => false
    then some (pos + (b - a)) else none

mutual

/-- Runs a pattern from a state. -/
def run (subject : Subject) (flags : Flags) : Pattern → Step
  | .point p, s, k => one subject (unit? flags (.point p)) s k
  | .any, s, k => one subject (unit? flags .any) s k
  | .set n items, s, k => one subject (unit? flags (.set n items)) s k
  | .place p, s, k => if atPlace flags subject s.pos p then k s else none
  | .sequence parts, s, k => runAll subject flags parts s k
  | .choice branches, s, k => runAny subject flags branches s k
  | .repetition greed least most body, s, k =>
    match unit? flags body with
    | some ok => repeatUnit subject ok greed least most s k
    | none =>
      let step : Step := fun s k => run subject flags body s k
      let fuel := subject.size + 2
      let left := most.map (· - least)
      match greed with
      | .greedy => times step least s fun t => greedyLoop step fuel left none t k
      | .lazy => times step least s fun t => lazyLoop step fuel left none t k
      | .possessive =>
        match possessiveTimes step least s with
        | some t => k (possessiveLoop step fuel left none t)
        | none => none
  | .group n body, s, k =>
    run subject flags body s fun t => k { t with groups := (n, s.pos, t.pos) :: t.groups }
  | .flagged on off body, s, k => run subject ((flags.union on).without off) body s k
  | .atomic body, s, k =>
    match run subject flags body s some with
    | some t => k t
    | none => none
  | .reference n, s, k =>
    match s.group? n with
    | some (a, b) =>
      match copyAt flags subject a b s.pos with
      | some pos => k { s with pos }
      | none => none
    | none => none
  | .conditional n yes no, s, k =>
    if (s.group? n).isSome then run subject flags yes s k else run subject flags no s k
  | .ahead negated body, s, k =>
    match run subject flags body s some with
    | some t => if negated then none else k { t with pos := s.pos }
    | none => if negated then k s else none
  | .behind negated width body, s, k =>
    let found :=
      if s.pos < width then none else run subject flags body { s with pos := s.pos - width } some
    match found with
    | some t => if negated then none else k { t with pos := s.pos }
    | none => if negated then k s else none

/-- Runs patterns one after the other. -/
def runAll (subject : Subject) (flags : Flags) : List Pattern → Step
  | [], s, k => k s
  | p :: rest, s, k => run subject flags p s fun t => runAll subject flags rest t k

/-- Runs the first of the patterns that lets the rest go on. -/
def runAny (subject : Subject) (flags : Flags) : List Pattern → Step
  | [], _, _ => none
  | p :: rest, s, k =>
    match run subject flags p s k with
    | some r => some r
    | none => runAny subject flags rest s k

/-- Passes one character. -/
def one (subject : Subject) (ok : Option (Point → Bool)) (s : State) (k : Rest) : Option State :=
  match ok, subject[s.pos]? with
  | some ok, some p => if ok p then k { s with pos := s.pos + 1 } else none
  | _, _ => none

end

/-- Whether the expression matches from one of the places `pos`, `pos + 1`, …, `n` of them. -/
def searchFrom (c : Compiled) (subject : Subject) : Nat → Nat → Bool
  | 0, _ => false
  | n + 1, pos =>
    (run subject c.flags c.pattern ⟨pos, []⟩ some).isSome || searchFrom c subject n (pos + 1)

namespace Compiled

/-- Whether the expression matches somewhere in the text. -/
def occursIn (c : Compiled) (t : Text) : Bool :=
  let subject := t.toArray
  searchFrom c subject (subject.size + 1) 0

/-- Whether the expression matches the whole text. -/
def matchesAll (c : Compiled) (t : Text) : Bool :=
  let subject := t.toArray
  (run subject c.flags c.pattern ⟨0, []⟩ fun s =>
    if s.pos == subject.size then some s else none).isSome

end Compiled
end Conform.Pattern

import Conform.Pattern
import Conform.Text.Numeral

/-!
Reading of regular expressions. An expression is refused if it is not well formed, if it refers to
a group that is not there or still open, or if what it looks behind for has no fixed width.
-/
namespace Conform.Pattern

/-- Why an expression is refused. -/
inductive Reason where
  | malformed
  /-- Flags that cannot be set or cleared together, or not there. -/
  | flags
  /-- Flags without a parenthesis, minus or colon after them. -/
  | flagsOpen
  /-- Cleared flags without a colon after them. -/
  | colonMissing
  /-- What is looked behind for has no fixed width. -/
  | variableWidth
  /-- A repetition count is beyond what can be counted. -/
  | tooLarge
deriving DecidableEq, Repr

/-- Why an expression is refused, and how much of it was still to be read. -/
structure Fault where
  reason : Reason
  left : Nat
deriving DecidableEq, Repr

namespace Reason

def words : Reason → Text
  | malformed => "malformed pattern"
  | flags => "bad inline flags: unsuitable flag"
  | flagsOpen => "missing -, : or )"
  | colonMissing => "missing :"
  | variableWidth => "look-behind requires fixed-width pattern"
  | tooLarge => "the repetition number is too large"

end Reason

namespace Fault

/-- The words for a fault of an expression, with the place where it was found. -/
def message (f : Fault) (expression : Text) : Text :=
  if f.reason = .variableWidth || f.reason = .tooLarge then f.reason.words
  else
    let before := expression.take (expression.length - f.left)
    let line := (before.countP (·.char == '\n')) + 1
    let column := (before.reverse.takeWhile (·.char != '\n')).length + 1
    f.reason.words ++ " at position " ++ Text.ofNat before.length
      ++ (if expression.any (·.char == '\n') then
          " (line " ++ Text.ofNat line ++ ", column " ++ Text.ofNat column ++ ")"
        else [])

end Fault

/-- The least and greatest number of characters a pattern passes. -/
abbrev Width := Nat × Nat

/-- A reading in progress. -/
structure Reading where
  rest : Text
  names : List (Text × Nat)
  /-- The width of each group, none while it is open. -/
  widths : List (Option Width)
  /-- How many groups there were when the outermost look behind began. -/
  behind : Option Nat
  flags : Flags
  /-- The groups that conditions ask for; they may be defined later. -/
  conditions : List Nat
  /-- Whether something of variable width is looked behind for. -/
  looksFar : Bool := false

abbrev Parse := StateT Reading (Except Fault)

namespace Parse

/-- Refuses the expression; `back` more characters were still to be read. -/
def refuse {α : Type} (reason : Reason) (back : Nat := 0) : Parse α := do
  throw ⟨reason, (← get).rest.length + back⟩

def fail {α : Type} : Parse α := refuse .malformed

/-- A character, or a backslash with the character after it. -/
structure Token where
  escaped : Bool
  point : Point
deriving DecidableEq

def Token.isChar (t : Token) (c : Char) : Bool := !t.escaped && t.point.char == c

def Token.text (t : Token) : Text :=
  if t.escaped then [Point.ofChar '\\', t.point] else [t.point]

def tokenOf : Text → Parse (Option (Token × Text))
  | [] => return none
  | p :: rest =>
    if p.char == '\\' then
      match rest with
      | [] => fail
      | q :: rest => return some (⟨true, q⟩, rest)
    else return some (⟨false, p⟩, rest)

def peek : Parse (Option Token) := do
  return (← tokenOf (← get).rest).map (·.1)

def next : Parse (Option Token) := do
  match ← tokenOf (← get).rest with
  | none => return none
  | some (t, rest) =>
    modify fun s => { s with rest }
    return some t

/-- The next token, which must be there. -/
def demand : Parse Token := do
  match ← next with
  | some t => return t
  | none => fail

def atChar (c : Char) : Parse Bool := do
  match ← peek with
  | some t => return t.isChar c
  | none => return false

def accept (c : Char) : Parse Bool := do
  if ← atChar c then
    discard next
    return true
  return false

def expect (c : Char) : Parse Unit := do
  if !(← accept c) then fail

/-- Up to `most` characters that satisfy `p`. -/
def takeWhile (p : Char → Bool) : Nat → Parse Text
  | 0 => return []
  | most + 1 => do
    match ← peek with
    | some t =>
      if !t.escaped && p t.point.char then
        discard next
        return t.point :: (← takeWhile p most)
      return []
    | none => return []

/-- The text up to the closing character, which must not be empty. -/
def name (closing : Char) : Parse Text := do
  let t ← go closing ((← get).rest.length + 1)
  if t.isEmpty then fail
  return t
where
  go (closing : Char) : Nat → Parse Text
    | 0 => fail
    | fuel + 1 => do
      let t ← demand
      if t.isChar closing then return []
      return t.text ++ (← go closing fuel)

def identifier (closing : Char) : Parse Text := do
  let n ← name closing
  if !n.isIdentifier then fail
  return n

def groupCount : Parse Nat := return (← get).widths.length

/-- Whether a group is there and closed. -/
def isClosed (n : Nat) : Parse Bool := return ((← get).widths[n]?.join).isSome

/-- Inside a look behind only groups that were closed before it can be asked for. -/
def checkBehind (n : Nat) : Parse Unit := do
  match (← get).behind with
  | none => return
  | some count =>
    if !(← isClosed n) then fail
    if count ≤ n then fail

def openGroup (name : Option Text) : Parse Nat := do
  let n ← groupCount
  modify fun s => { s with widths := s.widths ++ [none] }
  match name with
  | none => return n
  | some name =>
    if ((← get).names.lookup name).isSome then fail
    modify fun s => { s with names := (name, n) :: s.names }
    return n

def isHex (c : Char) : Bool :=
  c.isDigit || ('a' ≤ c && c ≤ 'f') || ('A' ≤ c && c ≤ 'F')

def isOctal (c : Char) : Bool := '0' ≤ c && c ≤ '7'

def numberIn (base : Nat) (t : Text) : Nat := ((t.int? base).getD 0).toNat

/-- A point given by exactly `width` hexadecimal digits. -/
def hexPoint (width : Nat) : Parse Point := do
  let ds ← takeWhile isHex width
  if ds.length != width then fail
  match Point.ofNat? (numberIn 16 ds) with
  | some p => return p
  | none => fail

def pointOf (n : Nat) : Parse Point := do
  match Point.ofNat? n with
  | some p => return p
  | none => fail

/-- The escapes that stand for control characters. -/
def controls : List (Char × Char) :=
  [('a', '\x07'), ('f', '\x0c'), ('n', '\n'), ('r', '\r'), ('t', '\t'), ('v', '\x0b')]

/-- The escapes for character classes, and whether the class is negated. -/
def categories : List (Char × Category × Bool) :=
  [('d', .digit, false), ('D', .digit, true), ('s', .space, false), ('S', .space, true),
    ('w', .word, false), ('W', .word, true)]

def places : List (Char × Place) :=
  [('A', .textStart), ('b', .boundary), ('B', .noBoundary), ('Z', .textEnd)]

def isLetter (c : Char) : Bool := ('a' ≤ c && c ≤ 'z') || ('A' ≤ c && c ≤ 'Z')

/-- An octal number that began with the given digits, with up to two more. -/
def octal (start : Text) : Parse Point := do
  let ds ← takeWhile isOctal 2
  let n := numberIn 8 ([Point.ofChar '0'] ++ start ++ ds)
  if 0xFF < n then fail
  pointOf n

/-- What an escape means that stands for one point in any context. -/
def pointEscape (p : Point) : Parse Point := do
  let c := p.char
  match controls.lookup c with
  | some r => return Point.ofChar r
  | none =>
    if c == 'x' then hexPoint 2
    else if c == 'u' then hexPoint 4
    else if c == 'U' then hexPoint 8
    else if isLetter c || c.isDigit then fail
    else return p

/-- An escape inside a character set. -/
def setEscape (p : Point) : Parse SetItem := do
  let c := p.char
  match categories.lookup c with
  | some (k, negated) => return .category k negated
  | none =>
    if c == 'b' then return .point (Point.ofChar '\x08')
    else if isOctal c then return .point (← octal [p])
    else return .point (← pointEscape p)

/-- A reference to a group by its number. -/
def reference (n : Nat) : Parse Pattern := do
  if !(← isClosed n) then fail
  checkBehind n
  return .reference n

/-- An escape outside character sets. -/
def escape (p : Point) : Parse Pattern := do
  let c := p.char
  match categories.lookup c, places.lookup c with
  | some (k, negated), _ => return .set false [.category k negated]
  | _, some here => return .place here
  | _, _ =>
    if c == '0' then
      let ds ← takeWhile isOctal 2
      return .point (← pointOf (numberIn 8 (p :: ds)))
    else if c.isDigit then
      let second ← takeWhile Char.isDigit 1
      if isOctal c && second.any (isOctal ·.char) then
        let third ← takeWhile isOctal 1
        if !third.isEmpty then
          let n := numberIn 8 (Point.ofChar '0' :: p :: second ++ third)
          if 0xFF < n then fail
          return .point (← pointOf n)
      reference (numberIn 10 (p :: second))
    else return .point (← pointEscape p)

/-- The members of a character set up to its closing bracket, which does not close an empty set. -/
def setItems : Nat → List SetItem → Parse (List SetItem)
  | 0, _ => fail
  | fuel + 1, acc => do
    let t ← demand
    if t.isChar ']' && !acc.isEmpty then return acc.reverse
    let first ← if t.escaped then setEscape t.point else pure (.point t.point)
    if ← accept '-' then
      let t ← demand
      if t.isChar ']' then return (.point (Point.ofChar '-') :: first :: acc).reverse
      let second ← if t.escaped then setEscape t.point else pure (.point t.point)
      match first, second with
      | .point lo, .point hi =>
        if hi.val < lo.val then fail
        setItems fuel (.range lo hi :: acc)
      | _, _ => fail
    else setItems fuel (first :: acc)

/-- The greatest count that stands for a count at all. -/
def countLimit : Nat := 4294967295

/-- The bounds in braces; nothing if what follows the brace is no repetition. -/
def bounds : Parse (Option (Nat × Option Nat)) := do
  let here := (← get).rest
  if ← atChar '\x7d' then return none
  let lo ← takeWhile Char.isDigit here.length
  let hi ← (do
    if ← accept ',' then takeWhile Char.isDigit here.length
    else return lo)
  if !(← accept '\x7d') then
    modify fun s => { s with rest := here }
    return none
  let least := numberIn 10 lo
  if countLimit ≤ least then refuse .tooLarge
  if hi.isEmpty then return some (least, none)
  let most := numberIn 10 hi
  if countLimit ≤ most then refuse .tooLarge
  if most < least then fail
  return some (least, some most)

/-- The flag of a letter; the letter `u` clears the ASCII flag. -/
def flag? (c : Char) : Option Flags :=
  if c == 'i' then some { ignoreCase := true }
  else if c == 'm' then some { multiline := true }
  else if c == 's' then some { dotAll := true }
  else if c == 'x' then some { verbose := true }
  else if c == 'a' then some { ascii := true }
  else if c == 't' then some { template := true }
  else if c == 'u' || c == 'L' then some {}
  else none

def Token.isFlag (t : Token) : Bool := !t.escaped && (flag? t.point.char).isSome

/-- Whether the token is a letter, of whatever script. -/
def Token.isLetter (t : Token) : Bool :=
  !t.escaped && t.point.isAlphanumeric && (Text.digitValue? t.point).isNone

/-- Flag letters from `c` on, and the character that ends them. -/
def flagsOn : Nat → Char → List Char → Parse (List Char × Char)
  | 0, _, _ => fail
  | fuel + 1, c, acc => do
    if c == 'L' then refuse .flags
    let acc := acc ++ [c]
    if acc.contains 'a' && acc.contains 'u' then refuse .flags
    match ← next with
    | none => refuse .flagsOpen
    | some t =>
      if t.isChar ')' || t.isChar '-' || t.isChar ':' then return (acc, t.point.char)
      if !t.isFlag then
        refuse (if t.isLetter then .malformed else .flagsOpen) t.text.length
      flagsOn fuel t.point.char acc

/-- Flag letters after a minus, up to the colon. -/
def flagsOff : Nat → Char → List Char → Parse (List Char)
  | 0, _, _ => fail
  | fuel + 1, c, acc => do
    if c == 'a' || c == 'u' || c == 'L' then refuse .flags
    match ← next with
    | none => refuse .colonMissing
    | some t =>
      if t.isChar ':' then return acc ++ [c]
      if !t.isFlag then
        refuse (if t.isLetter then .malformed else .colonMissing) t.text.length
      flagsOff fuel t.point.char (acc ++ [c])

def flagsOf (cs : List Char) : Flags := cs.foldl (fun f c => f.union ((flag? c).getD {})) {}

/-- The flags of a group whose first flag letter, or minus, is `c`. Flags without a body hold for
the whole expression. -/
def groupFlags (c : Char) : Parse (Option (Flags × Flags)) := do
  let fuel := (← get).rest.length + 1
  let (on, stop) ← if c == '-' then pure ([], '-') else flagsOn fuel c []
  if stop == ')' then
    modify fun s => { s with flags := s.flags.union (flagsOf on) }
    return none
  if on.contains 't' then refuse .flags 1
  let off ← (do
    if stop == '-' then
      let t ← demand
      if !t.isFlag then fail
      flagsOff fuel t.point.char []
    else return [])
  if off.contains 't' || on.any off.contains then refuse .flags 1
  let cleared := flagsOf off
  return some (flagsOf on, if on.contains 'u' then { cleared with ascii := true } else cleared)

/-- Widths beyond this are all alike. -/
def widthLimit : Nat := 18446744073709551616

def cap (w : Width) : Width := (min w.1 widthLimit, min w.2 widthLimit)

mutual

/-- How many characters a pattern passes, given the widths of groups. -/
def width (groups : List (Option Width)) : Pattern → Width
  | .point _ => (1, 1)
  | .any => (1, 1)
  | .set .. => (1, 1)
  | .place _ => (0, 0)
  | .sequence parts => cap (widthAll groups parts)
  | .choice branches => widthAny groups branches
  | .repetition _ least most body =>
    let (lo, hi) := width groups body
    cap (lo * least, match most with
      | some m => hi * m
      | none => if hi == 0 then 0 else widthLimit)
  | .group _ body => width groups body
  | .flagged _ _ body => width groups body
  | .atomic body => width groups body
  | .reference n => (groups[n]?.join).getD (0, 0)
  | .conditional _ yes no =>
    let a := width groups yes
    let b := width groups no
    (min a.1 b.1, max a.2 b.2)
  | .ahead .. => (0, 0)
  | .behind .. => (0, 0)

def widthAll (groups : List (Option Width)) : List Pattern → Width
  | [] => (0, 0)
  | p :: rest =>
    let a := width groups p
    let b := widthAll groups rest
    (a.1 + b.1, a.2 + b.2)

def widthAny (groups : List (Option Width)) : List Pattern → Width
  | [] => (0, 0)
  | [p] => width groups p
  | p :: rest =>
    let a := width groups p
    let b := widthAny groups rest
    (min a.1 b.1, max a.2 b.2)

end

/-- What a repetition may not be applied to. -/
def isUnrepeatable : Pattern → Bool
  | .place _ => true
  | .repetition .. => true
  | _ => false

/-- A group without a number or flags is no more than its body. -/
def bodyOf : Pattern → Pattern
  | .flagged on off body => if on == {} && off == {} then body else .flagged on off body
  | p => p

def sequenceOf : List Pattern → Pattern
  | [p] => p
  | ps => .sequence ps

/-- A repetition of the last part, with the sign that says how eager it is. -/
def repeatLast (least : Nat) (most : Option Nat) (acc : List Pattern) : Parse (List Pattern) := do
  match acc with
  | [] => fail
  | last :: before =>
    if isUnrepeatable last then fail
    let greed ← (do
      if ← accept '?' then return Greed.lazy
      if ← accept '+' then return Greed.possessive
      return Greed.greedy)
    return .repetition greed least most (bodyOf last) :: before

def skipComment : Nat → Parse Unit
  | 0 => fail
  | fuel + 1 => do
    if (← demand).isChar ')' then return
    skipComment fuel

def skipLine : Nat → Parse Unit
  | 0 => return
  | fuel + 1 => do
    match ← next with
    | none => return
    | some t => if t.isChar '\n' then return else skipLine fuel

def isGap (c : Char) : Bool :=
  c == ' ' || c == '\t' || c == '\n' || c == '\r' || c == '\x0b' || c == '\x0c'

mutual

/-- Branches with bars between them. At the top the verbose flag may be set on the way. -/
def choice (verbose top : Bool) : Nat → Parse Pattern
  | 0 => fail
  | fuel + 1 => do
    let first ← parts verbose top [] fuel
    let others ← branches verbose top fuel
    return if others.isEmpty then first else .choice (first :: others)

def branches (verbose top : Bool) : Nat → Parse (List Pattern)
  | 0 => fail
  | fuel + 1 => do
    if ← accept '|' then
      let flags := (← get).flags
      let verbose := if top then flags.verbose else verbose
      let p ← parts verbose false [] fuel
      return p :: (← branches verbose top fuel)
    return []

/-- Parts one after the other, up to a bar, a closing parenthesis or the end. `acc` holds the parts
so far, the last first; `first` says that flags for the whole expression may stand here. -/
def parts (verbose first : Bool) (acc : List Pattern) : Nat → Parse Pattern
  | 0 => fail
  | fuel + 1 => do
    let here := (← get).rest
    match ← next with
    | none => return sequenceOf acc.reverse
    | some t =>
      let c := t.point.char
      if t.escaped then parts verbose first ((← escape t.point) :: acc) fuel
      else if c == '|' || c == ')' then
        modify fun s => { s with rest := here }
        return sequenceOf acc.reverse
      else if verbose && isGap c then parts verbose first acc fuel
      else if verbose && c == '#' then
        skipLine (here.length + 1)
        parts verbose first acc fuel
      else if c == '[' then
        let negated ← accept '^'
        let items ← setItems (here.length + 1) []
        let p : Pattern := match items, negated with
          | [.point p], false => .point p
          | items, negated => .set negated items
        parts verbose first (p :: acc) fuel
      else if c == '?' then parts verbose first (← repeatLast 0 (some 1) acc) fuel
      else if c == '*' then parts verbose first (← repeatLast 0 none acc) fuel
      else if c == '+' then parts verbose first (← repeatLast 1 none acc) fuel
      else if c == '\x7b' then
        match ← bounds with
        | none => parts verbose first (.point t.point :: acc) fuel
        | some (least, most) => parts verbose first (← repeatLast least most acc) fuel
      else if c == '.' then parts verbose first (.any :: acc) fuel
      else if c == '^' then parts verbose first (.place .lineStart :: acc) fuel
      else if c == '$' then parts verbose first (.place .lineEnd :: acc) fuel
      else if c == '(' then
        if ← accept '?' then extended verbose first acc fuel
        else parts verbose first ((← captured none verbose fuel) :: acc) fuel
      else parts verbose first (.point t.point :: acc) fuel

/-- The inside of a capturing group. -/
def captured (name : Option Text) (verbose : Bool) : Nat → Parse Pattern
  | 0 => fail
  | fuel + 1 => do
    let n ← openGroup name
    let body ← choice verbose false fuel
    expect ')'
    modify fun s => { s with widths := s.widths.set n (some (width s.widths body)) }
    return .group n body

/-- What follows the question mark of a group. -/
def extended (verbose first : Bool) (acc : List Pattern) : Nat → Parse Pattern
  | 0 => fail
  | fuel + 1 => do
    let t ← demand
    if t.escaped then fail
    let c := t.point.char
    if c == 'P' then
      if ← accept '<' then
        let n ← identifier '>'
        parts verbose first ((← captured (some n) verbose fuel) :: acc) fuel
      else if ← accept '=' then
        let n ← identifier ')'
        match (← get).names.lookup n with
        | none => fail
        | some n => parts verbose first ((← reference n) :: acc) fuel
      else fail
    else if c == ':' then
      let body ← choice verbose false fuel
      expect ')'
      parts verbose first (.flagged {} {} body :: acc) fuel
    else if c == '#' then
      skipComment ((← get).rest.length + 1)
      parts verbose first acc fuel
    else if c == '=' || c == '!' then
      let body ← choice verbose false fuel
      expect ')'
      parts verbose first (.ahead (c == '!') body :: acc) fuel
    else if c == '<' then
      let t ← demand
      if !(t.isChar '=' || t.isChar '!') then fail
      let outer := (← get).behind
      modify fun s => { s with behind := outer <|> some s.widths.length }
      let body ← choice verbose false fuel
      modify fun s => { s with behind := outer }
      expect ')'
      let (lo, hi) := width (← get).widths body
      modify fun s => { s with looksFar := s.looksFar || lo != hi }
      parts verbose first (.behind (t.isChar '!') lo body :: acc) fuel
    else if c == '(' then
      let n ← conditionGroup
      checkBehind n
      let yes ← parts verbose false [] fuel
      let no ← (do
        if ← accept '|' then
          let p ← parts verbose false [] fuel
          if ← atChar '|' then fail
          return p
        else return .sequence [])
      expect ')'
      parts verbose first (.conditional n yes no :: acc) fuel
    else if c == '>' then
      let body ← choice verbose false fuel
      expect ')'
      parts verbose first (.atomic body :: acc) fuel
    else if c == '-' || (flag? c).isSome then
      match ← groupFlags c with
      | none =>
        if !first || !acc.isEmpty then fail
        let verbose := (← get).flags.verbose
        parts verbose first acc fuel
      | some (on, off) =>
        let body ← choice ((verbose || on.verbose) && !off.verbose) false fuel
        expect ')'
        parts verbose first (.flagged on off body :: acc) fuel
    else fail

/-- The group that a condition asks for, by name or number. -/
def conditionGroup : Parse Nat := do
  let t ← name ')'
  if t.isIdentifier then
    match (← get).names.lookup t with
    | some n => return n
    | none => fail
  else
    match t.int? 10 with
    | some (.ofNat (n + 1)) =>
      modify fun s => { s with conditions := (n + 1) :: s.conditions }
      return n + 1
    | _ => fail

end

mutual

def repeats : Pattern → Bool
  | .repetition .. => true
  | .sequence ps => repeatsAny ps
  | .choice ps => repeatsAny ps
  | .group _ p | .flagged _ _ p | .atomic p | .ahead _ p | .behind _ _ p => repeats p
  | .conditional _ p q => repeats p || repeats q
  | _ => false

def repeatsAny : List Pattern → Bool
  | [] => false
  | p :: rest => repeats p || repeatsAny rest

end

/-- A whole expression. -/
def whole (fuel : Nat) : Parse Pattern := do
  let p ← choice (← get).flags.verbose true fuel
  if (← peek).isSome then fail
  let s ← get
  if s.conditions.any (s.widths.length ≤ ·) then fail
  if s.flags.template && repeats p then fail
  if s.looksFar then refuse .variableWidth
  return p

end Parse

/-- Reads an expression that starts under the given flags. -/
def compile (t : Text) (flags : Flags := {}) : Except Fault Compiled := do
  let (p, s) ← (Parse.whole (4 * t.length + 8)).run ⟨t, [], [none], none, flags, [], false⟩
  return ⟨p, s.flags⟩

end Conform.Pattern

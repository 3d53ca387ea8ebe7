import Conform.Yaml.Cursor
import Conform.Text.Encoding

/-!
Tokens of a YAML stream. `Token.scan` cuts a stream into tokens; a fault in the text ends the list
with a token that carries it, so that whoever reads the tokens meets faults in the order of the
text. Indentation becomes tokens that open and close collections, and a key that turns out to be
one only at its colon is marked at the place where it began.
-/
namespace Conform.Yaml

inductive Token where
  | version (major : Nat)
  | handle (name : Text) (uri : Text)
  | directive
  | documentStart
  | documentEnd
  | streamEnd
  | blockSequence
  | blockMapping
  | blockEnd
  | flowSequence
  | flowSequenceEnd
  | flowMapping
  | flowMappingEnd
  | entry
  | comma
  | key
  | value
  | alias (name : Text)
  | anchor (name : Text)
  /-- A tag with its handle, or a tag in full. -/
  | tag (handle : Option Text) (suffix : Text)
  | scalar (text : Text) (plain : Bool)
  | fault (f : Fault)
deriving DecidableEq, Repr

namespace Token

/-- A place where a key may have begun: the number of the token there, and where it stands. A
required key must be followed by its colon. -/
structure Candidate where
  token : Nat
  required : Bool
  index : Nat
  line : Nat
  column : Nat

structure State where
  cursor : Cursor
  tokens : Array Token
  /-- How many flow collections are open. -/
  flow : Nat
  indent : Int
  indents : List Int
  /-- The candidate of each flow depth. -/
  candidates : List (Nat × Candidate)
  keyAllowed : Bool

abbrev Scan := Except Fault

namespace State

def start (cs : List Char) : State :=
  ⟨Cursor.ofChars cs, #[], 0, -1, [], [], true⟩

def push (s : State) (t : Token) : State := { s with tokens := s.tokens.push t }

def insert (s : State) (n : Nat) (t : Token) : State :=
  { s with tokens := s.tokens.insertIdxIfInBounds n t }

/-- Drops candidates whose line is over or that are too far back. -/
def dropStale (s : State) : Scan State :=
  let stale (k : Candidate) := k.line != s.cursor.line || k.index + 1024 < s.cursor.index
  if s.candidates.any fun k => stale k.2 && k.2.required then .error .malformed
  else .ok { s with candidates := s.candidates.filter fun k => !stale k.2 }

/-- Forgets the candidate of the present depth. -/
def dropCandidate (s : State) : Scan State :=
  match s.candidates.lookup s.flow with
  | none => .ok s
  | some k =>
    if k.required then .error .malformed
    else .ok { s with candidates := s.candidates.filter fun k => k.1 != s.flow }

/-- Notes that a key may begin here. -/
def noteCandidate (s : State) : Scan State :=
  if s.keyAllowed then do
    let s ← s.dropCandidate
    let k : Candidate :=
      ⟨s.tokens.size, s.flow == 0 && s.indent == s.cursor.column, s.cursor.index, s.cursor.line,
        s.cursor.column⟩
    return { s with candidates := (s.flow, k) :: s.candidates }
  else .ok s

/-- Closes the collections that are indented deeper than `column`. -/
def unwind (column : Int) (s : State) : State :=
  if s.flow != 0 then s else go s.indents s
where
  go : List Int → State → State
    | [], s => s
    | i :: rest, s =>
      if column < s.indent then
        go rest { s with indent := i, indents := rest, tokens := s.tokens.push .blockEnd }
      else s

/-- Opens a collection at `column`, unless one is open there. -/
def addIndent (column : Int) (s : State) : Bool × State :=
  if s.indent < column then
    (true, { s with indent := column, indents := s.indent :: s.indents })
  else (false, s)

/-- Passes `n` characters and adds a token. -/
def take (s : State) (n : Nat) (t : Token) : State :=
  { s with cursor := s.cursor.forward n, tokens := s.tokens.push t }

/-- Passes spaces, comments and line breaks. Outside flow collections a key may follow a break. -/
def skipGaps : Nat → State → State
  | 0, s => s
  | fuel + 1, s =>
    let c := s.cursor.skipSpaces
    let c := if c.peek == '#' then c.skipWhile (!Cursor.isBreakOrEnd ·) else c
    match c.lineBreak with
    | ([], _) => { s with cursor := c }
    | (_, c) => skipGaps fuel { s with cursor := c, keyAllowed := s.keyAllowed || s.flow == 0 }

/-- Passes a byte order mark at the start of the stream, then everything up to the next token. -/
def toNextToken (s : State) : State :=
  let s := if s.cursor.index == 0 && s.cursor.peek == '\ufeff' then
      { s with cursor := s.cursor.step }
    else s
  skipGaps (s.cursor.rest.length + 1) s

end State

def isNameChar (ch : Char) : Bool :=
  ('0' ≤ ch && ch ≤ '9') || ('A' ≤ ch && ch ≤ 'Z') || ('a' ≤ ch && ch ≤ 'z') || ch == '-'
    || ch == '_'

def isHex (ch : Char) : Bool :=
  ('0' ≤ ch && ch ≤ '9') || ('A' ≤ ch && ch ≤ 'F') || ('a' ≤ ch && ch ≤ 'f')

def hexValue (ch : Char) : Nat :=
  if ch ≤ '9' then ch.toNat - 48 else if ch ≤ 'F' then ch.toNat - 55 else ch.toNat - 87

def ofHex (cs : List Char) : Nat := cs.foldl (fun n ch => n * 16 + hexValue ch) 0

def demand (b : Bool) : Scan Unit := if b then .ok () else .error .malformed

/-- The octets of a run of percent escapes. -/
def uriEscapes (c : Cursor) : Scan (Bytes × Cursor) := go (c.rest.length + 1) c []
where
  go : Nat → Cursor → Bytes → Scan (Bytes × Cursor)
    | 0, _, _ => .error .malformed
    | fuel + 1, c, acc =>
      if c.peek != '%' then .ok (acc.reverse, c)
      else do
        demand (isHex (c.peekAt 1) && isHex (c.peekAt 2))
        go fuel (c.forward 3) (UInt8.ofNat (ofHex [c.peekAt 1, c.peekAt 2]) :: acc)

def isUriChar (ch : Char) : Bool :=
  isNameChar ch || ";/?:@&=+$,.!~*'()[]".toList.contains ch

/-- A tag's text: allowed characters, with percent escapes read as UTF-8. -/
def uri (c : Cursor) : Scan (Text × Cursor) := do
  let (t, c) ← go (c.rest.length + 1) c []
  demand (!t.isEmpty)
  return (t, c)
where
  go : Nat → Cursor → Text → Scan (Text × Cursor)
    | 0, _, _ => .error .malformed
    | fuel + 1, c, acc =>
      if c.peek == '%' then do
        let (octets, c) ← uriEscapes c
        match octets.text? with
        | some t => go fuel c (acc ++ t)
        | none => .error .malformed
      else if isUriChar c.peek then
        let part := c.span isUriChar
        go fuel (c.forward part.length) (acc ++ Text.ofChars part)
      else .ok (acc, c)

/-- A tag handle: `!`, `!!` or `!name!`. -/
def tagHandle (c : Cursor) : Scan (Text × Cursor) := do
  demand (c.peek == '!')
  if c.peekAt 1 == ' ' then return (Text.ofChars ['!'], c.step)
  let name := (c.step).span isNameChar
  demand (c.peekAt (name.length + 1) == '!')
  return (Text.ofChars ('!' :: name ++ ['!']), c.forward (name.length + 2))

/-- Passes spaces, a comment and the line break at the end of a line. -/
def lineEnd (c : Cursor) : Scan Cursor := do
  let c := c.skipSpaces
  let c := if c.peek == '#' then c.skipWhile (!Cursor.isBreakOrEnd ·) else c
  demand (Cursor.isBreakOrEnd c.peek)
  return c.lineBreak.2

def decimal (c : Cursor) : Scan (Nat × Cursor) := do
  let ds := c.span Char.isDigit
  demand (!ds.isEmpty)
  return (ds.foldl (fun n ch => n * 10 + (ch.toNat - 48)) 0, c.forward ds.length)

/-- A line that starts with a percent sign. -/
def directiveLine (c : Cursor) : Scan (Token × Cursor) := do
  let c := c.step
  let name := c.span isNameChar
  demand (!name.isEmpty)
  let c := c.forward name.length
  demand (Cursor.isGap c.peek)
  if name == "YAML".toList then
    let (major, c) ← decimal c.skipSpaces
    demand (c.peek == '.')
    let (_, c) ← decimal c.step
    demand (Cursor.isGap c.peek)
    return (.version major, ← lineEnd c)
  else if name == "TAG".toList then
    let (name, c) ← tagHandle c.skipSpaces
    demand (c.peek == ' ')
    let (full, c) ← uri c.skipSpaces
    demand (Cursor.isGap c.peek)
    return (.handle name full, ← lineEnd c)
  else
    return (.directive, ← lineEnd (c.skipWhile (!Cursor.isBreakOrEnd ·)))

/-- The name after `*` or `&`. -/
def anchorName (c : Cursor) : Scan (Text × Cursor) := do
  let c := c.step
  let name := c.span isNameChar
  demand (!name.isEmpty)
  let c := c.forward name.length
  demand (Cursor.isSpace c.peek || "?:,]\x7d%@\x60".toList.contains c.peek)
  return (Text.ofChars name, c)

/-- A tag: in full between angle brackets, alone, or with a handle. -/
def tagToken (c : Cursor) : Scan (Token × Cursor) := do
  let next := c.peekAt 1
  if next == '<' then
    let (t, c) ← uri (c.forward 2)
    demand (c.peek == '>')
    finish (.tag none t) c.step
  else if Cursor.isSpace next then
    finish (.tag none (Text.ofChars ['!'])) c.step
  else
    let word := (c.step).span fun ch => !Cursor.isGap ch
    if word.contains '!' then
      let (name, c) ← tagHandle c
      let (t, c) ← uri c
      finish (.tag (some name) t) c
    else
      let (t, c) ← uri c.step
      finish (.tag (some (Text.ofChars ['!'])) t) c
where
  finish (t : Token) (c : Cursor) : Scan (Token × Cursor) := do
    demand (Cursor.isGap c.peek)
    return (t, c)

/-- What single characters after a backslash stand for. -/
def escapes : List (Char × Char) :=
  [('0', '\x00'), ('a', '\x07'), ('b', '\x08'), ('t', '\t'), ('\t', '\t'), ('n', '\n'),
    ('v', '\x0b'), ('f', '\x0c'), ('r', '\r'), ('e', '\x1b'), (' ', ' '), ('"', '"'),
    ('\\', '\\'), ('/', '/'), ('N', '\x85'), ('_', '\xa0'), ('L', '\u2028'), ('P', '\u2029')]

/-- How many hexadecimal digits follow the letter. -/
def escapeWidth (ch : Char) : Nat :=
  if ch == 'x' then 2 else if ch == 'u' then 4 else if ch == 'U' then 8 else 0

/-- The breaks and blanks before the next character of a quoted scalar. -/
def quotedBreaks : Nat → Cursor → Text → Scan (Text × Cursor)
  | 0, _, _ => .error .malformed
  | fuel + 1, c, acc =>
    if c.atSeparator then .error .malformed
    else
      let c := c.skipWhile fun ch => ch == ' ' || ch == '\t'
      match c.lineBreak with
      | ([], _) => .ok (acc, c)
      | (b, c) => quotedBreaks fuel c (acc ++ Text.ofChars b)

/-- The inside of a quoted scalar up to and with its closing quote. Each escape stands for one code
point; a single line break is a space. -/
def quoted (double : Bool) : Nat → Cursor → Text → Scan (Text × Cursor)
  | 0, _, _ => .error .malformed
  | fuel + 1, c, acc =>
    let ch := c.peek
    if c.rest.isEmpty then .error .malformed
    else if ch == ' ' || ch == '\t' || Cursor.isBreak ch then
      let blanks := c.span fun ch => ch == ' ' || ch == '\t'
      let c := c.forward blanks.length
      match c.lineBreak with
      | ([], _) => quoted double fuel c ((Text.ofChars blanks).reverse ++ acc)
      | (b, c) => do
        let (more, c) ← quotedBreaks (c.rest.length + 1) c []
        let first := if b != ['\n'] then b else if more.isEmpty then [' '] else []
        quoted double fuel c (more.reverse ++ (Text.ofChars first).reverse ++ acc)
    else if double then
      if ch == '"' then .ok (acc.reverse, c.step)
      else if ch == '\\' then
        let c := c.step
        let ch := c.peek
        match escapes.lookup ch with
        | some e =>
          if c.rest.isEmpty then .error .malformed
          else quoted double fuel c.step (Point.ofChar e :: acc)
        | none =>
          if escapeWidth ch != 0 then do
            let width := escapeWidth ch
            let c := c.step
            let hex := c.rest.take width
            demand (hex.length == width && hex.all isHex)
            match Point.ofNat? (ofHex hex) with
            | some p => quoted double fuel (c.forward width) (p :: acc)
            | none => .error (.escapeRange (ofHex hex))
          else if Cursor.isBreak ch then do
            let (more, c) ← quotedBreaks (c.rest.length + 1) c.lineBreak.2 []
            quoted double fuel c (more.reverse ++ acc)
          else .error .malformed
      else quoted double fuel c.step (Point.ofChar ch :: acc)
    else if ch == '\'' then
      if c.peekAt 1 == '\'' then quoted double fuel (c.forward 2) (Point.ofChar ch :: acc)
      else .ok (acc.reverse, c.step)
    else quoted double fuel c.step (Point.ofChar ch :: acc)

/-- Whether a plain scalar stops before `ch`, which `next` follows. -/
def plainStops (flow : Bool) (ch next : Char) : Bool :=
  Cursor.isSpace ch
    || (ch == ':' && (Cursor.isSpace next || (flow && ",[]\x7b\x7d".toList.contains next)))
    || (flow && ",?[]\x7b\x7d".toList.contains ch)

def plainSpan (flow : Bool) : List Char → List Char
  | [] => []
  | ch :: rest => if plainStops flow ch (rest.headD '\x00') then [] else ch :: plainSpan flow rest

/-- The gap between two parts of a plain scalar: the text it stands for, if the scalar may go on,
the place after it, and whether a line ended. -/
def plainGap (c : Cursor) : Option (List Char) × Cursor × Bool :=
  let blanks := c.span (· == ' ')
  let c := c.forward blanks.length
  match c.lineBreak with
  | ([], _) => (some blanks, c, false)
  | (b, c) =>
    if c.atSeparator then (none, c, true)
    else match breaks (c.rest.length + 1) c [] with
      | (none, c) => (none, c, true)
      | (some more, c) =>
        let first := if b != ['\n'] then b else if more.isEmpty then [' '] else []
        (some (first ++ more), c, true)
where
  breaks : Nat → Cursor → List Char → Option (List Char) × Cursor
    | 0, c, acc => (some acc, c)
    | fuel + 1, c, acc =>
      let c := c.skipSpaces
      match c.lineBreak with
      | ([], _) => (some acc, c)
      | (b, c) => if c.atSeparator then (none, c) else breaks fuel c (acc ++ b)

/-- A scalar without quotes; `gap` is what stands before the part to come. -/
def plain (flow : Bool) (indent : Int) :
    Nat → Cursor → Bool → List Char → List Char → List Char × Cursor × Bool
  | 0, c, allowed, _, acc => (acc, c, allowed)
  | fuel + 1, c, allowed, gap, acc =>
    if c.peek == '#' then (acc, c, allowed)
    else match plainSpan flow c.rest with
      | [] => (acc, c, allowed)
      | part =>
        let acc := acc ++ gap ++ part
        match plainGap (c.forward part.length) with
        | (none, c, broke) => (acc, c, broke)
        | (some [], c, broke) => (acc, c, broke)
        | (some gap, c, broke) =>
          if c.peek == '#' || (!flow && (c.column : Int) < indent + 1) then (acc, c, broke)
          else plain flow indent fuel c broke gap acc

/-- The signs after `|` or `>`: which breaks at the end are kept, and the indentation. -/
def blockSigns (c : Cursor) : Scan (Option Bool × Option Nat × Cursor) := do
  let chomp (c : Cursor) : Option Bool :=
    if c.peek == '+' then some true else if c.peek == '-' then some false else none
  let width (c : Cursor) : Option Nat :=
    if c.peek.isDigit then some (c.peek.toNat - 48) else none
  match chomp c with
  | some keep =>
    let c := c.step
    match width c with
    | some n => demand (n != 0); finish (some keep) (some n) c.step
    | none => finish (some keep) none c
  | none => match width c with
    | some n =>
      demand (n != 0)
      let c := c.step
      match chomp c with
      | some keep => finish (some keep) (some n) c.step
      | none => finish none (some n) c
    | none => finish none none c
where
  finish (k : Option Bool) (n : Option Nat) (c : Cursor) :
      Scan (Option Bool × Option Nat × Cursor) := do
    demand (Cursor.isGap c.peek)
    return (k, n, c)

/-- The blank lines at the start of a block scalar, and the deepest indentation among them. -/
def blockIndentation : Nat → Cursor → Nat → List Char → List Char × Nat × Cursor
  | 0, c, deepest, acc => (acc, deepest, c)
  | fuel + 1, c, deepest, acc =>
    let c := c.skipSpaces
    let deepest := max deepest c.column
    match c.lineBreak with
    | ([], _) => (acc, deepest, c)
    | (b, c) => blockIndentation fuel c deepest (acc ++ b)

/-- Passes at most the indentation of a block scalar. -/
def skipIndent (indent : Nat) (c : Cursor) : Cursor :=
  c.forward (min (indent - c.column) (c.span (· == ' ')).length)

def blockBreaks (indent : Nat) : Nat → Cursor → List Char → List Char × Cursor
  | 0, c, acc => (acc, c)
  | fuel + 1, c, acc =>
    let c := skipIndent indent c
    match c.lineBreak with
    | ([], _) => (acc, c)
    | (b, c) => blockBreaks indent fuel c (acc ++ b)

/-- The lines of a block scalar. The result holds the text without its tail, the last line break,
and the breaks after it. -/
def blockLines (folded : Bool) (indent : Nat) :
    Nat → Cursor → List Char → List Char → List Char → List Char × List Char × List Char × Cursor
  | 0, c, breaks, last, acc => (acc, last, breaks, c)
  | fuel + 1, c, breaks, last, acc =>
    if c.column == indent && !c.rest.isEmpty then
      let indented := c.peek == ' ' || c.peek == '\t'
      let line := c.span (!Cursor.isBreakOrEnd ·)
      let acc := acc ++ breaks ++ line
      let (last, c) := (c.forward line.length).lineBreak
      let (breaks, c) := blockBreaks indent (c.rest.length + 1) c []
      if c.column == indent && !c.rest.isEmpty then
        let acc :=
          if folded && last == ['\n'] && !indented && c.peek != ' ' && c.peek != '\t' then
            (if breaks.isEmpty then acc ++ [' '] else acc)
          else acc ++ last
        blockLines folded indent fuel c breaks last acc
      else (acc, last, breaks, c)
    else (acc, last, breaks, c)

/-- A literal or folded scalar. -/
def block (folded : Bool) (indent : Int) (c : Cursor) : Scan (Text × Cursor) := do
  let (keep, width, c) ← blockSigns c.step
  let c ← lineEnd c
  let least := max 1 (indent + 1).toNat
  let fuel := c.rest.length + 1
  let (breaks, indent, c) := match width with
    | none =>
      let (breaks, deepest, c) := blockIndentation fuel c 0 []
      (breaks, max least deepest, c)
    | some n =>
      let (breaks, c) := blockBreaks (least + n - 1) fuel c []
      (breaks, least + n - 1, c)
  let (body, last, breaks, c) := blockLines folded indent fuel c breaks [] []
  let tail := (if keep == some false then [] else last) ++ (if keep == some true then breaks else [])
  return (Text.ofChars (body ++ tail), c)

namespace State

/-- Adds a token that stands for a node, where a key may begin. -/
def node (s : State) (r : Scan (Token × Cursor)) : Scan State := do
  let s ← s.noteCandidate
  let (t, c) ← r
  return { s with cursor := c, tokens := s.tokens.push t, keyAllowed := false }

def endStream (s : State) : Scan State := do
  let s ← (s.unwind (-1)).dropCandidate
  return { s with tokens := s.tokens.push .streamEnd }

def flowStart (s : State) (t : Token) : Scan State := do
  let s ← s.noteCandidate
  return { s.take 1 t with flow := s.flow + 1, keyAllowed := true }

def flowEnd (s : State) (t : Token) : Scan State := do
  demand (s.flow != 0)
  let s ← s.dropCandidate
  return { s.take 1 t with flow := s.flow - 1, keyAllowed := false }

/-- Opens a block collection at this column, where a key may stand. -/
def openBlock (s : State) (t : Token) : Scan State := do
  if s.flow != 0 then return s
  demand s.keyAllowed
  let (opened, s) := s.addIndent s.cursor.column
  return if opened then s.push t else s

def entryToken (s : State) : Scan State := do
  let s ← s.openBlock .blockSequence
  let s ← { s with keyAllowed := true }.dropCandidate
  return s.take 1 .entry

def keyToken (s : State) : Scan State := do
  let s ← s.openBlock .blockMapping
  let s ← { s with keyAllowed := s.flow == 0 }.dropCandidate
  return s.take 1 .key

def valueToken (s : State) : Scan State :=
  match s.candidates.lookup s.flow with
  | some k =>
    let s := { s with candidates := s.candidates.filter (·.1 != s.flow) }
    let s := s.insert k.token .key
    let (opened, s) := if s.flow == 0 then s.addIndent k.column else (false, s)
    let s := if opened then s.insert k.token .blockMapping else s
    .ok ({ s with keyAllowed := false }.take 1 .value)
  | none => do
    let s ← s.openBlock .blockMapping
    let s ← { s with keyAllowed := s.flow == 0 }.dropCandidate
    return s.take 1 .value

/-- Whether a plain scalar can begin here. -/
def atPlain (s : State) : Bool :=
  let ch := s.cursor.peek
  !(Cursor.isSpace ch || "-?:,[]\x7b\x7d#&*!|>'\"%@\x60".toList.contains ch)
    || (!Cursor.isSpace (s.cursor.peekAt 1) && (ch == '-' || (s.flow == 0 && (ch == '?' || ch == ':'))))

def plainToken (s : State) : Scan State := do
  let s ← s.noteCandidate
  let (t, c, allowed) :=
    plain (s.flow != 0) s.indent (s.cursor.rest.length + 1) s.cursor false [] []
  return { s with cursor := c, tokens := s.tokens.push (.scalar (Text.ofChars t) true),
                  keyAllowed := allowed }

/-- Reads the token at the next place that has one. -/
def next (s : State) : Scan State := do
  let s ← s.toNextToken.dropStale
  let s := s.unwind s.cursor.column
  let c := s.cursor
  let ch := c.peek
  let spaced := Cursor.isSpace (c.peekAt 1)
  if c.rest.isEmpty then s.endStream
  else if ch == '%' && c.column == 0 then
    let s ← (s.unwind (-1)).dropCandidate
    let (t, c) ← directiveLine c
    return { s with cursor := c, tokens := s.tokens.push t, keyAllowed := false }
  else if c.column == 0 && c.atSeparator then
    let s ← (s.unwind (-1)).dropCandidate
    return { s with keyAllowed := false }.take 3 (if ch == '-' then .documentStart else .documentEnd)
  else if ch == '[' then s.flowStart .flowSequence
  else if ch == '\x7b' then s.flowStart .flowMapping
  else if ch == ']' then s.flowEnd .flowSequenceEnd
  else if ch == '\x7d' then s.flowEnd .flowMappingEnd
  else if ch == ',' then
    let s ← { s with keyAllowed := true }.dropCandidate
    return s.take 1 .comma
  else if ch == '-' && spaced then s.entryToken
  else if ch == '?' && (s.flow != 0 || spaced) then s.keyToken
  else if ch == ':' && (s.flow != 0 || spaced) then s.valueToken
  else if ch == '*' then
    s.node ((anchorName c).map fun (t, c) => (.alias t, c))
  else if ch == '&' then
    s.node ((anchorName c).map fun (t, c) => (.anchor t, c))
  else if ch == '!' then s.node (tagToken c)
  else if (ch == '|' || ch == '>') && s.flow == 0 then
    let s ← { s with keyAllowed := true }.dropCandidate
    let (t, c) ← block (ch == '>') s.indent c
    return { s with cursor := c, tokens := s.tokens.push (.scalar t false) }
  else if ch == '\'' || ch == '"' then
    s.node ((quoted (ch == '"') (c.rest.length + 1) c.step []).map
      fun (t, c) => (.scalar t false, c))
  else if s.atPlain then s.plainToken
  else .error .malformed

def run : Nat → State → List Token
  | 0, s => s.tokens.toList
  | fuel + 1, s =>
    match s.next with
    | .error f => (s.tokens.push (.fault f)).toList
    | .ok s => if s.tokens.back? == some .streamEnd then s.tokens.toList else run fuel s

end State

/-- The tokens of a stream. Every token but the last passes a character. -/
def scan (cs : List Char) : List Token := State.run (cs.length + 2) (State.start cs)

end Token
end Conform.Yaml

import Conform.Moment

/-!
A place in a stream of characters: what is still to come, and how far along the place is. Past the
end every character reads as NUL, which no stream contains.
-/
namespace Conform.Yaml

/-- What a reading can fail with. -/
inductive Fault where
  /-- The text is not a document of the language. -/
  | malformed
  /-- An escape names a number that is no code point. -/
  | escapeRange (code : Nat)
  /-- A tagged text is no number in the base, after its sign and marks were removed. -/
  | notInteger (base : Nat) (digits : Text)
  /-- A decimal number has more digits than are ever read. -/
  | tooManyDigits (count : Nat)
  /-- A whole number has more digits than are ever written. -/
  | longNumber
  /-- A text tagged as a floating-point number is none. -/
  | notFloat (digits : Text)
  /-- A text tagged as a number is empty. -/
  | emptyNumber
  /-- A text tagged as a Boolean is none. -/
  | notBoolean (word : Text)
  /-- A text tagged as a date has another form. -/
  | notMoment
  /-- A date or time of day does not exist. -/
  | noSuchMoment (fault : Moment.Fault)
  /-- A node contains itself. -/
  | endless
deriving DecidableEq, Repr

structure Cursor where
  rest : List Char
  index : Nat
  line : Nat
  column : Nat

namespace Cursor

def ofChars (cs : List Char) : Cursor := ⟨cs, 0, 0, 0⟩

def peek (c : Cursor) : Char := c.rest.headD '\x00'

def peekAt (n : Nat) (c : Cursor) : Char := c.rest.getD n '\x00'

/-- The characters that end a line. -/
def isBreak (ch : Char) : Bool :=
  ch == '\n' || ch == '\r' || ch == '\x85' || ch == '\u2028' || ch == '\u2029'

def isEnd (ch : Char) : Bool := ch == '\x00'

def isBreakOrEnd (ch : Char) : Bool := isBreak ch || isEnd ch

def isGap (ch : Char) : Bool := ch == ' ' || isBreakOrEnd ch

/-- A blank, a line break, or the end. -/
def isSpace (ch : Char) : Bool := ch == '\t' || isGap ch

/-- Passes one character. A carriage return followed by a line feed counts as one break. -/
def step (c : Cursor) : Cursor :=
  match c.rest with
  | [] => c
  | ch :: rest =>
    if ch == '\n' || ch == '\x85' || ch == '\u2028' || ch == '\u2029'
        || (ch == '\r' && rest.headD '\x00' != '\n') then
      ⟨rest, c.index + 1, c.line + 1, 0⟩
    else if ch == '\ufeff' then ⟨rest, c.index + 1, c.line, c.column⟩
    else ⟨rest, c.index + 1, c.line, c.column + 1⟩

def forward : Nat → Cursor → Cursor
  | 0, c => c
  | n + 1, c => forward n c.step

/-- The characters before the first that fails `p`. -/
def span (p : Char → Bool) (c : Cursor) : List Char := c.rest.takeWhile p

def skipWhile (p : Char → Bool) (c : Cursor) : Cursor := c.forward (c.span p).length

def skipSpaces (c : Cursor) : Cursor := c.skipWhile (· == ' ')

/-- Passes a line break, if one is next, and gives what it stands for. -/
def lineBreak (c : Cursor) : List Char × Cursor :=
  let ch := c.peek
  if ch == '\r' && c.peekAt 1 == '\n' then (['\n'], forward 2 c)
  else if ch == '\r' || ch == '\n' || ch == '\x85' then (['\n'], c.step)
  else if ch == '\u2028' || ch == '\u2029' then ([ch], c.step)
  else ([], c)

/-- Whether three marks that separate documents are next, with a space after them. -/
def atMarks (mark : Char) (c : Cursor) : Bool :=
  c.peek == mark && c.peekAt 1 == mark && c.peekAt 2 == mark && isSpace (c.peekAt 3)

def atSeparator (c : Cursor) : Bool := c.atMarks '-' || c.atMarks '.'

end Cursor
end Conform.Yaml

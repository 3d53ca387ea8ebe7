import Conform.Document
import Conform.Text.Encoding
import Conform.Text.Numeral

/-!
Reading of JSON text. Beside the standard's values the words `NaN`, `Infinity` and `-Infinity` are
numbers; of equal names in an object the last one decides.
-/
namespace Conform.Json

def isGap (p : Point) : Bool :=
  p.char == ' ' || p.char == '\t' || p.char == '\n' || p.char == '\r'

def skipGaps (t : Text) : Text := t.dropWhile isGap

def isDigit (p : Point) : Bool := '0' ≤ p.char && p.char ≤ '9'

/-- The value of four hexadecimal digits at the start. -/
def hex4? (t : Text) : Option Nat :=
  if 4 ≤ t.length then
    (t.take 4).foldl (fun acc p => do
      let n ← acc
      if !p.isAscii then none
      let d ← Text.digitValue? p
      if d < 16 then some (n * 16 + d) else none) (some 0)
  else none

/-- What a single letter after a backslash stands for. -/
def escapes : List (Char × Char) :=
  [('"', '"'), ('\\', '\\'), ('/', '/'), ('b', '\x08'), ('f', '\x0c'), ('n', '\n'), ('r', '\r'),
    ('t', '\t')]

/-- The inside of a string up to and with its closing quote. Two escapes that form a pair of
surrogates are one code point. -/
def stringRest? : Nat → Text → Text → Option (Text × Text)
  | 0, _, _ => none
  | fuel + 1, acc, t =>
    match t with
    | [] => none
    | p :: rest =>
      let c := p.char
      if c == '"' then some (acc.reverse, rest)
      else if c == '\\' then
        match rest with
        | [] => none
        | e :: rest =>
          if e.char == 'u' then do
            let n ← hex4? rest
            let rest := rest.drop 4
            let low := match rest with
              | b :: u :: more =>
                if b.char == '\\' && u.char == 'u' then (hex4? more).filter fun m =>
                  0xDC00 ≤ m && m ≤ 0xDFFF
                else none
              | _ => none
            match low, 0xD800 ≤ n && n ≤ 0xDBFF with
            | some m, true =>
              let p ← Point.ofNat? (0x10000 + (n - 0xD800) * 0x400 + (m - 0xDC00))
              stringRest? fuel (p :: acc) (rest.drop 6)
            | _, _ => stringRest? fuel ((← Point.ofNat? n) :: acc) rest
          else match escapes.lookup e.char with
            | some r => stringRest? fuel (Point.ofChar r :: acc) rest
            | none => none
      else if p.val < 0x20 then none
      else stringRest? fuel (p :: acc) rest

/-- The digits of an exponent with its letter and sign, if one is next. -/
def exponent? (t : Text) : Option (Text × Text) :=
  match t with
  | e :: rest =>
    if e.char == 'e' || e.char == 'E' then
      let (sign, digits) := match rest with
        | s :: more => if s.char == '+' || s.char == '-' then ([s], more) else ([], rest)
        | [] => ([], [])
      let ds := digits.takeWhile isDigit
      if ds.isEmpty then none else some (e :: sign ++ ds, digits.drop ds.length)
    else none
  | [] => none

/-- A minus, if one is next. -/
def minus (t : Text) : Text × Text :=
  match t with
  | p :: rest => if p.char == '-' then ([p], rest) else ([], t)
  | [] => ([], [])

/-- The digits before the point, without leading zeros. -/
def whole? (t : Text) : Option Text :=
  match t with
  | p :: rest =>
    if !isDigit p then none
    else if p.char == '0' then some [p]
    else some (p :: rest.takeWhile isDigit)
  | [] => none

/-- A point with the digits after it, if they are next. -/
def fraction (t : Text) : Text × Text :=
  match t with
  | p :: rest =>
    let ds := rest.takeWhile isDigit
    if p.char == '.' && !ds.isEmpty then (p :: ds, rest.drop ds.length) else ([], t)
  | [] => ([], [])

/-- The number with the given parts; with a fraction or an exponent it is a float. -/
def numberOf? (sign whole fraction power : Text) : Option Document :=
  if fraction.isEmpty && power.isEmpty then
    if Text.maxDigits < whole.length then none else (Text.int? 10 (sign ++ whole)).map .int
  else (Double.read? (sign ++ whole ++ fraction ++ power)).map .float

def number? (t : Text) : Option (Document × Text) := do
  let (sign, body) := minus t
  let whole ← whole? body
  let (fraction, rest) := fraction (body.drop whole.length)
  let (power, rest) := (exponent? rest).getD ([], rest)
  return (← numberOf? sign whole fraction power, rest)

def words : List (String × Document) :=
  [("null", .null), ("true", .bool true), ("false", .bool false), ("NaN", .float .nan),
    ("Infinity", .float (.infinite false)), ("-Infinity", .float (.infinite true))]

def word? (t : Text) : Option (Document × Text) :=
  words.findSome? fun (w, d) => (t.dropStart? (Text.ofString w)).map fun rest => (d, rest)

/-- The name of a member and the colon after it. -/
def name? (t : Text) : Option (Text × Text) :=
  match t with
  | [] => none
  | q :: rest =>
    if q.char == '"' then
      (stringRest? (rest.length + 1) [] rest).bind fun (name, rest) =>
        match skipGaps rest with
        | [] => none
        | c :: rest => if c.char == ':' then some (name, rest) else none
    else none

mutual

def value : Nat → Text → Option (Document × Text)
  | 0, _ => none
  | fuel + 1, t =>
    match t with
    | [] => none
    | p :: rest =>
      if p.char == '"' then
        (stringRest? (rest.length + 1) [] rest).map fun (s, rest) => (.text s, rest)
      else if p.char == '[' then
        match skipGaps rest with
        | [] => none
        | q :: more =>
          if q.char == ']' then some (.list [], more)
          else (items fuel (q :: more)).map fun (ds, rest) => (.list ds, rest)
      else if p.char == '\x7b' then
        match skipGaps rest with
        | [] => none
        | q :: more =>
          if q.char == '\x7d' then some (.object [], more)
          else (members fuel (q :: more)).map fun (ms, rest) => (.object (Members.ofList ms), rest)
      else (word? (p :: rest)).or (number? (p :: rest))

def items : Nat → Text → Option (List Document × Text)
  | 0, _ => none
  | fuel + 1, t =>
    (value fuel t).bind fun (d, rest) =>
      match skipGaps rest with
      | [] => none
      | p :: rest =>
        if p.char == ']' then some ([d], rest)
        else if p.char == ',' then
          (items fuel (skipGaps rest)).map fun (ds, rest) => (d :: ds, rest)
        else none

def members : Nat → Text → Option (List (Text × Document) × Text)
  | 0, _ => none
  | fuel + 1, t =>
    (name? t).bind fun (name, rest) =>
      (value fuel (skipGaps rest)).bind fun (d, rest) =>
        match skipGaps rest with
        | [] => none
        | p :: rest =>
          if p.char == '\x7d' then some ([(name, d)], rest)
          else if p.char == ',' then
            (members fuel (skipGaps rest)).map fun (ms, rest) => ((name, d) :: ms, rest)
          else none

end

/-- Reads a text that is one JSON value with gaps around it. Every nested value lies behind a
character of its own. -/
def ofText? (t : Text) : Option Document := do
  let (d, rest) ← value (2 * t.length + 2) (skipGaps t)
  if (skipGaps rest).isEmpty then some d else none

/-- The bytes after a mark, if they begin with it. -/
def afterMark? (mark bs : Bytes) : Option Bytes :=
  if mark.isPrefixOf bs then some (bs.drop mark.length) else none

/-- The text of the bytes: the encoding is known from a mark at the start or from where zeros
stand among the first bytes. -/
def decode? (bs : Bytes) : Option Text :=
  if let some rest := afterMark? [0x00, 0x00, 0xFE, 0xFF] bs then rest.text32? true
  else if let some rest := afterMark? [0xFF, 0xFE, 0x00, 0x00] bs then rest.text32? false
  else if let some rest := afterMark? [0xFE, 0xFF] bs then rest.text16? true true
  else if let some rest := afterMark? [0xFF, 0xFE] bs then rest.text16? false true
  else if let some rest := afterMark? [0xEF, 0xBB, 0xBF] bs then rest.text? true
  else match bs with
  | a :: b :: c :: d :: _ =>
    if a == 0 then
      if b != 0 then bs.text16? true true else bs.text32? true
    else if b == 0 then
      if c != 0 || d != 0 then bs.text16? false true else bs.text32? false
    else bs.text? true
  | [a, b] =>
    if a == 0 then bs.text16? true true
    else if b == 0 then bs.text16? false true
    else bs.text? true
  | _ => bs.text? true

/-- Reads JSON from bytes. -/
def read? (bs : Bytes) : Option Document := (decode? bs).bind ofText?

end Conform.Json

import Conform.Yaml.Cursor
import Conform.Double.Decimal
import Conform.Moment
import Conform.Text.Numeral
import Conform.Text.Encoding

/-!
The types of YAML 1.1 scalars: which type a plain scalar has by its form alone, and how the text of
each type is read.
-/
namespace Conform.Yaml

/-- The type of a node. -/
inductive Tag where
  | null
  | bool
  | int
  | float
  | binary
  | timestamp
  | str
  | sequence
  | mapping
  | ordered
  | pairs
  | set
  | merge
  | defaultValue
  | other (uri : Text)
deriving DecidableEq, Repr

namespace Tag

def base : Text := "tag:yaml.org,2002:"

def names : List (String × Tag) :=
  [("null", null), ("bool", bool), ("int", int), ("float", float), ("binary", binary),
    ("timestamp", timestamp), ("str", str), ("seq", sequence), ("map", mapping),
    ("omap", ordered), ("pairs", pairs), ("set", set), ("merge", merge), ("value", defaultValue)]

def ofUri (uri : Text) : Tag :=
  match uri.dropStart? base with
  | some name => ((names.find? fun n => Text.ofString n.1 == name).map (·.2)).getD (other uri)
  | none => other uri

end Tag

namespace Scalar

def isDigit (p : Point) : Bool := '0' ≤ p.char && p.char ≤ '9'

def isSign (p : Point) : Bool := p.char == '-' || p.char == '+'

def isDigitOrMark (p : Point) : Bool := isDigit p || p.char == '_'

def dropSign : Text → Text
  | p :: rest => if isSign p then rest else p :: rest
  | [] => []

def oneOf (words : List String) (t : Text) : Bool := words.any fun w => Text.ofString w == t

def isBool (t : Text) : Bool :=
  oneOf ["yes", "Yes", "YES", "no", "No", "NO", "true", "True", "TRUE", "false", "False", "FALSE",
    "on", "On", "ON", "off", "Off", "OFF"] t

def isNull (t : Text) : Bool := oneOf ["", "~", "null", "Null", "NULL"] t

/-- A digit, then digits and underscores; the rest is returned. -/
def digits? (t : Text) : Option Text :=
  match t with
  | p :: rest => if isDigit p then some (rest.dropWhile isDigitOrMark) else none
  | [] => none

/-- Nothing, or an exponent with a sign. -/
def isExponent : Text → Bool
  | [] => true
  | e :: s :: rest =>
    (e.char == 'e' || e.char == 'E') && isSign s && !rest.isEmpty && rest.all isDigit
  | _ => false

/-- Passes groups of a colon and one or two digits, the first of two below six. -/
def sixties : Nat → Text → Text
  | 0, t => t
  | fuel + 1, t =>
    match t with
    | c :: a :: rest =>
      if c.char == ':' && isDigit a then
        match rest with
        | b :: more =>
          if isDigit b then (if a.char ≤ '5' then sixties fuel more else t)
          else sixties fuel rest
        | [] => []
      else t
    | _ => t

/-- Whether the text is one or more groups in base sixty, up to `after`. -/
def isSixties (t : Text) (after : Text → Bool) : Bool :=
  t.length != (sixties t.length t).length && after (sixties t.length t)

def isPointTail : Text → Bool
  | p :: rest => p.char == '.' && rest.all isDigitOrMark
  | [] => false

def isFloat (t : Text) : Bool :=
  let unsigned := dropSign t
  let plainForm := match digits? unsigned with
    | some (p :: rest) => p.char == '.' && isExponent (rest.dropWhile isDigitOrMark)
    | _ => false
  let pointForm := match t with
    | p :: rest => p.char == '.' && (match digits? rest with
      | some rest => isExponent rest
      | none => false)
    | [] => false
  let sixtyForm := match digits? unsigned with
    | some rest => isSixties rest isPointTail
    | none => false
  plainForm || pointForm || sixtyForm || oneOf [".inf", ".Inf", ".INF"] unsigned
    || oneOf [".nan", ".NaN", ".NAN"] t

def isInt (t : Text) : Bool :=
  match dropSign t with
  | [] => false
  | a :: rest =>
    if a.char == '0' then
      match rest with
      | [] => true
      | b :: more =>
        if b.char == 'b' then
          !more.isEmpty && more.all fun p => p.char == '0' || p.char == '1' || p.char == '_'
        else if b.char == 'x' then
          !more.isEmpty && more.all fun p =>
            p.char == '_' || p.char.isDigit || ('a' ≤ p.char && p.char ≤ 'f')
              || ('A' ≤ p.char && p.char ≤ 'F')
        else rest.all fun p => ('0' ≤ p.char && p.char ≤ '7') || p.char == '_'
    else if isDigit a then
      let rest := rest.dropWhile isDigitOrMark
      rest.isEmpty || isSixties rest List.isEmpty
    else false

/-- Up to `most` digits, at least `least`. -/
def takeDigits (least most : Nat) (t : Text) : Option (Text × Text) :=
  let ds := (t.takeWhile isDigit).take most
  if ds.length < least then none else some (ds, t.drop ds.length)

def takeChar (c : Char) : Text → Option Text
  | p :: rest => if p.char == c then some rest else none
  | [] => none

def isGap (p : Point) : Bool := p.char == ' ' || p.char == '\t'

/-- The parts of a date, and of the time of day if one follows: its fraction and its zone, where a
zone of nothing stands for universal time. -/
structure Stamp where
  year : Text
  month : Text
  day : Text
  time : Option (Text × Text × Text × Text × Option (Option (Bool × Text × Text)))

def zone? (t : Text) : Option (Option (Option (Bool × Text × Text))) :=
  if t.isEmpty then some none
  else
    match t.dropWhile isGap with
    | [] => none
    | p :: rest =>
      if p.char == 'Z' then (if rest.isEmpty then some (some none) else none)
      else if isSign p then do
        let (h, rest) ← takeDigits 1 2 rest
        if rest.isEmpty then return some (some (p.char == '-', h, []))
        let (m, rest) ← takeDigits 2 2 (← takeChar ':' rest)
        if rest.isEmpty then return some (some (p.char == '-', h, m)) else none
      else none

def time? (t : Text) :
    Option (Text × Text × Text × Text × Option (Option (Bool × Text × Text))) := do
  let afterMark := match t with
    | p :: rest => if p.char == 'T' || p.char == 't' then rest else t.dropWhile isGap
    | [] => []
  if afterMark.length == t.length then none
  let (h, t) ← takeDigits 1 2 afterMark
  let (m, t) ← takeDigits 2 2 (← takeChar ':' t)
  let (s, t) ← takeDigits 2 2 (← takeChar ':' t)
  let (f, t) := match takeChar '.' t with
    | some rest => (rest.takeWhile isDigit, rest.dropWhile isDigit)
    | none => ([], t)
  return (h, m, s, f, ← zone? t)

/-- Cuts a text into the parts of a date. Without a time of day, `strict` asks for two digits of
month and day. -/
def stamp? (strict : Bool) (t : Text) : Option Stamp := do
  let (y, t) ← takeDigits 4 4 t
  let (m, t) ← takeDigits 1 2 (← takeChar '-' t)
  let (d, t) ← takeDigits 1 2 (← takeChar '-' t)
  if t.isEmpty then
    if strict && (m.length != 2 || d.length != 2) then none
    return ⟨y, m, d, none⟩
  return ⟨y, m, d, some (← time? t)⟩

/-- The type of a scalar without a tag, by its form. Dates count only if `dates` is set. -/
def implicitTag (dates : Bool) (text : Text) : Tag :=
  -- A form may be followed by one line feed.
  let t := if text.endsWith "\n" then text.dropLast else text
  if isBool t then .bool
  else if isFloat t then .float
  else if isInt t then .int
  else if t == "<<" then .merge
  else if isNull t then .null
  else if dates && (stamp? true t).isSome then .timestamp
  else if t == "=" then .defaultValue
  else .str

abbrev Read := Except Fault

def readBool (t : Text) : Read Bool :=
  let w := t.lower
  if oneOf ["yes", "true", "on"] w then .ok true
  else if oneOf ["no", "false", "off"] w then .ok false
  else .error (.notBoolean w)

def intIn (base : Nat) (t : Text) : Read Int :=
  match t.int? base with
  | some n =>
    if base == 10 && Text.maxDigits < t.countDigits then .error (.tooManyDigits t.countDigits)
    else .ok n
  | none => .error (.notInteger base t)

/-- Reads a whole number: binary, octal, hexadecimal, decimal, or in base sixty. -/
def readInt (text : Text) : Read Int := do
  let (negative, t) := Text.takeSign (text.eraseChar '_')
  let sign (n : Int) : Int := if negative then -n else n
  if text.eraseChar '_' == [] then .error .emptyNumber
  if t == "0" then return 0
  if t.startsWith "0b" then return sign (← intIn 2 (t.drop 2))
  if t.startsWith "0x" then return sign (← intIn 16 (t.drop 2))
  if t.isEmpty then .error .emptyNumber
  if t.startsWith "0" then return sign (← intIn 8 t)
  if t.containsChar ':' then
    let parts ← (t.splitOn ':').mapM (intIn 10)
    return sign (parts.foldl (fun n d => n * 60 + d) 0)
  return sign (← intIn 10 t)

def floatIn (t : Text) : Read Double :=
  match Double.read? t with
  | some x => .ok x
  | none => .error (.notFloat t)

/-- Reads a floating-point number, possibly in base sixty. -/
def readFloat (text : Text) : Read Double := do
  let plain := (text.eraseChar '_').lower
  let (negative, t) := Text.takeSign plain
  let sign (x : Double) : Double := if negative then x.neg else x
  if plain.isEmpty then .error .emptyNumber
  if t == ".inf" then return sign (.infinite false)
  if t == ".nan" then return .nan
  if t.containsChar ':' then
    let parts ← (t.splitOn ':').mapM floatIn
    let (total, _) := parts.reverse.foldl
      (fun (sum, unit) x => (Double.add sum (Double.mul x (Double.ofQuotient unit 1)), unit * 60))
      (Double.zero, (1 : Int))
    return sign total
  return sign (← floatIn t)

def sextet? (c : Char) : Option Nat :=
  if 'A' ≤ c && c ≤ 'Z' then some (c.toNat - 65)
  else if 'a' ≤ c && c ≤ 'z' then some (c.toNat - 71)
  else if '0' ≤ c && c ≤ '9' then some (c.toNat + 4)
  else if c == '+' then some 62
  else if c == '/' then some 63
  else none

/-- Reads base 64, passing over foreign characters. `quad` is how many characters of a group of
four are read, `left` their bits not yet given out, and `pads` how many padding signs stand here. -/
def base64 : List Char → Nat → Nat → Nat → Bytes → Option Bytes
  | [], quad, _, _, acc => if quad == 0 then some acc.reverse else none
  | c :: rest, quad, left, pads, acc =>
    if c == '=' then
      if 2 ≤ quad then
        if 4 ≤ quad + pads + 1 then some acc.reverse else base64 rest quad left (pads + 1) acc
      else base64 rest quad left pads acc
    else match sextet? c with
      | none => base64 rest quad left pads acc
      | some s =>
        if quad == 0 then base64 rest 1 s 0 acc
        else if quad == 1 then base64 rest 2 (s % 16) 0 (UInt8.ofNat (left * 4 + s / 16) :: acc)
        else if quad == 2 then base64 rest 3 (s % 4) 0 (UInt8.ofNat (left * 16 + s / 4) :: acc)
        else base64 rest 0 0 0 (UInt8.ofNat (left * 64 + s) :: acc)

def readBinary (t : Text) : Read Bytes :=
  if t.isAscii then
    match base64 t.chars 0 0 0 [] with
    | some bs => .ok bs
    | none => .error .malformed
  else .error .malformed

def number (t : Text) : Nat := ((t.int? 10).getD 0).toNat

/-- Reads a date. A zone is a distance of whole minutes from universal time. -/
def readMoment (t : Text) : Read Moment :=
  match stamp? false (if t.endsWith "\n" then t.dropLast else t) with
  | none => .error .notMoment
  | some s =>
    let date : Date := ⟨number s.year, number s.month, number s.day⟩
    let time := s.time.map fun (h, m, sec, f, zone) =>
      let offset : Option Int := zone.map fun
        | none => 0
        | some (negative, h, m) =>
          let n : Int := number h * 60 + number m
          if negative then -n else n
      (⟨number h, number m, number sec, number ((f ++ "000000").take 6), offset⟩ : Time)
    let m : Moment := ⟨date, time⟩
    match m.fault? with
    | none => .ok m
    | some fault => .error (.noSuchMoment fault)

end Scalar
end Conform.Yaml

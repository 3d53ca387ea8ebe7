import Conform.Double
import Conform.Text.Letter
import Conform.Text.Blank
import Conform.Text.Case

/-!
Decimal writing of floating-point numbers: the shortest digits that read back, fixed places, and
the reading of decimal text.
-/
namespace Conform
namespace Double

/-- The number nearest to `± digits · 10 ^ power`. Powers far outside the range are decided
without computing them. -/
def ofDecimal (negative : Bool) (digits : Nat) (power : Int) : Double :=
  if digits = 0 then finite negative 0 minExponent
  else
    let places : Int := (Nat.toDigits 10 digits).length + power
    if 400 < places then infinite negative
    else if places < -400 then finite negative 0 minExponent
    else ofRatio negative (digits * Nat.pow 10 power.toNat) (Nat.pow 10 (-power).toNat)

/-- The place of the point: the value lies in `[10 ^ (p - 1), 10 ^ p)`. -/
def pointPlace (num den : Nat) : Int :=
  if den ≤ num then (Nat.toDigits 10 (num / den)).length
  else
    -- The quotient of the inverse has as many digits as the value has leading zeros, or one more.
    let k : Int := (Nat.toDigits 10 (den / num)).length
    if den ≤ num * Nat.pow 10 k.toNat then
      (if den ≤ num * Nat.pow 10 (k - 1).toNat then 2 - k else 1 - k)
    else -k

/-- The two neighbours of the value among the numbers with `n` digits, and which is nearer. -/
def neighbours (num den : Nat) (place : Int) (n : Nat) : Nat × Nat × Bool :=
  let power := place - n
  let a := num * Nat.pow 10 (-power).toNat
  let b := den * Nat.pow 10 power.toNat
  let low := a / b
  let r := a % b
  (low, low + 1, 2 * r < b || (2 * r == b && low % 2 == 0))

/-- All digits of a finite number, and the power of ten with which they are its value. -/
def exact (m : Nat) (e : Int) : Nat × Int :=
  (m * Nat.pow 2 e.toNat * Nat.pow 5 (-e).toNat, -(-e).toNat)

/-- The fewest digits that read back as the number, the nearest such, as digits and a power of
ten; if up to seventeen digits do not, which never happens, all its digits. -/
def shortest (m : Nat) (e : Int) : Nat × Int :=
  let num := m * Nat.pow 2 e.toNat
  let den := Nat.pow 2 (-e).toNat
  let place := pointPlace num den
  let target := finite false m e
  go num den place target (exact m e) 17 1
where
  go (num den : Nat) (place : Int) (target : Double) (otherwise : Nat × Int) : Nat → Nat → Nat × Int
    | 0, _ => otherwise
    | left + 1, n =>
      let power := place - n
      let (low, high, lowNearer) := neighbours num den place n
      let okLow := ofDecimal false low power == target
      let okHigh := ofDecimal false high power == target
      if okLow && (lowNearer || !okHigh) then (low, power)
      else if okHigh then (high, power)
      else go num den place target otherwise left (n + 1)

/-- Drops the zeros at the end of a number's digits, each raising the power by one. -/
def dropZeros : Nat → Nat × Int → Nat × Int
  | 0, r => r
  | fuel + 1, (d, p) => if d ≠ 0 ∧ d % 10 = 0 then dropZeros fuel (d / 10, p + 1) else (d, p)

def sign (negative : Bool) (t : Text) : Text := if negative then "-" ++ t else t

/-- The shortest decimal text. Exponents from -4 to 15 are written out with a point and at least
one digit on each side; others have an exponent of at least two digits. -/
def display : Double → Text
  | nan => "nan"
  | infinite s => sign s "inf"
  | finite s m e =>
    if m = 0 then sign s "0.0"
    else
      let (digits, power) := dropZeros 20 (shortest m e)
      let ds := Text.ofNat digits
      let place : Int := ds.length + power
      sign s <|
        if -4 < place ∧ place ≤ 16 then
          if place ≤ 0 then "0." ++ Text.repeatChar (-place).toNat '0' ++ ds
          else if power < 0 then ds.take place.toNat ++ "." ++ ds.drop place.toNat
          else ds ++ Text.repeatChar power.toNat '0' ++ ".0"
        else
          let exponent := place - 1
          let fraction := if ds.length ≤ 1 then [] else "." ++ ds.drop 1
          ds.take 1 ++ fraction ++ "e" ++ (if exponent < 0 then "-" else "+")
            ++ Text.padLeft '0' 2 (Text.ofNat exponent.natAbs)

/-- The value with exactly `places` digits after the point, rounded to nearest with ties to even. -/
def fixed (places : Nat) : Double → Text
  | nan => "nan"
  | infinite s => sign s "inf"
  | finite s m e =>
    let n := divRoundEven (m * Nat.pow 2 e.toNat * Nat.pow 10 places) (Nat.pow 2 (-e).toNat)
    let ds := Text.padLeft '0' (places + 1) (Text.ofNat n)
    let whole := ds.length - places
    sign s (ds.take whole ++ (if places = 0 then [] else "." ++ ds.drop whole))

/-- Digits, possibly in groups joined by single underscores. -/
def digitGroups : Text → Option (List Nat × Text)
  | [] => none
  | p :: rest => match p.decimal? with
    | none => none
    | some d => some (more [d] rest)
where
  more (acc : List Nat) : Text → List Nat × Text
    | [] => (acc.reverse, [])
    | [p] => match p.decimal? with
      | some d => ((d :: acc).reverse, [])
      | none => (acc.reverse, [p])
    | p :: q :: rest => match p.decimal? with
      | some d => more (d :: acc) (q :: rest)
      | none =>
        if p.char == '_' then
          match q.decimal? with
          | some d => more (d :: acc) rest
          | none => (acc.reverse, p :: q :: rest)
        else (acc.reverse, p :: q :: rest)

def ofDigits (ds : List Nat) : Nat := ds.foldl (fun n d => n * 10 + d) 0

/-- Reads the exponent, or nothing at the end of the text. -/
def readExponent : Text → Option Int
  | [] => some 0
  | p :: rest =>
    if p.char == 'e' || p.char == 'E' then
      let (negative, rest) := takeSign rest
      match digitGroups rest with
      | some (ds, []) => some (if negative then -(ofDigits ds : Int) else ofDigits ds)
      | _ => none
    else none
where
  takeSign : Text → Bool × Text
    | [] => (false, [])
    | p :: rest =>
      if p.char == '-' then (true, rest) else if p.char == '+' then (false, rest)
      else (false, p :: rest)

/-- Reads a decimal text: a sign, digits with an optional point, an optional exponent, or the
words for infinity and NaN, with blanks around it. -/
def read? (t : Text) : Option Double :=
  let (negative, body) := readExponent.takeSign t.strip
  let word := body.lower
  if word == "inf" || word == "infinity" then some (infinite negative)
  else if word == "nan" then some nan
  else
    let (whole, rest) := (digitGroups body).getD ([], body)
    let (fraction, rest) : Option (List Nat) × Text := match rest with
      | p :: after =>
        if p.char == '.' then
          match digitGroups after with
          | some (ds, r) => (some ds, r)
          | none => (some [], after)
        else (none, rest)
      | [] => (none, [])
    let places := fraction.getD []
    if whole.isEmpty && places.isEmpty then none
    else (readExponent rest).map fun power =>
      ofDecimal negative (ofDigits (whole ++ places)) (power - places.length)

end Double
end Conform

/-!
Binary floating-point numbers of 64 bits as exact values. Every operation takes the exact rational
result and rounds it once, to nearest with ties to the even mantissa.
-/
namespace Conform

/-- A finite number is `± mantissa · 2 ^ exponent`. Numbers made by `Double.ofRatio` have the
largest mantissa below `2 ^ 53` that their exponent allows, so equal values are equal terms, zeros
of different sign apart. -/
inductive Double where
  | nan
  | infinite (negative : Bool)
  | finite (negative : Bool) (mantissa : Nat) (exponent : Int)
deriving DecidableEq, Repr, Inhabited

namespace Double

/-- The least exponent of a finite number. -/
def minExponent : Int := -1074

/-- The greatest exponent of a finite number. -/
def maxExponent : Int := 971

def zero : Double := finite false 0 minExponent

/-- The quotient rounded to a natural number, a half going to the even neighbour. -/
def divRoundEven (num den : Nat) : Nat :=
  let q := num / den
  let r := num % den
  if 2 * r < den then q
  else if den < 2 * r then q + 1
  else q + q % 2

/-- `num / (den · 2 ^ e)` as a quotient of natural numbers. -/
def scaled (num den : Nat) (e : Int) : Nat × Nat :=
  (num * Nat.pow 2 (-e).toNat, den * Nat.pow 2 e.toNat)

/-- The exponent at which `num / den` has a mantissa of 53 bits, or the least exponent if that is
higher. -/
def fittingExponent (num den : Nat) : Int :=
  let l : Int := (Nat.log2 num : Int) - (Nat.log2 den : Int)
  let (n, d) := scaled num den l
  max minExponent (if n < d then l - 53 else l - 52)

/-- The number nearest to `num / den`; beyond the finite range it is infinite. -/
def ofRatio (negative : Bool) (num den : Nat) : Double :=
  if num = 0 then finite negative 0 minExponent
  else
    let e := fittingExponent num den
    let (n, d) := scaled num den e
    let m := divRoundEven n d
    let (m, e) := if m = Nat.pow 2 53 then (Nat.pow 2 52, e + 1) else (m, e)
    if maxExponent < e then infinite negative else finite negative m e

/-- The value as a quotient, for a finite number. -/
def ratio? : Double → Option (Int × Nat)
  | finite neg m e =>
    let n : Int := m * Nat.pow 2 e.toNat
    some (if neg then -n else n, Nat.pow 2 (-e).toNat)
  | _ => none

/-- The quotient of whole numbers rounded; a zero is positive. -/
def ofQuotient (num : Int) (den : Nat) : Double := ofRatio (num < 0) num.natAbs den

/-- The nearest number, unless it is infinite. -/
def ofInt? (n : Int) : Option Double :=
  match ofQuotient n 1 with
  | .infinite _ => none
  | d => some d

def isFinite : Double → Bool
  | finite .. => true
  | _ => false

def isNegative : Double → Bool
  | nan => false
  | infinite neg => neg
  | finite neg _ _ => neg

def isZero : Double → Bool
  | finite _ m _ => m == 0
  | _ => false

/-- Whether the value is a whole number. -/
def isWhole : Double → Bool
  | finite _ m e => m % Nat.pow 2 (-e).toNat == 0
  | _ => false

/-- The value without its fraction, for a finite number. -/
def truncate? (a : Double) : Option Int := a.ratio?.map fun (n, d) => n.tdiv d

def neg : Double → Double
  | nan => nan
  | infinite s => infinite (!s)
  | finite s m e => finite (!s) m e

def compareRatio (a b : Int × Nat) : Ordering := compare (a.1 * b.2) (b.1 * a.2)

/-- The order of two numbers by exact value; NaN has none. -/
def compare? : Double → Double → Option Ordering
  | nan, _ => none
  | _, nan => none
  | infinite s, infinite t => some (compare t.toNat s.toNat)
  | infinite s, finite .. => some (if s then .lt else .gt)
  | finite .., infinite t => some (if t then .gt else .lt)
  | a@(finite ..), b@(finite ..) =>
    match a.ratio?, b.ratio? with
    | some x, some y => some (compareRatio x y)
    | _, _ => none

/-- The order of a number and a whole number by exact value. -/
def compareInt? (a : Double) (n : Int) : Option Ordering :=
  match a with
  | nan => none
  | infinite s => some (if s then .lt else .gt)
  | finite .. => a.ratio?.map (compareRatio · (n, 1))

def lt (a b : Double) : Bool := compare? a b == some .lt

def isPositive (a : Double) : Bool := zero.lt a

def le (a b : Double) : Bool := a.lt b || compare? a b == some .eq

def add : Double → Double → Double
  | nan, _ => nan
  | _, nan => nan
  | infinite s, infinite t => if s == t then infinite s else nan
  | infinite s, finite .. => infinite s
  | finite .., infinite t => infinite t
  | a@(finite s m _), b@(finite t n _) =>
    match a.ratio?, b.ratio? with
    | some (p, q), some (r, u) =>
      if m == 0 && n == 0 then finite (s && t) 0 minExponent
      else ofQuotient (p * u + r * q) (q * u)
    | _, _ => nan

def mul : Double → Double → Double
  | nan, _ => nan
  | _, nan => nan
  | a@(finite s _ _), b@(finite t _ _) =>
    match a.ratio?, b.ratio? with
    | some (p, q), some (r, u) => ofRatio (s != t) (p * r).natAbs (q * u)
    | _, _ => nan
  | a, b => if a.isZero || b.isZero then nan else infinite (a.isNegative != b.isNegative)

/-- The quotient; the divisor is not zero. -/
def div : Double → Double → Double
  | nan, _ => nan
  | _, nan => nan
  | infinite _, infinite _ => nan
  | infinite s, b => infinite (s != b.isNegative)
  | a, infinite t => finite (a.isNegative != t) 0 minExponent
  | a@(finite s _ _), b@(finite t _ _) =>
    match a.ratio?, b.ratio? with
    | some (p, q), some (r, u) => ofRatio (s != t) (p.natAbs * u) (q * r.natAbs)
    | _, _ => nan

/-- Whether `a` is a whole multiple of `b`, by exact value; `b` is finite and not zero. -/
def isMultiple (a b : Double) : Bool :=
  match a.ratio?, b.ratio? with
  | some (p, q), some (r, u) => (p.natAbs * u) % (q * r.natAbs) == 0
  | _, _ => false

end Double

end Conform

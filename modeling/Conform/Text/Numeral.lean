import Conform.Text.Letter
import Conform.Text.Blank

/-!
Whole numbers written in a base up to sixteen: blanks around, a sign, for the bases 2, 8 and 16 an
optional mark of the base, and digits of any script with single underscores between them.
-/
namespace Conform
namespace Text

/-- The value of a point as a digit. -/
def digitValue? (p : Point) : Option Nat :=
  match p.decimal? with
  | some d => some d
  | none =>
    let c := p.char
    if !p.isAscii then none
    else if 'a' ≤ c && c ≤ 'z' then some (c.toNat - 87)
    else if 'A' ≤ c && c ≤ 'Z' then some (c.toNat - 55)
    else none

/-- Digits in the base, none of them missing, with single underscores between them. -/
def digitRun (base : Nat) : Bool → Nat → Text → Option Nat
  | afterDigit, n, [] => if afterDigit then some n else none
  | afterDigit, n, p :: rest =>
    if p.char == '_' then (if afterDigit then digitRun base false n rest else none)
    else match digitValue? p with
      | some d => if d < base then digitRun base true (n * base + d) rest else none
      | none => none

/-- Drops the mark of the base, such as `0x`, and an underscore after it. -/
def dropBaseMark (base : Nat) (t : Text) : Text :=
  let marks : List Char :=
    if base == 16 then ['x', 'X'] else if base == 8 then ['o', 'O']
    else if base == 2 then ['b', 'B'] else []
  match t with
  | a :: b :: rest =>
    if a.char == '0' && marks.contains b.char then
      match rest with
      | c :: more => if c.char == '_' then more else rest
      | [] => rest
    else t
  | _ => t

/-- Splits off a sign; the flag says whether it was a minus. -/
def takeSign : Text → Bool × Text
  | [] => (false, [])
  | p :: rest =>
    if p.char == '-' then (true, rest) else if p.char == '+' then (false, rest)
    else (false, p :: rest)

/-- Reads a whole number. -/
def int? (base : Nat) (t : Text) : Option Int :=
  let (negative, digits) := takeSign t.strip
  (digitRun base false 0 (dropBaseMark base digits)).map fun n => if negative then -n else n

/-- The most digits a decimal number is read from. -/
def maxDigits : Nat := 4300

def countDigits (t : Text) : Nat := t.countP fun p => (digitValue? p).isSome

end Text
end Conform

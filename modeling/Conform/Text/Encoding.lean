import Conform.Text

/-!
Byte encodings of text. Reading UTF-8 never accepts an overlong form; whether encoded surrogates
are accepted, and whether malformed bytes end the reading or become U+FFFD, is up to the caller.
-/
namespace Conform

abbrev Bytes := List UInt8

namespace Bytes

/-- The continuation bytes of one point. The first of them must lie between `lo` and `hi`. -/
def continuation : Bytes → Nat → Nat → Nat → Nat → Option Nat × Bytes
  | bs, 0, acc, _, _ => (some acc, bs)
  | [], _ + 1, _, _, _ => (none, [])
  | b :: bs, k + 1, acc, lo, hi =>
    if lo ≤ b.toNat && b.toNat ≤ hi then
      continuation bs k (acc * 64 + (b.toNat - 0x80)) 0x80 0xBF
    else (none, b :: bs)

/-- The first point and the rest. Of a malformed sequence the longest part that could have begun a
point is passed over. -/
def nextPoint? (surrogates : Bool) : Bytes → Option (Option Nat × Bytes)
  | [] => none
  | b :: bs =>
    let n := b.toNat
    some <|
      if n < 0x80 then (some n, bs)
      else if n < 0xC2 then (none, bs)
      else if n < 0xE0 then continuation bs 1 (n - 0xC0) 0x80 0xBF
      else if n < 0xF0 then
        continuation bs 2 (n - 0xE0) (if n == 0xE0 then 0xA0 else 0x80)
          (if n == 0xED && !surrogates then 0x9F else 0xBF)
      else if n < 0xF5 then
        continuation bs 3 (n - 0xF0) (if n == 0xF0 then 0x90 else 0x80)
          (if n == 0xF4 then 0x8F else 0xBF)
      else (none, bs)

/-- The points of the bytes in order, with nothing for each malformed part. -/
def points (surrogates : Bool) (bs : Bytes) : List (Option Point) := go bs.length bs
where
  go : Nat → Bytes → List (Option Point)
    | 0, _ => []
    | fuel + 1, bs => match nextPoint? surrogates bs with
      | none => []
      | some (n, rest) => n.bind Point.ofNat? :: go fuel rest

/-- Reads UTF-8, refusing malformed bytes. -/
def text? (bs : Bytes) (surrogates : Bool := false) : Option Text := (points surrogates bs).mapM id

/-- Reads UTF-8, with U+FFFD for each malformed part. -/
def textLossy (bs : Bytes) : Text := (points false bs).map (·.getD Point.replacement)

/-- Groups bytes into units of two, in the given order. -/
def units16? (big : Bool) : Bytes → Option (List Nat)
  | [] => some []
  | [_] => none
  | a :: b :: rest =>
    let n := if big then a.toNat * 256 + b.toNat else b.toNat * 256 + a.toNat
    (units16? big rest).map (n :: ·)

/-- Joins the two halves of a pair of surrogates; other surrogates are kept alone or refused. -/
def joinPairs? (lone : Bool) : List Nat → Option (List Nat)
  | [] => some []
  | [u] => if 0xD800 ≤ u && u < 0xE000 && !lone then none else some [u]
  | u :: v :: rest =>
    if 0xD800 ≤ u && u < 0xDC00 && 0xDC00 ≤ v && v < 0xE000 then
      (joinPairs? lone rest).map ((0x10000 + (u - 0xD800) * 0x400 + (v - 0xDC00)) :: ·)
    else if 0xD800 ≤ u && u < 0xE000 && !lone then none
    else (joinPairs? lone (v :: rest)).map (u :: ·)

/-- Reads UTF-16. -/
def text16? (big lone : Bool) (bs : Bytes) : Option Text := do
  let ns ← joinPairs? lone (← units16? big bs)
  ns.mapM Point.ofNat?

/-- Reads UTF-32. -/
def text32? (big : Bool) : Bytes → Option Text
  | [] => some []
  | a :: b :: c :: d :: rest => do
    let four := if big then [a, b, c, d] else [d, c, b, a]
    let p ← Point.ofNat? (four.foldl (fun n x => n * 256 + x.toNat) 0)
    return p :: (← text32? big rest)
  | _ => none

end Bytes

namespace Point

def utf8 (p : Point) : Bytes :=
  let n := p.val
  let byte (k : Nat) : UInt8 := UInt8.ofNat k
  if n < 0x80 then [byte n]
  else if n < 0x800 then [byte (0xC0 + n / 64), byte (0x80 + n % 64)]
  else if n < 0x10000 then
    [byte (0xE0 + n / 4096), byte (0x80 + n / 64 % 64), byte (0x80 + n % 64)]
  else
    [byte (0xF0 + n / 262144), byte (0x80 + n / 4096 % 64), byte (0x80 + n / 64 % 64),
      byte (0x80 + n % 64)]

end Point

namespace Text

/-- The text in UTF-8, surrogates encoded like other points. -/
def utf8 (t : Text) : Bytes := t.flatMap Point.utf8

/-- The text in UTF-8; a text with a surrogate has no such form. -/
def utf8? (t : Text) : Option Bytes := if t.hasSurrogate then none else some t.utf8

end Text
end Conform

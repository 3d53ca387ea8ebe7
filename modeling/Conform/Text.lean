/-!
Text as a sequence of code points. A document can name a lone surrogate by an escape, so a text is
more general than a `String`, whose characters exclude surrogates. Everything the library reads or
writes is a `Text`; string literals are coerced.
-/
namespace Conform

/-- A code point, surrogates included. -/
abbrev Point := Fin 0x110000

namespace Point

def ofChar (c : Char) : Point :=
  ⟨c.toNat, by
    have h : c.val.toNat < 0xD800 ∨ 0xDFFF < c.val.toNat ∧ c.val.toNat < 0x110000 := c.valid
    have e : c.toNat = c.val.toNat := rfl
    omega⟩

/-- The point as a character; a surrogate, which is no character, gives NUL. -/
def char (p : Point) : Char := Char.ofNat p.val

def isSurrogate (p : Point) : Bool := 0xD800 ≤ p.val && p.val ≤ 0xDFFF

def isAscii (p : Point) : Bool := p.val < 0x80

/-- A number as a point, if it is small enough to be one. -/
def ofNat? (n : Nat) : Option Point := if h : n < 0x110000 then some ⟨n, h⟩ else none

/-- U+FFFD, which stands for what could not be decoded. -/
def replacement : Point := ⟨0xFFFD, by decide⟩

end Point

/-- A sequence of code points. -/
abbrev Text := List Point

namespace Text

def ofString (s : String) : Text := s.toList.map Point.ofChar

instance : Coe String Text := ⟨ofString⟩

instance : HAppend String Text Text := ⟨fun s t => ofString s ++ t⟩

instance : HAppend Text String Text := ⟨fun t s => t ++ ofString s⟩

def ofChars (cs : List Char) : Text := cs.map Point.ofChar

def chars (t : Text) : List Char := t.map Point.char

/-- The text as a `String`; equal texts have equal strings, and only surrogates are lost. -/
def toString (t : Text) : String :=
  String.ofList (t.map fun p => if p.isSurrogate then Point.replacement.char else p.char)

def isAscii (t : Text) : Bool := t.all Point.isAscii

def hasSurrogate (t : Text) : Bool := t.any Point.isSurrogate

/-- Strict order by code points: at the first difference the smaller point comes first, and a
proper beginning comes before the whole. -/
def lt : Text → Text → Bool
  | [], [] => false
  | [], _ :: _ => true
  | _ :: _, [] => false
  | a :: s, b :: t => if a.val < b.val then true else if b.val < a.val then false else lt s t

def le (s t : Text) : Bool := !lt t s

/-- The texts in ascending order; equal ones keep their places. -/
def sorted (ts : List Text) : List Text := ts.mergeSort le

def ofNat (n : Nat) : Text := ofChars (Nat.toDigits 10 n)

def ofInt : Int → Text
  | .ofNat n => ofNat n
  | .negSucc n => Point.ofChar '-' :: ofNat (n + 1)

def startsWith (t start : Text) : Bool := start.isPrefixOf t

def endsWith (t ending : Text) : Bool := ending.isSuffixOf t

/-- Whether `part` occurs somewhere in the text. -/
def contains (part : Text) : Text → Bool
  | [] => part.isEmpty
  | t@(_ :: rest) => part.isPrefixOf t || contains part rest

def containsChar (t : Text) (c : Char) : Bool := t.any (·.char == c)

/-- The rest after `start`, if the text begins with it. -/
def dropStart? (t start : Text) : Option Text :=
  if start.isPrefixOf t then some (t.drop start.length) else none

/-- Cuts at every separator; there is always one more part than there are separators. -/
def splitOn (sep : Char) : Text → List Text
  | [] => [[]]
  | p :: rest =>
    if p.char == sep then [] :: splitOn sep rest
    else match splitOn sep rest with
      | [] => [[p]]
      | part :: parts => (p :: part) :: parts

/-- The text before and after the first separator. -/
def cut? (sep : Char) : Text → Option (Text × Text)
  | [] => none
  | p :: rest =>
    if p.char == sep then some ([], rest)
    else (cut? sep rest).map fun (before, after) => (p :: before, after)

/-- The text before and after the last separator. -/
def cutLast? (sep : Char) : Text → Option (Text × Text)
  | [] => none
  | p :: rest =>
    match cutLast? sep rest with
    | some (before, after) => some (p :: before, after)
    | none => if p.char == sep then some ([], rest) else none

def join (sep : Text) : List Text → Text
  | [] => []
  | [t] => t
  | t :: rest => t ++ sep ++ join sep rest

/-- Puts `new` for every character `old`. -/
def replaceChar (old new : Char) (t : Text) : Text :=
  t.map fun p => if p.char == old then Point.ofChar new else p

def eraseChar (c : Char) (t : Text) : Text := t.filter (·.char != c)

/-- Puts `new` for the pair of characters `a b`, from left to right. -/
def replacePair (a b : Char) (new : Text) : Text → Text
  | [] => []
  | [p] => [p]
  | p :: q :: rest =>
    if p.char == a && q.char == b then new ++ replacePair a b new rest
    else p :: replacePair a b new (q :: rest)

def padRight (width : Nat) (t : Text) : Text :=
  t ++ List.replicate (width - t.length) (Point.ofChar ' ')

def padLeft (fill : Char) (width : Nat) (t : Text) : Text :=
  List.replicate (width - t.length) (Point.ofChar fill) ++ t

def repeatChar (n : Nat) (c : Char) : Text := List.replicate n (Point.ofChar c)

/-- The text without the characters at its end that satisfy `p`. -/
def dropEndWhile (p : Point → Bool) (t : Text) : Text := (t.reverse.dropWhile p).reverse

end Text

end Conform

import Conform.Text.Letter

/-!
Flags in the middle of an expression. There a group of flags alone, such as `(?i)`, holds for the
rest of the group around it, later alternatives included. It is written out here as groups with
bodies: `a(?i)b|c` becomes `a(?i:b)|(?i:c)`. Flags at the very start hold for all and stay.
-/
namespace Conform.Signatures

def isFlagLetter (p : Point) : Bool :=
  let c := p.char
  ('a' ≤ c && c ≤ 'z') || ('A' ≤ c && c ≤ 'Z')

/-- Letters, and after a minus more letters, and what follows them. -/
def flagRun (t : Text) : Text × Text :=
  let on := t.takeWhile isFlagLetter
  let rest := t.drop on.length
  match rest with
  | p :: after =>
    let off := after.takeWhile isFlagLetter
    if p.char == '-' && !off.isEmpty then (on ++ p :: off, after.drop off.length) else (on, rest)
  | [] => (on, rest)

/-- The flags of a group without a body at the start of a text, and what follows it. -/
def flagGroup? (t : Text) : Option (Text × Text) := do
  let (flags, rest) := flagRun (← t.dropStart? "(?")
  if flags.isEmpty then none
  else return (flags, ← rest.dropStart? ")")

/-- Cuts a text after its groups of flags at the start. -/
def leadingFlags : Nat → Text → Text × Text
  | 0, t => ([], t)
  | fuel + 1, t =>
    match flagGroup? t with
    | some (_, rest) =>
      let (lead, after) := leadingFlags fuel rest
      (t.take (t.length - rest.length) ++ lead, after)
    | none => ([], t)

/-- Whether a group of flags stands somewhere in the text, whatever is around it. -/
def hasFlagGroup : Text → Bool
  | [] => false
  | p :: rest => (flagGroup? (p :: rest)).isSome || hasFlagGroup rest

/-- What a name in a group's opening is made of: a letter or underline, and then also digits. -/
def openingName (t : Text) : Option Text := do
  let t := (t.dropStart? "P").getD t
  match ← t.dropStart? "<" with
  | p :: rest =>
    if isFlagLetter p || p.char == '_' then Text.dropStart? (rest.dropWhile Point.isWord) ">"
    else none
  | [] => none

/-- What remains of a text after the part of a group's opening that follows the question mark. -/
def openingRest (t : Text) : Text :=
  let marks : List Text := ["<=", "<!", "=", "!", ":", "#", "P="]
  match openingName t with
  | some rest => rest
  | none =>
    match marks.findSome? t.dropStart? with
    | some rest => rest
    | none => ((flagRun t).2.dropStart? ":").getD t

/-- Cuts a text that starts with a parenthesis after the opening of the group. -/
def cutOpening (t : Text) : Text × Text :=
  let rest := match t.drop 1 with
    | p :: rest => if p.char == '?' then openingRest rest else p :: rest
    | [] => []
  (t.take (t.length - rest.length), rest)

/-- What remains of a text after the members of a character class. -/
def classRest : Nat → Text → Text
  | 0, t => t
  | _, [] => []
  | fuel + 1, p :: rest =>
    if p.char == ']' then rest
    else if p.char == '\\' then classRest fuel (rest.drop 1)
    else classRest fuel rest

/-- Cuts a text that starts with a bracket after the character class. -/
def cutClass (t : Text) : Text × Text :=
  let body : Text := t.drop 1
  let body := (body.dropStart? "^").getD body
  let body := (body.dropStart? "]").getD body
  let rest := classRest (body.length + 1) body
  (t.take (t.length - rest.length), rest)

/-- The alternatives of a group, the first and the others, with flags written out, and the rest of
the text from the parenthesis that closes the group. -/
structure Scoped where
  first : Text
  others : List Text
  rest : Text

namespace Scoped

def alternatives (s : Scoped) : List Text := s.first :: s.others

/-- Puts a text in front. -/
def after (t : Text) (s : Scoped) : Scoped := { s with first := t ++ s.first }

/-- Writes flags out around every alternative. -/
def under (flags : Text) (s : Scoped) : Scoped :=
  let wrap (t : Text) : Text := "(?" ++ flags ++ ":" ++ t ++ ")"
  { s with first := wrap s.first, others := s.others.map wrap }

end Scoped

/-- Writes flags out in the group that a text is the inside of. Every step passes a character, so
the length bounds the work. -/
def scopeGroup : Nat → Text → Scoped
  | 0, t => ⟨[], [], t⟩
  | _, [] => ⟨[], [], []⟩
  | fuel + 1, p :: rest =>
    let c := p.char
    if c == ')' then ⟨[], [], p :: rest⟩
    else if c == '\\' then (scopeGroup fuel (rest.drop 1)).after (p :: rest.take 1)
    else if c == '[' then
      let (members, rest) := cutClass (p :: rest)
      (scopeGroup fuel rest).after members
    else if c == '|' then
      let s := scopeGroup fuel rest
      { s with first := [], others := s.alternatives }
    else match flagGroup? (p :: rest) with
      | some (flags, rest) => (scopeGroup fuel rest).under flags
      | none =>
        if c == '(' then
          let (opening, body) := cutOpening (p :: rest)
          let inner := scopeGroup fuel body
          let group := opening ++ Text.join "|" inner.alternatives
          match inner.rest with
          | close :: rest => (scopeGroup fuel rest).after (group ++ [close])
          | [] => ⟨group, [], []⟩
        else (scopeGroup fuel rest).after [p]

/-- An expression with the flags in its middle written out. -/
def scopeFlags (t : Text) : Text :=
  let (lead, body) := leadingFlags t.length t
  if hasFlagGroup body then
    let s := scopeGroup (body.length + 1) body
    lead ++ Text.join "|" s.alternatives ++ s.rest
  else t

end Conform.Signatures

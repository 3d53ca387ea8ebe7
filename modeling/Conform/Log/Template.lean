import Conform.Document

/-!
Messages with places for values. A per cent sign and a letter mark a place, and two per cent signs
stand for one.
-/
namespace Conform.Log

/-- A value as the letter of its place asks for it. -/
def placed? (letter : Char) (d : Document) : Option Text :=
  if letter == 's' then some d.plain
  else if letter == 'r' then some d.display
  else if letter == 'd' || letter == 'i' || letter == 'u' then
    match d with
    | .int n => some (Text.ofInt n)
    | .bool b => some (if b then "1" else "0")
    | .float x => x.truncate?.map Text.ofInt
    | _ => none
  else none

/-- Puts values in their places; none if they do not fit. -/
def fill? : Text → List Document → Option Text
  | [], [] => some []
  | [], _ :: _ => none
  | [p], values => if p.char == '%' || !values.isEmpty then none else some [p]
  | p :: q :: rest, values =>
    if p.char != '%' then (fill? (q :: rest) values).map (p :: ·)
    else if q.char == '%' then (fill? rest values).map (p :: ·)
    else match values with
      | [] => none
      | d :: more => do return (← placed? q.char d) ++ (← fill? rest more)

/-- The message; without values the template is taken as it is. -/
def message? (template : Text) (values : List Document) : Option Text :=
  if values.isEmpty then some template else fill? template values

end Conform.Log

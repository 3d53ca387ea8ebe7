import Conform.Failure

/-!
Reading of the fields of a mapping manifest. A field that is not of the expected kind is refused,
with the path that leads to it.
-/
namespace Conform.Mapping.Field

variable {α : Type}

def refuse (path reason : Text) : Except Failure α := .error (.manifestField path reason)

def unexpected (path what : Text) (d : Document) : Except Failure α :=
  refuse path ("expected " ++ what ++ ", got " ++ d.kind)

/-- A member, null if it is missing. -/
def member (ms : Members) (name : Text) : Document := (Members.get? ms name).getD .null

def object (path : Text) : Document → Except Failure Members
  | .object ms => .ok ms
  | d => unexpected path "object" d

/-- The items of a list; null has none. -/
def items (path : Text) : Document → Except Failure (List Document)
  | .null => .ok []
  | .list ds => .ok ds
  | d => unexpected path "array" d

/-- Reads each item of a list; its path ends in its number. -/
def each (path : Text) (ds : List Document) (read : Text → Document → Except Failure α) :
    Except Failure (List α) :=
  ds.zipIdx.mapM fun (d, i) => read (path ++ "[" ++ Text.ofNat i ++ "]") d

/-- A text without blanks around it. -/
def anyText (path : Text) : Document → Except Failure Text
  | .text t => .ok t.strip
  | d => unexpected path "string" d

/-- A text that is not blank. -/
def text (path : Text) (d : Document) : Except Failure Text := do
  let t ← anyText path d
  if t.isEmpty then refuse path "must be at least 1 character(s)" else return t

/-- A text that may be left out. -/
def textOrEmpty (path : Text) (d : Option Document) : Except Failure Text :=
  match d with
  | some d => anyText path d
  | none => .ok []

def bool? (path : Text) : Document → Except Failure (Option Bool)
  | .null => .ok none
  | .bool b => .ok (some b)
  | d => unexpected path "boolean" d

def float? (path : Text) : Document → Except Failure (Option Double)
  | .null => .ok none
  | .int n =>
    match Double.ofInt? n with
    | some x => .ok (some x)
    | none => .error .tooLarge
  | .float x => if x.isFinite then .ok (some x) else refuse path "must be finite"
  | d => unexpected path "number" d

def int? (path : Text) : Document → Except Failure (Option Int)
  | .null => .ok none
  | .int n => .ok (some n)
  | d => unexpected path "integer" d

/-- One of some words, or nothing. -/
def word? (words : List (Text × α)) (path : Text) : Document → Except Failure (Option α)
  | .null => .ok none
  | .text t =>
    if t.isEmpty then .ok none
    else match words.lookup t with
      | some a => .ok (some a)
      | none =>
        refuse path ("invalid value " ++ t.quoted ++ "; expected one of: "
          ++ Text.join ", " (Text.sorted (words.map (·.1))))
  | d => unexpected path "string enum value" d

end Conform.Mapping.Field

import Conform.Failure
import Conform.Json.Printer
import Conform.Json.Reader
import Conform.Yaml.Value

/-!
Reading of documents from bytes, as YAML or else as JSON, and their canonical text. Dates stay
texts, unless a tag asks for them.
-/
namespace Conform

/-- The language in which a document turned out to be written. -/
inductive Format where
  | yaml
  | json
deriving DecidableEq, Repr

namespace Format

def name : Format → Text
  | yaml => "yaml"
  | json => "json"

end Format

namespace Document

/-- Reads bytes as YAML, and if they are none, as JSON; none if they are neither. -/
def read? (bs : Bytes) : Except Failure (Option (Document × Format)) :=
  match Yaml.Value.read false bs with
  | .ok v => .ok (some (v.toDocument, .yaml))
  | .error .malformed => .ok ((Json.read? bs).map (·, .json))
  | .error fault => .error (.scalar fault)

/-- Reads data. -/
def readData (bs : Bytes) : Except Failure (Document × Format) := do
  match ← read? bs with
  | some r => return r
  | none => throw .malformedData

/-- The place and length of the first run of surrogates. -/
def surrogateRun? (t : Text) : Option (Point × Nat × Nat) :=
  let start := (t.takeWhile (!·.isSurrogate)).length
  match t.drop start with
  | [] => none
  | p :: rest => some (p, start, ((p :: rest).takeWhile (·.isSurrogate)).length)

/-- The text that equal documents share: members in the order of their names, no gaps. A document
with a date, a very long number or a surrogate in it has none. -/
def canonical (d : Document) : Except Failure Text :=
  match Json.obstacle? d with
  | some o => .error (.ofObstacle o)
  | none =>
    let t := Json.render .canonical d
    match surrogateRun? t with
    | some (p, start, count) => .error (.notUtf8 p start count)
    | none => .ok t

end Document
end Conform

import Conform.Document.Reading
import Conform.Schema.Dialect

/-!
A schema as it was read: its document, the name it gives itself, the dialect it declares, and its
canonical text, by which schemas are compared.
-/
namespace Conform.Schema

structure Parsed where
  document : Document
  id : Text
  /-- The canonical text. -/
  normalized : Text
  /-- What `$schema` said, if it said a text. -/
  declared : Option Text

namespace Parsed

/-- The name a document gives itself: the first of two members that is a text and not blank. -/
def idOf (d : Document) : Text :=
  let candidates : List Text := ["$id", "id"]
  ((candidates.filterMap fun k => (d.get? k).bind Document.text?).map Text.strip).find?
    (!·.isEmpty) |>.getD []

/-- A document without the declaration of its dialect. -/
def withoutDeclaration : Document → Document
  | .object ms => .object (Members.erase "$schema" ms)
  | d => d

/-- The schema that a document is. The declaration is noted before it is taken away. -/
def ofDocument (strip : Bool) (d : Document) : Except Failure Parsed := do
  let declared := (d.get? "$schema").bind Document.text?
  let d := if strip then withoutDeclaration d else d
  return ⟨d, idOf d, ← d.canonical, declared⟩

/-- Reads a schema. -/
def read (strip : Bool) (bs : Bytes) : Except Failure Parsed := do
  match ← Document.read? bs with
  | some (d, _) => ofDocument strip d
  | none => throw .malformedSchema

/-- What the declarations of supported dialects contain. -/
def supported : List Text := ["draft-07", "2020-12"]

/-- Refuses a declaration of an unsupported dialect. -/
def checkDialect (declared : Option Text) : Except Failure Unit :=
  match declared with
  | none => .ok ()
  | some t => if supported.any (Text.contains · t) then .ok () else .error (.unsupportedDraft t)

end Parsed
end Conform.Schema

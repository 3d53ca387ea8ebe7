import Conform.Schema.Compiled

/-!
Checks of schemas themselves, by the name of the schema of schemas that they are held against.
-/
namespace Conform.Schema.Dialect

/-- The name under which the dialect's schema of schemas is asked for. -/
def metaName : Dialect → Text
  | draft4 => "json-schema-draft-04"
  | draft6 => "json-schema-draft-06"
  | draft7 => "json-schema-draft-07"
  | draft2019 => "json-schema-2019-09"
  | draft2020 => "json-schema-2020-12"

def ofMetaName? (name : Text) : Option Dialect := all.find? fun d => d.metaName == name

/-- All such names in order. -/
def metaNames : List Text := Text.sorted (all.map metaName)

/-- The order of findings about a schema: by path and message. -/
def leFinding (f g : Finding) : Bool :=
  if f.path != g.path then Finding.ltPath f.path g.path else f.message.le g.message

/-- A finding about a schema in words; the place is left out where it is the whole schema. -/
def describe (f : Finding) : Text :=
  let path := Issue.pathText f.path
  if path == "root" then f.message else path ++ ": " ++ f.message

/-- What is wrong with a schema according to the schema of schemas with the given name. -/
def checkSchema (name : Text) (bs : Bytes) : Except Failure (List Text) := do
  match ofMetaName? name with
  | none => throw (.unknownMetaSchema name)
  | some d =>
    let p ← Parsed.read false bs
    let findings ← (d.metaFindings false p.document).all
    return (findings.mergeSort leFinding).map describe

end Conform.Schema.Dialect

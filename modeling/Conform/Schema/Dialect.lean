import Conform.Document
import Conform.Uri

/-!
The dialects of JSON Schema: how a declaration names one, and at which places of a schema other
schemas stand.
-/
namespace Conform.Schema

inductive Dialect where
  | draft4
  | draft6
  | draft7
  | draft2019
  | draft2020
deriving DecidableEq, Repr

/-- The keywords that hold schemas. -/
structure Placement where
  /-- The keyword's value is a schema. -/
  single : List Text
  /-- The keyword's value is a list of schemas. -/
  listed : List Text
  /-- The keyword's value has a schema under each name. -/
  named : List Text
  /-- `items` is a schema or a list of schemas. -/
  eitherItems : Bool
  /-- The members of `dependencies` may be schemas. -/
  dependencies : Bool

namespace Dialect

def all : List Dialect := [draft4, draft6, draft7, draft2019, draft2020]

/-- The name of the dialect's meta-schema, without an empty fragment. -/
def uri : Dialect → Text
  | draft4 => "http://json-schema.org/draft-04/schema"
  | draft6 => "http://json-schema.org/draft-06/schema"
  | draft7 => "http://json-schema.org/draft-07/schema"
  | draft2019 => "https://json-schema.org/draft/2019-09/schema"
  | draft2020 => "https://json-schema.org/draft/2020-12/schema"

/-- What a declaration of the dialect contains. -/
def marker : Dialect → Text
  | draft4 => "draft-04"
  | draft6 => "draft-06"
  | draft7 => "draft-07"
  | draft2019 => "2019-09"
  | draft2020 => "2020-12"

/-- The dialect of a document as a whole: the first whose marker the declaration contains. -/
def ofDeclaration (declared : Option Text) : Dialect :=
  match declared with
  | some t => (all.find? fun d => Text.contains d.marker t).getD draft2020
  | none => draft2020

/-- The dialect whose name a text is, fragments that are empty apart. -/
def ofUri? (t : Text) : Option Dialect :=
  let t := Text.dropEndWhile (·.char == '#') t
  all.find? fun d => d.uri == t

/-- The dialect whose name a text is when written in the standard way. -/
def ofName? (t : Text) : Option Dialect := do
  let u ← Uri.parse? t
  ofExact? u.format
where
  ofExact? (t : Text) : Option Dialect := all.find? fun d => d.uri == t

/-- Whether only the reference counts in a schema that has one. -/
def refAlone : Dialect → Bool
  | draft4 | draft6 | draft7 => true
  | draft2019 | draft2020 => false

/-- The member that names a schema. -/
def idKeyword : Dialect → Text
  | draft4 => "id"
  | _ => "$id"

def combining : List Text := ["allOf", "anyOf", "oneOf"]

def placement : Dialect → Placement
  | draft4 => ⟨["not"], combining, ["definitions", "patternProperties", "properties"], true, true⟩
  | draft6 =>
    ⟨["additionalItems", "additionalProperties", "contains", "not", "propertyNames"], combining,
      ["definitions", "patternProperties", "properties"], true, true⟩
  | draft7 =>
    ⟨["additionalItems", "additionalProperties", "contains", "else", "if", "not", "propertyNames",
        "then"],
      combining, ["definitions", "patternProperties", "properties"], true, true⟩
  | draft2019 =>
    ⟨["additionalItems", "additionalProperties", "contains", "contentSchema", "else", "if", "not",
        "propertyNames", "then", "unevaluatedItems", "unevaluatedProperties"],
      combining, ["$defs", "definitions", "dependentSchemas", "patternProperties", "properties"],
      true, false⟩
  | draft2020 =>
    ⟨["additionalProperties", "contains", "contentSchema", "else", "if", "items", "not",
        "propertyNames", "then", "unevaluatedItems", "unevaluatedProperties"],
      ["allOf", "anyOf", "oneOf", "prefixItems"],
      ["$defs", "definitions", "dependentSchemas", "patternProperties", "properties"], false, false⟩

/-- The keywords that in the oldest dialect hold a schema or a Boolean. -/
def additional : List Text := ["additionalItems", "additionalProperties"]

end Dialect
end Conform.Schema

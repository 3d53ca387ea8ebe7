import Conform.Schema.Dialect

/-!
The rules behind the keywords. A keyword may have another rule in another dialect, and one rule may
stand behind keywords of several names.
-/
namespace Conform.Schema

inductive Side where
  | least
  | greatest
deriving DecidableEq, Repr

/-- What has a size. -/
inductive Sized where
  | items
  | characters
  | members
deriving DecidableEq, Repr

inductive Rule where
  | reference
  | recursiveReference
  | type
  | enum
  | const
  /-- A limit of a number, which itself is allowed or not. -/
  | limit (side : Side) (exclusive : Bool)
  /-- A limit of a number; a keyword beside it says whether the limit itself is allowed. -/
  | switchedLimit (side : Side)
  | multipleOf
  | size (of : Sized) (side : Side)
  | pattern
  | format
  | uniqueItems
  | required
  | properties
  | patternProperties
  | propertyNames
  | additionalProperties
  | prefixItems
  /-- A schema for the items after those of `prefixItems`. -/
  | items
  /-- A schema for all items, or a list of schemas for the first ones. -/
  | eitherItems
  | additionalItems
  /-- Some items match, in a number between two limits. -/
  | contains
  /-- Some item matches. -/
  | containsAny
  | dependencies
  | dependentRequired
  | dependentSchemas
  | allOf
  | anyOf
  | oneOf
  | not
  | conditional
  /-- `early` marks the dialect in which a schema for items may be a list of schemas. -/
  | unevaluatedItems (early : Bool)
  | unevaluatedProperties (early : Bool)
deriving DecidableEq, Repr

/-- Keywords with the rules behind them. -/
abbrev RuleTable := List (Text × Rule)

/-- A table with further keywords. -/
def RuleTable.with (table more : RuleTable) : RuleTable := table ++ more

namespace Dialect

/-- The rules that all dialects share. -/
def sharedRules : RuleTable :=
  [("$ref", .reference), ("additionalProperties", .additionalProperties), ("allOf", .allOf),
    ("anyOf", .anyOf), ("enum", .enum), ("format", .format),
    ("maxItems", .size .items .greatest), ("maxLength", .size .characters .greatest),
    ("maxProperties", .size .members .greatest), ("minItems", .size .items .least),
    ("minLength", .size .characters .least), ("minProperties", .size .members .least),
    ("multipleOf", .multipleOf), ("not", .not), ("oneOf", .oneOf), ("pattern", .pattern),
    ("patternProperties", .patternProperties), ("properties", .properties),
    ("required", .required), ("type", .type), ("uniqueItems", .uniqueItems)]

/-- The rules since the sixth draft. -/
def laterRules : RuleTable :=
  RuleTable.with sharedRules
    [("const", .const), ("exclusiveMaximum", .limit .greatest true),
      ("exclusiveMinimum", .limit .least true), ("maximum", .limit .greatest false),
      ("minimum", .limit .least false), ("propertyNames", .propertyNames)]

/-- The rules since 2019, other than those for items. -/
def modernRules : RuleTable :=
  RuleTable.with laterRules
    [("contains", .contains), ("dependentRequired", .dependentRequired),
      ("dependentSchemas", .dependentSchemas), ("if", .conditional)]

/-- The rules behind the keywords of a dialect. -/
def rules : Dialect → RuleTable
  | draft4 =>
    RuleTable.with sharedRules
    [("additionalItems", .additionalItems), ("dependencies", .dependencies),
        ("items", .eitherItems), ("maximum", .switchedLimit .greatest),
        ("minimum", .switchedLimit .least)]
  | draft6 => sixth
  | draft7 => RuleTable.with sixth
    [("if", .conditional)]
  | draft2019 =>
    RuleTable.with modernRules
    [("$recursiveRef", .recursiveReference), ("additionalItems", .additionalItems),
        ("items", .eitherItems), ("unevaluatedItems", .unevaluatedItems true),
        ("unevaluatedProperties", .unevaluatedProperties true)]
  | draft2020 =>
    RuleTable.with modernRules
    [("$dynamicRef", .reference), ("items", .items), ("prefixItems", .prefixItems),
        ("unevaluatedItems", .unevaluatedItems false),
        ("unevaluatedProperties", .unevaluatedProperties false)]
where
  sixth : RuleTable :=
    RuleTable.with laterRules
    [("additionalItems", .additionalItems), ("contains", .containsAny),
        ("dependencies", .dependencies), ("items", .eitherItems)]

def rules4 : RuleTable := rules draft4

def rules6 : RuleTable := rules draft6

def rules7 : RuleTable := rules draft7

def rules2019 : RuleTable := rules draft2019

def rules2020 : RuleTable := rules draft2020

/-- The rule behind a keyword. The tables are named so that each is made only once. -/
def rule? (d : Dialect) (keyword : Text) : Option Rule :=
  match d with
  | draft4 => rules4.lookup keyword
  | draft6 => rules6.lookup keyword
  | draft7 => rules7.lookup keyword
  | draft2019 => rules2019.lookup keyword
  | draft2020 => rules2020.lookup keyword

/-- The keywords of a schema that count, in their order. -/
def keywords (d : Dialect) (schema : Members) : Members :=
  if d.refAlone then
    match Members.get? schema "$ref" with
    | none | some .null => schema
    | some ref => [("$ref", ref)]
  else schema

end Dialect
end Conform.Schema

import Conform.Schema.Meta.Basic

/-!
The meta-schema of 2019-09, in parts that refer to each other.
-/
namespace Conform.Schema.Meta

open Document

/-- The schema of schemas, which combines the vocabularies. -/
def schema2019 : Document :=
  .record [
    ("$schema", .string "https://json-schema.org/draft/2019-09/schema"),
    ("$id", .string "https://json-schema.org/draft/2019-09/schema"),
    ("$vocabulary", .record [
        ("https://json-schema.org/draft/2019-09/vocab/core", .bool true),
        ("https://json-schema.org/draft/2019-09/vocab/applicator", .bool true),
        ("https://json-schema.org/draft/2019-09/vocab/validation", .bool true),
        ("https://json-schema.org/draft/2019-09/vocab/meta-data", .bool true),
        ("https://json-schema.org/draft/2019-09/vocab/format", .bool false),
        ("https://json-schema.org/draft/2019-09/vocab/content", .bool true)]),
    ("$recursiveAnchor", .bool true),
    ("title", .string "Core and Validation specifications meta-schema"),
    ("allOf", .list [
        ref "meta/core", ref "meta/applicator", ref "meta/validation",
        ref "meta/meta-data", ref "meta/format", ref "meta/content"]),
    ("type", words ["object", "boolean"]),
    ("properties", .record [
        ("definitions", .record [
            ("$comment", .string ("While no longer an official keyword as it is replaced by "
                ++ "$defs, this keyword is retained in the meta-schema to "
                ++ "prevent incompatible extensions as it remains in common "
                ++ "use.")),
            ("type", .string "object"), ("additionalProperties", around),
            ("default", .object [])]),
        ("dependencies", .record [
            ("$comment", .string ("\"dependencies\" is no longer a keyword, but schema authors "
                ++ "should avoid redefining it to facilitate a smooth "
                ++ "transition to \"dependentSchemas\" and \"dependentRequired\"")),
            ("type", .string "object"),
            ("additionalProperties", .record [
                ("anyOf", .list [around, ref "meta/validation#/$defs/stringArray"])])])])]

/-- Names, references and definitions. -/
def core2019 : Document :=
  .record [
    ("$schema", .string "https://json-schema.org/draft/2019-09/schema"),
    ("$id", .string "https://json-schema.org/draft/2019-09/meta/core"),
    ("$vocabulary", .record [("https://json-schema.org/draft/2019-09/vocab/core", .bool true)]),
    ("$recursiveAnchor", .bool true), ("title", .string "Core vocabulary meta-schema"),
    ("type", words ["object", "boolean"]),
    ("properties", .record [
        ("$id", .record [
            ("type", .string "string"), ("format", .string "uri-reference"),
            ("$comment", .string "Non-empty fragments not allowed."),
            ("pattern", .string "^[^#]*#?$")]),
        ("$schema", .record [("type", .string "string"), ("format", .string "uri")]),
        ("$anchor", .record [
            ("type", .string "string"), ("pattern", .string "^[A-Za-z][-A-Za-z0-9.:_]*$")]),
        ("$ref", .record [("type", .string "string"), ("format", .string "uri-reference")]),
        ("$recursiveRef", .record [("type", .string "string"), ("format", .string "uri-reference")]),
        ("$recursiveAnchor", .record [("type", .string "boolean"), ("default", .bool false)]),
        ("$vocabulary", .record [
            ("type", .string "object"),
            ("propertyNames", .record [("type", .string "string"), ("format", .string "uri")]),
            ("additionalProperties", typed "boolean")]),
        ("$comment", typed "string"),
        ("$defs", .record [
            ("type", .string "object"), ("additionalProperties", around),
            ("default", .object [])])])]

/-- Keywords that apply schemas. -/
def applicator2019 : Document :=
  .record [
    ("$schema", .string "https://json-schema.org/draft/2019-09/schema"),
    ("$id", .string "https://json-schema.org/draft/2019-09/meta/applicator"),
    ("$vocabulary", .record [("https://json-schema.org/draft/2019-09/vocab/applicator", .bool true)]),
    ("$recursiveAnchor", .bool true),
    ("title", .string "Applicator vocabulary meta-schema"),
    ("type", words ["object", "boolean"]),
    ("properties", .record [
        ("additionalItems", around), ("unevaluatedItems", around),
        ("items", .record [("anyOf", .list [around, ref "#/$defs/schemaArray"])]),
        ("contains", around), ("additionalProperties", around),
        ("unevaluatedProperties", around),
        ("properties", .record [
            ("type", .string "object"), ("additionalProperties", around),
            ("default", .object [])]),
        ("patternProperties", .record [
            ("type", .string "object"), ("additionalProperties", around),
            ("propertyNames", .record [("format", .string "regex")]),
            ("default", .object [])]),
        ("dependentSchemas", .record [("type", .string "object"), ("additionalProperties", around)]),
        ("propertyNames", around), ("if", around), ("then", around), ("else", around),
        ("allOf", ref "#/$defs/schemaArray"), ("anyOf", ref "#/$defs/schemaArray"),
        ("oneOf", ref "#/$defs/schemaArray"), ("not", around)]),
    ("$defs", .record [
        ("schemaArray", .record [("type", .string "array"), ("minItems", .int 1), ("items", around)])])]

/-- Keywords about a value by itself. -/
def validation2019 : Document :=
  .record [
    ("$schema", .string "https://json-schema.org/draft/2019-09/schema"),
    ("$id", .string "https://json-schema.org/draft/2019-09/meta/validation"),
    ("$vocabulary", .record [("https://json-schema.org/draft/2019-09/vocab/validation", .bool true)]),
    ("$recursiveAnchor", .bool true),
    ("title", .string "Validation vocabulary meta-schema"),
    ("type", words ["object", "boolean"]),
    ("properties", .record [
        ("multipleOf", .record [("type", .string "number"), ("exclusiveMinimum", .int 0)]),
        ("maximum", typed "number"), ("exclusiveMaximum", typed "number"),
        ("minimum", typed "number"), ("exclusiveMinimum", typed "number"),
        ("maxLength", ref "#/$defs/nonNegativeInteger"),
        ("minLength", ref "#/$defs/nonNegativeIntegerDefault0"),
        ("pattern", .record [("type", .string "string"), ("format", .string "regex")]),
        ("maxItems", ref "#/$defs/nonNegativeInteger"),
        ("minItems", ref "#/$defs/nonNegativeIntegerDefault0"),
        ("uniqueItems", .record [("type", .string "boolean"), ("default", .bool false)]),
        ("maxContains", ref "#/$defs/nonNegativeInteger"),
        ("minContains", .record [("$ref", .string "#/$defs/nonNegativeInteger"), ("default", .int 1)]),
        ("maxProperties", ref "#/$defs/nonNegativeInteger"),
        ("minProperties", ref "#/$defs/nonNegativeIntegerDefault0"),
        ("required", ref "#/$defs/stringArray"),
        ("dependentRequired", .record [
            ("type", .string "object"),
            ("additionalProperties", ref "#/$defs/stringArray")]),
        ("const", .bool true),
        ("enum", .record [("type", .string "array"), ("items", .bool true)]),
        ("type", .record [
            ("anyOf", .list [
                ref "#/$defs/simpleTypes",
                .record [
                  ("type", .string "array"), ("items", ref "#/$defs/simpleTypes"),
                  ("minItems", .int 1), ("uniqueItems", .bool true)]])])]),
    ("$defs", .record [
        ("nonNegativeInteger", .record [("type", .string "integer"), ("minimum", .int 0)]),
        ("nonNegativeIntegerDefault0", .record [("$ref", .string "#/$defs/nonNegativeInteger"), ("default", .int 0)]),
        ("simpleTypes", .record [
            ("enum", words ["array", "boolean", "integer", "null", "number", "object", "string"])]),
        ("stringArray", .record [
            ("type", .string "array"), ("items", typed "string"),
            ("uniqueItems", .bool true), ("default", .list [])])])]

/-- Keywords that only describe. -/
def metaData2019 : Document :=
  .record [
    ("$schema", .string "https://json-schema.org/draft/2019-09/schema"),
    ("$id", .string "https://json-schema.org/draft/2019-09/meta/meta-data"),
    ("$vocabulary", .record [("https://json-schema.org/draft/2019-09/vocab/meta-data", .bool true)]),
    ("$recursiveAnchor", .bool true),
    ("title", .string "Meta-data vocabulary meta-schema"),
    ("type", words ["object", "boolean"]),
    ("properties", .record [
        ("title", typed "string"), ("description", typed "string"),
        ("default", .bool true),
        ("deprecated", .record [("type", .string "boolean"), ("default", .bool false)]),
        ("readOnly", .record [("type", .string "boolean"), ("default", .bool false)]),
        ("writeOnly", .record [("type", .string "boolean"), ("default", .bool false)]),
        ("examples", .record [("type", .string "array"), ("items", .bool true)])])]

/-- The keyword for the form of texts. -/
def format2019 : Document :=
  .record [
    ("$schema", .string "https://json-schema.org/draft/2019-09/schema"),
    ("$id", .string "https://json-schema.org/draft/2019-09/meta/format"),
    ("$vocabulary", .record [("https://json-schema.org/draft/2019-09/vocab/format", .bool true)]),
    ("$recursiveAnchor", .bool true), ("title", .string "Format vocabulary meta-schema"),
    ("type", words ["object", "boolean"]),
    ("properties", .record [("format", typed "string")])]

/-- Keywords for what texts encode. -/
def content2019 : Document :=
  .record [
    ("$schema", .string "https://json-schema.org/draft/2019-09/schema"),
    ("$id", .string "https://json-schema.org/draft/2019-09/meta/content"),
    ("$vocabulary", .record [("https://json-schema.org/draft/2019-09/vocab/content", .bool true)]),
    ("$recursiveAnchor", .bool true), ("title", .string "Content vocabulary meta-schema"),
    ("type", words ["object", "boolean"]),
    ("properties", .record [
        ("contentMediaType", typed "string"), ("contentEncoding", typed "string"),
        ("contentSchema", around)])]

end Conform.Schema.Meta

import Conform.Schema.Meta.Basic

/-!
The meta-schema of 2020-12, in parts that refer to each other.
-/
namespace Conform.Schema.Meta

open Document

/-- The schema of schemas, which combines the vocabularies. -/
def schema2020 : Document :=
  .record [
    ("$schema", .string "https://json-schema.org/draft/2020-12/schema"),
    ("$id", .string "https://json-schema.org/draft/2020-12/schema"),
    ("$vocabulary", .record [
        ("https://json-schema.org/draft/2020-12/vocab/core", .bool true),
        ("https://json-schema.org/draft/2020-12/vocab/applicator", .bool true),
        ("https://json-schema.org/draft/2020-12/vocab/unevaluated", .bool true),
        ("https://json-schema.org/draft/2020-12/vocab/validation", .bool true),
        ("https://json-schema.org/draft/2020-12/vocab/meta-data", .bool true),
        ("https://json-schema.org/draft/2020-12/vocab/format-annotation", .bool true),
        ("https://json-schema.org/draft/2020-12/vocab/content", .bool true)]),
    ("$dynamicAnchor", .string "meta"),
    ("title", .string "Core and Validation specifications meta-schema"),
    ("allOf", .list [
        ref "meta/core", ref "meta/applicator", ref "meta/unevaluated",
        ref "meta/validation", ref "meta/meta-data", ref "meta/format-annotation",
        ref "meta/content"]),
    ("type", words ["object", "boolean"]),
    ("$comment", .string ("This meta-schema also defines keywords that have appeared in "
        ++ "previous drafts in order to prevent incompatible extensions as "
        ++ "they remain in common use.")),
    ("properties", .record [
        ("definitions", .record [
            ("$comment", .string "\"definitions\" has been replaced by \"$defs\"."),
            ("type", .string "object"), ("additionalProperties", whole),
            ("deprecated", .bool true), ("default", .object [])]),
        ("dependencies", .record [
            ("$comment", .string ("\"dependencies\" has been split and replaced by "
                ++ "\"dependentSchemas\" and \"dependentRequired\" in order to "
                ++ "serve their differing semantics.")),
            ("type", .string "object"),
            ("additionalProperties", .record [("anyOf", .list [whole, ref "meta/validation#/$defs/stringArray"])]),
            ("deprecated", .bool true), ("default", .object [])]),
        ("$recursiveAnchor", .record [
            ("$comment", .string ("\"$recursiveAnchor\" has been replaced by \"$dynamicAnchor\".")),
            ("$ref", .string "meta/core#/$defs/anchorString"), ("deprecated", .bool true)]),
        ("$recursiveRef", .record [
            ("$comment", .string ("\"$recursiveRef\" has been replaced by \"$dynamicRef\".")),
            ("$ref", .string "meta/core#/$defs/uriReferenceString"),
            ("deprecated", .bool true)])])]

/-- Names, references and definitions. -/
def core2020 : Document :=
  .record [
    ("$schema", .string "https://json-schema.org/draft/2020-12/schema"),
    ("$id", .string "https://json-schema.org/draft/2020-12/meta/core"),
    ("$vocabulary", .record [("https://json-schema.org/draft/2020-12/vocab/core", .bool true)]),
    ("$dynamicAnchor", .string "meta"), ("title", .string "Core vocabulary meta-schema"),
    ("type", words ["object", "boolean"]),
    ("properties", .record [
        ("$id", .record [
            ("$ref", .string "#/$defs/uriReferenceString"),
            ("$comment", .string "Non-empty fragments not allowed."),
            ("pattern", .string "^[^#]*#?$")]),
        ("$schema", ref "#/$defs/uriString"), ("$ref", ref "#/$defs/uriReferenceString"),
        ("$anchor", ref "#/$defs/anchorString"),
        ("$dynamicRef", ref "#/$defs/uriReferenceString"),
        ("$dynamicAnchor", ref "#/$defs/anchorString"),
        ("$vocabulary", .record [
            ("type", .string "object"), ("propertyNames", ref "#/$defs/uriString"),
            ("additionalProperties", typed "boolean")]),
        ("$comment", typed "string"),
        ("$defs", .record [("type", .string "object"), ("additionalProperties", whole)])]),
    ("$defs", .record [
        ("anchorString", .record [
            ("type", .string "string"), ("pattern", .string "^[A-Za-z_][-A-Za-z0-9._]*$")]),
        ("uriString", .record [("type", .string "string"), ("format", .string "uri")]),
        ("uriReferenceString", .record [("type", .string "string"), ("format", .string "uri-reference")])])]

/-- Keywords that apply schemas. -/
def applicator2020 : Document :=
  .record [
    ("$schema", .string "https://json-schema.org/draft/2020-12/schema"),
    ("$id", .string "https://json-schema.org/draft/2020-12/meta/applicator"),
    ("$vocabulary", .record [("https://json-schema.org/draft/2020-12/vocab/applicator", .bool true)]),
    ("$dynamicAnchor", .string "meta"),
    ("title", .string "Applicator vocabulary meta-schema"),
    ("type", words ["object", "boolean"]),
    ("properties", .record [
        ("prefixItems", ref "#/$defs/schemaArray"), ("items", whole), ("contains", whole),
        ("additionalProperties", whole),
        ("properties", .record [
            ("type", .string "object"), ("additionalProperties", whole),
            ("default", .object [])]),
        ("patternProperties", .record [
            ("type", .string "object"), ("additionalProperties", whole),
            ("propertyNames", .record [("format", .string "regex")]),
            ("default", .object [])]),
        ("dependentSchemas", .record [
            ("type", .string "object"), ("additionalProperties", whole),
            ("default", .object [])]),
        ("propertyNames", whole), ("if", whole), ("then", whole), ("else", whole),
        ("allOf", ref "#/$defs/schemaArray"), ("anyOf", ref "#/$defs/schemaArray"),
        ("oneOf", ref "#/$defs/schemaArray"), ("not", whole)]),
    ("$defs", .record [
        ("schemaArray", .record [("type", .string "array"), ("minItems", .int 1), ("items", whole)])])]

/-- Keywords for what no other keyword takes care of. -/
def unevaluated2020 : Document :=
  .record [
    ("$schema", .string "https://json-schema.org/draft/2020-12/schema"),
    ("$id", .string "https://json-schema.org/draft/2020-12/meta/unevaluated"),
    ("$vocabulary", .record [("https://json-schema.org/draft/2020-12/vocab/unevaluated", .bool true)]),
    ("$dynamicAnchor", .string "meta"),
    ("title", .string "Unevaluated applicator vocabulary meta-schema"),
    ("type", words ["object", "boolean"]),
    ("properties", .record [("unevaluatedItems", whole), ("unevaluatedProperties", whole)])]

/-- Keywords about a value by itself. -/
def validation2020 : Document :=
  .record [
    ("$schema", .string "https://json-schema.org/draft/2020-12/schema"),
    ("$id", .string "https://json-schema.org/draft/2020-12/meta/validation"),
    ("$vocabulary", .record [("https://json-schema.org/draft/2020-12/vocab/validation", .bool true)]),
    ("$dynamicAnchor", .string "meta"),
    ("title", .string "Validation vocabulary meta-schema"),
    ("type", words ["object", "boolean"]),
    ("properties", .record [
        ("type", .record [
            ("anyOf", .list [
                ref "#/$defs/simpleTypes",
                .record [
                  ("type", .string "array"), ("items", ref "#/$defs/simpleTypes"),
                  ("minItems", .int 1), ("uniqueItems", .bool true)]])]),
        ("const", .bool true),
        ("enum", .record [("type", .string "array"), ("items", .bool true)]),
        ("multipleOf", .record [("type", .string "number"), ("exclusiveMinimum", .int 0)]),
        ("maximum", typed "number"), ("exclusiveMaximum", typed "number"),
        ("minimum", typed "number"), ("exclusiveMinimum", typed "number"),
        ("maxLength", ref "#/$defs/nonNegativeInteger"),
        ("minLength", ref "#/$defs/nonNegativeIntegerDefault0"),
        ("pattern", .record [("type", .string "string"), ("format", .string "regex")]),
        ("maxItems", ref "#/$defs/nonNegativeInteger"),
        ("minItems", ref "#/$defs/nonNegativeIntegerDefault0"),
        ("uniqueItems", .record [("type", .string "boolean"), ("default", .bool false)]),
        ("maxContains", ref "#/$defs/nonNegativeInteger"),
        ("minContains", .record [("$ref", .string "#/$defs/nonNegativeInteger"), ("default", .int 1)]),
        ("maxProperties", ref "#/$defs/nonNegativeInteger"),
        ("minProperties", ref "#/$defs/nonNegativeIntegerDefault0"),
        ("required", ref "#/$defs/stringArray"),
        ("dependentRequired", .record [
            ("type", .string "object"),
            ("additionalProperties", ref "#/$defs/stringArray")])]),
    ("$defs", .record [
        ("nonNegativeInteger", .record [("type", .string "integer"), ("minimum", .int 0)]),
        ("nonNegativeIntegerDefault0", .record [("$ref", .string "#/$defs/nonNegativeInteger"), ("default", .int 0)]),
        ("simpleTypes", .record [
            ("enum", words ["array", "boolean", "integer", "null", "number", "object", "string"])]),
        ("stringArray", .record [
            ("type", .string "array"), ("items", typed "string"),
            ("uniqueItems", .bool true), ("default", .list [])])])]

/-- Keywords that only describe. -/
def metaData2020 : Document :=
  .record [
    ("$schema", .string "https://json-schema.org/draft/2020-12/schema"),
    ("$id", .string "https://json-schema.org/draft/2020-12/meta/meta-data"),
    ("$vocabulary", .record [("https://json-schema.org/draft/2020-12/vocab/meta-data", .bool true)]),
    ("$dynamicAnchor", .string "meta"),
    ("title", .string "Meta-data vocabulary meta-schema"),
    ("type", words ["object", "boolean"]),
    ("properties", .record [
        ("title", typed "string"), ("description", typed "string"),
        ("default", .bool true),
        ("deprecated", .record [("type", .string "boolean"), ("default", .bool false)]),
        ("readOnly", .record [("type", .string "boolean"), ("default", .bool false)]),
        ("writeOnly", .record [("type", .string "boolean"), ("default", .bool false)]),
        ("examples", .record [("type", .string "array"), ("items", .bool true)])])]

/-- The keyword for the form of texts, as a remark. -/
def formatAnnotation2020 : Document :=
  .record [
    ("$schema", .string "https://json-schema.org/draft/2020-12/schema"),
    ("$id", .string "https://json-schema.org/draft/2020-12/meta/format-annotation"),
    ("$vocabulary", .record [
        ("https://json-schema.org/draft/2020-12/vocab/format-annotation", .bool true)]),
    ("$dynamicAnchor", .string "meta"),
    ("title", .string "Format vocabulary meta-schema for annotation results"),
    ("type", words ["object", "boolean"]),
    ("properties", .record [("format", typed "string")])]

/-- The keyword for the form of texts, as a demand. -/
def formatAssertion2020 : Document :=
  .record [
    ("$schema", .string "https://json-schema.org/draft/2020-12/schema"),
    ("$id", .string "https://json-schema.org/draft/2020-12/meta/format-assertion"),
    ("$vocabulary", .record [
        ("https://json-schema.org/draft/2020-12/vocab/format-assertion", .bool true)]),
    ("$dynamicAnchor", .string "meta"),
    ("title", .string "Format vocabulary meta-schema for assertion results"),
    ("type", words ["object", "boolean"]),
    ("properties", .record [("format", typed "string")])]

/-- Keywords for what texts encode. -/
def content2020 : Document :=
  .record [
    ("$schema", .string "https://json-schema.org/draft/2020-12/schema"),
    ("$id", .string "https://json-schema.org/draft/2020-12/meta/content"),
    ("$vocabulary", .record [("https://json-schema.org/draft/2020-12/vocab/content", .bool true)]),
    ("$dynamicAnchor", .string "meta"),
    ("title", .string "Content vocabulary meta-schema"),
    ("type", words ["object", "boolean"]),
    ("properties", .record [
        ("contentEncoding", typed "string"), ("contentMediaType", typed "string"),
        ("contentSchema", whole)])]

end Conform.Schema.Meta

import Conform.Schema.Meta.Basic

/-!
The meta-schemas of the fourth, the sixth and the seventh draft.
-/
namespace Conform.Schema.Meta

open Document

/-- The schema of schemas of the fourth draft. -/
def draft4 : Document :=
  .record [
    ("id", .string "http://json-schema.org/draft-04/schema#"),
    ("$schema", .string "http://json-schema.org/draft-04/schema#"),
    ("description", .string "Core schema meta-schema"),
    ("definitions", .record [
        ("schemaArray", .record [("type", .string "array"), ("minItems", .int 1), ("items", ref "#")]),
        ("positiveInteger", .record [("type", .string "integer"), ("minimum", .int 0)]),
        ("positiveIntegerDefault0", .record [
            ("allOf", .list [ref "#/definitions/positiveInteger", .record [("default", .int 0)]])]),
        ("simpleTypes", .record [
            ("enum", words ["array", "boolean", "integer", "null", "number", "object", "string"])]),
        ("stringArray", .record [
            ("type", .string "array"), ("items", typed "string"), ("minItems", .int 1),
            ("uniqueItems", .bool true)])]),
    ("type", .string "object"),
    ("properties", .record [
        ("id", typed "string"), ("$schema", typed "string"), ("title", typed "string"),
        ("description", typed "string"), ("default", .object []),
        ("multipleOf", .record [
            ("type", .string "number"), ("minimum", .int 0),
            ("exclusiveMinimum", .bool true)]),
        ("maximum", typed "number"), ("exclusiveMaximum", typed "boolean"),
        ("minimum", typed "number"), ("exclusiveMinimum", typed "boolean"),
        ("maxLength", ref "#/definitions/positiveInteger"),
        ("minLength", ref "#/definitions/positiveIntegerDefault0"),
        ("pattern", .record [("type", .string "string"), ("format", .string "regex")]),
        ("additionalItems", .record [("anyOf", .list [typed "boolean", ref "#"]), ("default", .object [])]),
        ("items", .record [
            ("anyOf", .list [ref "#", ref "#/definitions/schemaArray"]),
            ("default", .object [])]),
        ("maxItems", ref "#/definitions/positiveInteger"),
        ("minItems", ref "#/definitions/positiveIntegerDefault0"),
        ("uniqueItems", .record [("type", .string "boolean"), ("default", .bool false)]),
        ("maxProperties", ref "#/definitions/positiveInteger"),
        ("minProperties", ref "#/definitions/positiveIntegerDefault0"),
        ("required", ref "#/definitions/stringArray"),
        ("additionalProperties", .record [("anyOf", .list [typed "boolean", ref "#"]), ("default", .object [])]),
        ("definitions", .record [
            ("type", .string "object"), ("additionalProperties", ref "#"),
            ("default", .object [])]),
        ("properties", .record [
            ("type", .string "object"), ("additionalProperties", ref "#"),
            ("default", .object [])]),
        ("patternProperties", .record [
            ("type", .string "object"), ("additionalProperties", ref "#"),
            ("default", .object [])]),
        ("dependencies", .record [
            ("type", .string "object"),
            ("additionalProperties", .record [("anyOf", .list [ref "#", ref "#/definitions/stringArray"])])]),
        ("enum", .record [
            ("type", .string "array"), ("minItems", .int 1), ("uniqueItems", .bool true)]),
        ("type", .record [
            ("anyOf", .list [
                ref "#/definitions/simpleTypes",
                .record [
                  ("type", .string "array"), ("items", ref "#/definitions/simpleTypes"),
                  ("minItems", .int 1), ("uniqueItems", .bool true)]])]),
        ("format", typed "string"), ("allOf", ref "#/definitions/schemaArray"),
        ("anyOf", ref "#/definitions/schemaArray"),
        ("oneOf", ref "#/definitions/schemaArray"), ("not", ref "#")]),
    ("dependencies", .record [
        ("exclusiveMaximum", words ["maximum"]), ("exclusiveMinimum", words ["minimum"])]),
    ("default", .object [])]

/-- The schema of schemas of the sixth draft. -/
def draft6 : Document :=
  .record [
    ("$schema", .string "http://json-schema.org/draft-06/schema#"),
    ("$id", .string "http://json-schema.org/draft-06/schema#"),
    ("title", .string "Core schema meta-schema"),
    ("definitions", .record [
        ("schemaArray", .record [("type", .string "array"), ("minItems", .int 1), ("items", ref "#")]),
        ("nonNegativeInteger", .record [("type", .string "integer"), ("minimum", .int 0)]),
        ("nonNegativeIntegerDefault0", .record [
            ("allOf", .list [
                ref "#/definitions/nonNegativeInteger", .record [("default", .int 0)]])]),
        ("simpleTypes", .record [
            ("enum", words ["array", "boolean", "integer", "null", "number", "object", "string"])]),
        ("stringArray", .record [
            ("type", .string "array"), ("items", typed "string"),
            ("uniqueItems", .bool true), ("default", .list [])])]),
    ("type", words ["object", "boolean"]),
    ("properties", .record [
        ("$id", .record [("type", .string "string"), ("format", .string "uri-reference")]),
        ("$schema", .record [("type", .string "string"), ("format", .string "uri")]),
        ("$ref", .record [("type", .string "string"), ("format", .string "uri-reference")]),
        ("title", typed "string"), ("description", typed "string"),
        ("default", .object []),
        ("examples", .record [("type", .string "array"), ("items", .object [])]),
        ("multipleOf", .record [("type", .string "number"), ("exclusiveMinimum", .int 0)]),
        ("maximum", typed "number"), ("exclusiveMaximum", typed "number"),
        ("minimum", typed "number"), ("exclusiveMinimum", typed "number"),
        ("maxLength", ref "#/definitions/nonNegativeInteger"),
        ("minLength", ref "#/definitions/nonNegativeIntegerDefault0"),
        ("pattern", .record [("type", .string "string"), ("format", .string "regex")]),
        ("additionalItems", ref "#"),
        ("items", .record [
            ("anyOf", .list [ref "#", ref "#/definitions/schemaArray"]),
            ("default", .object [])]),
        ("maxItems", ref "#/definitions/nonNegativeInteger"),
        ("minItems", ref "#/definitions/nonNegativeIntegerDefault0"),
        ("uniqueItems", .record [("type", .string "boolean"), ("default", .bool false)]),
        ("contains", ref "#"), ("maxProperties", ref "#/definitions/nonNegativeInteger"),
        ("minProperties", ref "#/definitions/nonNegativeIntegerDefault0"),
        ("required", ref "#/definitions/stringArray"), ("additionalProperties", ref "#"),
        ("definitions", .record [
            ("type", .string "object"), ("additionalProperties", ref "#"),
            ("default", .object [])]),
        ("properties", .record [
            ("type", .string "object"), ("additionalProperties", ref "#"),
            ("default", .object [])]),
        ("patternProperties", .record [
            ("type", .string "object"), ("additionalProperties", ref "#"),
            ("default", .object [])]),
        ("dependencies", .record [
            ("type", .string "object"),
            ("additionalProperties", .record [("anyOf", .list [ref "#", ref "#/definitions/stringArray"])])]),
        ("propertyNames", ref "#"), ("const", .object []),
        ("enum", .record [
            ("type", .string "array"), ("minItems", .int 1), ("uniqueItems", .bool true)]),
        ("type", .record [
            ("anyOf", .list [
                ref "#/definitions/simpleTypes",
                .record [
                  ("type", .string "array"), ("items", ref "#/definitions/simpleTypes"),
                  ("minItems", .int 1), ("uniqueItems", .bool true)]])]),
        ("format", typed "string"), ("allOf", ref "#/definitions/schemaArray"),
        ("anyOf", ref "#/definitions/schemaArray"),
        ("oneOf", ref "#/definitions/schemaArray"), ("not", ref "#")]),
    ("default", .object [])]

/-- The schema of schemas of the seventh draft. -/
def draft7 : Document :=
  .record [
    ("$schema", .string "http://json-schema.org/draft-07/schema#"),
    ("$id", .string "http://json-schema.org/draft-07/schema#"),
    ("title", .string "Core schema meta-schema"),
    ("definitions", .record [
        ("schemaArray", .record [("type", .string "array"), ("minItems", .int 1), ("items", ref "#")]),
        ("nonNegativeInteger", .record [("type", .string "integer"), ("minimum", .int 0)]),
        ("nonNegativeIntegerDefault0", .record [
            ("allOf", .list [
                ref "#/definitions/nonNegativeInteger", .record [("default", .int 0)]])]),
        ("simpleTypes", .record [
            ("enum", words ["array", "boolean", "integer", "null", "number", "object", "string"])]),
        ("stringArray", .record [
            ("type", .string "array"), ("items", typed "string"),
            ("uniqueItems", .bool true), ("default", .list [])])]),
    ("type", words ["object", "boolean"]),
    ("properties", .record [
        ("$id", .record [("type", .string "string"), ("format", .string "uri-reference")]),
        ("$schema", .record [("type", .string "string"), ("format", .string "uri")]),
        ("$ref", .record [("type", .string "string"), ("format", .string "uri-reference")]),
        ("$comment", typed "string"), ("title", typed "string"),
        ("description", typed "string"), ("default", .bool true),
        ("readOnly", .record [("type", .string "boolean"), ("default", .bool false)]),
        ("writeOnly", .record [("type", .string "boolean"), ("default", .bool false)]),
        ("examples", .record [("type", .string "array"), ("items", .bool true)]),
        ("multipleOf", .record [("type", .string "number"), ("exclusiveMinimum", .int 0)]),
        ("maximum", typed "number"), ("exclusiveMaximum", typed "number"),
        ("minimum", typed "number"), ("exclusiveMinimum", typed "number"),
        ("maxLength", ref "#/definitions/nonNegativeInteger"),
        ("minLength", ref "#/definitions/nonNegativeIntegerDefault0"),
        ("pattern", .record [("type", .string "string"), ("format", .string "regex")]),
        ("additionalItems", ref "#"),
        ("items", .record [
            ("anyOf", .list [ref "#", ref "#/definitions/schemaArray"]),
            ("default", .bool true)]),
        ("maxItems", ref "#/definitions/nonNegativeInteger"),
        ("minItems", ref "#/definitions/nonNegativeIntegerDefault0"),
        ("uniqueItems", .record [("type", .string "boolean"), ("default", .bool false)]),
        ("contains", ref "#"), ("maxProperties", ref "#/definitions/nonNegativeInteger"),
        ("minProperties", ref "#/definitions/nonNegativeIntegerDefault0"),
        ("required", ref "#/definitions/stringArray"), ("additionalProperties", ref "#"),
        ("definitions", .record [
            ("type", .string "object"), ("additionalProperties", ref "#"),
            ("default", .object [])]),
        ("properties", .record [
            ("type", .string "object"), ("additionalProperties", ref "#"),
            ("default", .object [])]),
        ("patternProperties", .record [
            ("type", .string "object"), ("additionalProperties", ref "#"),
            ("propertyNames", .record [("format", .string "regex")]),
            ("default", .object [])]),
        ("dependencies", .record [
            ("type", .string "object"),
            ("additionalProperties", .record [("anyOf", .list [ref "#", ref "#/definitions/stringArray"])])]),
        ("propertyNames", ref "#"), ("const", .bool true),
        ("enum", .record [("type", .string "array"), ("items", .bool true)]),
        ("type", .record [
            ("anyOf", .list [
                ref "#/definitions/simpleTypes",
                .record [
                  ("type", .string "array"), ("items", ref "#/definitions/simpleTypes"),
                  ("minItems", .int 1), ("uniqueItems", .bool true)]])]),
        ("format", typed "string"), ("contentMediaType", typed "string"),
        ("contentEncoding", typed "string"), ("if", ref "#"), ("then", ref "#"),
        ("else", ref "#"), ("allOf", ref "#/definitions/schemaArray"),
        ("anyOf", ref "#/definitions/schemaArray"),
        ("oneOf", ref "#/definitions/schemaArray"), ("not", ref "#")]),
    ("default", .bool true)]

end Conform.Schema.Meta

/-!
The schema of signature manifests, and the manifest that comes with the library.
The text is kept line by line.
-/
namespace Conform.Assets

/-- The schema of a manifest of signatures. -/
def signaturesSchema : List String := [
  "$schema: \"https://json-schema.org/draft/2020-12/schema\"",
  "$id: \"https://schemas.goneat.dev/signatures/v1.0.0/schema-signature-manifest.json\"",
  "title: goneat schema signature manifest",
  "type: object",
  "required:",
  "  - signatures",
  "properties:",
  "  version:",
  "    type: string",
  "  signatures:",
  "    type: array",
  "    items:",
  "      $ref: \"#/$defs/signature\"",
  "$defs:",
  "  signature:",
  "    type: object",
  "    required:",
  "      - id",
  "      - matchers",
  "    properties:",
  "      id:",
  "        type: string",
  "        minLength: 1",
  "      category:",
  "        type: string",
  "      description:",
  "        type: string",
  "      confidence_threshold:",
  "        type: number",
  "        maximum: 1",
  "      aliases:",
  "        type: array",
  "        items:",
  "          type: string",
  "      file_extensions:",
  "        type: array",
  "        items:",
  "          type: string",
  "      metadata:",
  "        type: object",
  "      matchers:",
  "        type: array",
  "        minItems: 1",
  "        items:",
  "          $ref: \"#/$defs/matcher\"",
  "  matcher:",
  "    type: object",
  "    required:",
  "      - type",
  "    properties:",
  "      type:",
  "        type: string",
  "        enum: [contains, prefix, suffix, regex]",
  "      value:",
  "        type: string",
  "      pattern:",
  "        type: string",
  "      weight:",
  "        type: number",
  "      ignore_case:",
  "        type: boolean"]

/-- The signatures that are known from the start. -/
def signatures : List String := [
  "version: v1.0.0",
  "signatures:",
  "  - id: json-schema-draft-04",
  "    category: json-schema",
  "    description: JSON Schema Draft 04 document",
  "    confidence_threshold: 0.6",
  "    aliases: [draft-04, draft4]",
  "    file_extensions: [.json, .yaml, .yml]",
  "    matchers:",
  "      - type: regex",
  "        pattern: '\"?\\$schema\"?\\s*:'",
  "        weight: 0.3",
  "      - type: regex",
  "        pattern: 'json-schema\\.org/draft-04/schema'",
  "        weight: 0.7",
  "  - id: json-schema-draft-06",
  "    category: json-schema",
  "    description: JSON Schema Draft 06 document",
  "    confidence_threshold: 0.6",
  "    aliases: [draft-06, draft6]",
  "    file_extensions: [.json, .yaml, .yml]",
  "    matchers:",
  "      - type: regex",
  "        pattern: '\"?\\$schema\"?\\s*:'",
  "        weight: 0.3",
  "      - type: regex",
  "        pattern: 'json-schema\\.org/draft-06/schema'",
  "        weight: 0.7",
  "  - id: json-schema-draft-07",
  "    category: json-schema",
  "    description: JSON Schema Draft 07 document",
  "    confidence_threshold: 0.6",
  "    aliases: [draft-07, draft7]",
  "    file_extensions: [.json, .yaml, .yml]",
  "    matchers:",
  "      - type: regex",
  "        pattern: '\"?\\$schema\"?\\s*:'",
  "        weight: 0.3",
  "      - type: regex",
  "        pattern: 'json-schema\\.org/draft-07/schema'",
  "        weight: 0.7",
  "  - id: json-schema-2019-09",
  "    category: json-schema",
  "    description: JSON Schema 2019-09 document",
  "    confidence_threshold: 0.6",
  "    aliases: [draft-2019-09]",
  "    file_extensions: [.json, .yaml, .yml]",
  "    matchers:",
  "      - type: regex",
  "        pattern: '\"?\\$schema\"?\\s*:'",
  "        weight: 0.3",
  "      - type: regex",
  "        pattern: 'json-schema\\.org/draft/2019-09/schema'",
  "        weight: 0.7",
  "  - id: json-schema-2020-12",
  "    category: json-schema",
  "    description: JSON Schema 2020-12 document",
  "    confidence_threshold: 0.6",
  "    aliases: [draft-2020-12]",
  "    file_extensions: [.json, .yaml, .yml]",
  "    matchers:",
  "      - type: regex",
  "        pattern: '\"?\\$schema\"?\\s*:'",
  "        weight: 0.3",
  "      - type: regex",
  "        pattern: 'json-schema\\.org/draft/2020-12/schema'",
  "        weight: 0.7",
  "  - id: protobuf-schema",
  "    category: protobuf",
  "    description: Protocol Buffers definition file",
  "    confidence_threshold: 0.5",
  "    aliases: [proto, protobuf]",
  "    file_extensions: [.proto]",
  "    matchers:",
  "      - type: regex",
  "        pattern: '^\\s*syntax\\s*=\\s*\"proto[23]\"\\s*;'",
  "        weight: 0.5",
  "      - type: regex",
  "        pattern: '^\\s*message\\s+\\w+\\s*\\\x7b'",
  "        weight: 0.3",
  "      - type: regex",
  "        pattern: '^\\s*package\\s+[\\w.]+\\s*;'",
  "        weight: 0.2",
  "  - id: openapi-3",
  "    category: openapi",
  "    description: OpenAPI 3.x document",
  "    confidence_threshold: 0.6",
  "    aliases: [openapi, oas3]",
  "    file_extensions: [.json, .yaml, .yml]",
  "    matchers:",
  "      - type: regex",
  "        pattern: '^\\s*\"?openapi\"?\\s*:\\s*\"?3\\.'",
  "        weight: 0.6",
  "      - type: regex",
  "        pattern: '^\\s*\"?paths\"?\\s*:'",
  "        weight: 0.2",
  "      - type: regex",
  "        pattern: '^\\s*\"?info\"?\\s*:'",
  "        weight: 0.2"]

end Conform.Assets

/-!
The schema of mapping manifests.
The text is kept line by line.
-/
namespace Conform.Assets

/-- The schema of a manifest that maps files to schemas. -/
def mappingsSchema : List String := [
  "$schema: \"https://json-schema.org/draft/2020-12/schema\"",
  "$id: \"https://schemas.goneat.dev/mapping/v1.0.0/schema-mapping-manifest.json\"",
  "title: goneat schema mapping manifest",
  "description: Repository overlay mapping files to the schemas that govern them.",
  "type: object",
  "additionalProperties: false",
  "properties:",
  "  version:",
  "    type: string",
  "  config:",
  "    type: object",
  "    additionalProperties: false",
  "    properties:",
  "      inference_enabled:",
  "        type: boolean",
  "      fallback_to_content:",
  "        type: boolean",
  "      strict_mode:",
  "        type: boolean",
  "      cache_inferences:",
  "        type: boolean",
  "      respect_exclusions:",
  "        type: boolean",
  "      auto_suggest_exclusions:",
  "        type: boolean",
  "      min_confidence:",
  "        type: number",
  "        minimum: 0",
  "        maximum: 1",
  "      max_suggestions:",
  "        type: integer",
  "        minimum: 0",
  "  mappings:",
  "    type: array",
  "    items:",
  "      $ref: \"#/$defs/mapping\"",
  "  exclusions:",
  "    type: array",
  "    items:",
  "      $ref: \"#/$defs/exclusion\"",
  "  overrides:",
  "    type: array",
  "    items:",
  "      $ref: \"#/$defs/override\"",
  "$defs:",
  "  condition:",
  "    type: object",
  "    required:",
  "      - field",
  "    additionalProperties: false",
  "    properties:",
  "      field:",
  "        type: string",
  "        minLength: 1",
  "      exists:",
  "        type: boolean",
  "      equals: \x7b\x7d",
  "      schema_id:",
  "        type: string",
  "  mapping:",
  "    type: object",
  "    required:",
  "      - pattern",
  "    additionalProperties: false",
  "    properties:",
  "      pattern:",
  "        type: string",
  "        minLength: 1",
  "      schema_id:",
  "        type: string",
  "      inference_method:",
  "        type: string",
  "        enum: [none, content, meta-schema]",
  "      fallback_schema:",
  "        type: string",
  "      source:",
  "        type: string",
  "        enum: [embedded, external, local]",
  "      priority:",
  "        type: string",
  "        enum: [low, normal, high]",
  "      conditions:",
  "        type: array",
  "        items:",
  "          $ref: \"#/$defs/condition\"",
  "  exclusion:",
  "    type: object",
  "    additionalProperties: false",
  "    properties:",
  "      pattern:",
  "        type: string",
  "      content_pattern:",
  "        type: object",
  "        required:",
  "          - field",
  "        additionalProperties: false",
  "        properties:",
  "          field:",
  "            type: string",
  "            minLength: 1",
  "          exists:",
  "            type: boolean",
  "          equals: \x7b\x7d",
  "      exclude_schema:",
  "        type: string",
  "      reason:",
  "        type: string",
  "      action:",
  "        type: string",
  "        enum: [skip, retry_inference]",
  "  override:",
  "    type: object",
  "    required:",
  "      - schema_id",
  "    additionalProperties: false",
  "    properties:",
  "      schema_id:",
  "        type: string",
  "        minLength: 1",
  "      source:",
  "        type: string",
  "        enum: [embedded, external, local]",
  "      path:",
  "        type: string"]

end Conform.Assets

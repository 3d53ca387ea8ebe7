/-!
The schemas of settings.
The text is kept line by line.
-/
namespace Conform.Assets

/-- The schema of a configuration. -/
def settingsSchema : List String := [
  "$schema: \"http://json-schema.org/draft-07/schema#\"",
  "$id: \"https://schemas.goneat.dev/config/v1.0.0/goneat-config.json\"",
  "title: goneat configuration",
  "description: Repository-level goneat configuration (.goneat/config.yaml).",
  "type: object",
  "additionalProperties: false",
  "properties:",
  "  version:",
  "    type: string",
  "    pattern: \"^v?[0-9]+\\\\.[0-9]+(\\\\.[0-9]+)?$\"",
  "  format:",
  "    type: object",
  "    additionalProperties: false",
  "    properties:",
  "      go:",
  "        type: object",
  "        properties:",
  "          simplify:",
  "            type: boolean",
  "      yaml:",
  "        type: object",
  "        properties:",
  "          indent:",
  "            type: integer",
  "            minimum: 1",
  "            maximum: 8",
  "          line_length:",
  "            type: integer",
  "            minimum: 40",
  "      json:",
  "        type: object",
  "        properties:",
  "          indent:",
  "            type: string",
  "          sort_keys:",
  "            type: boolean",
  "  security:",
  "    type: object",
  "    additionalProperties: false",
  "    properties:",
  "      max_file_size_bytes:",
  "        type: integer",
  "        minimum: 1",
  "      allowed_dirs:",
  "        type: array",
  "        items:",
  "          type: string",
  "      enforce_draft_only:",
  "        type: boolean",
  "  schema:",
  "    type: object",
  "    additionalProperties: false",
  "    properties:",
  "      ref_dirs:",
  "        type: array",
  "        items:",
  "          type: string",
  "      offline:",
  "        type: boolean",
  "  tools:",
  "    type: object",
  "    additionalProperties:",
  "      type: object",
  "      properties:",
  "        install:",
  "          type: object",
  "        install_commands:",
  "          type: object",
  "          additionalProperties:",
  "            type: string",
  "        minimum_version:",
  "          type: string",
  "      not:",
  "        required:",
  "          - install",
  "          - install_commands"]

/-- The schema of the settings for dates. -/
def datesSchema : List String := [
  "$schema: \"http://json-schema.org/draft-07/schema#\"",
  "$id: \"https://schemas.goneat.dev/config/v1.0.0/dates.json\"",
  "title: goneat dates configuration",
  "type: object",
  "additionalProperties: false",
  "properties:",
  "  enabled:",
  "    type: boolean",
  "  date_patterns:",
  "    type: array",
  "    items:",
  "      type: object",
  "      required:",
  "        - regex",
  "      properties:",
  "        regex:",
  "          type: string",
  "        order:",
  "          type: string",
  "          enum: [YMD, DMY, MDY]",
  "        description:",
  "          type: string",
  "  files:",
  "    type: object",
  "    properties:",
  "      include:",
  "        type: array",
  "        items:",
  "          type: string",
  "      exclude:",
  "        type: array",
  "        items:",
  "          type: string",
  "  rules:",
  "    type: object",
  "    properties:",
  "      future_dates:",
  "        type: object",
  "        properties:",
  "          enabled:",
  "            type: boolean",
  "          max_skew:",
  "            type: string",
  "          severity:",
  "            type: string",
  "            enum: [low, medium, high, critical]"]

end Conform.Assets

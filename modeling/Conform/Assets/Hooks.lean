/-!
The schema of hooks.
The text is kept line by line.
-/
namespace Conform.Assets

/-- The schema of a manifest of hooks. -/
def hooksSchema : List String := [
  "$schema: \"https://json-schema.org/draft/2020-12/schema\"",
  "$id: \"https://schemas.goneat.dev/work/v1.0.0/hooks-manifest.json\"",
  "title: goneat hooks manifest",
  "type: object",
  "required:",
  "  - version",
  "  - hooks",
  "additionalProperties: false",
  "properties:",
  "  version:",
  "    type: string",
  "  hooks:",
  "    type: object",
  "    propertyNames:",
  "      enum: [pre-commit, pre-push, commit-msg]",
  "    additionalProperties:",
  "      type: array",
  "      items:",
  "        $ref: \"#/$defs/hook\"",
  "  optimization:",
  "    type: object",
  "    properties:",
  "      only_changed_files:",
  "        type: boolean",
  "      parallel:",
  "        type: string",
  "        enum: [auto, always, never]",
  "$defs:",
  "  hook:",
  "    type: object",
  "    required:",
  "      - command",
  "    additionalProperties: false",
  "    properties:",
  "      command:",
  "        type: string",
  "        minLength: 1",
  "      args:",
  "        type: array",
  "        items:",
  "          type: string",
  "      priority:",
  "        type: integer",
  "        minimum: 0",
  "      timeout:",
  "        type: string",
  "        pattern: \"^[0-9]+(ms|s|m)$\"",
  "      fallback:",
  "        type: string"]

end Conform.Assets

import Conform.Mapping.Field
import Conform.Mapping.Rule

/-!
Mapping manifests: the rules by which files find their schemas, and settings. Manifests are laid one
over the other; of two rules that apply the later one decides, and a setting that is left unset may
be set by another manifest.
-/
namespace Conform.Mapping

structure Tuning where
  inference : Option Bool := none
  fallbackToContent : Option Bool := none
  strict : Option Bool := none
  cacheInferences : Option Bool := none
  respectExclusions : Option Bool := none
  suggestExclusions : Option Bool := none
  minConfidence : Option Double := none
  maxSuggestions : Option Int := none

namespace Tuning

/-- The settings of the second, and those of the first where the second has none. -/
def merge (base overlay : Tuning) : Tuning where
  inference := overlay.inference <|> base.inference
  fallbackToContent := overlay.fallbackToContent <|> base.fallbackToContent
  strict := overlay.strict <|> base.strict
  cacheInferences := overlay.cacheInferences <|> base.cacheInferences
  respectExclusions := overlay.respectExclusions <|> base.respectExclusions
  suggestExclusions := overlay.suggestExclusions <|> base.suggestExclusions
  minConfidence := overlay.minConfidence <|> base.minConfidence
  maxSuggestions := overlay.maxSuggestions <|> base.maxSuggestions

/-- The settings, with defaults for those that are not set. -/
def withDefaults (t defaults : Tuning) : Tuning := defaults.merge t

def ofDocument (d : Document) : Except Failure Tuning := do
  match d with
  | .null => return {}
  | d =>
    let path : Text := "config"
    let ms ← Field.object path d
    let flag (name : Text) : Except Failure (Option Bool) := Field.bool? path (Field.member ms name)
    return {
      inference := ← flag "inference_enabled"
      fallbackToContent := ← flag "fallback_to_content"
      strict := ← flag "strict_mode"
      cacheInferences := ← flag "cache_inferences"
      respectExclusions := ← flag "respect_exclusions"
      suggestExclusions := ← flag "auto_suggest_exclusions"
      minConfidence := ← Field.float? path (Field.member ms "min_confidence")
      maxSuggestions := ← Field.int? path (Field.member ms "max_suggestions") }

/-- The settings that are set, by name. -/
def toMembers (t : Tuning) : Members :=
  Members.ofOption "inference_enabled" (t.inference.map .bool)
    ++ Members.ofOption "fallback_to_content" (t.fallbackToContent.map .bool)
    ++ Members.ofOption "strict_mode" (t.strict.map .bool)
    ++ Members.ofOption "cache_inferences" (t.cacheInferences.map .bool)
    ++ Members.ofOption "respect_exclusions" (t.respectExclusions.map .bool)
    ++ Members.ofOption "auto_suggest_exclusions" (t.suggestExclusions.map .bool)
    ++ Members.ofOption "min_confidence" (t.minConfidence.map .float)
    ++ Members.ofOption "max_suggestions" (t.maxSuggestions.map .int)

end Tuning

structure Manifest where
  version : Text := []
  tuning : Tuning := {}
  rules : List Rule := []
  exclusions : List Exclusion := []
  overrides : List Override := []

namespace Manifest

/-- The only version there is. -/
def currentVersion : Text := "1.0.0"

def ofDocument (d : Document) : Except Failure Manifest := do
  match d with
  | .null => return {}
  | d =>
    let ms ← Field.object "manifest" d
    let version ← match Field.member ms "version" with
      | .null => pure []
      | d => Field.anyText "version" d
    let tuning ← Tuning.ofDocument (Field.member ms "config")
    let list (name : Text) : Except Failure (List Document) :=
      Field.items name (Field.member ms name)
    let rules ← Field.each "mappings" (← list "mappings") Rule.ofDocument
    let exclusions ← Field.each "exclusions" (← list "exclusions") Exclusion.ofDocument
    let overrides ← Field.each "overrides" (← list "overrides") Override.ofDocument
    return { version, tuning, rules, exclusions, overrides }

def toDocument (m : Manifest) : Document :=
  let config := m.tuning.toMembers
  .object (Members.one "version" (.text m.version)
    ++ (if config.isEmpty then [] else Members.one "config" (.object config))
    ++ Members.ofItems "mappings" (m.rules.map Rule.toDocument)
    ++ Members.ofItems "exclusions" (m.exclusions.map Exclusion.toDocument)
    ++ Members.ofItems "overrides" (m.overrides.map Override.toDocument))

/-- A manifest laid over another one. The version is that of the lower one. -/
def merge (base overlay : Manifest) : Manifest where
  version := base.version
  tuning := base.tuning.merge overlay.tuning
  rules := base.rules ++ overlay.rules
  exclusions := base.exclusions ++ overlay.exclusions
  overrides := base.overrides ++ overlay.overrides

/-- The last override for a schema. -/
def override? (m : Manifest) (schemaId : Text) : Option Override :=
  m.overrides.reverse.find? (·.schemaId == schemaId)

/-- The manifest that applies everywhere. -/
def builtin : Manifest where
  version := currentVersion
  tuning := {
    inference := some true
    fallbackToContent := some true
    strict := some false
    cacheInferences := some true
    respectExclusions := some true
    suggestExclusions := some false
    minConfidence := some (.ofDecimal false 75 (-2)) }
  rules := [
    { pattern := "config/ascii/terminal-overrides.yaml", schemaId := "terminal-overrides-v1.0.0",
      origin := some .embedded, priority := some .high },
    { pattern := ".goneat/config.yaml", schemaId := "goneat-config-v1.0.0",
      origin := some .embedded, priority := some .high },
    { pattern := ".goneat/hooks.yaml", schemaId := "hooks-manifest-v1.0.0",
      origin := some .embedded, priority := some .high },
    { pattern := "**/*-config.yaml", inference := some .content, priority := some .normal },
    { pattern := "**/database.yaml", schemaId := "database-config-v1.0.0",
      origin := some .embedded, priority := some .normal },
    { pattern := "schemas/**/*.yaml", inference := some .metaSchema, priority := some .low }]
  exclusions := [
    { pattern := "test/fixtures/**/*.yaml", reason := "Test fixtures, not validated",
      action := some .skip },
    { pattern := "docs/examples/**/*.json", reason := "Documentation examples",
      action := some .skip },
    { pattern := "tools/*/output.yaml", schemaId := "goneat-config-v1.0.0",
      reason := "Tool outputs should not use goneat config schema",
      action := some .retryInference },
    { pattern := "logs/*.json", schemaId := "*", reason := "Log files", action := some .skip }]

end Manifest
end Conform.Mapping

import Conform.Mapping.Field

/-!
The rules of a mapping: which schema the files under a pattern belong to, which files are left out,
and where a schema is to be found.
-/
namespace Conform.Mapping

/-- How a schema is found out from a file itself. -/
inductive Inference where
  | none
  | content
  | metaSchema
deriving DecidableEq, Repr

/-- Where schemas come from. -/
inductive Origin where
  | embedded
  | external
  | locally
deriving DecidableEq, Repr

inductive Priority where
  | low
  | normal
  | high
deriving DecidableEq, Repr

/-- What is done with a file that an exclusion applies to. -/
inductive Action where
  | skip
  | retryInference
deriving DecidableEq, Repr

def Inference.words : List (Text × Inference) :=
  [("none", .none), ("content", .content), ("meta-schema", .metaSchema)]

def Origin.words : List (Text × Origin) :=
  [("embedded", .embedded), ("external", .external), ("local", .locally)]

def Priority.words : List (Text × Priority) := [("low", .low), ("normal", .normal), ("high", .high)]

def Action.words : List (Text × Action) := [("skip", .skip), ("retry_inference", .retryInference)]

def Inference.name : Inference → Text
  | none => "none"
  | content => "content"
  | metaSchema => "meta-schema"

def Origin.name : Origin → Text
  | embedded => "embedded"
  | external => "external"
  | locally => "local"

def Priority.name : Priority → Text
  | low => "low"
  | normal => "normal"
  | high => "high"

def Action.name : Action → Text
  | skip => "skip"
  | retryInference => "retry_inference"

/-- A condition on a field of a document. No value, and null, ask for nothing. -/
structure Condition where
  field : Text
  isPresent : Option Bool := none
  equals : Document := .null
  schemaId : Text := []

/-- Gives the files under a pattern a schema. -/
structure Rule where
  pattern : Text
  schemaId : Text := []
  inference : Option Inference := none
  fallback : Text := []
  origin : Option Origin := none
  priority : Option Priority := none
  conditions : List Condition := []

/-- Leaves out the files under a pattern, or all files if there is none. -/
structure Exclusion where
  pattern : Text := []
  content : Option Condition := none
  schemaId : Text := []
  reason : Text := []
  action : Option Action := none

/-- Says where a schema is to be found. -/
structure Override where
  schemaId : Text
  origin : Text := []
  path : Text := []

namespace Condition

/-- The part that conditions of rules and of exclusions share. -/
def plain (path : Text) (ms : Members) : Except Failure Condition := do
  let field ← Field.text (path ++ ".field") (Field.member ms "field")
  let isPresent ← Field.bool? (path ++ ".exists") (Field.member ms "exists")
  return { field, isPresent, equals := Field.member ms "equals" }

def ofContent (path : Text) (d : Document) : Except Failure Condition := do
  plain path (← Field.object path d)

def ofDocument (path : Text) (d : Document) : Except Failure Condition := do
  let ms ← Field.object path d
  let c ← plain path ms
  let schemaId ← Field.textOrEmpty (path ++ ".schema_id") (Members.get? ms "schema_id")
  return { c with schemaId }

def toDocument (c : Condition) : Document :=
  .object (Members.one "field" (.text c.field)
    ++ Members.ofOption "exists" (c.isPresent.map .bool)
    ++ (match c.equals with
      | .null => []
      | d => Members.one "equals" d)
    ++ Members.ofText "schema_id" c.schemaId)

end Condition

namespace Rule

def ofDocument (path : Text) (d : Document) : Except Failure Rule := do
  let ms ← Field.object path d
  let pattern ← Field.text (path ++ ".pattern") (Field.member ms "pattern")
  let schemaId ← Field.textOrEmpty (path ++ ".schema_id") (Members.get? ms "schema_id")
  let inference ← Field.word? Inference.words (path ++ ".inference_method")
    (Field.member ms "inference_method")
  let fallback ← Field.textOrEmpty (path ++ ".fallback_schema") (Members.get? ms "fallback_schema")
  let origin ← Field.word? Origin.words (path ++ ".source") (Field.member ms "source")
  let priority ← Field.word? Priority.words (path ++ ".priority") (Field.member ms "priority")
  let conditions ← Field.each (path ++ ".conditions")
    (← Field.items path (Field.member ms "conditions")) Condition.ofDocument
  return { pattern, schemaId, inference, fallback, origin, priority, conditions }

def toDocument (r : Rule) : Document :=
  .object (Members.one "pattern" (.text r.pattern)
    ++ Members.ofText "schema_id" r.schemaId
    ++ Members.ofOption "inference_method" (r.inference.map fun i => .text i.name)
    ++ Members.ofText "fallback_schema" r.fallback
    ++ Members.ofOption "source" (r.origin.map fun o => .text o.name)
    ++ Members.ofOption "priority" (r.priority.map fun p => .text p.name)
    ++ Members.ofItems "conditions" (r.conditions.map Condition.toDocument))

end Rule

namespace Exclusion

def ofDocument (path : Text) (d : Document) : Except Failure Exclusion := do
  let ms ← Field.object path d
  let pattern ← Field.textOrEmpty (path ++ ".pattern") (Members.get? ms "pattern")
  let content ← match Field.member ms "content_pattern" with
    | .null => pure none
    | d => some <$> Condition.ofContent (path ++ ".content_pattern") d
  let schemaId ← Field.textOrEmpty (path ++ ".exclude_schema") (Members.get? ms "exclude_schema")
  let reason ← Field.textOrEmpty (path ++ ".reason") (Members.get? ms "reason")
  let action ← Field.word? Action.words (path ++ ".action") (Field.member ms "action")
  return { pattern, content, schemaId, reason, action }

def toDocument (e : Exclusion) : Document :=
  .object (Members.ofText "pattern" e.pattern
    ++ Members.ofOption "content_pattern" (e.content.map Condition.toDocument)
    ++ Members.ofText "exclude_schema" e.schemaId
    ++ Members.ofText "reason" e.reason
    ++ Members.ofOption "action" (e.action.map fun a => .text a.name))

end Exclusion

namespace Override

def ofDocument (path : Text) (d : Document) : Except Failure Override := do
  let ms ← Field.object path d
  let schemaId ← Field.text (path ++ ".schema_id") (Field.member ms "schema_id")
  let origin ← Field.textOrEmpty (path ++ ".source") (Members.get? ms "source")
  let location ← Field.textOrEmpty (path ++ ".path") (Members.get? ms "path")
  return { schemaId, origin, path := location }

def toDocument (o : Override) : Document :=
  .object (Members.one "schema_id" (.text o.schemaId) ++ Members.ofText "source" o.origin
    ++ Members.ofText "path" o.path)

end Override
end Conform.Mapping

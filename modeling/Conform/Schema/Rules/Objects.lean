import Conform.Schema.Evaluator

/-!
The rules about objects: the members they must have, may have, and the schemas for each.
-/
namespace Conform.Schema.Rules

/-- Goes through names one after the other. -/
def required (keyword : Text) (value x : Document) : Findings :=
  match x with
  | .object ms => overParts value (Findings.forEach fun name => .ofExcept do
    return violationIf (!(← hasMember ms name)) keyword
      (name.display ++ " is a required property"))
  | _ => .done

def properties (e : Evaluator) (c : Context) (value x : Document) : Findings :=
  match x with
  | .object ms => overMembers value (Findings.forEach fun (name, schema) =>
    match Members.get? ms name with
    | some v => e.below c name schema v
    | none => .done)
  | _ => .done

/-- The expression is read only when there is a member to try it on. -/
def patternProperties (e : Evaluator) (c : Context) (value x : Document) : Findings :=
  match x with
  | .object [] => .done
  | .object ms => overMembers value (Findings.forEach fun (pattern, schema) =>
    match compilePattern pattern with
    | .error why => .stopped why
    | .ok compiled => Findings.forEach (fun (name, v) =>
        if compiled.occursIn name then e.below c name schema v else .done) ms)
  | _ => .done

def propertyNames (e : Evaluator) (c : Context) (value x : Document) : Findings :=
  match x with
  | .object ms => Findings.forEach (fun (name, _) => e.descend c value (.text name)) ms
  | _ => .done

/-- The names in a member of the schema. -/
def namesIn (schema : Members) (keyword : Text) : Except Failure (List Text) :=
  match Members.get? schema keyword with
  | none => .ok []
  | some (.object ms) => .ok (Members.names ms)
  | some _ => .error .unsuitable

/-- The members that neither a name nor a pattern of the schema covers. All patterns are tried at
once, as branches of one expression. -/
def extraMembers (schema ms : Members) : Except Failure Members := do
  let known ← namesIn schema "properties"
  let patterns ← namesIn schema "patternProperties"
  let rest := ms.filter fun m => !known.contains m.1
  let joined := Text.join "|" patterns
  if joined.isEmpty || rest.isEmpty then return rest
  let compiled ← compilePattern joined
  return rest.filter fun m => !compiled.occursIn m.1

/-- The complaint about members that are not allowed. -/
def extraMessage (schema : Members) (extras : List Text) : Text :=
  let shown := (Text.sorted extras).map Document.text
  match Members.get? schema "patternProperties" with
  | some patterns =>
    let names := match patterns with
      | .object ms => Members.names ms
      | _ => []
    Text.join ", " (shown.map Document.display) ++ (if shown.length == 1 then " does" else " do")
      ++ " not match any of the regexes: "
      ++ Text.join ", " ((Text.sorted names).map Text.quoted)
  | none => "Additional properties are not allowed (" ++ wereWas shown ++ " unexpected)"

def additionalProperties (e : Evaluator) (c : Context) (keyword : Text) (value : Document)
    (schema : Members) (x : Document) : Findings :=
  match x with
  | .object ms => .ofExcept do
    let extras ← extraMembers schema ms
    if value.isObject then
      return Findings.forEach (fun (name, v) => e.below c name value v) extras
    else
      return violationIf (!value.isTrue && !extras.isEmpty) keyword
        (extraMessage schema (Members.names extras))
  | _ => .done

/-- The names that must be there beside a name. -/
def needed (keyword property : Text) (ms : Members) (names : Document) : Findings :=
  overParts names (Findings.forEach fun name => .ofExcept do
    return violationIf (!(← hasMember ms name)) keyword
      (name.display ++ " is a dependency of " ++ property.quoted))

def dependentRequired (keyword : Text) (value x : Document) : Findings :=
  match x with
  | .object ms => overMembers value (Findings.forEach fun (property, names) =>
    if Members.has ms property then needed keyword property ms names else .done)
  | _ => .done

def dependentSchemas (e : Evaluator) (c : Context) (value x : Document) : Findings :=
  match x with
  | .object ms => overMembers value (Findings.forEach fun (property, schema) =>
    if Members.has ms property then e.descend c schema x else .done)
  | _ => .done

/-- A list of names that must be there, or a schema. -/
def dependencies (e : Evaluator) (c : Context) (keyword : Text) (value x : Document) : Findings :=
  match x with
  | .object ms => overMembers value (Findings.forEach fun (property, dependency) =>
    if Members.has ms property then
      match dependency with
      | .list names => needed keyword property ms (.list names)
      | schema => e.descend c schema x
    else .done)
  | _ => .done

end Conform.Schema.Rules

import Conform.Schema.Rules.Combined

/-!
The rules about what no other keyword takes care of. A schema takes care of the members and items
that its own keywords apply to, and of those that the schemas it combines take care of, as far as
the value conforms to them.
-/
namespace Conform.Schema.Rules

/-- What the schema at the end of a reference takes care of. -/
def throughReference {α : Type} (c : Context) (inner : Context → Document → Except Failure (List α))
    (found : Except Failure (Except Unresolved Target)) : Except Failure (List α) := do
  match ← found with
  | .ok t => inner (c.at_ t) t.document
  | .error why => throw (.deadEnd false why)

/-- The references in a schema, each with what it leads to. -/
def references (c : Context) (early : Bool) (schema : Members) :
    List (Except Failure (Except Unresolved Target)) :=
  let at_ (keyword : Text) : List (Except Failure (Except Unresolved Target)) :=
    match Members.get? schema keyword with
    | none | some .null => []
    | some ref => [target c ref]
  at_ "$ref" ++
    (if early then
      (if Members.has schema "$recursiveRef" then [c.resolver.lookupRecursive] else [])
    else at_ "$dynamicRef")

/-- The schemas listed under a keyword. -/
def listed (schema : Members) (keyword : Text) : List Document :=
  match Members.get? schema keyword with
  | some (.list ds) => ds
  | _ => []

/-- What the schemas take care of that a schema combines for the same value. -/
def combined {α : Type} (e : Evaluator) (c : Context) (schema : Members) (x : Document)
    (inner : Context → Document → Except Failure (List α)) : Except Failure (List α) := do
  let keywords : List Text := ["allOf", "oneOf", "anyOf"]
  let parts ← (keywords.flatMap (listed schema)).mapM fun sub => do
    if ← (e.descend c sub x).isClean then inner c sub else return []
  return parts.flatten

/-- What one branch of a condition takes care of. -/
def branch {α : Type} (c : Context) (schema : Members)
    (inner : Context → Document → Except Failure (List α)) (keyword : Text) : Except Failure (List α) :=
  match Members.get? schema keyword with
  | some sub => inner c sub
  | none => .ok []

/-- What the branches of a condition take care of. -/
def branches {α : Type} (e : Evaluator) (c : Context) (schema : Members) (x : Document)
    (inner : Context → Document → Except Failure (List α)) : Except Failure (List α) := do
  match Members.get? schema "if" with
  | none => return []
  | some condition =>
    if ← (e.inspect c condition x).isClean then
      return (← inner c condition) ++ (← branch c schema inner "then")
    else branch c schema inner "else"

/-- The members whose names match a pattern of the schema. -/
def patternNames (schema ms : Members) : Except Failure (List Text) := do
  match Members.get? schema "patternProperties" with
  | some (.object patterns) =>
    if ms.isEmpty then return []
    let compiled ← patterns.mapM fun p => compilePattern p.1
    return (Members.names ms).filter fun name => compiled.any (·.occursIn name)
  | _ => return []

/-- The members named by the schema itself. -/
def propertyNamesOf (schema ms : Members) : List Text :=
  match Members.get? schema "properties" with
  | some (.object ps) => (Members.names ps).filter (Members.has ms)
  | _ => []

/-- The members that conform to the schema of a keyword. -/
def fittingNames (e : Evaluator) (c : Context) (schema ms : Members) (keyword : Text) :
    Except Failure (List Text) := do
  match Members.get? schema keyword with
  | none | some .null => return []
  | some sub =>
    let fitting ← ms.filterM fun m => (e.descend c sub m.2).isClean
    return Members.names fitting

/-- In the early dialect a schema for further members takes care of all of them. -/
def allNames (schema ms : Members) (keyword : Text) : List Text :=
  match Members.get? schema keyword with
  | some (.bool true) | some (.object _) => Members.names ms
  | _ => []

/-- The schemas that apply because some member is there. -/
def dependentNames (schema ms : Members) (inner : Document → Except Failure (List Text)) :
    Except Failure (List Text) := do
  match Members.get? schema "dependentSchemas" with
  | some (.object ds) =>
    let parts ← ds.mapM fun d => if Members.has ms d.1 then inner d.2 else .ok []
    return parts.flatten
  | _ => return []

/-- The members of an object that a schema takes care of. -/
def evaluatedNames (e : Evaluator) (c : Context) (early : Bool) (schema : Document) (ms : Members) :
    Except Failure (List Text) := do
  match schema with
  | .object keywords =>
    let inner (c : Context) (sub : Document) := e.names c early sub ms
    let referred ← (references c early keywords).mapM (throughReference c inner)
    let further ←
      if early then
        pure (allNames keywords ms "additionalProperties"
          ++ allNames keywords ms "unevaluatedProperties")
      else
        pure ((← fittingNames e c keywords ms "additionalProperties")
          ++ (← fittingNames e c keywords ms "unevaluatedProperties"))
    return referred.flatten ++ propertyNamesOf keywords ms ++ further
      ++ (← patternNames keywords ms) ++ (← dependentNames keywords ms (inner c))
      ++ (← combined e c keywords (.object ms) inner)
      ++ (← branches e c keywords (.object ms) inner)
  | _ => return []

/-- The places whose items conform to the schema of a keyword. -/
def fittingPlaces (e : Evaluator) (c : Context) (schema : Members) (items : List Document)
    (keyword : Text) : Except Failure (List Nat) := do
  match Members.get? schema keyword with
  | none => return []
  | some sub =>
    let tested ← items.mapM fun x => (e.inspect c sub x).isClean
    return (List.range items.length).filter fun i => tested[i]? == some true

/-- Whether keywords of a schema take care of every item, and else of how many at the start. -/
def leadingPlaces (early : Bool) (schema : Members) : Option Nat :=
  match Members.get? schema "items" with
  | some v =>
    if early then
      match v with
      | .list ds => if Members.has schema "additionalItems" then none else some ds.length
      | .object _ => none
      | _ => if Members.has schema "additionalItems" then none else some 0
    else none
  | none => if early then some 0 else some (listed schema "prefixItems").length

/-- The places in a list that a schema takes care of. -/
def evaluatedPlaces (e : Evaluator) (c : Context) (early : Bool) (schema : Document)
    (items : List Document) : Except Failure (List Nat) := do
  match schema with
  | .object keywords =>
    let inner (c : Context) (sub : Document) := e.places c early sub items
    match leadingPlaces early keywords with
    | none => return List.range items.length
    | some leading =>
      let referred ← (references c early keywords).mapM (throughReference c inner)
      return referred.flatten ++ List.range leading
        ++ (← branches e c keywords (.list items) inner)
        ++ (← fittingPlaces e c keywords items "contains")
        ++ (← fittingPlaces e c keywords items "unevaluatedItems")
        ++ (← combined e c keywords (.list items) inner)
  | _ => return []

def unevaluatedItems (e : Evaluator) (c : Context) (early : Bool) (keyword : Text)
    (schema : Members) (x : Document) : Findings :=
  match x with
  | .list items => .ofExcept do
    let done ← evaluatedPlaces e c early (.object schema) items
    let rest := (List.range items.length).filter (!done.contains ·)
    let left := rest.filterMap (items[·]?)
    return violationIf (!left.isEmpty) keyword
      ("Unevaluated items are not allowed (" ++ wereWas left ++ " unexpected)")
  | _ => .done

/-- The names of members with findings, each once for every finding. -/
def namesWithFindings (e : Evaluator) (c : Context) (schema : Document) (ms : Members) :
    Except Failure (List Text) := do
  let parts ← ms.mapM fun (name, v) => do
    return (← (e.descend c schema v).all).map fun _ => name
  return parts.flatten

def unevaluatedProperties (e : Evaluator) (c : Context) (early : Bool) (keyword : Text)
    (value : Document) (schema : Members) (x : Document) : Findings :=
  match x with
  | .object ms => .ofExcept do
    let done ← evaluatedNames e c early (.object schema) ms
    let left ← namesWithFindings e c value (ms.filter fun m => !done.contains m.1)
    if left.isEmpty then return .done
    match value with
    | .bool false =>
      return violation keyword ("Unevaluated properties are not allowed ("
        ++ wereWas ((Text.sorted left).map .text) ++ " unexpected)")
    | _ =>
      return violation keyword
        ("Unevaluated properties are not valid under the given schema ("
          ++ wereWas (left.map .text) ++ " unevaluated and invalid)")
  | _ => .done

end Conform.Schema.Rules

import Conform.Schema.Evaluator

/-!
The rules that combine schemas for one value, and references.
-/
namespace Conform.Schema.Rules

def allOf (e : Evaluator) (c : Context) (value x : Document) : Findings :=
  overParts value (Findings.forEach fun schema => e.descend c schema x)

/-- The schemas after the first that a value conforms to, with that one in front; none if there is
no such schema. All findings against a schema are made before the next one is tried. -/
def firstFit (e : Evaluator) (c : Context) (x : Document) :
    List Document → Except Failure (Option (Document × List Document))
  | [] => .ok none
  | schema :: rest => do
    if (← (e.descend c schema x).all).isEmpty then return some (schema, rest)
    else firstFit e c x rest

def underNone (keyword : Text) (x : Document) : Findings :=
  violation keyword (x.display ++ " is not valid under any of the given schemas")

def anyOf (e : Evaluator) (c : Context) (keyword : Text) (value x : Document) : Findings :=
  overParts value fun schemas => .ofExcept do
    match ← firstFit e c x schemas with
    | some _ => return .done
    | none => return underNone keyword x

/-- The schemas that a value conforms to when each is taken as a root. -/
def alsoFitting (e : Evaluator) (c : Context) (x : Document) :
    List Document → Except Failure (List Document)
  | [] => .ok []
  | schema :: rest => do
    let fits ← (e.inspect c schema x).isClean
    let more ← alsoFitting e c x rest
    return if fits then schema :: more else more

def oneOf (e : Evaluator) (c : Context) (keyword : Text) (value x : Document) : Findings :=
  overParts value fun schemas => .ofExcept do
    match ← firstFit e c x schemas with
    | none => return underNone keyword x
    | some (first, rest) =>
      let more ← alsoFitting e c x rest
      return violationIf (!more.isEmpty) keyword
        (x.display ++ " is valid under each of "
          ++ Text.join ", " ((more ++ [first]).map Document.display))

def not (e : Evaluator) (c : Context) (keyword : Text) (value x : Document) : Findings :=
  .ofExcept do
    let fits ← (e.inspect c value x).isClean
    return violationIf fits keyword
      (x.display ++ " should not be valid under " ++ value.display)

def conditional (e : Evaluator) (c : Context) (value : Document) (schema : Members)
    (x : Document) : Findings :=
  .ofExcept do
    let fits ← (e.inspect c value x).isClean
    match Members.get? schema (if fits then "then" else "else") with
    | some inner => return e.descend c inner x
    | none => return .done

/-- What a reference of a schema leads to. -/
def target (c : Context) (value : Document) : Except Failure (Except Unresolved Target) :=
  match value with
  | .text ref => c.resolver.lookup ref
  | _ => .error .unsuitable

def reference (e : Evaluator) (c : Context) (value x : Document) : Findings :=
  .ofExcept do
    match ← target c value with
    | .ok t => return e.follow c t x
    | .error why => throw (.deadEnd true why)

def recursiveReference (e : Evaluator) (c : Context) (x : Document) : Findings :=
  .ofExcept do
    match ← c.resolver.lookupRecursive with
    | .ok t => return e.follow c t x
    | .error why => throw (.deadEnd false why)

end Conform.Schema.Rules

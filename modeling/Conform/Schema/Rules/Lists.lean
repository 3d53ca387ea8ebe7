import Conform.Schema.Evaluator

/-!
The rules about lists: schemas for items by place, and for some items in any place.
-/
namespace Conform.Schema.Rules

/-- Values with their places, counted from `start`. -/
def placed (start : Nat) : List Document → List (Nat × Document)
  | [] => []
  | x :: rest => (start, x) :: placed (start + 1) rest

/-- Checks placed items against one schema. -/
def checkAll (e : Evaluator) (c : Context) (schema : Document) (items : List (Nat × Document)) :
    Findings :=
  Findings.forEach (fun (i, x) => e.below c (Text.ofNat i) schema x) items

/-- Checks items against the schemas in the same places. -/
def checkEach (e : Evaluator) (c : Context) (schemas items : List Document) : Findings :=
  Findings.forEach (fun ((i, x), schema) => e.below c (Text.ofNat i) schema x)
    ((placed 0 items).zip schemas)

def prefixItems (e : Evaluator) (c : Context) (value x : Document) : Findings :=
  match x, value with
  | .list items, .list schemas => checkEach e c schemas items
  | .list _, _ => .stopped .unsuitable
  | _, _ => .done

/-- How many schemas a keyword lists. -/
def listedCount (schema : Members) (keyword : Text) : Except Failure Nat :=
  match Members.get? schema keyword with
  | none => .ok 0
  | some v => match parts? v with
    | some ds => .ok ds.length
    | none => .error .unsuitable

/-- A schema for the items that have no schema for their place. -/
def items (e : Evaluator) (c : Context) (keyword : Text) (value : Document) (schema : Members)
    (x : Document) : Findings :=
  match x with
  | .list items => .ofExcept do
    let listed ← listedCount schema "prefixItems"
    let rest := items.drop listed
    match value, rest with
    | _, [] => return .done
    | .bool false, rest =>
      let shown := match rest with
        | [one] => one
        | rest => .list rest
      return violation keyword
        ("Expected at most " ++ Text.ofNat listed ++ (if listed == 1 then " item" else " items")
          ++ " but found " ++ Text.ofNat rest.length ++ " extra: " ++ shown.display)
    | value, rest => return checkAll e c value (placed listed rest)
  | _ => .done

/-- One schema for all items, or a list of schemas for the first ones. -/
def eitherItems (e : Evaluator) (c : Context) (value x : Document) : Findings :=
  match x, value with
  | .list items, .list schemas => checkEach e c schemas items
  | .list items, schema => checkAll e c schema (placed 0 items)
  | _, _ => .done

/-- A schema for the items beyond those that have a schema for their place. -/
def additionalItems (e : Evaluator) (c : Context) (keyword : Text) (value : Document)
    (schema : Members) (x : Document) : Findings :=
  match x with
  | .list items =>
    match Members.get? schema "items" with
    | none | some (.object _) => .done
    | some _ => .ofExcept do
      let listed ← listedCount schema "items"
      let rest := items.drop listed
      if value.isObject then return checkAll e c value (placed listed rest)
      else
        return violationIf (!value.isTrue && !rest.isEmpty) keyword
          ("Additional items are not allowed (" ++ wereWas rest ++ " unexpected)")
  | _ => .done

/-- Counts the items that match, up to the first that makes them too many. -/
def countMatches (test : Document → Except Failure Bool) (most : Document) :
    Nat → List Document → Except Failure (Nat × Bool)
  | n, [] => .ok (n, false)
  | n, x :: rest => do
    if ← test x then
      if (← compare (.int (n + 1)) most) == some .gt then return (n + 1, true)
      else countMatches test most (n + 1) rest
    else countMatches test most n rest

/-- Between a least and a greatest number of items match; a violation counts as one of the keyword
that gives the number. -/
def contains (e : Evaluator) (c : Context) (keyword : Text) (value : Document) (schema : Members)
    (x : Document) : Findings :=
  match x with
  | .list items => .ofExcept do
    let least := (Members.get? schema "minContains").getD (.int 1)
    let most := (Members.get? schema "maxContains").getD (.int items.length)
    let (n, tooMany) ← countMatches (fun x => (e.inspect c value x).isClean) most 0 items
    if tooMany then
      return violation "maxContains"
        ("Too many items match the given schema (expected at most " ++ most.plain ++ ")")
    if (← compare (.int n) least) != some .lt then return .done
    if n == 0 then
      return violation keyword (x.display ++ " does not contain items matching the given schema")
    return violation "minContains"
      ("Too few items match the given schema (expected at least " ++ least.plain ++ " but only "
        ++ Text.ofNat n ++ " matched)")
  | _ => .done

/-- Whether some value passes a test; later ones are not tried. -/
def someClean (test : Document → Except Failure Bool) : List Document → Except Failure Bool
  | [] => .ok false
  | x :: rest => do if ← test x then return true else someClean test rest

def containsAny (e : Evaluator) (c : Context) (keyword : Text) (value x : Document) : Findings :=
  match x with
  | .list items => .ofExcept do
    let some_ ← someClean (fun x => (e.inspect c value x).isClean) items
    return violationIf (!some_) keyword
      ("None of " ++ x.display ++ " are valid under the given schema")
  | _ => .done

end Conform.Schema.Rules

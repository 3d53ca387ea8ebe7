import Conform.Schema.Evaluator

/-!
The rules about a value by itself: its type, its limits, its size, and the values it may have.
-/
namespace Conform.Schema.Rules

/-- Whether a value has one of the types; later ones are not looked at once one fits. -/
def hasSomeType (d : Dialect) (x : Document) : List Document → Except Failure Bool
  | [] => .ok false
  | .list _ :: _ | .object _ :: _ => .error .unsuitable
  | t :: rest => do if ← d.hasType x t.plain then return true else hasSomeType d x rest

def type (c : Context) (keyword : Text) (value x : Document) : Findings :=
  let check (types : List Document) : Findings := .ofExcept do
    let fits ← hasSomeType c.dialect x types
    return violationIf (!fits) keyword
      (x.display ++ " is not of type " ++ Text.join ", " (types.map Document.display))
  match value with
  | .text t => check [.text t]
  | value => overParts value check

def enum (keyword : Text) (value x : Document) : Findings :=
  overParts value fun allowed =>
    violationIf (!allowed.any (·.same x)) keyword
      (x.display ++ " is not one of " ++ value.display)

def const (keyword : Text) (value x : Document) : Findings :=
  violationIf (!x.same value) keyword (value.display ++ " was expected")

/-- Whether an order means that a limit is passed. -/
def isPast (side : Side) (exclusive : Bool) (order : Option Ordering) : Bool :=
  match order, side with
  | some .lt, .least | some .gt, .greatest => true
  | some .eq, _ => exclusive
  | _, _ => false

def limitMessage (side : Side) (exclusive : Bool) (bound x : Document) : Text :=
  let than : Text := match side with | .least => "less than" | .greatest => "greater than"
  let what : Text := match side with | .least => "minimum" | .greatest => "maximum"
  x.display ++ " is " ++ than ++ (if exclusive then " or equal to" else "") ++ " the " ++ what
    ++ " of " ++ bound.display

def limit (side : Side) (exclusive : Bool) (keyword : Text) (value x : Document) : Findings :=
  if !x.isNumber then .done
  else .ofExcept do
    let order ← compare x value
    return violationIf (isPast side exclusive order) keyword (limitMessage side exclusive value x)

/-- A limit that a second keyword may make exclusive. -/
def switchedLimit (side : Side) (keyword : Text) (value : Document) (schema : Members)
    (x : Document) : Findings :=
  let switch : Text := match side with
    | .least => "exclusiveMinimum"
    | .greatest => "exclusiveMaximum"
  let exclusive := match Members.get? schema switch with
    | some v => v.isTrue
    | none => false
  limit side exclusive keyword value x

/-- A number rounded to floating point; beyond the range there is none. -/
def toDouble : Document → Except Failure Double
  | .int n => match Double.ofInt? n with
    | some d => .ok d
    | none => .error .tooLarge
  | .float d => .ok d
  | _ => .error .unsuitable

/-- Whether a number is no multiple of another. If the latter is in floating point, the rounded
quotient decides, and exact arithmetic only where the quotient is too large. -/
def isNoMultiple (x : Document) (value : Document) : Except Failure Bool := do
  match x, value with
  | x, .float step =>
    let n ← toDouble x
    if step.isZero then throw .unsuitable
    match n.div step with
    | .nan => throw .notWhole
    | .infinite _ => if n.isFinite then return !n.isMultiple step else throw .tooLarge
    | q => return !q.isWhole
  | .int n, .int step => if step = 0 then throw .unsuitable else return n % step != 0
  | .float n, .int step =>
    let step ← toDouble (.int step)
    if step.isZero then throw .unsuitable
    return !(n.isFinite && n.isMultiple step)
  | _, _ => throw .unsuitable

def multipleOf (keyword : Text) (value x : Document) : Findings :=
  if !x.isNumber then .done
  else .ofExcept do
    let failed ← isNoMultiple x value
    return violationIf failed keyword (x.display ++ " is not a multiple of " ++ value.display)

/-- The size of a value, if it is of the kind that is measured. -/
def size? (of : Sized) (x : Document) : Option Nat :=
  match of, x with
  | .items, .list items => some items.length
  | .characters, .text t => some t.length
  | .members, .object ms => some ms.length
  | _, _ => none

/-- What is wrong with the size; the least limit of one and the greatest limit of none have words
of their own. -/
def sizeComplaint (of : Sized) (side : Side) (value : Document) : Text :=
  match side with
  | .least =>
    if isNumber value 1 then "should be non-empty"
    else if of == .members then "does not have enough properties" else "is too short"
  | .greatest =>
    if isNumber value 0 then "is expected to be empty"
    else if of == .members then "has too many properties" else "is too long"

def size (of : Sized) (side : Side) (keyword : Text) (value x : Document) : Findings :=
  match size? of x with
  | none => .done
  | some n => .ofExcept do
    let order ← compare (.int n) value
    return violationIf (isPast side false order) keyword
      (x.display ++ " " ++ sizeComplaint of side value)

def pattern (keyword : Text) (value x : Document) : Findings :=
  match x with
  | .text t =>
    match value with
    | .text p => .ofExcept do
      let compiled ← compilePattern p
      return violationIf (!compiled.occursIn t) keyword
        (x.display ++ " does not match " ++ value.display)
    | _ => .stopped .unsuitable
  | _ => .done

/-- Of the forms only that of regular expressions is checked. -/
def format (c : Context) (keyword : Text) (value x : Document) : Findings :=
  match c.formats, value, x with
  | true, .text name, .text t =>
    if name == "regex" then
      match compilePattern t with
      | .ok _ => .done
      | .error .badPattern => violation keyword (x.display ++ " is not a 'regex'")
      | .error why => .stopped why
    else .done
  | _, _, _ => .done

mutual

/-- The order of two values, as far as they have one: numbers by value, texts by code points, lists
by their first difference. Inside a list a Boolean counts as a number. -/
def order? : Document → Document → Option Ordering
  | .text a, .text b => some (if a == b then .eq else if Text.lt a b then .lt else .gt)
  | .list as, .list bs => orderItems? as bs
  | a, b => do (← number? a).compareNumbers? (← number? b)

def orderItems? : List Document → List Document → Option Ordering
  | [], [] => some .eq
  | [], _ :: _ => some .lt
  | _ :: _, [] => some .gt
  | a :: as, b :: bs =>
    match order? a b with
    | some .eq => orderItems? as bs
    | o => o

end

/-- Whether a value and a later one are the same. -/
def hasRepetition : List Document → Bool
  | [] => false
  | x :: rest => rest.any (·.same x) || hasRepetition rest

/-- Whether two neighbours are the same. -/
def hasNeighbours : List Document → Bool
  | x :: y :: rest => x.same y || hasNeighbours (y :: rest)
  | _ => false

def isBool : Document → Bool
  | .bool _ => true
  | _ => false

/-- Whether all values have an order with each other. -/
def areOrdered : List Document → Bool
  | [] => true
  | x :: rest => !isBool x && rest.all (fun y => (order? x y).isSome) && areOrdered rest

/-- Whether some value occurs twice. Values that have an order are sorted first, and then only
neighbours are compared. -/
def isRepetitive (items : List Document) : Bool :=
  if areOrdered items then hasNeighbours (items.mergeSort fun a b => order? a b != some .gt)
  else hasRepetition items

def uniqueItems (keyword : Text) (value x : Document) : Findings :=
  match x with
  | .list items =>
    violationIf (value.isTrue && isRepetitive items) keyword
      (x.display ++ " has non-unique elements")
  | _ => .done

end Conform.Schema.Rules

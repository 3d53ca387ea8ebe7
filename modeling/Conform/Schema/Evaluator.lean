import Conform.Pattern.Matching
import Conform.Pattern.Parser
import Conform.Schema.Finding
import Conform.Schema.Resolver
import Conform.Schema.Rule

/-!
What a rule needs in order to check a value: the dialect and the place in which the schema stands,
and the checks against schemas further inside. The latter are a parameter, so each rule is defined
by itself.
-/
namespace Conform.Schema

structure Context where
  dialect : Dialect
  resolver : Resolver
  /-- Whether the form of regular expressions is checked. -/
  formats : Bool

/-- Checks against schemas. -/
structure Evaluator where
  /-- Against a schema inside the present one. -/
  descend : Context → Document → Document → Findings
  /-- Against a schema at the end of a reference. -/
  follow : Context → Target → Document → Findings
  /-- Against a schema inside the present one, whose name and dialect count as the root's do. -/
  inspect : Context → Document → Document → Findings
  /-- The members of an object that a schema takes care of. -/
  names : Context → Bool → Document → Members → Except Failure (List Text)
  /-- The places in a list that a schema takes care of. -/
  places : Context → Bool → Document → List Document → Except Failure (List Nat)

/-- A check of a part of a value. A schema that allows nothing is not said to be about the part, so
its finding stays at the whole. -/
def Evaluator.below (e : Evaluator) (c : Context) (step : Text) (schema part : Document) :
    Findings :=
  match schema with
  | .bool false => e.descend c schema part
  | schema => (e.descend c schema part).under step

namespace Dialect

/-- The dialect of a schema inside another: its own if it names one. -/
def inner (d : Dialect) (schema : Document) : Dialect :=
  (((schema.get? "$schema").bind Document.text?).bind ofName?).getD d

/-- Whether a value is of a type. -/
def hasType (d : Dialect) (x : Document) (type : Text) : Except Failure Bool :=
  if type == "array" then .ok (match x with | .list _ => true | _ => false)
  else if type == "boolean" then .ok (match x with | .bool _ => true | _ => false)
  else if type == "integer" then
    .ok (match x with
      | .int _ => true
      | .float f => d != draft4 && f.isWhole
      | _ => false)
  else if type == "null" then .ok (match x with | .null => true | _ => false)
  else if type == "number" then .ok x.isNumber
  else if type == "object" then .ok x.isObject
  else if type == "string" then .ok (match x with | .text _ => true | _ => false)
  else .error (.unknownType type)

end Dialect

namespace Context

/-- The context of a schema with its own dialect. -/
def of (c : Context) (schema : Document) : Context :=
  { c with dialect := c.dialect.inner schema }

def at_ (c : Context) (t : Target) : Context := { c.of t.document with resolver := t.resolver }

end Context

/-- A finding against a keyword. -/
def violation (keyword message : Text) : Findings := .one ⟨[], some keyword, message⟩

/-- A finding against a keyword if a condition holds. -/
def violationIf (failed : Bool) (keyword message : Text) : Findings :=
  if failed then violation keyword message else .done

/-- The parts of a value in order: items, characters or names. -/
def parts? : Document → Option (List Document)
  | .list items => some items
  | .text t => some (t.map fun p => .text [p])
  | .object ms => some (ms.map fun m => .text m.1)
  | _ => none

/-- Goes through the parts of a keyword's value. -/
def overParts (value : Document) (check : List Document → Findings) : Findings :=
  match parts? value with
  | some ds => check ds
  | none => .stopped .unsuitable

/-- Goes through the members of a keyword's value. -/
def overMembers (value : Document) (check : Members → Findings) : Findings :=
  match value with
  | .object ms => check ms
  | _ => .stopped .unsuitable

/-- Whether an object has a member of the given name. Lists and objects cannot be names. -/
def hasMember (ms : Members) : Document → Except Failure Bool
  | .text t => .ok (Members.has ms t)
  | .list _ | .object _ => .error .unsuitable
  | _ => .ok false

/-- A value as a number; a Boolean counts as zero or one. -/
def number? : Document → Option Document
  | .bool b => some (.int b.toNat)
  | .int n => some (.int n)
  | .float x => some (.float x)
  | _ => none

/-- The order of two values as numbers, none for NaN. -/
def compare (a b : Document) : Except Failure (Option Ordering) :=
  match number? a, number? b with
  | some x, some y => .ok (x.compareNumbers? y)
  | _, _ => .error .unsuitable

/-- Whether a value is the number `n`. -/
def isNumber (d : Document) (n : Int) : Bool :=
  match number? d with
  | some x => x.numberEq (.int n)
  | none => false

/-- Makes an expression ready for search. -/
def compilePattern (t : Text) : Except Failure Pattern.Compiled :=
  match Pattern.compile t {} with
  | .ok p => .ok p
  | .error f => .error (if f.reason = .tooLarge then .tooLarge else .badPattern)

/-- The displayed values, and the verb that goes with their number. -/
def wereWas (ds : List Document) : Text :=
  Text.join ", " (ds.map Document.display) ++ (if ds.length == 1 then " was" else " were")

end Conform.Schema

import Conform.Schema.Rules.Lists
import Conform.Schema.Rules.Objects
import Conform.Schema.Rules.Unevaluated
import Conform.Schema.Rules.Values

/-!
The check of a value against a schema. The keywords of a schema are taken in the order in which they
are written; checks against schemas further inside go down one level, and a chain of more levels
than any sensible schema has is given up.
-/
namespace Conform.Schema

/-- The check that stands behind a keyword. -/
def Rule.check (rule : Rule) (e : Evaluator) (c : Context) (keyword : Text) (value : Document)
    (schema : Members) (x : Document) : Findings :=
  match rule with
  | .reference => Rules.reference e c value x
  | .recursiveReference => Rules.recursiveReference e c x
  | .type => Rules.type c keyword value x
  | .enum => Rules.enum keyword value x
  | .const => Rules.const keyword value x
  | .limit side exclusive => Rules.limit side exclusive keyword value x
  | .switchedLimit side => Rules.switchedLimit side keyword value schema x
  | .multipleOf => Rules.multipleOf keyword value x
  | .size of side => Rules.size of side keyword value x
  | .pattern => Rules.pattern keyword value x
  | .format => Rules.format c keyword value x
  | .uniqueItems => Rules.uniqueItems keyword value x
  | .required => Rules.required keyword value x
  | .properties => Rules.properties e c value x
  | .patternProperties => Rules.patternProperties e c value x
  | .propertyNames => Rules.propertyNames e c value x
  | .additionalProperties => Rules.additionalProperties e c keyword value schema x
  | .prefixItems => Rules.prefixItems e c value x
  | .items => Rules.items e c keyword value schema x
  | .eitherItems => Rules.eitherItems e c value x
  | .additionalItems => Rules.additionalItems e c keyword value schema x
  | .contains => Rules.contains e c keyword value schema x
  | .containsAny => Rules.containsAny e c keyword value x
  | .dependencies => Rules.dependencies e c keyword value x
  | .dependentRequired => Rules.dependentRequired keyword value x
  | .dependentSchemas => Rules.dependentSchemas e c value x
  | .allOf => Rules.allOf e c value x
  | .anyOf => Rules.anyOf e c keyword value x
  | .oneOf => Rules.oneOf e c keyword value x
  | .not => Rules.not e c keyword value x
  | .conditional => Rules.conditional e c value schema x
  | .unevaluatedItems early => Rules.unevaluatedItems e c early keyword schema x
  | .unevaluatedProperties early => Rules.unevaluatedProperties e c early keyword value schema x

/-- Checks a value against one keyword of a schema. Most keywords of a dialect have a rule. -/
def checkKeyword (e : Evaluator) (c : Context) (schema : Members) (x : Document)
    (member : Text × Document) : Findings :=
  match c.dialect.rule? member.1 with
  | some rule => rule.check e c member.1 member.2 schema x
  | none => .done

/-- Checks a value against the keywords of a schema, as listed by one dialect and understood by the
context's. -/
def checkKeywords (e : Evaluator) (listing : Dialect) (c : Context) (schema : Members)
    (x : Document) : Findings :=
  Findings.forEach (checkKeyword e c schema x) (listing.keywords schema)

/-- A Boolean allows everything or nothing; of other schemas the keywords are checked. -/
def checkSchema (schema x : Document) (keywords : Members → Findings) : Findings :=
  match schema with
  | .bool true => .done
  | .bool false => .one ⟨[], none, "False schema does not allow " ++ x.display⟩
  | .object ms => keywords ms
  | _ => .stopped .unsuitable

namespace Evaluator

/-- The evaluator one level above another. -/
def above (e : Evaluator) : Evaluator where
  descend c schema x := checkSchema schema x fun ms =>
    match c.resolver.enter ⟨c.dialect, schema⟩ with
    | .ok resolver => checkKeywords e c.dialect { c.of schema with resolver } ms x
    | .error why => .stopped why
  follow c t x := checkSchema t.document x fun ms => checkKeywords e c.dialect (c.at_ t) ms x
  inspect c schema x := checkSchema schema x fun ms =>
    let c := c.of schema
    checkKeywords e c.dialect c ms x
  names c early schema ms := Rules.evaluatedNames e c early schema ms
  places c early schema items := Rules.evaluatedPlaces e c early schema items

/-- The evaluator that gives up at once. -/
def bottom : Evaluator where
  descend _ _ _ := .stopped .endless
  follow _ _ _ := .stopped .endless
  inspect _ _ _ := .stopped .endless
  names _ _ _ _ := .error .endless
  places _ _ _ _ := .error .endless

/-- The evaluator with a number of levels. -/
def ofLevels : Nat → Evaluator
  | 0 => bottom
  | n + 1 => above (ofLevels n)

/-- The levels that a check may go down. -/
def maxLevels : Nat := 1000

end Evaluator

/-- Checks a value against a whole schema. Its keywords are those of the context's dialect, whatever
it declares. -/
def check (c : Context) (schema x : Document) : Findings :=
  checkSchema schema x fun ms =>
    checkKeywords (Evaluator.ofLevels Evaluator.maxLevels) c.dialect c ms x

end Conform.Schema

import Conform.Glob
import Conform.Mapping.Manifest
import Conform.Path

/-!
Which schema a file belongs to. Exclusions come before all rules, and among each the last one that
applies decides. A resolver counts its answers.
-/
namespace Conform.Mapping

/-- The answer for one file. -/
inductive Resolution where
  | excluded (reason : Text)
  | mapped (rule : Rule)
  | unmatched

/-- How many answers of each kind were given. -/
structure Tally where
  evaluated : Nat := 0
  mapped : Nat := 0
  unmapped : Nat := 0
  excluded : Nat := 0
deriving DecidableEq, Repr

structure Resolver where
  manifest : Manifest
  tally : Tally := {}

/-- Whether a pattern covers a path: the path matches it, or they have the same last name. -/
def covers (pattern path : Text) : Bool :=
  let pattern' := Text.replaceChar '\\' '/' pattern
  !pattern.isEmpty && (Glob.accepts pattern' path || Path.base path == Path.base pattern')

namespace Exclusion

/-- Whether the exclusion applies to a path. What it says of content does not count. -/
def applies (e : Exclusion) (path : Text) : Bool := e.pattern.isEmpty || covers e.pattern path

end Exclusion

namespace Rule

/-- Whether the rule names a schema for a path. -/
def applies (r : Rule) (path : Text) : Bool := covers r.pattern path && !r.schemaId.isEmpty

end Rule

namespace Resolution

def isMatched : Resolution → Bool
  | unmatched => false
  | _ => true

def toDocument : Resolution → Document
  | excluded reason => answer [] .null .null true reason .zero
  | mapped r =>
    answer r.schemaId ((r.origin.map fun o => Document.text o.name).getD .null) r.toDocument false []
      (.ofDecimal false 1 0)
  | unmatched => answer [] .null .null false [] .zero
where
  answer (schemaId : Text) (source rule : Document) (excluded : Bool) (reason : Text)
      (confidence : Double) : Document :=
    .record [("schema_id", .text schemaId), ("source", source), ("rule", rule),
      ("excluded", .bool excluded), ("reason", .text reason), ("confidence", .float confidence)]

end Resolution

namespace Manifest

/-- The answer for a path. -/
def resolve (m : Manifest) (path : Text) : Resolution :=
  let path := Glob.normalPath path
  match m.exclusions.reverse.find? (·.applies path) with
  | some e => .excluded e.reason
  | none =>
    match m.rules.reverse.find? (·.applies path) with
    | some r => .mapped r
    | none => .unmatched

end Manifest

namespace Resolver

/-- Goes through the rules. One that does not cover the path is passed over, and so is one that
names no schema. -/
def tryRules (path : Text) : List Rule → StateM Tally Resolution
  | [] => do
    modify fun t => { t with unmapped := t.unmapped + 1 }
    return .unmatched
  | rule :: rest => do
    if !covers rule.pattern path then
      return ← tryRules path rest
    if rule.schemaId.isEmpty then
      return ← tryRules path rest
    modify fun t => { t with mapped := t.mapped + 1 }
    return .mapped rule

/-- Answers for a path, and counts the answer where it comes about. -/
def answer (m : Manifest) (path : Text) : StateM Tally Resolution := do
  modify fun t => { t with evaluated := t.evaluated + 1 }
  let path := Glob.normalPath path
  match m.exclusions.reverse.find? (·.applies path) with
  | some e =>
    modify fun t => { t with excluded := t.excluded + 1 }
    return .excluded e.reason
  | none => tryRules path m.rules.reverse

def resolve (r : Resolver) (path : Text) : Resolver × Resolution :=
  let (a, tally) := (answer r.manifest path).run r.tally
  ({ r with tally }, a)

end Resolver
end Conform.Mapping

import Conform.Failure

/-!
What a check finds. Findings come one at a time, in the order in which they are discovered, and the
check goes on only as far as somebody asks: who wants to know only whether there is a finding does
not meet a failure that comes later.
-/
namespace Conform.Schema

/-- One mismatch between a value and a schema. -/
structure Finding where
  /-- The way from the root of the data to the value. -/
  path : List Text
  /-- The keyword that is violated; none where the schema allows nothing. -/
  keyword : Option Text
  message : Text

inductive Findings where
  | done
  | found (first : Finding) (rest : Unit → Findings)
  /-- The check could not go on. -/
  | stopped (why : Failure)

namespace Findings

def one (f : Finding) : Findings := found f fun _ => done

/-- One check after the other. -/
def append : Findings → (Unit → Findings) → Findings
  | done, next => next ()
  | found f rest, next => found f fun _ => append (rest ()) next
  | stopped why, _ => stopped why

/-- A check of each item in order. -/
def forEach {α : Type} (check : α → Findings) : List α → Findings
  | [] => done
  | a :: rest => (check a).append fun _ => forEach check rest

/-- A check that depends on a computation which may fail. -/
def ofExcept (e : Except Failure Findings) : Findings :=
  match e with
  | .ok f => f
  | .error why => stopped why

/-- Findings below a step of the path. -/
def under (step : Text) : Findings → Findings
  | done => done
  | found f rest => found { f with path := step :: f.path } fun _ => under step (rest ())
  | stopped why => stopped why

/-- The first finding, if there is one. -/
def first? : Findings → Except Failure (Option Finding)
  | done => .ok none
  | found f _ => .ok (some f)
  | stopped why => .error why

/-- Whether nothing is found. -/
def isClean (f : Findings) : Except Failure Bool := f.first?.map Option.isNone

/-- All findings in order. -/
def all : Findings → Except Failure (List Finding)
  | done => .ok []
  | found f rest => (all (rest ())).map (f :: ·)
  | stopped why => .error why

end Findings
end Conform.Schema

import Conform.Log

/-!
Recording of events while runs are under way inside each other.
-/
namespace Conform.Log

/-- Where lines go, and what is known of the runs that are under way, the innermost first. -/
structure Recorder where
  sink : Sink := .silent
  scopes : List Correlation := []

namespace Recorder

def context (r : Recorder) : Correlation := r.scopes.headD []

/-- Begins a run inside the present one. -/
def enter (r : Recorder) (fields : List (Text × Option Text)) : Except Failure Recorder := do
  let c ← Correlation.bind r.context fields
  return { r with scopes := c :: r.scopes }

/-- Ends the innermost run, and with it what was known of it. -/
def leave (r : Recorder) : Recorder := { r with scopes := r.scopes.drop 1 }

/-- The lines for some events. Those that are written have to be well formed. -/
def lines (r : Recorder) (time : Text) (es : List Event) : Except Failure (List Document) := do
  let written := es.filter r.sink.accepts
  written.forM Event.check
  return r.sink.lines time (written.map (·.within r.context))

end Recorder
end Conform.Log

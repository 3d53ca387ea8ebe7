import Conform.Schema.Finding
import Conform.Document.Reading

/-!
The report of a validation: the mismatches in a fixed order, with the place of each, in words that
can be acted upon.
-/
namespace Conform.Schema

/-- Where data came from, for reports. -/
structure Source where
  file : Text := []
  type : Text := []
  line : Int := 0
  severity : Text := []
deriving DecidableEq

/-- One mismatch as it is reported. -/
structure Issue where
  path : Text
  message : Text
  source : Option Source := none
deriving DecidableEq

/-- The outcome of a validation. Data conform if there are no issues. -/
structure Report where
  issues : List Issue

namespace Source

/-- The parts that are known, by name. -/
def toDocument (s : Source) : Document :=
  let texts (ms : List (String × Text)) : List (String × Document) :=
    (ms.filter (!·.2.isEmpty)).map fun m => (m.1, .text m.2)
  .record (texts [("source_file", s.file), ("source_type", s.type)]
    ++ (if s.line = 0 then [] else [("line_number", .int s.line)])
    ++ texts [("severity", s.severity)])

end Source

namespace Issue

def toDocument (i : Issue) : Document :=
  .record ([("path", .text i.path), ("message", .text i.message)]
    ++ (match i.source with
      | some s => [("context", s.toDocument)]
      | none => []))

/-- The place of a finding, in words. -/
def pathText (path : List Text) : Text :=
  let t := Text.join "." path
  if t.isEmpty then "root" else t

/-- The words for a tool with two ways of being installed. -/
def bothInstalls : Text := Text.ofString <|
  "Both 'install' and 'install_commands' cannot be present (mutually exclusive). Use only 'install'"
    ++ " for v1.1.0+ package managers, or only 'install_commands' for legacy scripts."

/-- The words for a way of being installed that the schema does not know yet. -/
def newerInstall : Text := Text.ofString <|
  "The 'install' property requires schema v1.1.0+. Either upgrade to v1.1.0 schema or use "
    ++ "'install_commands' instead."

/-- What is added to a finding against `not`, which does not say what it forbids. -/
def exclusionHint : Text := Text.ofString <|
  " (Schema constraint violation - check for mutually exclusive properties or invalid combinations)"

/-- The words for a finding. -/
def improved (path : Text) (f : Finding) : Text :=
  let forbidden := f.keyword == some "not"
  if path.startsWith "tools." && forbidden then bothInstalls
  else if path.startsWith "tools." && f.keyword == some "additionalProperties"
      && Text.contains "'install'" f.message then newerInstall
  else if forbidden then f.message ++ exclusionHint
  else f.message

def ofFinding (f : Finding) : Issue :=
  let path := pathText f.path
  { path, message := improved path f }

end Issue

namespace Finding

/-- Order of lists by their first difference. -/
def ltPath : List Text → List Text → Bool
  | [], [] => false
  | [], _ :: _ => true
  | _ :: _, [] => false
  | a :: s, b :: t => if a == b then ltPath s t else a.lt b

/-- The keyword for sorting; a schema that allows nothing sorts under a word of its own. -/
def sortWord (f : Finding) : Text := f.keyword.getD "None"

/-- The order of findings in a report: by path, keyword and message. -/
def le (f g : Finding) : Bool :=
  if f.path != g.path then ltPath f.path g.path
  else if f.sortWord != g.sortWord then f.sortWord.lt g.sortWord
  else f.message.le g.message

end Finding

namespace Report

def valid (r : Report) : Bool := r.issues.isEmpty

/-- The report of all findings, in whatever order they were made. -/
def ofFindings (fs : List Finding) : Report := ⟨(fs.mergeSort Finding.le).map Issue.ofFinding⟩

/-- Attaches a source with a file name to every issue. -/
def withSource (r : Report) (source : Option Source) : Report :=
  match source with
  | some s =>
    if s.file.isEmpty then r else ⟨r.issues.map fun i => { i with source := some s }⟩
  | none => r

def toDocument (r : Report) : Document :=
  .record ([("valid", .bool r.valid)]
    ++ (if r.issues.isEmpty then [] else [("errors", .list (r.issues.map Issue.toDocument))]))

end Report
end Conform.Schema

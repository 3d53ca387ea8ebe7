import Conform.CommandLine.Grammar
import Conform.CommandLine.Screen
import Conform.FileTree
import Conform.Json.Printer
import Conform.Log
import Conform.Settings

/-!
What a command is given and what it answers. Commands read files and settings from their host and
write nothing: their output is part of the answer.
-/
namespace Conform.CommandLine

structure Host where
  files : Files
  env : Environment
  processors : Nat
  /-- The time, as lines of the log give it. -/
  time : Text
  /-- A name that no other run has. -/
  runName : Text
  /-- Whether the output goes to a terminal. -/
  terminal : Bool

/-- What a command comes to. -/
structure Answer where
  passed : Bool
  /-- The output. -/
  out : Text := []
  /-- What else is to be said to the caller. -/
  complaint : Text := []

/-- A command under way: the host, the settings, and what was given on the command line. -/
structure Call where
  host : Host
  settings : Settings
  given : Given

/-- The texts that are not blank, without the blanks around them. -/
def trimmed (ts : List Text) : List Text := (ts.map Text.strip).filter (!·.isEmpty)

/-- Reads a list of texts: a list, one text, or nothing. -/
def textsOf (d : Document) : Except Failure (List Text) :=
  match d with
  | .null => .ok []
  | .text t => .ok (trimmed [t])
  | .list ds =>
    if ds.all (·.text?.isSome) then .ok (trimmed (ds.filterMap Document.text?))
    else .error (.usage "invalid sequence argument")
  | _ => .error (.usage "invalid sequence argument")

/-- A document as output: one line, with its members in order. -/
def jsonLine (d : Document) : Except Failure Text :=
  match Json.obstacle? d with
  | some o => .error (.ofObstacle o)
  | none => .ok (Json.render .canonical d ++ "\n")

namespace Host

/-- A path without detours, as it was given under a label. -/
def cleanPath (label raw : Text) : Except Failure Text :=
  (Path.clean raw).mapError fun f =>
    .usage ("invalid " ++ label ++ " " ++ raw.quoted ++ ": " ++ f.message)

/-- The content of a file, whose path was given under a label. -/
def read (h : Host) (label raw : Text) : Except Failure Bytes := do
  let path ← cleanPath label raw
  (h.files.read path).mapError fun f =>
    if f.isAccess then .usage ("failed to read " ++ label ++ " " ++ path ++ ": " ++ f.message) else f

end Host

namespace Call

def screen (c : Call) : Screen :=
  .ofTerminal c.host.terminal (c.given.isSet "--no-color") ((c.host.env.get? "NO_COLOR").getD [])

def files (c : Call) : Files := c.host.files

end Call
end Conform.CommandLine

import Conform.CommandLine
import Conform.Json.Reader
import Std.Time.DateTime.Timestamp

/-!
The program. It looks at no disk: what a run may read is given on the first line of standard input,
as a JSON object from paths to contents, and relative paths lead from the root. The settings are
taken from the environment.
-/
namespace Conform

/-- The files that a JSON object describes. -/
def Files.ofDocument (d : Document) : Files :=
  let none : Files := ⟨.directory [], "/"⟩
  match d with
  | .object ms => ms.foldl (fun fs m => fs.write m.1 m.2.plain.utf8) none
  | _ => none

/-- The names of settings in the environment. -/
def Environment.names : List String :=
  ["GONEAT_HOME", "GONEAT_LOG_LEVEL", "GONEAT_OFFLINE_SCHEMA_VALIDATION", "NO_COLOR"]

def readEnvironment : IO Environment := do
  let values ← Environment.names.filterMapM fun name => do
    return (← IO.getEnv name).map fun value => (Text.ofString name, Text.ofString value)
  return ⟨values, Text.ofString ((← IO.getEnv "HOME").getD "/")⟩

/-- What a run has around it. It does one thing after the other, so it has one processor. -/
def readHost : IO CommandLine.Host := do
  let line ← (← IO.getStdin).getLine
  let env ← readEnvironment
  let now ← Std.Time.Timestamp.now
  let time := Moment.stamp now.toMillisecondsSinceUnixEpoch.val.toNat
  let name := Text.hexDigits 12 (← IO.rand 0 0xffffffffffff)
  let terminal ← (← IO.getStdout).isTty
  return ⟨.ofDocument ((Json.ofText? line).getD .null), env, 1, time, name, terminal⟩

end Conform

def main (arguments : List String) : IO UInt32 := do
  let reply := Conform.CommandLine.run (← Conform.readHost) (arguments.map Conform.Text.ofString)
  (← IO.getStdout).putStr reply.out.toString
  (← IO.getStderr).putStr reply.err.toString
  return UInt32.ofNat reply.exit.code

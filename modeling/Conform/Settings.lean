import Conform.Document
import Conform.Failure
import Conform.Log
import Conform.Path
import Conform.Text.Blank
import Conform.Text.Case

/-!
Settings that hold for a whole run. They come from the environment, and what is given explicitly
overrides it.
-/
namespace Conform

/-- Names with values, and the home directory of the user. -/
structure Environment where
  values : List (Text × Text)
  home : Text

structure Settings where
  /-- The directory of the user's own files. -/
  home : Text
  /-- Whether schemas are compiled without the declaration of their dialect. -/
  offline : Bool
  logLevel : Text

namespace Environment

def get? (e : Environment) (name : Text) : Option Text := e.values.lookup name

/-- The path with the user's home directory for a tilde at the start. Homes of other users are not
known. -/
def expand (e : Environment) (path : Text) : Except Failure Text :=
  match Path.names path with
  | first :: rest =>
    if Path.isAbsolute path || !first.startsWith "~" then .ok (Path.tidy path)
    else if first == "~" then .ok (Path.tidy (Path.join e.home (Text.join "/" rest)))
    else .error .noSuchUser
  | [] => .ok (Path.tidy path)

/-- The directory of the user's own files. -/
def toolHome (e : Environment) : Except Failure Text :=
  let configured := ((e.get? "GONEAT_HOME").getD []).strip
  if configured.isEmpty then .ok (Path.tidy (Path.join e.home ".goneat"))
  else e.expand configured

/-- Whether schemas are compiled without the declaration of their dialect. Only one word says so. -/
def isOffline (e : Environment) : Bool := e.get? "GONEAT_OFFLINE_SCHEMA_VALIDATION" == some "true"

end Environment

namespace Settings

/-- The name of a log level in capitals. -/
def normalLevel (d : Document) : Except Failure Text :=
  match d with
  | .text t =>
    let name := t.strip.upper
    if name.isEmpty then .error .emptyLogLevel
    else if (Log.Level.named? name).isSome then .ok name
    else .error (.unsupportedLogLevel t)
  | _ => .error .emptyLogLevel

def ofEnvironment (e : Environment) : Except Failure Settings := do
  let home ← e.toolHome
  let level := (e.get? "GONEAT_LOG_LEVEL").getD "WARNING"
  return ⟨home, e.isOffline, ← normalLevel (.text level)⟩

/-- The names of settings that can be overridden. -/
def names : List Text := ["home", "offline_schema_validation", "log_level"]

/-- Settings with some of them set anew. -/
def override (s : Settings) (ms : Members) : Except Failure Settings := do
  let unknown := (Members.names ms).filter fun n => !names.contains n
  if !unknown.isEmpty then throw (.unknownSettings (Text.sorted unknown))
  let home := (((Members.get? ms "home").map Document.plain)).getD s.home
  let offline := ((Members.get? ms "offline_schema_validation").map Document.isTrue).getD s.offline
  let level ← normalLevel ((Members.get? ms "log_level").getD (.text s.logLevel))
  return ⟨home, offline, level⟩

end Settings
end Conform

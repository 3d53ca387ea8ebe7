import Conform.CommandLine.Inspection
import Conform.CommandLine.Validation

/-!
The commands, with what each can be given.
-/
namespace Conform.CommandLine

inductive Command where
  | validateData
  | validateSuite
  | checkSchemas
  | listSchemas
  | detect
deriving DecidableEq, Repr

namespace Command

def program : Text := "goneat"

def helpSwitch : Switch := { names := ["-h", "--help"], need := .help }

def flag (names : List Text) : Switch := { names }

def option (name : Text) (choices : List Text := []) : Switch :=
  { names := [name], need := .value .text choices }

/-- The levels that can be asked for on the command line. -/
def logLevels : List Text := ["DEBUG", "INFO", "WARNING", "ERROR", "CRITICAL"]

/-- The switches of all commands. -/
def common : List Switch :=
  [helpSwitch, flag ["--verbose", "-v"],
    { names := ["--log-level"], need := .value .capitals logLevels }, flag ["--no-color"]]

def dataSwitch : Switch := { names := ["--data"], need := .value .text [], required := true }

def refSwitches : List Switch := [option "--ref-dir", option "--schema-resolution"]

def formatSwitch : Switch := option "--format" ["markdown", "json"]

/-- The words of a command. -/
def words : Command → List Text
  | validateData => ["validate", "data"]
  | validateSuite => ["validate", "suite"]
  | checkSchemas => ["schema", "validate-schema"]
  | listSchemas => ["schema", "list"]
  | detect => ["schema", "detect"]

def all : List Command := [validateData, validateSuite, checkSchemas, listSchemas, detect]

/-- What belongs to a command besides the common switches. -/
def switches : Command → List Switch
  | validateData => [dataSwitch, option "--schema", option "--schema-file"] ++ refSwitches
      ++ [formatSwitch]
  | validateSuite => [dataSwitch, option "--manifest"] ++ refSwitches
      ++ [option "--skip", option "--expect-fail", option "--exclude", flag ["--strict"],
        flag ["--no-fail-on-unmapped"], { names := ["--workers"], need := .value .whole [] },
        { names := ["--timeout"], need := .value .real [] }, formatSwitch]
  | checkSchemas => [option "--schema-id", flag ["--recursive"], option "--format" ["text", "json"]]
  | listSchemas => [flag ["--json"]]
  | detect => [flag ["--all"], flag ["--json"]]

def operand : Command → Option Operand
  | checkSchemas => some ⟨"paths", .several⟩
  | detect => some ⟨"path", .one⟩
  | _ => none

def level (c : Command) : Level :=
  ⟨Text.join " " (program :: c.words), common ++ c.switches, c.operand⟩

/-- The first words of commands. -/
def groups : List Text := ["validate", "schema"]

def topLevel : Level := ⟨program, [helpSwitch], some ⟨"command", .command⟩⟩

/-- The level after the first word of a command. -/
def groupLevel (group : Text) : Level :=
  ⟨program ++ " " ++ group, [helpSwitch], some ⟨group ++ "_command", .command⟩⟩

/-- The commands with a first word, by their second words. -/
def inGroup (group : Text) : List (Text × Command) :=
  all.filterMap fun c =>
    match c.words with
    | [first, second] => if first == group then some (second, c) else none
    | _ => none

/-- Reads a command line. Words that belong to nothing are refused after all others were read. -/
def read (words : List Text) : Except Stop (Command × Given) := do
  let (group, words, extras) ← topLevel.choose groups words
  let commands := inGroup group
  let (name, words, more) ← (groupLevel group).choose (commands.map (·.1)) words
  let command := (commands.lookup name).getD .listSchemas
  let given ← command.level.read words
  let extras := extras ++ more ++ given.extras
  if !extras.isEmpty then
    topLevel.fault ("unrecognized arguments: " ++ Text.join " " extras)
  return (command, given)

/-- Carries out a command. -/
def carryOut : Command → Call → Log.Traced Answer
  | validateData => Call.validateData
  | validateSuite => Call.validateSuite
  | checkSchemas => Call.checkSchemas
  | listSchemas => Call.listSchemas
  | detect => Call.detect

end Command
end Conform.CommandLine

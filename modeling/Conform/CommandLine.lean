import Conform.CommandLine.Commands
import Conform.CommandLine.Exit

/-!
The program as a function: what it writes and how it ends, for words on the command line and a host.
-/
namespace Conform.CommandLine

/-- All that a run lets its caller see. -/
structure Reply where
  exit : Exit
  out : Text := []
  /-- The lines of the log. -/
  log : Text := []
  /-- What is said to the caller after the log. -/
  complaint : Text := []
  /-- The failure that the complaint is about, if there was one. -/
  failure : Option Failure := none

namespace Reply

/-- What is written beside the output. -/
def err (r : Reply) : Text := r.log ++ r.complaint

/-- The reply to a command line that is not carried out. -/
def ofStop : Stop → Reply
  | .help program => { exit := .success, out := "usage: " ++ program ++ "\n" }
  | .fault program reason => { exit := .misuse, complaint := program ++ ": error: " ++ reason ++ "\n" }

/-- The words for a failure. Only reasons that a command gave itself are kept as they are. -/
def complaintOf (f : Failure) : Text :=
  match f with
  | .usage reason => "error: " ++ reason ++ "\n"
  | f => "error: " ++ f.message.strip ++ "\n"

def ofFailure (f : Failure) : Reply :=
  { exit := if f.isMisuse then .misuse else .internal, complaint := complaintOf f
    failure := some f }

def ofAnswer (a : Answer) : Reply :=
  { exit := if a.passed then .success else .failed, out := a.out, complaint := a.complaint }

end Reply

/-- The level of the log: the one asked for, else all if there are to be details, else the one of
the settings. -/
def logLevel (s : Settings) (g : Given) : Log.Level :=
  let asked := g.text "--log-level"
  let name := if !asked.isEmpty then asked
    else if g.isSet "--verbose" then "DEBUG" else s.logLevel
  (Log.Level.named? name).getD .warning

/-- The lines of the log that are written for some events. -/
def logText (level : Log.Level) (time : Text) (es : List Log.Event) : Text :=
  ((Log.Sink.ofLevel level).lines time es).flatMap fun d => Json.render .canonical d ++ "\n"

/-- Carries out a command line. -/
def run (h : Host) (words : List Text) : Reply :=
  match Command.read words with
  | .error stop => .ofStop stop
  | .ok (command, given) =>
    match Settings.ofEnvironment h.env with
    | .error f => .ofFailure f
    | .ok settings =>
      let answer := command.carryOut ⟨h, settings, given⟩
      let reply := match answer.outcome with
        | .ok a => Reply.ofAnswer a
        | .error f => Reply.ofFailure f
      { reply with log := logText (logLevel settings given) h.time answer.events }

end Conform.CommandLine

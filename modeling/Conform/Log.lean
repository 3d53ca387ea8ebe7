import Conform.Failure
import Conform.Path
import Conform.Text.Blank
import Conform.Text.Case
import Conform.Text.Encoding

/-!
Events that are reported while something is done, by how urgent they are. Each becomes a line of
JSON, and what is known of the run as a whole is added to every line. A failure ends a computation
that reports events on its way, but what it reported before stays.
-/
namespace Conform.Log

/-- An urgency; greater numbers are more urgent. -/
structure Level where
  value : Int
deriving DecidableEq, Repr

namespace Level

def debug : Level := ⟨10⟩

def info : Level := ⟨20⟩

def warning : Level := ⟨30⟩

def error : Level := ⟨40⟩

def critical : Level := ⟨50⟩

/-- The names that levels can be given by. Of two names for one level the first is written. -/
def names : List (String × Level) :=
  [("CRITICAL", critical), ("FATAL", critical), ("ERROR", error), ("WARNING", warning),
    ("WARN", warning), ("INFO", info), ("DEBUG", debug), ("NOTSET", ⟨0⟩)]

/-- The level with a name in capitals. -/
def named? (name : Text) : Option Level := (names.find? fun n => Text.ofString n.1 == name).map (·.2)

def name (l : Level) : Text :=
  match names.find? fun n => n.2 = l with
  | some (name, _) => name
  | none => "Level " ++ Text.ofInt l.value

/-- Reads the name of a level, whatever its case. -/
def read (t : Text) : Except Failure Level :=
  match named? t.strip.upper with
  | some l => .ok l
  | none => .error (.noSuchLogLevel t)

end Level

/-- A value that an event carries. -/
inductive Value where
  | null
  | bool (b : Bool)
  | int (n : Int)
  | float (x : Double)
  | text (t : Text)
  | bytes (bs : Bytes)
  | path (p : Text)
  | list (vs : List Value)
  /-- Values without an order. -/
  | set (vs : List Value)
  | object (ms : List (Text × Value))
  /-- Anything else, by the text that shows it. -/
  | shown (t : Text)

/-- What is known of a run as a whole. -/
abbrev Correlation := List (Text × Text)

structure Event where
  level : Level
  /-- The part of the program that reports; dots divide a part from what it belongs to. -/
  logger : Text
  message : Text
  fields : List (Text × Value) := []
  /-- What failed, if the event is about a failure. -/
  failure : Option Text := none
  context : Correlation := []

/-- Where lines are written to: the level from which on they are, if they are at all. -/
structure Sink where
  threshold : Option Level

namespace Value

/-- The members of a set in the order of their texts, each once. -/
def arrange (ds : List Document) : List Document :=
  let shown := (ds.map fun d => (d.display, d)).mergeSort fun a b => Text.le a.1 b.1
  (shown.eraseDupsBy fun a b => a.1 == b.1).map (·.2)

mutual

/-- The value as JSON can write it. A number that JSON has no form for is written as a text, and
bytes as far as they are text. -/
def toDocument : Value → Document
  | null => .null
  | bool b => .bool b
  | int n => .int n
  | float x => if x.isFinite then .float x else .text x.display
  | text t => .text t
  | bytes bs => .text bs.textLossy
  | path p => .text (Path.tidy p)
  | list vs => .list (allDocuments vs)
  | set vs => .list (arrange (allDocuments vs))
  | object ms => .object (Members.ofList (allMembers ms))
  | shown t => .text t

def allDocuments : List Value → List Document
  | [] => []
  | v :: rest => toDocument v :: allDocuments rest

def allMembers : List (Text × Value) → List (Text × Document)
  | [] => []
  | (k, v) :: rest => (k, toDocument v) :: allMembers rest

end

end Value

namespace Correlation

/-- Adds some knowledge; none takes back what was known under a name. -/
def bind (c : Correlation) (fields : List (Text × Option Text)) : Except Failure Correlation :=
  fields.foldlM (fun (c : Correlation) (key, value) => do
    let others := c.filter fun kv => kv.1 != key
    match value with
    | none => return others
    | some t =>
      if t.strip.isEmpty then throw (.emptyCorrelation key)
      return others ++ [(key, t.strip)]) c

def toMembers (c : Correlation) : Members := c.map fun kv => (kv.1, .text kv.2)

end Correlation

namespace Event

/-- The names that describe an event itself, so that no field can have them. -/
def reserved : List Text :=
  ["args", "asctime", "created", "exc_info", "exc_text", "filename", "funcName", "levelname",
    "levelno", "lineno", "message", "module", "msecs", "msg", "name", "pathname", "process",
    "processName", "relativeCreated", "stack_info", "thread", "threadName"]

/-- Refuses an event that has a field with a reserved name. -/
def check (e : Event) : Except Failure Unit :=
  match e.fields.find? fun f => reserved.contains f.1 with
  | some (key, _) => .error (.reservedField key)
  | none => .ok ()

/-- Whether a field is written; those with a low line in front are private. -/
def isPublic (key : Text) : Bool := !key.startsWith "_" && key != "taskName"

/-- The fields that are written. -/
def fieldDocument (e : Event) : Members :=
  Members.ofList ((e.fields.filter fun f => isPublic f.1).map fun f => (f.1, f.2.toDocument))

/-- The line for an event at a time. Knowledge of the run takes the place of what the event says of
itself, but not of its fields. -/
def toDocument (e : Event) (time : Text) : Document :=
  let fields := e.fieldDocument
  let own := Members.one "timestamp" (.text time) ++ Members.one "level" (.text e.level.name)
    ++ Members.one "logger" (.text e.logger) ++ Members.one "message" (.text e.message)
  let more := (if fields.isEmpty then [] else Members.one "fields" (.object fields))
    ++ Members.ofOption "exception" (e.failure.map Document.text)
  .object (Members.ofList (own ++ e.context.toMembers ++ more))

/-- The same event as another part of the program reports it. -/
def under (logger : Text) (e : Event) : Event := { e with logger }

/-- The same event in a run. -/
def within (context : Correlation) (e : Event) : Event := { e with context }

end Event

namespace Sink

/-- The part of the program that all others belong to. -/
def rootLogger : Text := "goneat"

/-- A sink that nothing is written to. -/
def silent : Sink := ⟨none⟩

def ofLevel (l : Level) : Sink := ⟨some l⟩

/-- The level from which on lines are written. A level of zero leaves it to the usual one. -/
def effective (l : Level) : Level := if l.value = 0 then .warning else l

/-- Whether a line is written for an event. -/
def accepts (s : Sink) (e : Event) : Bool :=
  match s.threshold with
  | none => false
  | some l =>
    (e.logger == rootLogger || e.logger.startsWith (rootLogger ++ ".")) && 0 < e.level.value
      && (effective l).value ≤ e.level.value

/-- The lines for some events. -/
def lines (s : Sink) (time : Text) (es : List Event) : List Document :=
  (es.filter s.accepts).map (·.toDocument time)

end Sink

/-- What a computation comes to, and what it reported. -/
structure Traced (α : Type) where
  events : List Event
  outcome : Except Failure α

namespace Traced

variable {α β : Type}

instance : Monad Traced where
  pure a := ⟨[], .ok a⟩
  bind x f :=
    match x.outcome with
    | .ok a =>
      let y := f a
      ⟨x.events ++ y.events, y.outcome⟩
    | .error e => ⟨x.events, .error e⟩

instance : MonadLift (Except Failure) Traced := ⟨fun x => ⟨[], x⟩⟩

instance : MonadExceptOf Failure Traced where
  throw e := ⟨[], .error e⟩
  tryCatch x handle :=
    match x.outcome with
    | .ok _ => x
    | .error e =>
      let y := handle e
      ⟨x.events ++ y.events, y.outcome⟩

def report (es : List Event) : Traced Unit := ⟨es, .ok ()⟩

/-- The outcome of a chain is that of its links. -/
@[simp] theorem outcome_bind (x : Traced α) (f : α → Traced β) :
    (x >>= f).outcome = x.outcome >>= fun a => (f a).outcome := by
  cases x with
  | mk es o => cases o <;> rfl

@[simp] theorem outcome_pure (a : α) : (pure a : Traced α).outcome = .ok a := rfl

@[simp] theorem outcome_lift (x : Except Failure α) :
    (MonadLift.monadLift x : Traced α).outcome = x := rfl

@[simp] theorem outcome_report (es : List Event) : (report es).outcome = .ok () := rfl

end Traced
end Conform.Log

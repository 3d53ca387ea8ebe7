import Conform.Double.Decimal
import Conform.Text.Blank
import Conform.Text.Case
import Conform.Text.Numeral
import Conform.Text.Quoted

/-!
The grammar of command lines. A level of a command has switches, whose names begin with a hyphen,
and operands. A name may be cut short as long as only one switch begins so, a value may follow its
switch or be joined to it, and after two hyphens everything is an operand.
-/
namespace Conform.CommandLine

/-- How the value of a switch is read. -/
inductive Reading where
  | text
  /-- A text, in capitals. -/
  | capitals
  | whole
  | real
deriving DecidableEq, Repr

inductive Value where
  | text (t : Text)
  | whole (n : Int)
  | real (x : Double)

/-- What a switch needs. -/
inductive Need where
  | nothing
  /-- The switch asks for help, and nothing else is done. -/
  | help
  /-- A value; if there are choices, one of them. -/
  | value (reading : Reading) (choices : List Text)

structure Switch where
  /-- The names, with their hyphens. -/
  names : List Text
  need : Need := .nothing
  required : Bool := false

/-- How many operands there are. -/
inductive Arity where
  | one
  /-- One or more, next to each other. -/
  | several
  /-- A command, which takes everything after it. -/
  | command
deriving DecidableEq, Repr

structure Operand where
  name : Text
  arity : Arity

/-- A level of a command. -/
structure Level where
  /-- The words of the command so far. -/
  program : Text
  switches : List Switch
  operand : Option Operand

/-- Why a command line is not carried out. -/
inductive Stop where
  | help (program : Text)
  | fault (program reason : Text)

/-- A switch as a word mentions it. -/
structure Mention where
  /-- No switch has the name. -/
  switch : Option Switch
  name : Text
  /-- What is joined to the name, and whether by a sign of equality. -/
  joined : Option (Bool × Text) := none

/-- What a word is. -/
inductive Word where
  | operand
  | separator
  | mention (m : Mention)

/-- What a level found. Switches are listed by their first names. -/
structure Given where
  switches : List (Text × Value) := []
  operands : List Text := []
  /-- Words that belong to nothing. -/
  extras : List Text := []

namespace Switch

def key (s : Switch) : Text := s.names.headD []

def takesValue (s : Switch) : Bool :=
  match s.need with
  | .value .. => true
  | _ => false

/-- The switch in messages. -/
def label (s : Switch) : Text := Text.join "/" s.names

end Switch

namespace Reading

/-- Reads a value, or tells what it is not. -/
def read (r : Reading) (t : Text) : Except Text Value :=
  match r with
  | .text => .ok (.text t)
  | .capitals => .ok (.text t.upper)
  | .whole =>
    match if Text.maxDigits < Text.countDigits t then none else t.int? 10 with
    | some n => .ok (.whole n)
    | none => .error ("invalid int value: " ++ t.quoted)
  | .real =>
    match Double.read? t with
    | some x => .ok (.real x)
    | none => .error ("invalid float value: " ++ t.quoted)

end Reading

def invalidChoice (t : Text) (choices : List Text) : Text :=
  "invalid choice: " ++ t.quoted ++ " (choose from "
    ++ Text.join ", " (choices.map Text.quoted) ++ ")"

namespace Given

def isSet (g : Given) (key : Text) : Bool := g.switches.any (·.1 == key)

/-- The values of a switch in the order in which they were given. -/
def values (g : Given) (key : Text) : List Value :=
  (g.switches.filter (·.1 == key)).map (·.2)

/-- The texts given to a switch, in order. -/
def texts (g : Given) (key : Text) : List Text :=
  (g.values key).filterMap fun
    | .text t => some t
    | _ => none

/-- The last text given to a switch. -/
def text (g : Given) (key : Text) (default : Text := []) : Text :=
  ((g.texts key).getLast?).getD default

def whole? (g : Given) (key : Text) : Option Int :=
  match (g.values key).getLast? with
  | some (.whole n) => some n
  | _ => none

def real? (g : Given) (key : Text) : Option Double :=
  match (g.values key).getLast? with
  | some (.real x) => some x
  | _ => none

def setSwitch (g : Given) (s : Switch) (v : Value) : Given :=
  { g with switches := g.switches ++ [(s.key, v)] }

def addExtras (g : Given) (ts : List Text) : Given := { g with extras := g.extras ++ ts }

end Given

namespace Level

def fault {α : Type} (l : Level) (reason : Text) : Except Stop α := .error (.fault l.program reason)

/-- A fault with the value of a switch or an operand. -/
def faultAt {α : Type} (l : Level) (label reason : Text) : Except Stop α :=
  l.fault ("argument " ++ label ++ ": " ++ reason)

/-- All names of switches, each with its switch. -/
def names (l : Level) : List (Text × Switch) :=
  l.switches.flatMap fun s => s.names.map fun n => (n, s)

def switch? (l : Level) (name : Text) : Option Switch := l.names.lookup name

/-- Cuts a value that is joined by a sign of equality off. -/
def cutValue (t : Text) : Text × Option (Bool × Text) :=
  match Text.cut? '=' t with
  | some (name, value) => (name, some (true, value))
  | none => (t, none)

/-- The switches that a word may mention by the beginning of a name, or by a short name that
something is joined to. -/
def candidates (l : Level) (t : Text) : List Mention :=
  if t.startsWith "--" then
    let (start, joined) := cutValue t
    (l.names.filter fun n => n.1.startsWith start).map fun n => ⟨some n.2, n.1, joined⟩
  else
    l.names.filterMap fun n =>
      if n.1 == t.take 2 then some ⟨some n.2, n.1, some (false, t.drop 2)⟩
      else if n.1.startsWith t then some ⟨some n.2, n.1, none⟩
      else none

def isDigit (p : Point) : Bool := p.decimal?.isSome

/-- Whether a text is a hyphen and a number: digits, with a point before some of them perhaps. -/
def isNegativeNumber (t : Text) : Bool :=
  match t with
  | [] => false
  | sign :: number =>
    let number := if Text.endsWith number "\n" then number.dropLast else number
    let fraction := number.dropWhile isDigit
    sign.char == '-' && (number != [] && fraction.isEmpty
      || match fraction with
        | point :: digits => point.char == '.' && !digits.isEmpty && digits.all isDigit
        | [] => false)

/-- What a word is that begins with a hyphen and is no name as it stands. -/
def classifyInexact (l : Level) (t : Text) : Except Stop Word :=
  match cutValue t with
  | (name, some joined) =>
    match l.switch? name with
    | some s => .ok (.mention ⟨some s, name, some joined⟩)
    | none => byCandidates
  | _ => byCandidates
where
  byCandidates : Except Stop Word :=
    match l.candidates t with
    | [m] => .ok (.mention m)
    | [] =>
      if isNegativeNumber t || t.containsChar ' ' then .ok .operand
      else .ok (.mention ⟨none, t, none⟩)
    | ms => l.fault ("ambiguous option: " ++ t ++ " could match " ++ Text.join ", " (ms.map (·.name)))

/-- What a word is, before any separator. -/
def classify (l : Level) (t : Text) : Except Stop Word :=
  if !t.startsWith "-" then .ok .operand
  else match l.switch? t with
    | some s => .ok (.mention ⟨some s, t, none⟩)
    | none => if t.length = 1 then .ok .operand else l.classifyInexact t

/-- What the words are. After the first separator all are operands. -/
def classifyAll (l : Level) : List Text → Except Stop (List (Word × Text))
  | [] => .ok []
  | t :: rest =>
    if t == "--" then .ok ((.separator, t) :: rest.map fun t => (.operand, t))
    else do return (← l.classify t, t) :: (← l.classifyAll rest)

/-- Reads a value for a switch. -/
def readValue (l : Level) (s : Switch) (t : Text) : Except Stop Value :=
  match s.need with
  | .value reading choices =>
    match reading.read t with
    | .error reason => l.faultAt s.label reason
    | .ok (.text t) =>
      if choices.isEmpty || choices.contains t then .ok (.text t)
      else l.faultAt s.label (invalidChoice t choices)
    | .ok v => .ok v
  | _ => .ok (.text [])

/-- How a word with switches ends. -/
inductive Ending where
  /-- With a switch; the value that it may need is in the next word. -/
  | switch (s : Switch)
  /-- With a value. -/
  | value (s : Switch) (t : Text)
  /-- With something that belongs to nothing. -/
  | extra (t : Text)

/-- Takes a word apart in which short names without values are joined to each other: the switches
in front, and the ending. -/
def unfold (l : Level) : Nat → Switch → Text → Option (Bool × Text) →
    Except Stop (List Switch × Ending)
  | _, s, _, none => .ok ([], .switch s)
  | fuel, s, name, some (equality, t) =>
    if s.takesValue then .ok ([], .value s t)
    else if name.startsWith "--" || t.isEmpty || equality || t.startsWith "-" then
      l.faultAt s.label ("ignored explicit argument " ++ t.quoted)
    else
      match fuel, l.switch? ("-" ++ t.take 1) with
      | fuel + 1, some next => do
        let rest := t.drop 1
        let joined := if rest.isEmpty then none
          else if Text.startsWith rest "=" then some (true, rest.drop 1)
          else some (false, rest)
        let (front, ending) ← l.unfold fuel next ("-" ++ t.take 1) joined
        return (s :: front, ending)
      | _, _ => .ok ([s], .extra ("-" ++ t))

/-- Notes a switch without a value. -/
def note (l : Level) (g : Given) (s : Switch) : Except Stop Given :=
  match s.need with
  | .help => .error (.help l.program)
  | _ => .ok (g.setSwitch s (.text []))

/-- Takes the switches of a word, and the next word if it is the value of the last one. -/
def takeMention (l : Level) (g : Given) (m : Mention) (word : Text) (rest : List (Word × Text)) :
    Except Stop (Given × List (Word × Text)) :=
  match m.switch with
  | none => .ok (g.addExtras [word], rest)
  | some s => do
    let (front, ending) ← l.unfold word.length s m.name m.joined
    match ending with
    | .extra t => return ((← front.foldlM l.note g).addExtras [t], rest)
    | .value s t =>
      let g ← front.foldlM l.note g
      return (g.setSwitch s (← l.readValue s t), rest)
    | .switch s =>
      if s.takesValue then
        match rest with
        | (.operand, t) :: rest =>
          let g ← front.foldlM l.note g
          return (g.setSwitch s (← l.readValue s t), rest)
        | _ => l.faultAt s.label "expected one argument"
      else return (← (front ++ [s]).foldlM l.note g, rest)

def isSeparator : Word × Text → Bool
  | (.separator, _) => true
  | _ => false

def isMention : Word × Text → Bool
  | (.mention _, _) => true
  | _ => false

/-- The words that operands take, from separators on, and the rest. -/
def takeOperands? (arity : Arity) (words : List (Word × Text)) :
    Option (List Text × List (Word × Text)) :=
  let front := words.takeWhile isSeparator
  match words.dropWhile isSeparator with
  | first@(.operand, _) :: rest =>
    let taken (more : List (Word × Text)) : List Text := (front ++ first :: more).map (·.2)
    match arity with
    | .one => some ((taken (rest.takeWhile isSeparator)).erase "--", rest.dropWhile isSeparator)
    | .several =>
      some ((taken (rest.takeWhile (!isMention ·))).erase "--", rest.dropWhile (!isMention ·))
    | .command => some (taken rest, [])
  | _ => none

/-- Takes the words one after the other. Each step takes one at least. -/
def take (l : Level) : Nat → Option Operand → Given → List (Word × Text) → Except Stop Given
  | 0, _, g, _ => .ok g
  | _, _, g, [] => .ok g
  | fuel + 1, wanted, g, (.mention m, word) :: rest => do
    let (g, rest) ← l.takeMention g m word rest
    l.take fuel wanted g rest
  | fuel + 1, wanted, g, (kind, word) :: rest =>
    match wanted.bind fun o => takeOperands? o.arity ((kind, word) :: rest) with
    | some (operands, rest) => l.take fuel none { g with operands } rest
    | none => l.take fuel wanted (g.addExtras [word]) rest

/-- What has to be there and is not. -/
def missing (l : Level) (g : Given) : List Text :=
  ((l.switches.filter fun s => s.required && !g.isSet s.key).map (·.label))
    ++ match l.operand with
      | some o => if g.operands.isEmpty then [o.name] else []
      | none => []

/-- Reads the words of a level. -/
def read (l : Level) (words : List Text) : Except Stop Given := do
  let ws ← l.classifyAll words
  let g ← l.take ws.length l.operand {} ws
  let missing := l.missing g
  if !missing.isEmpty then
    l.fault ("the following arguments are required: " ++ Text.join ", " missing)
  return g

/-- Reads the words of a level whose operand is one of several commands: which one, the words after
it, and what belongs to nothing. -/
def choose (l : Level) (commands : List Text) (words : List Text) :
    Except Stop (Text × List Text × List Text) := do
  let g ← l.read words
  let label : Text := (l.operand.map Operand.name).getD []
  match g.operands with
  | command :: rest =>
    if commands.contains command then return (command, rest, g.extras)
    l.faultAt label (invalidChoice command commands)
  | [] => l.fault ("the following arguments are required: " ++ label)

end Level
end Conform.CommandLine

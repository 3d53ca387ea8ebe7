import Conform.Double.Decimal
import Conform.Moment
import Conform.Text.Quoted

/-!
Documents: the values that data and schemas are made of. An object keeps its members in the order
in which they were written, and no name occurs twice in it.
-/
namespace Conform

inductive Document where
  | null
  | bool (b : Bool)
  | int (n : Int)
  | float (x : Double)
  | text (t : Text)
  | moment (m : Moment)
  | list (items : List Document)
  | object (members : List (Text × Document))
deriving Inhabited

/-- The members of an object. -/
abbrev Members := List (Text × Document)

namespace Members

def get? (ms : Members) (name : Text) : Option Document := ms.lookup name

def has (ms : Members) (name : Text) : Bool := ms.any (·.1 == name)

def names (ms : Members) : List Text := ms.map (·.1)

/-- Sets a member: a known name keeps its place, a new one goes to the end. -/
def set (name : Text) (value : Document) : Members → Members
  | [] => [(name, value)]
  | (k, v) :: rest => if k == name then (k, value) :: rest else (k, v) :: set name value rest

def erase (name : Text) (ms : Members) : Members := ms.filter (·.1 != name)

def one (name : Text) (d : Document) : Members := [(name, d)]

/-- A member that may be missing. -/
def ofOption (name : Text) (d : Option Document) : Members := (d.map fun d => (name, d)).toList

/-- A member for a text, unless it is empty. -/
def ofText (name t : Text) : Members := if t.isEmpty then [] else [(name, .text t)]

/-- A member for a list, unless it is empty. -/
def ofItems (name : Text) (ds : List Document) : Members :=
  if ds.isEmpty then [] else [(name, .list ds)]

/-- Sets the members one after the other, so the last of equal names decides. -/
def ofList (ms : List (Text × Document)) : Members := ms.foldl (fun acc m => set m.1 m.2 acc) []

end Members

namespace Document

instance : Coe Text Document := ⟨text⟩

/-- An object written with literal names. -/
def record (ms : List (String × Document)) : Document :=
  object (ms.map fun m => (Text.ofString m.1, m.2))

def string (s : String) : Document := text (Text.ofString s)

def get? (d : Document) (name : Text) : Option Document :=
  match d with
  | object ms => Members.get? ms name
  | _ => none

def text? : Document → Option Text
  | text t => some t
  | _ => none

def isObject : Document → Bool
  | object _ => true
  | _ => false

/-- Whether the document counts as true where a Boolean is asked for: it is neither null nor false
nor zero nor empty. -/
def isTrue : Document → Bool
  | null => false
  | bool b => b
  | int n => n != 0
  | float x => !x.isZero
  | text t => !t.isEmpty
  | moment _ => true
  | list items => !items.isEmpty
  | object ms => !ms.isEmpty

/-- What the document is in words, as messages about its type name it. -/
def kind : Document → Text
  | null => "NoneType"
  | bool _ => "bool"
  | int _ => "int"
  | float _ => "float"
  | text _ => "str"
  | moment ⟨_, none⟩ => "date"
  | moment _ => "datetime"
  | list _ => "list"
  | object _ => "dict"

mutual

/-- How many levels of lists and objects there are. -/
def depth : Document → Nat
  | list items => depthItems items + 1
  | object ms => depthMembers ms + 1
  | _ => 1

def depthItems : List Document → Nat
  | [] => 0
  | d :: rest => max (depth d) (depthItems rest)

def depthMembers : List (Text × Document) → Nat
  | [] => 0
  | (_, d) :: rest => max (depth d) (depthMembers rest)

end

mutual

/-- The document as messages show it. -/
def display : Document → Text
  | null => "None"
  | bool b => if b then "True" else "False"
  | int n => Text.ofInt n
  | float x => x.display
  | text t => t.quoted
  | moment m => m.quoted
  | list items => "[" ++ displayItems items ++ "]"
  | object ms => "\x7b" ++ displayMembers ms ++ "\x7d"

def displayItems : List Document → Text
  | [] => []
  | [d] => display d
  | d :: rest => display d ++ ", " ++ displayItems rest

def displayMembers : List (Text × Document) → Text
  | [] => []
  | [(k, d)] => k.quoted ++ ": " ++ display d
  | (k, d) :: rest => k.quoted ++ ": " ++ display d ++ ", " ++ displayMembers rest

end

/-- The document as part of a sentence: texts stand without quotes. -/
def plain : Document → Text
  | text t => t
  | moment m => m.display
  | d => d.display

/-- Whether two numbers have one value, across whole numbers and floats. -/
def numberEq : Document → Document → Bool
  | int a, int b => a == b
  | int a, float y => y.compareInt? a == some .eq
  | float x, int b => x.compareInt? b == some .eq
  | float x, float y => x.compare? y == some .eq || (x == .nan && y == .nan)
  | _, _ => false

/-- The order of two numbers; NaN has none. -/
def compareNumbers? : Document → Document → Option Ordering
  | int a, int b => some (compare a b)
  | int a, float y => (y.compareInt? a).map Ordering.swap
  | float x, int b => x.compareInt? b
  | float x, float y => x.compare? y
  | _, _ => none

def isNumber : Document → Bool
  | int _ | float _ => true
  | _ => false

mutual

/-- Equality of values: numbers by value, objects without regard to order, and a Boolean is never
a number. -/
def same : Document → Document → Bool
  | null, null => true
  | bool a, bool b => a == b
  | text a, text b => a == b
  | moment a, moment b => a.same b
  | list as, list bs => sameItems as bs
  | object as, object bs => as.length == bs.length && sameMembers as bs
  | a, b => numberEq a b

def sameItems : List Document → List Document → Bool
  | [], [] => true
  | a :: as, b :: bs => same a b && sameItems as bs
  | _, _ => false

/-- Every member of the first has an equal one in the second. -/
def sameMembers : List (Text × Document) → List (Text × Document) → Bool
  | [], _ => true
  | (k, a) :: rest, bs =>
    (match bs.lookup k with
      | some b => same a b
      | none => false) && sameMembers rest bs

end

end Document
end Conform

import Conform.Yaml.Node
import Conform.Document

/-!
The values of YAML documents, which have more shapes than documents of the library: keys of any
scalar type, sets, tuples and byte strings. `Value.toDocument` reduces them.
-/
namespace Conform.Yaml

inductive Value where
  | null
  | bool (b : Bool)
  | int (n : Int)
  | float (x : Double)
  | text (t : Text)
  | bytes (bs : Bytes)
  | moment (m : Moment)
  | list (items : List Value)
  | tuple (items : List Value)
  | set (members : List Value)
  | mapping (entries : List (Value × Value))
deriving Inhabited

namespace Value

/-- Only scalars are keys. -/
def isScalar : Value → Bool
  | list _ | tuple _ | set _ | mapping _ => false
  | _ => true

/-- Numbers and Booleans as keys go by their numeric value. -/
def number? : Value → Option Document
  | bool b => some (.int b.toNat)
  | int n => some (.int n)
  | float x => some (.float x)
  | _ => none

/-- Whether two keys are one key. -/
def sameKey (a b : Value) : Bool :=
  match a, b with
  | null, null => true
  | text s, text t => s == t
  | bytes s, bytes t => s == t
  | moment s, moment t => s.same t
  | a, b => match a.number?, b.number? with
    | some x, some y => x.same y
    | _, _ => false

/-- Enters a key. A known key keeps its place and its spelling and takes the new value. -/
def enter (k v : Value) : List (Value × Value) → List (Value × Value)
  | [] => [(k, v)]
  | (k', v') :: rest => if k'.sameKey k then (k', v) :: rest else (k', v') :: enter k v rest

def enterAll (es : List (Value × Value)) : List (Value × Value) :=
  es.foldl (fun acc e => enter e.1 e.2 acc) []

/-- A byte string as messages show it. -/
def quotedBytes (bs : Bytes) : Text :=
  let points := bs.map fun b => (Point.ofChar (Char.ofNat b.toNat))
  let q := Text.quoteMark points
  "b" ++ [Point.ofChar q] ++ (points.flatMap fun p =>
    if p.isAscii then Text.quotePoint q p else "\\x" ++ Text.hexDigits 2 p.val)
    ++ [Point.ofChar q]

mutual

def display : Value → Text
  | null => "None"
  | bool b => if b then "True" else "False"
  | int n => Text.ofInt n
  | float x => x.display
  | text t => t.quoted
  | bytes bs => quotedBytes bs
  | moment m => m.quoted
  | list items => "[" ++ displayItems items ++ "]"
  | tuple items => "(" ++ displayItems items ++ (if items.length = 1 then ",)" else ")")
  | set members => if members.isEmpty then "set()" else "\x7b" ++ displayItems members ++ "\x7d"
  | mapping es => "\x7b" ++ displayEntries es ++ "\x7d"

def displayItems : List Value → Text
  | [] => []
  | [v] => display v
  | v :: rest => display v ++ ", " ++ displayItems rest

def displayEntries : List (Value × Value) → Text
  | [] => []
  | [(k, v)] => display k ++ ": " ++ display v
  | (k, v) :: rest => display k ++ ": " ++ display v ++ ", " ++ displayEntries rest

end

/-- The value as part of a sentence: texts stand without quotes. -/
def plain : Value → Text
  | text t => t
  | moment m => m.display
  | v => v.display

/-- What the value is in words, as messages about its type name it. -/
def kind : Value → Text
  | null => "NoneType"
  | bool _ => "bool"
  | int _ => "int"
  | float _ => "float"
  | text _ => "str"
  | bytes _ => "bytes"
  | moment ⟨_, none⟩ => "date"
  | moment _ => "datetime"
  | list _ => "list"
  | tuple _ => "tuple"
  | set _ => "set"
  | mapping _ => "dict"

/-- The value under a name. -/
def get? (v : Value) (name : Text) : Option Value :=
  match v with
  | mapping es => (es.find? fun e => match e.1 with
    | text t => t == name
    | _ => false).map (·.2)
  | _ => none

mutual

/-- The value as a document: keys become text, tuples and sets become lists, a set in the order of
its displayed members, and bytes become text. -/
def toDocument : Value → Document
  | null => .null
  | bool b => .bool b
  | int n => .int n
  | float x => .float x
  | text t => .text t
  | bytes bs => .text bs.textLossy
  | moment m => .moment m
  | list items => .list (toDocuments items)
  | tuple items => .list (toDocuments items)
  | set members =>
    .list ((toDocuments members).mergeSort fun a b => Text.le a.display b.display)
  | mapping es => .object (Members.ofList (toMembers es))

def toDocuments : List Value → List Document
  | [] => []
  | v :: rest => toDocument v :: toDocuments rest

def toMembers : List (Value × Value) → List (Text × Document)
  | [] => []
  | (k, v) :: rest => (k.plain, toDocument v) :: toMembers rest

end

/-- Whether the value has a text. A whole number with too many digits has none. -/
def hasText : Value → Bool
  | int n => (Text.ofNat n.natAbs).length ≤ Text.maxDigits
  | _ => true

mutual

/-- Whether a document can be made of the value: every key and every member of a set has a text. -/
def isReducible : Value → Bool
  | list items => areReducible items
  | tuple items => areReducible items
  | set members => areReducible members && members.all hasText
  | mapping es => haveTexts es
  | _ => true

def areReducible : List Value → Bool
  | [] => true
  | v :: rest => isReducible v && areReducible rest

def haveTexts : List (Value × Value) → Bool
  | [] => true
  | (k, v) :: rest => hasText k && isReducible v && haveTexts rest

end

/-- The value of a document. -/
def ofDocument : Document → Value
  | .null => null
  | .bool b => bool b
  | .int n => int n
  | .float x => float x
  | .text t => text t
  | .moment m => moment m
  | .list items => list (ofDocuments items)
  | .object ms => mapping (ofMembers ms)
where
  ofDocuments : List Document → List Value
    | [] => []
    | d :: rest => ofDocument d :: ofDocuments rest
  ofMembers : List (Text × Document) → List (Value × Value)
    | [] => []
    | (k, d) :: rest => (text k, ofDocument d) :: ofMembers rest

/-- A result, or a fault with the depth of the collection it was met in. Collections are filled
level by level, so of two faults the one at the lesser depth counts, and of two at one depth the
first. -/
abbrev Built (α : Type) := Except (Nat × Fault) α

def both {α β : Type} (a : Built α) (b : Built β) : Built (α × β) :=
  match a, b with
  | .ok x, .ok y => .ok (x, y)
  | .error e, .ok _ => .error e
  | .ok _, .error e => .error e
  | .error e, .error f => .error (if f.1 < e.1 then f else e)

def isMerge : Node → Bool
  | .scalar .merge _ | .sequence .merge _ | .mapping .merge _ => true
  | _ => false

def isDefaultValue : Node → Bool
  | .scalar .defaultValue _ | .sequence .defaultValue _ | .mapping .defaultValue _ => true
  | _ => false

mutual

/-- Whether every merge key among the pairs has a mapping, or a list of mappings, to merge. -/
def mergeable : List (Node × Node) → Bool
  | [] => true
  | (k, v) :: rest => (if isMerge k then mergeableNode v else true) && mergeable rest

def mergeableNode : Node → Bool
  | .scalar .. => false
  | .mapping _ pairs => mergeable pairs
  | .sequence _ items => mergeableItems items

def mergeableItems : List Node → Bool
  | [] => true
  | .mapping _ pairs :: rest => mergeable pairs && mergeableItems rest
  | _ :: _ => false

end

/-- The text of a scalar. A mapping lends the text of its default value. -/
def scalarText : Node → Except Fault Text
  | .scalar _ t => .ok t
  | .sequence .. => .error .malformed
  | .mapping _ pairs => ofPairs pairs
where
  ofPairs : List (Node × Node) → Except Fault Text
    | [] => .error .malformed
    | (k, v) :: rest => if isDefaultValue k then scalarText v else ofPairs rest

def atDepth {α : Type} (depth : Nat) (r : Except Fault α) : Built α := r.mapError fun f => (depth, f)

def pairsOf? : Node → Option (Node × Node)
  | .mapping _ [p] => some p
  | _ => none

/-- The value of a node with a scalar's tag. -/
def scalarNode (depth : Nat) (tag : Tag) (t : Except Fault Text) : Built Value :=
  match tag with
  | .null => atDepth depth (t.map fun _ => null)
  | .bool => atDepth depth (do return bool (← Scalar.readBool (← t)))
  | .int => atDepth depth (do return int (← Scalar.readInt (← t)))
  | .float => atDepth depth (do return float (← Scalar.readFloat (← t)))
  | .binary => atDepth depth (do return bytes (← Scalar.readBinary (← t)))
  | .timestamp => atDepth depth (do return moment (← Scalar.readMoment (← t)))
  | .str => atDepth depth (t.map text)
  | .sequence | .mapping | .ordered | .pairs | .set => .error (depth + 1, .malformed)
  | .merge | .defaultValue | .other _ => .error (depth, .malformed)

/-- The entries of a mapping in the order in which they are entered: those of merged mappings come
first, so that the mapping's own entries override them. -/
def allPairs (merged own : Built (List (Value × Value))) : Built (List (Value × Value)) :=
  (both merged own).map fun (a, b) => a ++ b

mutual

/-- The value of a node of which the parent collection lies at `depth`. -/
def ofNode (depth : Nat) : Node → Built Value
  | .scalar tag t => scalarNode depth tag (.ok t)
  | .sequence tag items =>
    match tag with
    | .sequence => (ofItems (depth + 1) items).map list
    | .ordered => (ofSingles (depth + 1) items).map list
    | .pairs => (ofSingles (depth + 1) items).map list
    | .mapping => .error (depth + 1, .malformed)
    | .set => .error (depth + 1, .malformed)
    | tag => scalarNode depth tag (.error .malformed)
  | .mapping tag pairs =>
    match tag with
    | .mapping =>
      if mergeable pairs then
        (allPairs (mergedPairs (depth + 1) pairs) (ownPairs (depth + 1) pairs)).map fun es =>
          mapping (enterAll es)
      else .error (depth + 1, .malformed)
    | .set =>
      if mergeable pairs then
        (allPairs (mergedPairs (depth + 1) pairs) (ownPairs (depth + 1) pairs)).map fun es =>
          set ((enterAll es).map (·.1))
      else .error (depth + 1, .malformed)
    | .sequence => .error (depth + 1, .malformed)
    | .ordered => .error (depth + 1, .malformed)
    | .pairs => .error (depth + 1, .malformed)
    | tag => scalarNode depth tag (scalarText.ofPairs pairs)

def ofItems (depth : Nat) : List Node → Built (List Value)
  | [] => .ok []
  | n :: rest => (both (ofNode depth n) (ofItems depth rest)).map fun (v, vs) => v :: vs

/-- A list of mappings with one entry each, as pairs. -/
def ofSingles (depth : Nat) : List Node → Built (List Value)
  | [] => .ok []
  | .mapping _ [(k, v)] :: rest =>
    (both (both (ofNode depth k) (ofNode depth v)) (ofSingles depth rest)).map
      fun ((k, v), vs) => tuple [k, v] :: vs
  | _ :: _ => .error (depth, .malformed)

def ownPairs (depth : Nat) : List (Node × Node) → Built (List (Value × Value))
  | [] => .ok []
  | (k, v) :: rest =>
    if isMerge k then ownPairs depth rest
    else
      let key := match k with
        | .scalar .defaultValue t => .ok (text t)
        | k => (ofNode depth k).bind fun key =>
          if key.isScalar then .ok key else .error (depth, .malformed)
      (both (both key (ofNode depth v)) (ownPairs depth rest)).map fun (e, es) => e :: es

def mergedPairs (depth : Nat) : List (Node × Node) → Built (List (Value × Value))
  | [] => .ok []
  | (k, v) :: rest =>
    if isMerge k then
      (both (mergedNode depth v) (mergedPairs depth rest)).map fun (a, b) => a ++ b
    else mergedPairs depth rest

def mergedNode (depth : Nat) : Node → Built (List (Value × Value))
  | .mapping _ pairs => allPairs (mergedPairs depth pairs) (ownPairs depth pairs)
  | .sequence _ items => mergedItems depth items
  | .scalar .. => .error (depth, .malformed)

/-- Of the mappings in a list the first is entered last. -/
def mergedItems (depth : Nat) : List Node → Built (List (Value × Value))
  | [] => .ok []
  | n :: rest => (both (mergedItems depth rest) (mergedNode depth n)).map fun (a, b) => a ++ b

end

/-- The value of a stream; without a document it is null. -/
def ofChars (dates : Bool) (cs : List Char) : Except Fault Value := do
  match ← Node.ofTokens? dates (Token.scan cs) with
  | none => return null
  | some n => (ofNode 0 n).mapError (·.2)

/-- The characters a stream may hold. -/
def isStreamChar (p : Point) : Bool :=
  let n := p.val
  n == 9 || n == 10 || n == 13 || (0x20 ≤ n && n ≤ 0x7E) || n == 0x85 || (0xA0 ≤ n && n ≤ 0xD7FF)
    || (0xE000 ≤ n && n ≤ 0xFFFD) || 0x10000 ≤ n

/-- The text of a stream: UTF-16 if it starts with a mark of it, else UTF-8. -/
def streamText? (bs : Bytes) : Option Text :=
  match bs with
  | 0xFF :: 0xFE :: _ => bs.text16? false false
  | 0xFE :: 0xFF :: _ => bs.text16? true false
  | _ => bs.text?

/-- Loads a YAML stream of one document. -/
def load (dates : Bool) (bs : Bytes) : Except Fault Value :=
  match streamText? bs with
  | some t => if t.all isStreamChar then ofChars dates t.chars else .error .malformed
  | none => .error .malformed

/-- Reads a YAML stream of one document. What is read without dates is to become a document of the
library. -/
def read (dates : Bool) (bs : Bytes) : Except Fault Value := do
  let v ← load dates bs
  if dates || v.isReducible then return v
  throw .longNumber

end Value
end Conform.Yaml

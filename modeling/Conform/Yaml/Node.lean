import Conform.Yaml.Token
import Conform.Yaml.Scalar

/-!
The nodes of a YAML document: a tree in which every reference to an anchor is replaced by the node
it names. `Node.ofTokens?` accepts the tokens of a stream that holds at most one document.
-/
namespace Conform.Yaml

inductive Node where
  | scalar (tag : Tag) (text : Text)
  | sequence (tag : Tag) (items : List Node)
  | mapping (tag : Tag) (pairs : List (Node × Node))

namespace Node

structure State where
  tokens : List Token
  /-- The nodes named so far; a node that is still being read has no value yet. -/
  anchors : List (Text × Option Node)
  handles : List (Text × Text)
  /-- Whether dates are recognised by their form. -/
  dates : Bool

abbrev Build := StateT State (Except Fault)

def fail {α : Type} (f : Fault := .malformed) : Build α := throw f

/-- The next token; a fault in the text is met here. -/
def peek : Build Token := do
  match (← get).tokens with
  | [] => return .streamEnd
  | .fault f :: _ => fail f
  | t :: _ => return t

def advance : Build Unit := modify fun s => { s with tokens := s.tokens.tail }

/-- Passes the next token if it is `t`. -/
def accept (t : Token) : Build Bool := do
  if (← peek) == t then
    advance
    return true
  return false

def atAny (ts : List Token) : Build Bool := return ts.contains (← peek)

def empty : Node := scalar .null []

/-- The tag and the anchor before a node, in either order. -/
def properties : Build (Option Text × Option Text) := do
  match ← peek with
  | .anchor a =>
    advance
    match ← peek with
    | .tag h t =>
      advance
      return (some (← fullTag h t), some a)
    | _ => return (none, some a)
  | .tag h t =>
    advance
    match ← peek with
    | .anchor a =>
      advance
      return (some (← fullTag h t), some a)
    | _ => return (some (← fullTag h t), none)
  | _ => return (none, none)
where
  fullTag (handle : Option Text) (suffix : Text) : Build Text := do
    match handle with
    | none => return suffix
    | some h =>
      match (← get).handles.lookup h with
      | some pre => return pre ++ suffix
      | none => fail

/-- The tag as given; without one, or with `!` alone, the usual tag of such a node. -/
def tagOr (usual : Tag) (tag : Option Text) : Tag :=
  match tag with
  | none => usual
  | some t => if t == "!" then usual else Tag.ofUri t

/-- Reserves an anchor; no name is used twice. -/
def reserve (anchor : Option Text) : Build Unit := do
  match anchor with
  | none => return
  | some a =>
    if ((← get).anchors.lookup a).isSome then fail
    modify fun s => { s with anchors := (a, none) :: s.anchors }

def settle (anchor : Option Text) (n : Node) : Build Node := do
  match anchor with
  | none => return n
  | some a =>
    modify fun s => { s with anchors := s.anchors.map fun e => if e.1 == a then (a, some n) else e }
    return n

mutual

/-- A node. Block collections begin only where `block` allows them, and entries without an
indentation of their own only where `bare` does. -/
def read (block bare : Bool) : Nat → Build Node
  | 0 => fail
  | fuel + 1 => do
    match ← peek with
    | .alias name =>
      advance
      match (← get).anchors.lookup name with
      | some (some n) => return n
      | some none => fail .endless
      | none => fail
    | _ =>
      let (tag, anchor) ← properties
      match ← peek with
      | .scalar t isPlain =>
        advance
        reserve anchor
        let byForm := (isPlain && tag.isNone) || tag == some (Text.ofString "!")
        let dates := (← get).dates
        settle anchor (scalar (if byForm then Scalar.implicitTag dates t else tagOr .str tag) t)
      | .flowSequence =>
        advance
        reserve anchor
        settle anchor (sequence (tagOr .sequence tag) (← flowItems true fuel))
      | .flowMapping =>
        advance
        reserve anchor
        settle anchor (mapping (tagOr .mapping tag) (← flowPairs true fuel))
      | .blockSequence =>
        if block then
          advance
          reserve anchor
          settle anchor (sequence (tagOr .sequence tag) (← blockItems fuel))
        else bareNode tag anchor
      | .blockMapping =>
        if block then
          advance
          reserve anchor
          settle anchor (mapping (tagOr .mapping tag) (← blockPairs fuel))
        else bareNode tag anchor
      | .entry =>
        if bare then
          reserve anchor
          settle anchor (sequence (tagOr .sequence tag) (← bareItems fuel))
        else bareNode tag anchor
      | _ => bareNode tag anchor

/-- A tag or an anchor with nothing after it stands for an empty scalar. -/
def bareNode (tag anchor : Option Text) : Build Node := do
  if tag.isNone && anchor.isNone then fail
  reserve anchor
  let byForm := tag.isNone || tag == some (Text.ofString "!")
  settle anchor (scalar (if byForm then .null else tagOr .str tag) [])

/-- A node, or an empty scalar if one of the tokens is next. -/
def readUnless (ends : List Token) (block bare : Bool) : Nat → Build Node
  | 0 => fail
  | fuel + 1 => do
    if ← atAny ends then return empty
    read block bare fuel

def blockItems : Nat → Build (List Node)
  | 0 => fail
  | fuel + 1 => do
    if ← accept .entry then
      let n ← readUnless [.entry, .blockEnd] true false fuel
      return n :: (← blockItems fuel)
    if ← accept .blockEnd then return []
    fail

def bareItems : Nat → Build (List Node)
  | 0 => fail
  | fuel + 1 => do
    if ← accept .entry then
      let n ← readUnless [.entry, .key, .value, .blockEnd] true false fuel
      return n :: (← bareItems fuel)
    return []

def blockPairs : Nat → Build (List (Node × Node))
  | 0 => fail
  | fuel + 1 => do
    if ← accept .blockEnd then return []
    let k ← (do
      if ← accept .key then readUnless [.key, .value, .blockEnd] true true fuel
      else fail)
    let v ← (do
      if ← accept .value then readUnless [.key, .value, .blockEnd] true true fuel
      else return empty)
    return (k, v) :: (← blockPairs fuel)

def flowItems (first : Bool) : Nat → Build (List Node)
  | 0 => fail
  | fuel + 1 => do
    if ← accept .flowSequenceEnd then return []
    if !first then
      if !(← accept .comma) then fail
    if ← accept .key then
      let k ← readUnless [.value, .comma, .flowSequenceEnd] false false fuel
      let v ← (do
        if ← accept .value then readUnless [.comma, .flowSequenceEnd] false false fuel
        else return empty)
      return mapping .mapping [(k, v)] :: (← flowItems false fuel)
    if ← accept .flowSequenceEnd then return []
    let n ← read false false fuel
    return n :: (← flowItems false fuel)

def flowPairs (first : Bool) : Nat → Build (List (Node × Node))
  | 0 => fail
  | fuel + 1 => do
    if ← accept .flowMappingEnd then return []
    if !first then
      if !(← accept .comma) then fail
    if ← accept .key then
      let k ← readUnless [.value, .comma, .flowMappingEnd] false false fuel
      let v ← (do
        if ← accept .value then readUnless [.comma, .flowMappingEnd] false false fuel
        else return empty)
      return (k, v) :: (← flowPairs false fuel)
    if ← accept .flowMappingEnd then return []
    let k ← read false false fuel
    return (k, empty) :: (← flowPairs false fuel)

end

def defaultHandles : List (Text × Text) :=
  [(Text.ofString "!", Text.ofString "!"), (Text.ofString "!!", Tag.base)]

/-- The directives before a document: at most one version, which is 1, and handles, none twice. -/
def directives : Nat → Bool → List (Text × Text) → Build (List (Text × Text))
  | 0, _, hs => return hs
  | fuel + 1, versioned, hs => do
    match ← peek with
    | .version major =>
      if versioned || major != 1 then fail
      advance
      directives fuel true hs
    | .handle name uri =>
      if (hs.lookup name).isSome then fail
      advance
      directives fuel versioned ((name, uri) :: hs)
    | .directive =>
      advance
      directives fuel versioned hs
    | _ => return hs

def skipDocumentEnds : Nat → Build Unit
  | 0 => return
  | fuel + 1 => do
    if ← accept .documentEnd then skipDocumentEnds fuel

/-- Directives, a document start, and the document after it. -/
def explicitDocument (fuel : Nat) : Build Node := do
  let hs ← directives fuel false []
  modify fun s => { s with handles := hs ++ defaultHandles }
  if !(← accept .documentStart) then fail
  match ← peek with
  | .version _ | .handle .. | .directive | .documentStart | .documentEnd | .streamEnd => return empty
  | _ => read true false fuel

/-- The only document of a stream, if there is one. -/
def stream (fuel : Nat) : Build (Option Node) := do
  let isBare ← (do
    match ← peek with
    | .version _ | .handle .. | .directive | .documentStart | .streamEnd => return false
    | _ => return true)
  let doc ← (do
    if isBare then return some (← read true false fuel)
    skipDocumentEnds fuel
    if (← peek) == .streamEnd then return none
    return some (← explicitDocument fuel))
  if doc.isSome then
    discard (accept .documentEnd)
    skipDocumentEnds fuel
  if (← peek) != .streamEnd then fail
  return doc

/-- The only document among the tokens. Every step of the reading passes a token or starts a part
that does. -/
def ofTokens? (dates : Bool) (ts : List Token) : Except Fault (Option Node) :=
  (stream (4 * ts.length + 8)).run' ⟨ts, [], defaultHandles, dates⟩

end Node
end Conform.Yaml

import Conform.Failure
import Conform.Yaml.Value

/-!
Signature manifests: by what marks the content of a file shows which family of documents it belongs
to. Each mark has a weight, and a signature has a threshold for their sum. A field that is missing or
null takes an empty value, and one of another kind than expected is refused, with the path that leads
to it.
-/
namespace Conform.Signatures.Field

open Yaml (Value)

variable {α : Type}

def refuse (path reason : Text) : Except Failure α := .error (.signatureField path reason)

def unexpected (path what : Text) (v : Value) : Except Failure α :=
  refuse path ("expected " ++ what ++ ", got " ++ v.kind)

/-- The value under a name, null if it is missing. -/
def member (v : Value) (name : Text) : Value := (v.get? name).getD .null

/-- Refuses what is no mapping. -/
def mapping (path : Text) (v : Value) : Except Failure (List (Value × Value)) :=
  match v with
  | .mapping es => .ok es
  | v => unexpected path "object" v

def items (path : Text) : Value → Except Failure (List Value)
  | .null => .ok []
  | .list vs => .ok vs
  | v => unexpected path "array" v

/-- Reads each item of a list; its path ends in its number. -/
def each (path : Text) (vs : List Value) (read : Text → Value → Except Failure α) :
    Except Failure (List α) :=
  vs.zipIdx.mapM fun (v, i) => read (path ++ "[" ++ Text.ofNat i ++ "]") v

def text (path : Text) : Value → Except Failure Text
  | .null => .ok []
  | .text t => .ok t
  | v => unexpected path "string" v

def texts (path : Text) (v : Value) : Except Failure (List Text) := do
  each path (← items path v) text

def float (path : Text) : Value → Except Failure Double
  | .null => .ok .zero
  | .int n =>
    match Double.ofInt? n with
    | some x => .ok x
    | none => .error .tooLarge
  | .float x => if x.isFinite then .ok x else refuse path "must be finite"
  | v => unexpected path "number" v

def bool (path : Text) : Value → Except Failure Bool
  | .null => .ok false
  | .bool b => .ok b
  | v => unexpected path "boolean" v

end Conform.Signatures.Field

namespace Conform.Signatures

open Yaml (Value)

/-- A mark in the content of a file. Of the value and the pattern the type uses one. -/
structure Matcher where
  type : Text
  value : Text
  pattern : Text
  weight : Double
  ignoreCase : Bool
deriving DecidableEq

structure Signature where
  id : Text
  category : Text
  description : Text
  threshold : Double
  aliases : List Text
  extensions : List Text
  matchers : List Matcher
  metadata : List (Value × Value)
  /-- Where the signature was declared. -/
  source : Text

structure Manifest where
  version : Text
  signatures : List Signature

/-- A named entry of a mapping. -/
def entry (name : Text) (v : Value) : List (Value × Value) := [(.text name, v)]

/-- An entry for a text, unless it is empty. -/
def textEntry (name t : Text) : List (Value × Value) := if t.isEmpty then [] else entry name (.text t)

/-- An entry for a list of texts, unless it is empty. -/
def textsEntry (name : Text) (ts : List Text) : List (Value × Value) :=
  if ts.isEmpty then [] else entry name (.list (ts.map .text))

/-- An entry for a number, unless it is zero. -/
def floatEntry (name : Text) (x : Double) : List (Value × Value) :=
  if x.isZero then [] else entry name (.float x)

namespace Matcher

def ofValue (path : Text) (v : Value) : Except Failure Matcher := do
  let _ ← Field.mapping path v
  let text (name : String) : Except Failure Text :=
    Field.text (path ++ "." ++ name) (Field.member v name)
  let type ← text "type"
  let value ← text "value"
  let pattern ← text "pattern"
  let weight ← Field.float (path ++ ".weight") (Field.member v "weight")
  let ignoreCase ← Field.bool (path ++ ".ignore_case") (Field.member v "ignore_case")
  return { type, value, pattern, weight, ignoreCase }

def toValue (m : Matcher) : Value :=
  .mapping (entry "type" (.text m.type) ++ textEntry "value" m.value
    ++ textEntry "pattern" m.pattern ++ floatEntry "weight" m.weight
    ++ (if m.ignoreCase then entry "ignore_case" (.bool true) else []))

end Matcher

namespace Signature

def ofValue (source path : Text) (v : Value) : Except Failure Signature := do
  let _ ← Field.mapping path v
  let text (name : String) : Except Failure Text :=
    Field.text (path ++ "." ++ name) (Field.member v name)
  let id ← text "id"
  let category ← text "category"
  let description ← text "description"
  let threshold ← Field.float (path ++ ".confidence_threshold")
    (Field.member v "confidence_threshold")
  let aliases ← Field.texts (path ++ ".aliases") (Field.member v "aliases")
  let extensions ← Field.texts (path ++ ".file_extensions") (Field.member v "file_extensions")
  let matchersPath := path ++ ".matchers"
  let matchers ← Field.each matchersPath
    (← Field.items matchersPath (Field.member v "matchers")) Matcher.ofValue
  let metadata ← match Field.member v "metadata" with
    | .null => pure []
    | d => Field.mapping (path ++ ".metadata") d
  return { id, category, description, threshold, aliases, extensions, matchers, metadata, source }

def toValue (s : Signature) : Value :=
  .mapping (entry "id" (.text s.id) ++ entry "category" (.text s.category)
    ++ textEntry "description" s.description
    ++ floatEntry "confidence_threshold" s.threshold
    ++ textsEntry "aliases" s.aliases
    ++ textsEntry "file_extensions" s.extensions
    ++ entry "matchers" (.list (s.matchers.map Matcher.toValue))
    ++ (if s.metadata.isEmpty then [] else entry "metadata" (.mapping s.metadata)))

end Signature

namespace Manifest

def empty : Manifest := ⟨[], []⟩

def ofValue (source : Text) (v : Value) : Except Failure Manifest := do
  match v with
  | .null => return empty
  | v =>
    let _ ← Field.mapping source v
    let version : Text := match Field.member v "version" with
      | .null => []
      | d => d.plain.strip
    let path := source ++ ": signatures"
    let signatures ← Field.each path (← Field.items path (Field.member v "signatures"))
      (Signature.ofValue source)
    return ⟨version, signatures⟩

/-- Reads a manifest; the source is kept with each signature. -/
def read (source : Text) (bs : Bytes) : Except Failure Manifest :=
  match Yaml.Value.read true bs with
  | .ok v => ofValue source v
  | .error .malformed => .error (.signaturesMalformed source)
  | .error fault => .error (.scalar fault)

def toValue (m : Manifest) : Value :=
  .mapping (entry "version" (.text m.version)
    ++ entry "signatures" (.list (m.signatures.map Signature.toValue)))

/-- The place of the last signature with an id, in lower case. -/
def lastPlace? (key : Text) (ss : List Signature) : Option Nat :=
  (ss.zipIdx.reverse.find? fun s => s.1.id.lower == key).map (·.2)

/-- Puts a signature in the place of the one with its id, or at the end. -/
def put (ss : List Signature) (s : Signature) : List Signature :=
  match lastPlace? s.id.lower ss with
  | some i => ss.set i s
  | none => ss ++ [s]

/-- The source of signatures that name none. -/
def overlaySource (version : Text) : Text :=
  if version.isEmpty then "override" else version ++ "@override"

/-- A manifest laid over another one: its signatures replace those with the same ids. -/
def merge (base overlay : Manifest) : Manifest where
  version := if overlay.version.isEmpty then base.version else overlay.version
  signatures := overlay.signatures.foldl (fun ss s =>
    put ss (if s.source.isEmpty then { s with source := overlaySource overlay.version } else s))
    base.signatures

/-- The threshold of a signature that sets none. -/
def usualThreshold : Double := .ofDecimal false 6 (-1)

/-- An ending with a dot in front and in lower case; none for a blank one. -/
def normalExtension? (raw : Text) : Option Text :=
  let t := raw.strip
  if t.isEmpty then none else some (if t.startsWith "." then t else "." ++ t).lower

/-- Removes repetitions from a sorted list. -/
def dropRepeated : List Text → List Text
  | a :: b :: rest => if a == b then dropRepeated (b :: rest) else a :: dropRepeated (b :: rest)
  | ts => ts

/-- Endings in order, each once. -/
def normalExtensions (ts : List Text) : List Text :=
  dropRepeated (Text.sorted (ts.filterMap normalExtension?))

def normalMatcher (m : Matcher) : Matcher :=
  { m with
    weight := if m.weight.isPositive then m.weight else .ofDecimal false 1 0
    type := m.type.strip.lower }

def normalSignature (s : Signature) : Signature :=
  { s with
    threshold := if s.threshold.le .zero then usualThreshold else s.threshold
    extensions := normalExtensions s.extensions
    matchers := s.matchers.map normalMatcher }

/-- The key by which ids are compared. -/
def key (s : Signature) : Text := s.id.strip.lower

/-- Keeps the first signature for each id, and none without an id. -/
def distinct : List Text → List Signature → List Signature
  | _, [] => []
  | seen, s :: rest =>
    let k := key s
    if k.isEmpty || seen.contains k then distinct seen rest else s :: distinct (k :: seen) rest

/-- A manifest with positive weights and thresholds, ordered endings, and one signature for each
id. -/
def normalize (m : Manifest) : Manifest :=
  { m with signatures := (distinct [] m.signatures).map normalSignature }

/-- The first signature with an id or alias, whatever its case. -/
def find? (m : Manifest) (id : Text) : Option Signature :=
  let wanted := id.strip.lower
  if wanted.isEmpty then none
  else m.signatures.find? fun s => s.id.lower == wanted || s.aliases.any (·.lower == wanted)

end Manifest
end Conform.Signatures

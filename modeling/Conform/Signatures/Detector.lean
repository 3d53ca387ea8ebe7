import Conform.Path
import Conform.Pattern.Matching
import Conform.Pattern.Parser
import Conform.Signatures.FlagScope
import Conform.Signatures.Manifest

/-!
Detection: which signatures the content of a file bears. The score of a signature is the sum of the
weights of its marks that are there, and it counts only from its threshold on.
-/
namespace Conform.Signatures

/-- What a mark asks of a content. -/
inductive Test where
  | contains (t : Text)
  | startsWith (t : Text)
  | endsWith (t : Text)
  | search (p : Pattern.Compiled)

/-- A mark that can be looked for. -/
structure Probe where
  matcher : Matcher
  test : Test

/-- A signature with marks that can be looked for. -/
structure Prepared where
  signature : Signature
  threshold : Double
  probes : List Probe
  extensions : List Text

structure Detector where
  prepared : List Prepared

/-- Restrictions to some signatures, by id or alias, or else by category. All are in lower case; an
empty list restricts nothing. -/
structure Scope where
  ids : List Text := []
  categories : List Text := []

structure Match where
  signature : Signature
  score : Double
  /-- The marks that were there. -/
  fired : List Matcher

namespace Probe

/-- The text that a mark looks for: without blanks around it, and with quotes that need no
backslash. -/
def literal (m : Matcher) : Text :=
  let t := Text.replacePair '\\' '"' "\"" m.value.strip
  if m.ignoreCase then t.lower else t

/-- The flags under which an expression is read. -/
def flagsOf (m : Matcher) : Pattern.Flags := { multiline := true, ignoreCase := m.ignoreCase }

/-- Prepares a mark; one of an unknown type, or with no expression, is passed over. -/
def ofMatcher? (id : Text) (m : Matcher) : Except Failure (Option Probe) :=
  if m.type == "contains" then .ok (some ⟨m, .contains (literal m)⟩)
  else if m.type == "prefix" then .ok (some ⟨m, .startsWith (literal m)⟩)
  else if m.type == "suffix" then .ok (some ⟨m, .endsWith (literal m)⟩)
  else if m.type == "regex" && !m.pattern.isEmpty then
    let expression := scopeFlags m.pattern
    match Pattern.compile expression (flagsOf m) with
    | .ok p => .ok (some ⟨m, .search p⟩)
    | .error f =>
      if f.reason = .tooLarge then .error .tooLarge
      else .error (.signaturePattern id m.pattern (f.message expression))
  else .ok none

/-- Whether a mark is there. The content is also given in lower case. -/
def fires (p : Probe) (sample lowered : Text) : Bool :=
  let t := if p.matcher.ignoreCase then lowered else sample
  match p.test with
  | .contains part => Text.contains part t
  | .startsWith part => t.startsWith part
  | .endsWith part => t.endsWith part
  | .search q => q.occursIn sample

end Probe

namespace Scope

def keys (ts : List Text) : List Text := (ts.map fun t => t.strip.lower).filter (!·.isEmpty)

def ofTexts (ids categories : List Text) : Scope := ⟨keys ids, keys categories⟩

def allows (s : Scope) (g : Signature) : Bool :=
  if !s.ids.isEmpty then s.ids.contains g.id.lower || g.aliases.any (s.ids.contains ·.lower)
  else if !s.categories.isEmpty then s.categories.contains g.category.lower
  else true

end Scope

namespace Prepared

/-- Prepares a signature; one without marks to look for is passed over. -/
def ofSignature? (s : Signature) : Except Failure (Option Prepared) := do
  let probes ← s.matchers.filterMapM (Probe.ofMatcher? s.id)
  if probes.isEmpty then return none
  let threshold := if s.threshold.isPositive then s.threshold else Manifest.usualThreshold
  return some ⟨s, threshold, probes, s.extensions.map Text.lower⟩

/-- Whether the ending of a path is one of the signature's. -/
def acceptsPath (p : Prepared) (path : Text) : Bool :=
  p.extensions.isEmpty
    || p.extensions.contains (Path.extension (Text.replaceChar '\\' '/' path)).lower

/-- The marks that are there. -/
def fired (p : Prepared) (sample lowered : Text) : List Matcher :=
  (p.probes.filter (·.fires sample lowered)).map (·.matcher)

end Prepared

namespace Match

/-- The sum of the weights, from the first mark to the last. -/
def scoreOf (ms : List Matcher) : Double := ms.foldl (fun x m => x.add m.weight) .zero

def one : Double := .ofDecimal false 1 0

/-- A score between nothing and one. -/
def clamp (x : Double) : Double :=
  let x := if Double.zero.lt x then x else .zero
  if x.lt one then x else one

/-- The match with its score between nothing and one. -/
def clamped (m : Match) : Match := { m with score := clamp m.score }

/-- Higher scores come first, and of equal ones the lesser id. -/
def le (a b : Match) : Bool :=
  if a.score == b.score then a.signature.id.le b.signature.id else b.score.lt a.score

def toValue (m : Match) : Yaml.Value :=
  .mapping (entry "id" (.text m.signature.id) ++ entry "category" (.text m.signature.category)
    ++ entry "score" (.float m.score) ++ entry "source" (.text m.signature.source)
    ++ entry "matchers" (.list (m.fired.map Matcher.toValue)))

end Match

namespace Detector

def ofManifest (m : Manifest) : Except Failure Detector :=
  return ⟨← m.signatures.filterMapM Prepared.ofSignature?⟩

/-- The signatures whose score reaches their threshold, in the order of the manifest. -/
def qualifying (d : Detector) (s : Scope) (path sample : Text) : List Match :=
  let lowered := sample.lower
  (d.prepared.filter fun p => s.allows p.signature && p.acceptsPath path).filterMap fun p =>
    let fired := p.fired sample lowered
    let score := Match.scoreOf fired
    if p.threshold.le score then some ⟨p.signature, score, fired⟩ else none

/-- The first match with the highest score above nothing. -/
def best (ms : List Match) : Option Match :=
  ms.foldl (fun found m =>
    let reached := match found with
      | some b => b.score
      | none => .zero
    if reached.lt m.score then some m else found) none

/-- The match that describes the content best. -/
def detect (d : Detector) (s : Scope) (path sample : Text) : Option Match :=
  (best (d.qualifying s path sample)).map Match.clamped

/-- All matches, the best first. -/
def detectAll (d : Detector) (s : Scope) (path sample : Text) : List Match :=
  ((d.qualifying s path sample).map Match.clamped).mergeSort Match.le

end Detector
end Conform.Signatures

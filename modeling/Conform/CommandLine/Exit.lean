import Conform.Document
import Conform.Failure
import Conform.Text.Blank

/-!
How a run ends. Whoever called the program learns from a number whether the data conform, whether
the call or its input was wrong, or whether the program itself failed.
-/
namespace Conform.CommandLine

inductive Exit where
  | success
  /-- Something does not conform. -/
  | failed
  /-- The call or its input is wrong. -/
  | misuse
  /-- The program itself failed. -/
  | internal
deriving DecidableEq, Repr

/-- How a failure is tied to the one that came before it. -/
inductive Tie where
  /-- It was caused by the other. -/
  | cause
  /-- It arose while the other was dealt with. -/
  | context
  /-- It takes the place of the other. -/
  | replaced
  /-- It has nothing to do with the other. -/
  | none
deriving DecidableEq, Repr

namespace Exit

def code : Exit → Nat
  | success => 0
  | failed => 1
  | misuse => 2
  | internal => 4

/-- The number that is given to the caller for what a command came to, and the words for it. A text
is the reason of a failure. Numbers without a meaning count as internal failures. -/
def normalCode : Document → Nat × Text
  | .null => (success.code, [])
  | .bool b => (if b then failed.code else success.code, [])
  | .int n => (if n = 0 ∨ n = 1 ∨ n = 2 ∨ n = 4 then n.toNat else internal.code, [])
  | .text t => (internal.code, if t.strip.isEmpty then [] else t.strip ++ "\n")
  | _ => (internal.code, [])

end Exit

namespace Tie

/-- Whether the failure before can be seen through the tie. -/
def isOpen : Tie → Bool
  | cause | context => true
  | replaced | none => false

end Tie

/-- How a run ends with failures that arose one after the other, all tied in one way. Each is given
by whether the call or its input is to blame. One to blame among those that can be seen is enough. -/
def Exit.ofChain (tie : Tie) (blames : List Bool) : Exit :=
  let seen := if tie.isOpen then blames else blames.getLast?.toList
  if seen.any id then .misuse else .internal

end Conform.CommandLine

namespace Conform.Failure

/-- Whether the call or its input is to blame, and not the program. -/
def isMisuse : Failure → Bool
  | scalar (.escapeRange code) => code < 0x80000000
  | scalar (.notInteger ..) | scalar (.tooManyDigits _) | scalar .longNumber | scalar (.notFloat _)
  | scalar (.noSuchMoment _) | notUtf8 .. | unreadableReference | segmentNotNumber _ | notWhole
  | nulInPath | pathTraversal _ | escapesRoot .. | notPositive _ | noSuchLogLevel _
  | emptyCorrelation _ | unknownSettings _ | emptyLogLevel | unsupportedLogLevel _ | usage _
  | access .missing _ | access .notDirectory _ => true
  | f => f.isDomain

end Conform.Failure

import Conform.Pattern.Parser

/-! Expressions as trees of characters, escapes, classes, quantifiers, bars, groups and flags, with the text
that each tree is written as. -/
namespace Conform.Signatures

open Pattern (Flags Greed)

inductive Flag where
  | ignoreCase
  | multiline
  | dotAll
deriving DecidableEq

def Flag.letter : Flag → Char
  | ignoreCase => 'i'
  | multiline => 'm'
  | dotAll => 's'

/-- What a group switches on and off, in the order in which it is written. -/
structure Change where
  on : List Flag
  off : List Flag
  some : on ≠ [] ∨ off ≠ []

namespace Change

def switchOn (f : Flag) : Change := ⟨[f], [], .inl (List.cons_ne_nil f [])⟩

def switchOff (f : Flag) : Change := ⟨[], [f], .inr (List.cons_ne_nil f [])⟩

def letters (fs : List Flag) : Text := Text.ofChars (fs.map Flag.letter)

def negated : List Flag → Text
  | [] => []
  | f :: fs => Point.ofChar '-' :: letters (f :: fs)

def text (c : Change) : Text := letters c.on ++ negated c.off

/-- Whether no flag is switched both on and off. -/
def isApart (c : Change) : Bool := c.on.all fun f => !c.off.contains f

def flagsOf (fs : List Flag) : Flags := Pattern.Parse.flagsOf (fs.map Flag.letter)

def apply (c : Change) (f : Flags) : Flags := (f.union (flagsOf c.on)).without (flagsOf c.off)

end Change

/-- The characters that are no literals where they stand. A brace is one unless it opens a count. -/
def reserved : List Char := ['\\', '[', '(', ')', '|', '*', '+', '?']

/-- A member of a class; ranges are three of them. -/
inductive Member where
  | char (p : Point) (h : p.char ≠ '\\')
  | escape (p : Point)

namespace Member

def text : Member → Text
  | char p _ => [p]
  | escape p => [Point.ofChar '\\', p]

def isChar (c : Char) : Member → Bool
  | char p _ => p.char == c
  | escape _ => false

end Member

/-- A class. A bracket closes it unless it is its first member. -/
structure Members where
  negated : Bool
  first : Member
  others : List Member
  caret : first.isChar '^' → negated = true
  bracket : ∀ m ∈ others, m.isChar ']' = false

namespace Members

/-- The members and the bracket behind them. -/
def inside (s : Members) : Text := s.first.text ++ (s.others.flatMap Member.text ++ [Point.ofChar ']'])

def text (s : Members) : Text := Point.ofChar '[' :: ((if s.negated then "^" else [] : Text) ++ s.inside)

end Members

/-- What matches a character or asks for a place. -/
inductive Atom where
  | char (p : Point) (h : p.char ∉ reserved)
  | escape (p : Point)
  | set (s : Members)

namespace Atom

def text : Atom → Text
  | char p _ => [p]
  | escape p => [Point.ofChar '\\', p]
  | set s => s.text

def opensCount : Atom → Bool
  | char p _ => p.char == '\x7b'
  | _ => false

end Atom

/-- Whether a text is that of a count between its braces: digits with at most one comma among them. -/
def isCount (t : Text) : Bool :=
  !t.isEmpty && t.all (fun p => p.char.isDigit || p.char == ',') && t.countP (·.char == ',') ≤ 1

/-- Whether a brace before the text opens a count. -/
def startsCount (t : Text) : Bool := (t.cut? '\x7d').any fun (inside, _) => isCount inside

inductive Bounds where
  | star
  | plus
  | optional
  | count (inside : Text) (h : isCount inside = true)

namespace Bounds

def text : Bounds → Text
  | star => "*"
  | plus => "+"
  | optional => "?"
  | count inside _ => Point.ofChar '\x7b' :: (inside ++ [Point.ofChar '\x7d'])

def isOptional : Bounds → Bool
  | optional => true
  | _ => false

def isCount : Bounds → Bool
  | count .. => true
  | _ => false

end Bounds

structure Quantifier where
  bounds : Bounds
  greed : Greed

namespace Quantifier

def sign : Greed → Text
  | .greedy => []
  | .lazy => "?"
  | .possessive => "+"

def text (q : Quantifier) : Text := q.bounds.text ++ sign q.greed

end Quantifier

/-- How a group is opened. -/
inductive Opening where
  | capture
  /-- A capture under a name; the letter before the name may be left out. -/
  | named (letter : Bool) (name : Text) (h : name ≠ [] ∧ ∀ p ∈ name, p.isWord = true)
  | plain
  | under (c : Change)
  | look (behind negated : Bool)

namespace Opening

/-- What opens a capture under a name, behind the parenthesis and the question mark. -/
def namePart (letter : Bool) (name : Text) : Text :=
  (if letter then [Point.ofChar 'P', Point.ofChar '<'] else [Point.ofChar '<']) ++ (name ++ [Point.ofChar '>'])

def text : Opening → Text
  | capture => "("
  | named letter name _ => "(?" ++ namePart letter name
  | plain => "(?:"
  | under c => "(?" ++ (c.text ++ (":" : Text))
  | look false false => "(?="
  | look false true => "(?!"
  | look true false => "(?<="
  | look true true => "(?<!"

def isCapture : Opening → Bool
  | capture | named .. => true
  | _ => false

def isApart : Opening → Bool
  | under c => c.isApart
  | _ => true

/-- The flags that a group's body starts under. -/
def flags (f : Flags) : Opening → Flags
  | under c => c.apply f
  | _ => f

end Opening

/-- An expression, or what is left of one from a place to the end of the group around it. -/
inductive Expr where
  | done
  | atom (a : Atom) (next : Expr)
  | quantifier (q : Quantifier) (next : Expr)
  | bar (next : Expr)
  | flags (c : Change) (next : Expr)
  | group (o : Opening) (body next : Expr)

namespace Expr

def text : Expr → Text
  | done => []
  | atom a next => a.text ++ next.text
  | quantifier q next => q.text ++ next.text
  | bar next => Point.ofChar '|' :: next.text
  | flags c next => "(?" ++ (c.text ++ Point.ofChar ')' :: next.text)
  | group o body next => o.text ++ (body.text ++ Point.ofChar ')' :: next.text)

/-- The literal characters at the start. -/
def literals : Expr → Text
  | atom (.char p _) next => p :: next.literals
  | _ => []

def startsQuantifier : Expr → Bool
  | quantifier .. => true
  | _ => false

/-- Whether a parenthesis before the expression would be read as part of another opening. -/
def startsOptional : Expr → Bool
  | quantifier q _ => q.bounds.isOptional
  | _ => false

/-- Whether every capture is read as one. -/
def isReadable : Expr → Bool
  | done => true
  | atom _ next | quantifier _ next | bar next | flags _ next => next.isReadable
  | group .capture body next => !body.startsOptional && body.isReadable && next.isReadable
  | group _ body next => body.isReadable && next.isReadable

/-- Whether every quantifier stands behind something that it repeats, an atom or a group, and every brace and
every flag means one thing. -/
def isPattern (repeatable : Bool) : Expr → Bool
  | done => true
  | atom a next => !(a.opensCount && startsCount next.literals) && next.isPattern true
  | quantifier _ next => repeatable && next.isPattern false
  | bar next => next.isPattern false
  | flags c next => c.isApart && next.isPattern false
  | group o body next => o.isApart && body.isPattern false && next.isPattern true

/-- The groups of flags alone, at any depth. -/
def flagGroups : Expr → List Change
  | done => []
  | atom _ next | quantifier _ next | bar next => next.flagGroups
  | flags c next => c :: next.flagGroups
  | group _ body next => body.flagGroups ++ next.flagGroups

/-- The groups of flags alone at the very start. -/
def lead : Expr → List Change
  | flags c next => c :: next.lead
  | _ => []

def afterLead : Expr → Expr
  | flags _ next => next.afterLead
  | e => e

/-- The groups that capture, in their order. -/
def captures : Expr → List Opening
  | done => []
  | atom _ next | quantifier _ next | bar next | flags _ next => next.captures
  | group o body next => (if o.isCapture then [o] else []) ++ body.captures ++ next.captures

/-- A literal before an expression. -/
def letter (c : Char) (h : (Point.ofChar c).char ∉ reserved) (next : Expr) : Expr :=
  atom (.char (Point.ofChar c) h) next

end Expr

section Texts

theorem text_flags (c : Change) (next : Expr) (r : Text) :
    (Expr.flags c next).text ++ r = "(?" ++ (c.text ++ Point.ofChar ')' :: (next.text ++ r)) := by
  simp only [Expr.text, List.append_assoc, List.cons_append]

theorem text_group (o : Opening) (body next : Expr) (r : Text) :
    (Expr.group o body next).text ++ r = o.text ++ (body.text ++ Point.ofChar ')' :: (next.text ++ r)) := by
  simp only [Expr.text, List.append_assoc, List.cons_append]

end Texts

section Patterns

variable {e : Expr}

theorem isReadable_group {o : Opening} {body next : Expr} (h : (Expr.group o body next).isReadable = true) :
    body.isReadable = true ∧ next.isReadable = true ∧ (o = .capture → body.startsOptional = false) := by
  cases o with
  | capture =>
      simp only [Expr.isReadable, Bool.and_eq_true, Bool.not_eq_true'] at h
      exact ⟨h.1.2, h.2, fun _ => h.1.1⟩
  | named | plain | under | look =>
      simp only [Expr.isReadable, Bool.and_eq_true] at h
      exact ⟨h.1, h.2, nofun⟩

theorem startsQuantifier_of_isPattern (h : e.isPattern false = true) : e.startsQuantifier = false := by
  cases e with
  | quantifier q next => cases h
  | done | atom | bar | flags | group => rfl

theorem startsOptional_of_startsQuantifier (h : e.startsQuantifier = false) : e.startsOptional = false := by
  cases e with
  | quantifier q next => cases h
  | done | atom | bar | flags | group => rfl

theorem isReadable_of_isPattern {repeatable : Bool} (h : e.isPattern repeatable = true) : e.isReadable = true := by
  induction e generalizing repeatable with
  | done => rfl
  | atom a next ih | quantifier q next ih | flags c next ih =>
      rw [Expr.isPattern, Bool.and_eq_true] at h
      exact ih h.2
  | bar next ih => exact ih h
  | group o body next ihBody ih =>
      simp only [Expr.isPattern, Bool.and_eq_true] at h
      obtain ⟨⟨-, hBody⟩, hNext⟩ := h
      have hOptional := startsOptional_of_startsQuantifier (startsQuantifier_of_isPattern hBody)
      cases o <;> simp only [Expr.isReadable, hOptional, ihBody hBody, ih hNext, Bool.not_false, Bool.and_self]

end Patterns

end Conform.Signatures

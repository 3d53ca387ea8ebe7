import Conform.Proofs.Signatures.Lexing
import Mathlib.Data.List.TakeWhile

/-! An expression can be read back from its text in one way only. Each part of it ends where its text says, so
equal texts have equal first parts and equal rests. -/
namespace Conform.Signatures

variable {t t' r r' : Text} {e e' : Expr}

section Atoms

theorem member_injective {m m' : Member} (h : m.text ++ t = m'.text ++ t') : m = m' ∧ t = t' := by
  cases m with
  | char p hEscape =>
      cases m' with
      | char p' _ =>
          obtain ⟨rfl, rfl⟩ := List.cons.inj h
          exact ⟨rfl, rfl⟩
      | escape p' => exact absurd (congrArg Point.char (List.cons.inj h).1) hEscape
  | escape p =>
      cases m' with
      | char p' hEscape => exact absurd (congrArg Point.char (List.cons.inj h).1).symm hEscape
      | escape p' =>
          obtain ⟨rfl, rfl⟩ := List.cons.inj (List.cons.inj h).2
          exact ⟨rfl, rfl⟩

theorem members_injective {ms ms' : List Member} (h : ms.flatMap Member.text = ms'.flatMap Member.text) :
    ms = ms' := by
  induction ms generalizing ms' with
  | nil =>
      have hLength := length_le_members ms'
      rw [← h] at hLength
      exact (List.length_eq_zero_iff.mp (Nat.le_zero.mp hLength)).symm
  | cons m ms ih =>
      cases ms' with
      | nil =>
          have hLength := length_le_members (m :: ms)
          rw [h] at hLength
          exact absurd hLength (Nat.not_succ_le_zero _)
      | cons m' ms' =>
          obtain ⟨rfl, hRest⟩ := member_injective h
          rw [ih hRest]

theorem text_members_injective {s s' : Members} (h : s.text = s'.text) : s = s' := by
  have hBehind : caretText s ++ (s.inside ++ []) = caretText s' ++ (s'.inside ++ []) := by
    rw [List.append_nil, List.append_nil]
    exact (List.cons.inj h).2
  have hCaret := (dropStart?_caret s []).symm.trans ((congrArg (Text.dropStart? · "^") hBehind).trans
    (dropStart?_caret s' []))
  have hNegated : s.negated = s'.negated := by
    cases h : s.negated <;> cases h' : s'.negated <;> simp only [h, h'] at hCaret <;> first | rfl | cases hCaret
  have hInside : s.inside = s'.inside := by
    rw [List.append_nil, List.append_nil, caretText, caretText, hNegated] at hBehind
    exact List.append_cancel_left hBehind
  have hMembers : (s.first :: s.others).flatMap Member.text = (s'.first :: s'.others).flatMap Member.text := by
    rw [Members.inside, Members.inside, ← List.append_assoc, ← List.append_assoc] at hInside
    rw [List.flatMap_cons, List.flatMap_cons]
    exact List.append_cancel_right hInside
  obtain ⟨hFirst, hOthers⟩ := List.cons.inj (members_injective hMembers)
  cases s
  cases s'
  congr

theorem text_atom_injective {a a' : Atom} (h : a.text = a'.text) : a = a' := by
  have hOther : ∀ {p : Point}, p.char ∉ reserved → ∀ c ∈ ['\\', '['], p.char ≠ c :=
    fun hFree c hMem hChar => hFree (hChar ▸ (show ['\\', '['] ⊆ reserved by decide) hMem)
  cases a with
  | char p hFree =>
      cases a' with
      | char p' hFree' =>
          obtain rfl := (List.cons.inj h).1
          rfl
      | escape p' => exact absurd (congrArg List.length h) (by decide : 1 ≠ 2)
      | set s' => exact absurd (congrArg Point.char (List.cons.inj h).1) (hOther hFree '[' (by decide))
  | escape p =>
      cases a' with
      | char p' hFree' => exact absurd (congrArg List.length h) (by decide : 2 ≠ 1)
      | escape p' =>
          obtain rfl := (List.cons.inj (List.cons.inj h).2).1
          rfl
      | set s' => exact absurd (List.cons.inj h).1 (by decide)
  | set s =>
      cases a' with
      | char p' hFree' => exact absurd (congrArg Point.char (List.cons.inj h).1).symm (hOther hFree' '[' (by decide))
      | escape p' => exact absurd (List.cons.inj h).1 (by decide)
      | set s' => rw [text_members_injective h]

/-- An atom ends where its text says. -/
theorem atom_injective {a a' : Atom} (h : a.text ++ t = a'.text ++ t') : a = a' ∧ t = t' := by
  obtain ⟨p, u, hText, -, hCut⟩ := exists_cutPiece a t
  obtain ⟨p', u', hText', -, hCut'⟩ := exists_cutPiece a' t'
  obtain ⟨rfl, rfl⟩ := List.cons.inj (hText.symm.trans (h.trans hText'))
  obtain ⟨hSame, rfl⟩ := Prod.mk.inj (hCut.symm.trans hCut')
  exact ⟨text_atom_injective hSame, rfl⟩

end Atoms

section Quantifiers

/-- Neither a digit nor a comma closes a count. -/
theorem char_ne_of_isCount {inside : Text} (h : isCount inside = true) : ∀ p ∈ inside, p.char ≠ '\x7d' := by
  intro p hMem hChar
  have hPoint := digit_or_comma_of_mem h hMem
  rw [hChar] at hPoint
  exact absurd hPoint (by decide)

theorem cut?_count {inside : Text} (h : isCount inside = true) (t : Text) :
    Text.cut? '\x7d' (inside ++ Point.ofChar '\x7d' :: t) = some (inside, t) :=
  Text.cut?_eq_some_iff.mpr ⟨_, by decide, rfl, char_ne_of_isCount h⟩

theorem bounds_injective {b b' : Bounds} (h : b.text ++ t = b'.text ++ t') : b = b' ∧ t = t' := by
  cases b with
  | count inside hCount =>
      cases b' with
      | count inside' hCount' =>
          have hText : inside ++ Point.ofChar '\x7d' :: t = inside' ++ Point.ofChar '\x7d' :: t' := by
            simpa [Bounds.text] using h
          have hCut := (cut?_count hCount t).symm.trans
            ((congrArg (Text.cut? '\x7d') hText).trans (cut?_count hCount' t'))
          obtain ⟨rfl, rfl⟩ := Prod.mk.inj (Option.some.inj hCut)
          exact ⟨rfl, rfl⟩
      | star | plus | optional => exact absurd (List.cons.inj h).1 (by decide)
  | star =>
      cases b' with
      | star => exact ⟨rfl, (List.cons.inj h).2⟩
      | plus | optional | count => exact absurd (List.cons.inj h).1 (by decide)
  | plus =>
      cases b' with
      | plus => exact ⟨rfl, (List.cons.inj h).2⟩
      | star | optional | count => exact absurd (List.cons.inj h).1 (by decide)
  | optional =>
      cases b' with
      | optional => exact ⟨rfl, (List.cons.inj h).2⟩
      | star | plus | count => exact absurd (List.cons.inj h).1 (by decide)

/-- Whether a quantifier is greedy is told where no other quantifier follows it. -/
theorem sign_injective {g g' : Pattern.Greed} (h : Quantifier.sign g ++ t = Quantifier.sign g' ++ t')
    (hNext : Start.ofText t ≠ .sign) (hNext' : Start.ofText t' ≠ .sign) : g = g' ∧ t = t' := by
  cases g <;> cases g'
  case greedy.greedy => exact ⟨rfl, h⟩
  case lazy.lazy => exact ⟨rfl, (List.cons.inj h).2⟩
  case possessive.possessive => exact ⟨rfl, (List.cons.inj h).2⟩
  case greedy.lazy => exact absurd (congrArg Start.ofText h) hNext
  case greedy.possessive => exact absurd (congrArg Start.ofText h) hNext
  case lazy.greedy => exact absurd (congrArg Start.ofText h).symm hNext'
  case possessive.greedy => exact absurd (congrArg Start.ofText h).symm hNext'
  case lazy.possessive => exact absurd (List.cons.inj h).1 (by decide)
  case possessive.lazy => exact absurd (List.cons.inj h).1 (by decide)

theorem quantifier_injective {q q' : Quantifier} (h : q.text ++ t = q'.text ++ t')
    (hNext : Start.ofText t ≠ .sign) (hNext' : Start.ofText t' ≠ .sign) : q = q' ∧ t = t' := by
  rw [Quantifier.text, Quantifier.text, List.append_assoc, List.append_assoc] at h
  obtain ⟨hBounds, h⟩ := bounds_injective h
  obtain ⟨hGreed, hRest⟩ := sign_injective h hNext hNext'
  refine ⟨?_, hRest⟩
  cases q
  cases q'
  exact congr (congrArg Quantifier.mk hBounds) hGreed

end Quantifiers

section Changes

theorem letters_injective {fs fs' : List Flag} (h : Change.letters fs = Change.letters fs') : fs = fs' := by
  have hLetter : ∀ f f' : Flag, Point.ofChar f.letter = Point.ofChar f'.letter → f = f' := by
    rintro (_ | _ | _) (_ | _ | _) <;> decide
  rw [Change.letters, Change.letters, Text.ofChars, Text.ofChars, List.map_map, List.map_map] at h
  exact (List.map_inj_right hLetter).mp h

theorem negated_injective {fs fs' : List Flag} (h : Change.negated fs = Change.negated fs') : fs = fs' := by
  cases fs with
  | nil => cases fs' with
    | nil => rfl
    | cons => cases h
  | cons f fs => cases fs' with
    | nil => cases h
    | cons f' fs' => exact letters_injective (List.cons.inj h).2

/-- The letters before the minus are those that are switched on. -/
theorem takeWhile_change (c : Change) : c.text.takeWhile isFlagLetter = Change.letters c.on := by
  unfold Change.text
  cases c.off with
  | nil =>
      rw [Change.negated, List.append_nil]
      exact List.takeWhile_eq_self_iff.mpr isFlagLetter_of_mem_letters
  | cons f fs => exact takeWhile_letters c.on (by decide)

theorem change_injective {c c' : Change} (h : c.text = c'.text) : c = c' := by
  have hOn : Change.letters c.on = Change.letters c'.on := by
    rw [← takeWhile_change, h, takeWhile_change]
  have hOff : Change.negated c.off = Change.negated c'.off := by
    rw [Change.text, Change.text, hOn] at h
    exact List.append_cancel_left h
  cases c
  cases c'
  exact (Change.mk.injEq ..).mpr ⟨letters_injective hOn, negated_injective hOff⟩

end Changes

section Openings

/-- The characters that tell openings of different kinds apart, of the text from a parenthesis on. The letters of
flags are all one. -/
def signOf : Text → List Char
  | _ :: q :: p :: rest =>
      if q.char = '?' then
        if p.char ∈ ['i', 'm', 's', '-'] then ['-']
        else if p.char = '<' then '<' :: (rest.head?.map Point.char).toList.filter (· ∈ ['=', '!'])
        else [p.char]
      else []
  | _ => []

def Opening.sign : Opening → List Char
  | capture => []
  | named true _ _ => ['P']
  | named false _ _ => ['<']
  | plain => [':']
  | under _ => ['-']
  | look false false => ['=']
  | look false true => ['!']
  | look true false => ['<', '=']
  | look true true => ['<', '!']

theorem signOf_text (o : Opening) (hCapture : o = .capture → ∀ p, t.head? = some p → p.char ≠ '?') :
    signOf (o.text ++ t) = o.sign := by
  cases o with
  | capture =>
      rcases t with - | ⟨p, - | ⟨q, t⟩⟩
      · rfl
      · rfl
      · exact if_neg (hCapture rfl p rfl)
  | named letter name hName =>
      cases letter with
      | true => rfl
      | false =>
          obtain ⟨q, qs, rfl⟩ := List.exists_cons_of_ne_nil hName.1
          have hFirst := hName.2 q List.mem_cons_self
          have hEqual : q.char ≠ '=' := char_ne_of_isWord hFirst (by decide) (by decide)
          have hNegated : q.char ≠ '!' := char_ne_of_isWord hFirst (by decide) (by decide)
          show '<' :: [q.char].filter (· ∈ ['=', '!']) = ['<']
          simp [hEqual, hNegated]
  | plain => rfl
  | under c =>
      obtain ⟨p, u, hText, hChar⟩ := exists_cons_change c (":" ++ t)
      have hOpen : (Opening.under c).text ++ t = "(?" ++ (p :: u) := by
        rw [← hText, Opening.text, List.append_assoc, List.append_assoc]
      rw [hOpen]
      exact if_pos hChar
  | look behind negated => cases behind <;> cases negated <;> rfl

theorem cut?_name {name : Text} (hWord : ∀ p ∈ name, p.isWord = true) (t : Text) :
    Text.cut? '>' (name ++ Point.ofChar '>' :: t) = some (name, t) :=
  Text.cut?_eq_some_iff.mpr ⟨_, by decide, rfl, fun p hMem =>
    char_ne_of_isWord (hWord p hMem) (by decide) (by decide)⟩

/-- An opening ends where its text says, if what follows a parenthesis alone is no part of the opening. -/
theorem opening_injective {o o' : Opening} (h : o.text ++ t = o'.text ++ t')
    (hCapture : o = .capture → ∀ p, t.head? = some p → p.char ≠ '?')
    (hCapture' : o' = .capture → ∀ p, t'.head? = some p → p.char ≠ '?') : o = o' ∧ t = t' := by
  have hSign : o.sign = o'.sign := by rw [← signOf_text o hCapture, h, signOf_text o' hCapture']
  cases o with
  | capture =>
      cases o' with
      | capture => exact ⟨rfl, (List.cons.inj h).2⟩
      | named letter' => cases letter' <;> cases hSign
      | plain | under => cases hSign
      | look behind' negated' => cases behind' <;> cases negated' <;> cases hSign
  | named letter name hName =>
      cases o' with
      | named letter' name' hName' =>
          obtain rfl : letter = letter' := by
            cases letter <;> cases letter' <;> first | rfl | cases hSign
          have hText : name ++ Point.ofChar '>' :: t = name' ++ Point.ofChar '>' :: t' := by
            cases letter <;> simpa [Opening.text, Opening.namePart] using h
          have hCut := (cut?_name hName.2 t).symm.trans
            ((congrArg (Text.cut? '>') hText).trans (cut?_name hName'.2 t'))
          obtain ⟨rfl, rfl⟩ := Prod.mk.inj (Option.some.inj hCut)
          exact ⟨rfl, rfl⟩
      | capture | plain | under => cases letter <;> cases hSign
      | look behind' negated' => cases letter <;> cases behind' <;> cases negated' <;> cases hSign
  | plain =>
      cases o' with
      | plain => exact ⟨rfl, List.append_cancel_left h⟩
      | capture | under => cases hSign
      | named letter' => cases letter' <;> cases hSign
      | look behind' negated' => cases behind' <;> cases negated' <;> cases hSign
  | under c =>
      cases o' with
      | under c' =>
          have hText : c.text ++ Point.ofChar ':' :: t = c'.text ++ Point.ofChar ':' :: t' := by
            simp only [Opening.text, List.append_assoc] at h
            exact List.append_cancel_left h
          have hRun := (flagRun_change c (r := t) (by decide) (by decide)).symm.trans
            ((congrArg flagRun hText).trans (flagRun_change c' (by decide) (by decide)))
          obtain ⟨hChange, hRest⟩ := Prod.mk.inj hRun
          obtain rfl := change_injective hChange
          exact ⟨rfl, (List.cons.inj hRest).2⟩
      | capture | plain => cases hSign
      | named letter' => cases letter' <;> cases hSign
      | look behind' negated' => cases behind' <;> cases negated' <;> cases hSign
  | look behind negated =>
      cases o' with
      | look behind' negated' =>
          obtain ⟨rfl, rfl⟩ : behind = behind' ∧ negated = negated' := by
            cases behind <;> cases negated <;> cases behind' <;> cases negated' <;>
              first | exact ⟨rfl, rfl⟩ | cases hSign
          exact ⟨rfl, List.append_cancel_left h⟩
      | capture | plain | under => cases behind <;> cases negated <;> cases hSign
      | named letter' => cases behind <;> cases negated <;> cases letter' <;> cases hSign

end Openings

section Expressions

/-- The characters of a count, with the brace that closes it. -/
def isCountChar (p : Point) : Bool := p.char.isDigit || p.char ∈ [',', '\x7d']

/-- What is written as a count is read as literals, if not as a count. -/
theorem literals_of_text (hEnd : Ends r) {u v : Text} (h : e.text ++ r = u ++ v)
    (hCount : ∀ p ∈ u, isCountChar p = true) : ∃ w, e.literals = u ++ w := by
  induction u generalizing e with
  | nil => exact ⟨_, rfl⟩
  | cons p u ih =>
      obtain ⟨hHere, hLater⟩ := List.forall_mem_cons.mp hCount
      have hNe : ∀ c ∈ [')', '|', '(', '\x7b', '*', '+', '?', '\\', '['], p.char ≠ c := by
        intro c hMem hChar
        have hNone : ∀ c ∈ [')', '|', '(', '\x7b', '*', '+', '?', '\\', '['],
            (c.isDigit || c ∈ [',', '\x7d']) = false := List.forall_iff_forall_mem.mp (by decide)
        rw [isCountChar, hChar, hNone c hMem] at hHere
        cases hHere
      have hStart : Start.ofExpr e = .atom := by
        rw [← ofText_text hEnd, h]
        simp only [List.forall_mem_cons] at hNe
        simp [Start.ofText, Start.ofChar, hNe]
      cases e with
      | atom a next =>
          rw [Expr.text, List.append_assoc] at h
          cases a with
          | char q hFree =>
              obtain ⟨rfl, hRest⟩ := List.cons.inj h
              obtain ⟨w, hLiterals⟩ := ih hRest hLater
              exact ⟨w, congrArg (q :: ·) hLiterals⟩
          | escape q => exact absurd (congrArg Point.char (List.cons.inj h).1).symm (hNe '\\' (by decide))
          | set s => exact absurd (congrArg Point.char (List.cons.inj h).1).symm (hNe '[' (by decide))
      | quantifier q next => cases hBounds : q.bounds.isCount <;> simp [Start.ofExpr, hBounds] at hStart
      | done | bar | flags | group => cases hStart

/-- Behind a brace, literals that are read as a count are the only text that is. -/
theorem startsCount_text (hEnd : Ends r) (h : startsCount (e.text ++ r) = true) : startsCount e.literals = true := by
  obtain ⟨⟨inside, rest⟩, hCut, hCount⟩ := (Option.any_eq_true ..).mp h
  obtain ⟨p, hClose, hText, -⟩ := Text.cut?_eq_some_iff.mp hCut
  have hChars : ∀ q ∈ inside ++ [p], isCountChar q = true := by
    refine List.forall_mem_append.mpr ⟨fun q hMem => ?_, List.forall_mem_singleton.mpr ?_⟩
    · have hPoint := digit_or_comma_of_mem hCount hMem
      simp only [isCountChar, Bool.or_eq_true, beq_iff_eq] at hPoint ⊢
      exact hPoint.imp_right fun hComma => by simp [hComma]
    · rw [isCountChar, hClose]
      decide
  obtain ⟨w, hLiterals⟩ := literals_of_text hEnd (v := rest) (hText.trans (by simp)) hChars
  rw [Point.eq_ofChar hClose (by decide), List.append_assoc] at hLiterals
  rw [hLiterals, startsCount]
  exact (congrArg _ (cut?_count hCount w)).trans hCount

/-- What an expression starts with. -/
inductive Kind where
  | done
  | atom
  | quantifier
  | bar
  | flags
  | group

namespace Kind

def ofExpr : Expr → Kind
  | .done => done
  | .atom .. => atom
  | .quantifier .. => quantifier
  | .bar _ => bar
  | .flags .. => flags
  | .group .. => group

/-- Past its first character a text is looked at for a count behind a brace and for flags behind a parenthesis
alone. -/
def ofText (t : Text) : Kind :=
  match Start.ofText t with
  | .ending => done
  | .atom => atom
  | .brace => if startsCount t.tail then quantifier else atom
  | .sign => quantifier
  | .bar => bar
  | .parenthesis => if (flagGroup? t).isSome then flags else group

end Kind

theorem kind_text {repeatable : Bool} (hPattern : e.isPattern repeatable = true) (hEnd : Ends r) :
    Kind.ofText (e.text ++ r) = .ofExpr e := by
  have hStart := ofText_text hEnd e
  unfold Kind.ofText
  rw [hStart]
  cases e with
  | done | bar => rfl
  | atom a next =>
      rw [Expr.isPattern, Bool.and_eq_true] at hPattern
      cases hAtom : a.opensCount with
      | false => simp only [Start.ofExpr, hAtom]; rfl
      | true =>
          have hTail : ((Expr.atom a next).text ++ r).tail = next.text ++ r := by
            cases a with
            | char => rfl
            | escape | set => cases hAtom
          have hNone : startsCount (next.text ++ r) = false := by
            refine Bool.eq_false_iff.mpr fun hCount => ?_
            rw [hAtom, startsCount_text hEnd hCount] at hPattern
            cases hPattern.1
          simp only [Start.ofExpr, hAtom, if_true, hTail, hNone]
          rfl
  | quantifier q next =>
      obtain ⟨bounds, greed⟩ := q
      cases bounds with
      | star | plus | optional => rfl
      | count inside hInside =>
          have hTail : ((Expr.quantifier ⟨.count inside hInside, greed⟩ next).text ++ r).tail =
              inside ++ Point.ofChar '\x7d' :: (Quantifier.sign greed ++ (next.text ++ r)) := by
            simp [Expr.text, Quantifier.text, Bounds.text]
          have hCount : ∀ u, startsCount (inside ++ Point.ofChar '\x7d' :: u) = true :=
            fun u => (congrArg _ (cut?_count hInside u)).trans hInside
          show (if startsCount ((Expr.quantifier ⟨.count inside hInside, greed⟩ next).text ++ r).tail then
            Kind.quantifier else .atom) = .quantifier
          rw [hTail, hCount, if_pos rfl]
  | flags c next =>
      show (if (flagGroup? ((Expr.flags c next).text ++ r)).isSome then Kind.flags else .group) = .flags
      rw [text_flags, flagGroup?_flags, Option.isSome_some, if_pos rfl]
  | group o body next =>
      show (if (flagGroup? ((Expr.group o body next).text ++ r)).isSome then Kind.flags else .group) = .group
      rw [flagGroup?_text hEnd (isReadable_of_isPattern hPattern) rfl]
      rfl

/-- Where nothing can be repeated no quantifier is read. -/
theorem ofText_ne_sign (hEnd : Ends r) (hPattern : e.isPattern false = true) :
    Start.ofText (e.text ++ r) ≠ .sign := by
  rw [ofText_text hEnd]
  cases e with
  | quantifier q next => cases hPattern
  | atom a next => cases hCount : a.opensCount <;> simp [Start.ofExpr, hCount]
  | done | bar | flags | group => simp [Start.ofExpr]

theorem kind_eq {repeatable : Bool} (hPattern : e.isPattern repeatable = true)
    (hPattern' : e'.isPattern repeatable = true) (hEnd : Ends r) (hEnd' : Ends r')
    (h : e.text ++ r = e'.text ++ r') : Kind.ofExpr e = .ofExpr e' := by
  rw [← kind_text hPattern hEnd, h, kind_text hPattern' hEnd']

/-- An expression ends where its text says. -/
theorem expr_injective {repeatable : Bool} (hPattern : e.isPattern repeatable = true)
    (hPattern' : e'.isPattern repeatable = true) (hEnd : Ends r) (hEnd' : Ends r')
    (h : e.text ++ r = e'.text ++ r') : e = e' ∧ r = r' := by
  induction e generalizing e' r r' repeatable with
  | done =>
      have hKind := kind_eq hPattern hPattern' hEnd hEnd' h
      cases e' with
      | done => exact ⟨rfl, h⟩
      | atom | quantifier | bar | flags | group => cases hKind
  | atom a next ih =>
      have hKind := kind_eq hPattern hPattern' hEnd hEnd' h
      cases e' with
      | atom a' next' =>
          rw [Expr.isPattern, Bool.and_eq_true] at hPattern hPattern'
          rw [Expr.text, Expr.text, List.append_assoc, List.append_assoc] at h
          obtain ⟨rfl, hRest⟩ := atom_injective h
          obtain ⟨rfl, rfl⟩ := ih hPattern.2 hPattern'.2 hEnd hEnd' hRest
          exact ⟨rfl, rfl⟩
      | done | quantifier | bar | flags | group => cases hKind
  | quantifier q next ih =>
      have hKind := kind_eq hPattern hPattern' hEnd hEnd' h
      cases e' with
      | quantifier q' next' =>
          rw [Expr.isPattern, Bool.and_eq_true] at hPattern hPattern'
          rw [Expr.text, Expr.text, List.append_assoc, List.append_assoc] at h
          obtain ⟨rfl, hRest⟩ := quantifier_injective h (ofText_ne_sign hEnd hPattern.2)
            (ofText_ne_sign hEnd' hPattern'.2)
          obtain ⟨rfl, rfl⟩ := ih hPattern.2 hPattern'.2 hEnd hEnd' hRest
          exact ⟨rfl, rfl⟩
      | done | atom | bar | flags | group => cases hKind
  | bar next ih =>
      have hKind := kind_eq hPattern hPattern' hEnd hEnd' h
      cases e' with
      | bar next' =>
          obtain ⟨rfl, rfl⟩ := ih hPattern hPattern' hEnd hEnd' (List.cons.inj h).2
          exact ⟨rfl, rfl⟩
      | done | atom | quantifier | flags | group => cases hKind
  | flags c next ih =>
      have hKind := kind_eq hPattern hPattern' hEnd hEnd' h
      cases e' with
      | flags c' next' =>
          rw [Expr.isPattern, Bool.and_eq_true] at hPattern hPattern'
          rw [text_flags, text_flags] at h
          have hFlags := (flagGroup?_flags c _).symm.trans ((congrArg flagGroup? h).trans (flagGroup?_flags c' _))
          obtain ⟨hChange, hRest⟩ := Prod.mk.inj (Option.some.inj hFlags)
          obtain rfl := change_injective hChange
          obtain ⟨rfl, rfl⟩ := ih hPattern.2 hPattern'.2 hEnd hEnd' hRest
          exact ⟨rfl, rfl⟩
      | done | atom | quantifier | bar | group => cases hKind
  | group o body next ihBody ih =>
      have hKind := kind_eq hPattern hPattern' hEnd hEnd' h
      cases e' with
      | group o' body' next' =>
          have hCapture := char_ne_of_isReadable (r := next.text ++ r) (isReadable_of_isPattern hPattern)
          have hCapture' := char_ne_of_isReadable (r := next'.text ++ r') (isReadable_of_isPattern hPattern')
          simp only [Expr.isPattern, Bool.and_eq_true] at hPattern hPattern'
          rw [text_group, text_group] at h
          obtain ⟨rfl, hBody⟩ := opening_injective h hCapture hCapture'
          obtain ⟨rfl, hNext⟩ := ihBody hPattern.1.2 hPattern'.1.2 (ends_close _) (ends_close _) hBody
          obtain ⟨rfl, rfl⟩ := ih hPattern.2 hPattern'.2 hEnd hEnd' (List.cons.inj hNext).2
          exact ⟨rfl, rfl⟩
      | done | atom | quantifier | bar | flags => cases hKind

/-- An expression is read in one way only. -/
theorem text_injective (hPattern : e.isPattern false = true) (hPattern' : e'.isPattern false = true)
    (h : e.text = e'.text) : e = e' :=
  (expr_injective hPattern hPattern' ends_nil ends_nil (congrArg (· ++ []) h)).1

end Expressions

end Conform.Signatures

import Conform.Proofs.Signatures.Expression
import Conform.Proofs.Signatures.Scan

/-! How the texts of atoms, quantifiers, flags and openings are cut off from what follows them. -/
namespace Conform.Signatures

open Opening (namePart)

variable {p : Point} {t u r : Text}

theorem dropStart?_cons_eq_none {start : Text} {q : Point} (h : p.char ≠ q.char) :
    Text.dropStart? (p :: t) (q :: start) = none := by
  cases hDrop : Text.dropStart? (p :: t) (q :: start) with
  | none => rfl
  | some u =>
      obtain ⟨rfl, -⟩ := List.cons.inj (Text.dropStart?_eq_some_iff.mp hDrop)
      exact absurd rfl h

theorem dropStart?_cons_self (p : Point) (t start : Text) :
    Text.dropStart? (p :: t) (p :: start) = Text.dropStart? t start := by
  refine Option.ext fun u => ?_
  simp only [Text.dropStart?_eq_some_iff, List.cons_append, List.cons.injEq, true_and]

/-- Where a text is cut is told by what is left of it. -/
theorem cut_eq {parts : Text × Text} (hAppend : parts.1 ++ parts.2 = t) (hText : t = u ++ r) (h : parts.2 = r) :
    parts = (u, r) := by
  refine Prod.ext ?_ h
  rw [h] at hAppend
  exact List.append_cancel_right (hAppend.trans hText)

section Flags

theorem isFlagLetter_of_mem_letters {fs : List Flag} : ∀ p ∈ Change.letters fs, isFlagLetter p = true := by
  simp only [Change.letters, Text.ofChars, List.map_map, List.forall_mem_map]
  rintro (_ | _ | _) - <;> decide

theorem takeWhile_letters (fs : List Flag) (h : isFlagLetter p = false) :
    (Change.letters fs ++ p :: r).takeWhile isFlagLetter = Change.letters fs := by
  rw [List.takeWhile_append_of_pos isFlagLetter_of_mem_letters, List.takeWhile_cons_of_neg (by simp [h]),
    List.append_nil]

/-- The flags of a group end where it is closed or its body begins. -/
theorem flagRun_change (c : Change) (h : isFlagLetter p = false) (hMinus : p.char ≠ '-') :
    flagRun (c.text ++ p :: r) = (c.text, p :: r) := by
  unfold flagRun Change.text
  cases hOff : c.off with
  | nil =>
      simp [Change.negated, takeWhile_letters _ h, hMinus]
  | cons f fs =>
      have hSign : isFlagLetter (Point.ofChar '-') = false := by decide
      have hText : Change.letters c.on ++ Change.negated (f :: fs) ++ p :: r =
          Change.letters c.on ++ Point.ofChar '-' :: (Change.letters (f :: fs) ++ p :: r) :=
        List.append_assoc _ _ _
      have hNonempty : (Change.letters (f :: fs)).isEmpty = false := rfl
      simp only [hText, takeWhile_letters _ hSign, List.drop_left, takeWhile_letters _ h, hNonempty]
      rfl

theorem text_change_ne_nil (c : Change) : c.text ≠ [] := by
  intro h
  obtain ⟨hOn, hOff⟩ := List.append_eq_nil_iff.mp h
  rcases c.some with hSome | hSome
  · exact hSome (by simpa [Change.letters, Text.ofChars] using hOn)
  · cases hFlags : c.off with
    | nil => exact hSome hFlags
    | cons f fs => rw [hFlags] at hOff; cases hOff

/-- What comes of a text behind the signs of a group depends on its flags alone. -/
theorem flagGroup?_open (h : flagRun u = (t, r)) :
    flagGroup? ("(?" ++ u) = if t.isEmpty then none else (Text.dropStart? r ")").map (t, ·) := by
  have hOpen : Text.dropStart? ("(?" ++ u) "(?" = some u := Text.dropStart?_eq_some_iff.mpr rfl
  unfold flagGroup?
  rw [hOpen, Option.bind_eq_bind, Option.bind_some, h]
  dsimp only
  split
  · rfl
  · cases Text.dropStart? r ")" <;> rfl

theorem flagGroup?_other (h : Text.dropStart? t "(?" = none) : flagGroup? t = none := by
  unfold flagGroup?
  rw [h]
  rfl

theorem flagGroup?_flags (c : Change) (r : Text) :
    flagGroup? ("(?" ++ (c.text ++ Point.ofChar ')' :: r)) = some (c.text, r) := by
  have hClose : Text.dropStart? (Point.ofChar ')' :: r) ")" = some r := Text.dropStart?_eq_some_iff.mpr rfl
  rw [flagGroup?_open (flagRun_change c (by decide) (by decide)), hClose,
    if_neg (by simpa using text_change_ne_nil c)]
  rfl

theorem flagRun_other (h : isFlagLetter p = false) (hMinus : p.char ≠ '-') :
    flagRun (p :: r) = ([], p :: r) := by
  simp [flagRun, h, hMinus]

end Flags

section Openings

theorem cutOpening_open (h : openingRest (u ++ r) = r) : cutOpening ("(?" ++ (u ++ r)) = ("(?" ++ u, r) :=
  cut_eq (cutOpening_append (Point.ofChar '(') (Point.ofChar '?' :: (u ++ r))) rfl h

theorem exists_cons_opening (o : Opening) : ∃ t, o.text = Point.ofChar '(' :: t := by
  cases o with
  | look behind negated => cases behind <;> cases negated <;> exact ⟨_, rfl⟩
  | capture | named | plain | under => exact ⟨_, rfl⟩

theorem openingName_eq_none (hLetter : p.char ≠ 'P') (hAngle : p.char ≠ '<') : openingName (p :: t) = none := by
  have hP : Text.dropStart? (p :: t) "P" = none := dropStart?_cons_eq_none hLetter
  have hName : Text.dropStart? (p :: t) "<" = none := dropStart?_cons_eq_none hAngle
  unfold openingName
  dsimp only
  rw [hP, Option.getD_none, hName]
  rfl

theorem openingName_angle {q : Point} (hAngle : (Text.dropStart? t "P").getD t = "<" ++ (q :: u)) :
    openingName t = if isFlagLetter q || q.char == '_' then Text.dropStart? (u.dropWhile Point.isWord) ">"
      else none := by
  have hName : Text.dropStart? ("<" ++ (q :: u)) "<" = some (q :: u) := Text.dropStart?_eq_some_iff.mpr rfl
  unfold openingName
  dsimp only
  rw [hAngle, hName]
  rfl

/-- What follows a question mark in an opening, apart from a name. -/
def marks : List Text := ["<=", "<!", "=", "!", ":", "#", "P="]

theorem openingRest_name (h : openingName t = some r) : openingRest t = r := by
  unfold openingRest
  rw [h]

theorem openingRest_mark (hName : openingName t = none)
    (hMark : marks.findSome? (Text.dropStart? t) = some r) : openingRest t = r := by
  unfold marks at hMark
  unfold openingRest
  rw [hName]
  dsimp only
  rw [hMark]

/-- Without a name or a mark an opening may still have flags. -/
theorem openingRest_other (hName : openingName t = none)
    (hMarks : ∀ mark ∈ marks, Text.dropStart? t mark = none) :
    openingRest t = (Text.dropStart? (flagRun t).2 ":").getD t := by
  have hNone := List.findSome?_eq_none_iff.mpr hMarks
  unfold marks at hNone
  unfold openingRest
  rw [hName]
  dsimp only
  rw [hNone]

theorem dropStart?_mark (h : p.char ∉ ['<', '=', '!', ':', '#', 'P']) :
    ∀ mark ∈ marks, Text.dropStart? (p :: t) mark = none := by
  intro mark hMark
  obtain ⟨q, start, rfl, hFirst⟩ : ∃ q start, mark = q :: start ∧ q.char ∈ ['<', '=', '!', ':', '#', 'P'] := by
    simp only [marks, List.mem_cons, List.not_mem_nil, or_false] at hMark
    rcases hMark with rfl | rfl | rfl | rfl | rfl | rfl | rfl <;> exact ⟨_, _, rfl, by decide⟩
  exact dropStart?_cons_eq_none fun hSame => h (hSame ▸ hFirst)

theorem exists_cons_change (c : Change) (r : Text) :
    ∃ p t, c.text ++ r = p :: t ∧ p.char ∈ ['i', 'm', 's', '-'] := by
  obtain ⟨on, off, hSome⟩ := c
  rcases on with - | ⟨f, fs⟩
  · rcases off with - | ⟨f, fs⟩
    · exact absurd rfl (hSome.resolve_left (absurd rfl))
    · exact ⟨_, _, rfl, by decide⟩
  · exact ⟨_, _, rfl, by cases f <;> decide⟩

theorem openingRest_change (c : Change) (r : Text) : openingRest (c.text ++ (":" ++ r)) = r := by
  have hColon : Text.dropStart? (flagRun (c.text ++ (":" ++ r))).2 ":" = some r := by
    rw [show (":" ++ r : Text) = Point.ofChar ':' :: r from rfl, flagRun_change c (by decide) (by decide)]
    exact Text.dropStart?_eq_some_iff.mpr rfl
  obtain ⟨p, t, hText, hChar⟩ := exists_cons_change c (":" ++ r)
  rw [hText] at hColon ⊢
  have hSigns : ∀ c ∈ ['i', 'm', 's', '-'], c ∉ ['<', '=', '!', ':', '#', 'P'] :=
    List.forall_iff_forall_mem.mp (by decide)
  have hOther : p.char ∉ ['<', '=', '!', ':', '#', 'P'] := hSigns _ hChar
  rw [openingRest_other _ (dropStart?_mark hOther), hColon, Option.getD_some]
  exact openingName_eq_none (fun h => hOther (by simp [h])) (fun h => hOther (by simp [h]))

/-- The characters at which a scan does something else than pass them. -/
def structural : List Char := ['\\', '[', ')', '|', '(']

/-- Whether a scan does nothing with a character but pass it. -/
def IsPlain (p : Point) : Prop := p.char ∉ structural

theorem char_ne_of_isWord {c : Char} (h : p.isWord = true) (hOther : (Point.ofChar c).isWord = false)
    (hSome : c.toNat ≠ 0) : p.char ≠ c := by
  intro hChar
  rw [Point.eq_ofChar hChar hSome, hOther] at h
  cases h

theorem isPlain_of_isWord (h : p.isWord = true) : IsPlain p := by
  intro hMem
  have hAll : ∀ c ∈ structural, (Point.ofChar c).isWord = false ∧ c.toNat ≠ 0 :=
    List.forall_iff_forall_mem.mp (by decide)
  exact char_ne_of_isWord h (hAll _ hMem).1 (hAll _ hMem).2 rfl

theorem openingRest_angle (hName : openingName (Point.ofChar '<' :: p :: t) = none)
    (hEqual : p.char ≠ '=') (hNegated : p.char ≠ '!') :
    openingRest (Point.ofChar '<' :: p :: t) = Point.ofChar '<' :: p :: t := by
  have hMarks : ∀ mark ∈ marks, Text.dropStart? (Point.ofChar '<' :: p :: t) mark = none := by
    simp only [marks, List.forall_mem_cons]
    refine ⟨?_, ?_, dropStart?_cons_eq_none (by decide), dropStart?_cons_eq_none (by decide),
      dropStart?_cons_eq_none (by decide), dropStart?_cons_eq_none (by decide),
      dropStart?_cons_eq_none (by decide), nofun⟩
    · exact (dropStart?_cons_self _ _ _).trans (dropStart?_cons_eq_none hEqual)
    · exact (dropStart?_cons_self _ _ _).trans (dropStart?_cons_eq_none hNegated)
  have hColon : Text.dropStart? (flagRun (Point.ofChar '<' :: p :: t)).2 ":" = none := by
    rw [flagRun_other (by decide) (by decide)]
    exact dropStart?_cons_eq_none (by decide)
  rw [openingRest_other hName hMarks, hColon, Option.getD_none]

theorem flagRun_letter :
    flagRun (Point.ofChar 'P' :: Point.ofChar '<' :: t) = ([Point.ofChar 'P'], Point.ofChar '<' :: t) := rfl

theorem openingRest_letter (hName : openingName (Point.ofChar 'P' :: Point.ofChar '<' :: t) = none) :
    openingRest (Point.ofChar 'P' :: Point.ofChar '<' :: t) = Point.ofChar 'P' :: Point.ofChar '<' :: t := by
  have hMarks : ∀ mark ∈ marks,
      Text.dropStart? (Point.ofChar 'P' :: Point.ofChar '<' :: t) mark = none := by
    simp only [marks, List.forall_mem_cons]
    refine ⟨dropStart?_cons_eq_none (by decide), dropStart?_cons_eq_none (by decide),
      dropStart?_cons_eq_none (by decide), dropStart?_cons_eq_none (by decide),
      dropStart?_cons_eq_none (by decide), dropStart?_cons_eq_none (by decide), ?_, nofun⟩
    exact (dropStart?_cons_self _ _ _).trans (dropStart?_cons_eq_none (by decide))
  have hColon : Text.dropStart? (Point.ofChar '<' :: t) ":" = none := dropStart?_cons_eq_none (by decide)
  rw [openingRest_other hName hMarks, flagRun_letter, hColon, Option.getD_none]

theorem isPlain_namePart (letter : Bool) {name : Text} (hWord : ∀ p ∈ name, p.isWord = true) :
    ∀ p ∈ namePart letter name, IsPlain p := by
  have hSigns : ∀ c ∈ ['P', '<', '>'], (Point.ofChar c).char ∉ structural :=
    List.forall_iff_forall_mem.mp (by decide)
  refine List.forall_mem_append.mpr ⟨?_, List.forall_mem_append.mpr
    ⟨fun p hMem => isPlain_of_isWord (hWord p hMem), List.forall_mem_singleton.mpr (hSigns '>' (by simp))⟩⟩
  cases letter
  · exact List.forall_mem_singleton.mpr (hSigns '<' (by simp))
  · exact List.forall_mem_cons.mpr ⟨hSigns 'P' (by simp), List.forall_mem_singleton.mpr (hSigns '<' (by simp))⟩

/-- A name is passed as a part of its opening if it starts with a letter or the underline. Otherwise it is
passed character by character. -/
theorem openingRest_named (letter : Bool) {name : Text} (hName : name ≠ [])
    (hWord : ∀ p ∈ name, p.isWord = true) (r : Text) :
    openingRest (namePart letter name ++ r) = r ∨
      openingRest (namePart letter name ++ r) = namePart letter name ++ r := by
  obtain ⟨q, qs, rfl⟩ := List.exists_cons_of_ne_nil hName
  obtain ⟨hFirst, hWord⟩ := List.forall_mem_cons.mp hWord
  have hClose : Text.dropStart? ((qs ++ ([Point.ofChar '>'] ++ r)).dropWhile Point.isWord) ">" = some r := by
    rw [List.dropWhile_append_of_pos hWord]
    exact Text.dropStart?_eq_some_iff.mpr rfl
  have hOpening : openingName (namePart letter (q :: qs) ++ r) =
      if isFlagLetter q || q.char == '_' then some r else none := by
    rw [← hClose, namePart, List.append_assoc, List.append_assoc]
    cases letter <;> exact openingName_angle rfl
  split at hOpening
  · exact .inl (openingRest_name hOpening)
  · cases letter
    · exact .inr (openingRest_angle hOpening (char_ne_of_isWord hFirst (by decide) (by decide))
        (char_ne_of_isWord hFirst (by decide) (by decide)))
    · exact .inr (openingRest_letter hOpening)

/-- Of an opening the program passes one part as such, and the rest as plain characters. -/
theorem exists_cutOpening (o : Opening) (r : Text)
    (hCapture : o = .capture → ∀ p, r.head? = some p → p.char ≠ '?') :
    ∃ opening plain, o.text = opening ++ plain ∧ cutOpening (o.text ++ r) = (opening, plain ++ r) ∧
      ∀ p ∈ plain, IsPlain p := by
  have hWhole : ∀ u : Text, o.text = "(?" ++ u → openingRest (u ++ r) = r →
      ∃ opening plain, o.text = opening ++ plain ∧ cutOpening (o.text ++ r) = (opening, plain ++ r) ∧
        ∀ p ∈ plain, IsPlain p := by
    intro u hText hRest
    refine ⟨"(?" ++ u, [], by rw [hText, List.append_nil], ?_, nofun⟩
    rw [hText, List.append_assoc]
    exact cutOpening_open hRest
  cases o with
  | capture =>
      refine ⟨"(", [], rfl, cut_eq (cutOpening_append (Point.ofChar '(') r) rfl ?_, nofun⟩
      cases r with
      | nil => rfl
      | cons p r => exact if_neg (by simpa using hCapture rfl p rfl)
  | named letter name hName =>
      rcases openingRest_named letter hName.1 hName.2 r with hRest | hRest
      · exact hWhole _ rfl hRest
      · exact ⟨"(?", _, rfl, cutOpening_open (u := []) hRest, isPlain_namePart letter hName.2⟩
  | plain => exact hWhole ":" rfl (openingRest_mark (openingName_eq_none (by decide) (by decide)) rfl)
  | under c =>
      refine hWhole (c.text ++ (":" : Text)) rfl ?_
      rw [List.append_assoc]
      exact openingRest_change c r
  | look behind negated =>
      cases behind <;> cases negated
      · exact hWhole "=" rfl (openingRest_mark (openingName_eq_none (by decide) (by decide)) rfl)
      · exact hWhole "!" rfl (openingRest_mark (openingName_eq_none (by decide) (by decide)) rfl)
      · exact hWhole "<=" rfl (openingRest_mark ((openingName_angle rfl).trans (if_neg (by decide))) rfl)
      · exact hWhole "<!" rfl (openingRest_mark ((openingName_angle rfl).trans (if_neg (by decide))) rfl)

/-- An opening is no group of flags. -/
theorem flagGroup?_opening (o : Opening) (r : Text)
    (hCapture : o = .capture → ∀ p, r.head? = some p → p.char ≠ '?') : flagGroup? (o.text ++ r) = none := by
  have hEmpty : ∀ {p : Point} {u : Text}, isFlagLetter p = false → p.char ≠ '-' →
      flagGroup? ("(?" ++ (p :: u)) = none := by
    intro p u hLetter hMinus
    rw [flagGroup?_open (flagRun_other hLetter hMinus)]
    rfl
  cases o with
  | capture =>
      refine flagGroup?_other ((dropStart?_cons_self _ r "?").trans ?_)
      cases r with
      | nil => rfl
      | cons p r => exact dropStart?_cons_eq_none (hCapture rfl p rfl)
  | named letter name hName =>
      have hAngle : ∀ {u : Text}, Text.dropStart? (Point.ofChar '<' :: u) ")" = none :=
        dropStart?_cons_eq_none (by decide)
      cases letter
      · exact hEmpty (by decide) (by decide)
      · refine (flagGroup?_open flagRun_letter).trans ?_
        rw [hAngle]
        rfl
  | plain => exact hEmpty (by decide) (by decide)
  | under c =>
      have hColon : Text.dropStart? (Point.ofChar ':' :: r) ")" = none := dropStart?_cons_eq_none (by decide)
      have hText : (Opening.under c).text ++ r = "(?" ++ (c.text ++ Point.ofChar ':' :: r) := by
        rw [Opening.text, List.append_assoc, List.append_assoc]
        rfl
      rw [hText, flagGroup?_open (flagRun_change c (by decide) (by decide)), hColon]
      split <;> rfl
  | look behind negated => cases behind <;> cases negated <;> exact hEmpty (by decide) (by decide)

end Openings

section Atoms

/-- The members of a class end at the first bracket that closes it. -/
theorem classRest_members {ms : List Member} (hBracket : ∀ m ∈ ms, m.isChar ']' = false) (r : Text) {fuel : Nat}
    (hFuel : ms.length < fuel) : classRest fuel (ms.flatMap Member.text ++ Point.ofChar ']' :: r) = r := by
  induction ms generalizing fuel with
  | nil =>
      obtain ⟨fuel, rfl⟩ := Nat.exists_eq_add_one_of_ne_zero (Nat.ne_zero_of_lt hFuel)
      rfl
  | cons m ms ih =>
      obtain ⟨fuel, rfl⟩ := Nat.exists_eq_add_one_of_ne_zero (Nat.ne_zero_of_lt hFuel)
      obtain ⟨hMember, hBracket⟩ := List.forall_mem_cons.mp hBracket
      have hRest := ih hBracket (Nat.lt_of_succ_lt_succ hFuel)
      rw [List.flatMap_cons, List.append_assoc]
      cases m with
      | char p hEscape =>
          have hOther : (p.char == ']') = false := hMember
          show classRest (fuel + 1) (p :: (ms.flatMap Member.text ++ Point.ofChar ']' :: r)) = r
          rw [classRest, hOther, if_neg (by simp), if_neg (by simpa using hEscape), hRest]
      | escape p => exact hRest

theorem length_le_members (ms : List Member) : ms.length ≤ (ms.flatMap Member.text).length := by
  induction ms with
  | nil => exact le_rfl
  | cons m ms ih =>
      have hMember : 1 ≤ m.text.length := by cases m <;> simp [Member.text]
      rw [List.flatMap_cons, List.length_append, List.length_cons]
      omega

theorem dropStart?_member {m : Member} {q : Point} (h : m.isChar q.char = false) (hEscape : q.char ≠ '\\')
    (start : Text) : Text.dropStart? (m.text ++ t) (q :: start) = none := by
  cases m with
  | char p _ => exact dropStart?_cons_eq_none (by simpa [Member.isChar] using h)
  | escape p => exact dropStart?_cons_eq_none fun hSame => hEscape (hSame ▸ rfl)

/-- The members of a class are passed as such, whatever the first of them is. -/
theorem classRest_inside (s : Members) {body : Text}
    (hBody : (Text.dropStart? (s.inside ++ r) "]").getD (s.inside ++ r) = body) :
    classRest (body.length + 1) body = r := by
  have hInside : s.inside ++ r = s.first.text ++ (s.others.flatMap Member.text ++ Point.ofChar ']' :: r) := by
    rw [Members.inside, List.append_assoc, List.append_assoc]
    rfl
  cases hFirst : s.first.isChar ']' with
  | true =>
      have hStart : s.inside ++ r = "]" ++ (s.others.flatMap Member.text ++ Point.ofChar ']' :: r) := by
        rw [hInside]
        cases hMember : s.first with
        | char p _ =>
            rw [hMember] at hFirst
            have hPoint : p = Point.ofChar ']' := Point.eq_ofChar (by simpa [Member.isChar] using hFirst) (by decide)
            rw [Member.text, hPoint]
            rfl
        | escape p => rw [hMember] at hFirst; cases hFirst
      rw [Text.dropStart?_eq_some_iff.mpr hStart, Option.getD_some] at hBody
      subst hBody
      refine classRest_members s.bracket r ?_
      have := length_le_members s.others
      rw [List.length_append]
      omega
  | false =>
      have hNone : Text.dropStart? (s.inside ++ r) "]" = none := by
        rw [hInside]
        exact dropStart?_member (q := Point.ofChar ']') hFirst (by decide) []
      rw [hNone, Option.getD_none, hInside, ← List.append_assoc, ← List.flatMap_cons] at hBody
      subst hBody
      refine classRest_members (List.forall_mem_cons.mpr ⟨hFirst, s.bracket⟩) r ?_
      have := length_le_members (s.first :: s.others)
      rw [List.length_append]
      omega

/-- What stands between the bracket that opens a class and its members. -/
def caretText (s : Members) : Text := if s.negated then "^" else []

/-- The first member of a class that is not negated is no caret. -/
theorem dropStart?_caret (s : Members) (r : Text) :
    Text.dropStart? (caretText s ++ (s.inside ++ r)) "^" = if s.negated then some (s.inside ++ r) else none := by
  cases hNegated : s.negated with
  | true => exact Text.dropStart?_eq_some_iff.mpr (by rw [caretText, hNegated]; rfl)
  | false =>
      have hFirst : s.first.isChar '^' = false :=
        Bool.eq_false_iff.mpr fun h => Bool.false_ne_true (hNegated.symm.trans (s.caret h))
      rw [caretText, hNegated, Members.inside, List.append_assoc]
      exact dropStart?_member (q := Point.ofChar '^') hFirst (by decide) []

/-- A class is cut off behind the bracket that closes it. -/
theorem cutClass_members (s : Members) (r : Text) : cutClass (s.text ++ r) = (s.text, r) := by
  have hText : s.text ++ r = Point.ofChar '[' :: (caretText s ++ (s.inside ++ r)) := by
    simp only [Members.text, caretText, List.cons_append, List.append_assoc]
  have hCaret : (Text.dropStart? (caretText s ++ (s.inside ++ r)) "^").getD (caretText s ++ (s.inside ++ r)) =
      s.inside ++ r := by
    rw [dropStart?_caret]
    split
    · rfl
    · next hNegated => rw [caretText, if_neg hNegated]; rfl
  have hRest : ∀ body : Text, (Text.dropStart? body "^").getD body = s.inside ++ r →
      (cutClass (Point.ofChar '[' :: body)).2 = r :=
    fun body hBody => classRest_inside s (by rw [← hBody]; rfl)
  rw [hText]
  exact cut_eq (cutClass_append _ _) hText.symm (hRest _ hCaret)

/-- Every atom is one piece. -/
theorem exists_cutPiece (a : Atom) (r : Text) :
    ∃ p t, a.text ++ r = p :: t ∧ p.char ∉ turns ∧ cutPiece p t = (a.text, r) := by
  cases a with
  | char p hFree =>
      have hNone : ∀ c ∈ structural, p.char ≠ c := by
        intro c hMem hChar
        exact hFree (hChar ▸ (show structural ⊆ reserved by decide) hMem)
      simp only [structural, List.forall_mem_cons] at hNone
      obtain ⟨hEscape, hClass, hClose, hBar, hOpen, -⟩ := hNone
      refine ⟨p, r, rfl, by simp [turns, hClose, hBar, hOpen], ?_⟩
      rw [cutPiece, if_neg (by simpa using hEscape), if_neg (by simpa using hClass)]
      rfl
  | escape p => exact ⟨_, _, rfl, (by decide : Point.char (Point.ofChar '\\') ∉ turns), rfl⟩
  | set s => exact ⟨_, _, rfl, (by decide : Point.char (Point.ofChar '[') ∉ turns), cutClass_members s r⟩

/-- A count is of digits and commas. -/
theorem digit_or_comma_of_mem (h : isCount t = true) (hMem : p ∈ t) : (p.char.isDigit || p.char == ',') = true := by
  simp only [isCount, Bool.and_eq_true, List.all_eq_true] at h
  exact h.1.2 p hMem

theorem isPlain_of_mem_count (h : isCount t = true) (hMem : p ∈ t) : IsPlain p := by
  intro hChar
  have hAll : ∀ c ∈ structural, (c.isDigit || c == ',') = false := List.forall_iff_forall_mem.mp (by decide)
  exact Bool.false_ne_true ((hAll _ hChar).symm.trans (digit_or_comma_of_mem h hMem))

theorem isPlain_quantifier (q : Quantifier) : ∀ p ∈ q.text, IsPlain p := by
  have hSigns : ∀ c ∈ ['*', '+', '?', '\x7b', '\x7d'], (Point.ofChar c).char ∉ structural :=
    List.forall_iff_forall_mem.mp (by decide)
  obtain ⟨bounds, greed⟩ := q
  refine List.forall_mem_append.mpr ⟨?_, ?_⟩
  · cases bounds with
    | star => exact List.forall_mem_singleton.mpr (hSigns '*' (by decide))
    | plus => exact List.forall_mem_singleton.mpr (hSigns '+' (by decide))
    | optional => exact List.forall_mem_singleton.mpr (hSigns '?' (by decide))
    | count inside h =>
        refine List.forall_mem_cons.mpr ⟨hSigns '\x7b' (by decide), List.forall_mem_append.mpr
          ⟨fun p hMem => ?_, List.forall_mem_singleton.mpr (hSigns '\x7d' (by decide))⟩⟩
        exact isPlain_of_mem_count h hMem
  · cases greed with
    | greedy => exact nofun
    | lazy => exact List.forall_mem_singleton.mpr (hSigns '?' (by decide))
    | possessive => exact List.forall_mem_singleton.mpr (hSigns '+' (by decide))

end Atoms

section Starts

variable {e : Expr}

/-- What an expression can start with, as far as one character tells. -/
inductive Start where
  | ending
  | atom
  | brace
  | sign
  | bar
  | parenthesis
deriving DecidableEq

namespace Start

def ofChar (c : Char) : Start :=
  if c = ')' then ending
  else if c = '|' then bar
  else if c = '(' then parenthesis
  else if c = '\x7b' then brace
  else if c ∈ ['*', '+', '?'] then sign
  else atom

def ofText : Text → Start
  | [] => ending
  | p :: _ => ofChar p.char

def ofExpr : Expr → Start
  | .done => ending
  | .atom a _ => if a.opensCount then brace else atom
  | .quantifier q _ => if q.bounds.isCount then brace else sign
  | .bar _ => bar
  | .flags .. | .group .. => parenthesis

end Start

/-- What follows the end of a group's body, or of the expression. -/
def Ends (r : Text) : Prop := Start.ofText r = .ending

theorem ends_nil : Ends [] := rfl

theorem ends_close (r : Text) : Ends (Point.ofChar ')' :: r) := rfl

theorem char_of_ends (hEnd : Ends (p :: t)) : p.char = ')' := by
  by_contra hChar
  revert hEnd
  show Start.ofChar p.char ≠ .ending
  rw [Start.ofChar, if_neg hChar]
  split_ifs <;> decide

theorem ofText_text (hEnd : Ends r) (e : Expr) : Start.ofText (e.text ++ r) = .ofExpr e := by
  cases e with
  | done => exact hEnd
  | atom a next =>
      cases a with
      | char p hFree =>
          simp only [reserved, List.mem_cons, List.not_mem_nil, or_false, not_or] at hFree
          show Start.ofChar p.char = _
          simp [Start.ofChar, Start.ofExpr, Atom.opensCount, hFree]
      | escape p => rfl
      | set s => rfl
  | quantifier q next =>
      obtain ⟨bounds, greed⟩ := q
      cases bounds <;> rfl
  | bar next => rfl
  | flags c next => rfl
  | group o body next =>
      obtain ⟨t, hOpen⟩ := exists_cons_opening o
      rw [Expr.text, hOpen]
      rfl

/-- Behind a parenthesis that opens a capture the body of the capture is no part of the opening. -/
theorem char_ne_of_head_text (hEnd : Ends r) (hOptional : e.startsOptional = false) {p : Point}
    (hHead : (e.text ++ r).head? = some p) : p.char ≠ '?' := by
  intro hChar
  have hStart := ofText_text hEnd e
  obtain ⟨t, hText⟩ := List.head?_eq_some_iff.mp hHead
  rw [hText, Start.ofText, hChar] at hStart
  cases e with
  | quantifier q next =>
      obtain ⟨bounds, greed⟩ := q
      cases bounds with
      | optional => cases hOptional
      | star | plus | count =>
          obtain rfl := Option.some.inj hHead
          exact absurd hChar (by decide)
  | atom a next => cases hCount : a.opensCount <;> simp only [Start.ofExpr, hCount] at hStart <;> cases hStart
  | done | bar | flags | group => cases hStart

theorem char_ne_of_isReadable {o : Opening} {body next : Expr} (h : (Expr.group o body next).isReadable = true) :
    o = .capture → ∀ p, (body.text ++ Point.ofChar ')' :: r).head? = some p → p.char ≠ '?' :=
  fun hCapture _ hHead => char_ne_of_head_text (ends_close r) ((isReadable_group h).2.2 hCapture) hHead

/-- Only a group of flags is read as one. -/
theorem flagGroup?_text (hEnd : Ends r) (hReadable : e.isReadable = true) (hLead : e.lead = []) :
    flagGroup? (e.text ++ r) = none := by
  have hOther : Start.ofExpr e ≠ .parenthesis → flagGroup? (e.text ++ r) = none := by
    intro hStart
    rw [← ofText_text hEnd] at hStart
    cases hText : e.text ++ r with
    | nil => rfl
    | cons p t =>
        refine flagGroup?_eq_none fun hChar => hStart ?_
        rw [hText, Start.ofText, hChar]
        rfl
  cases e with
  | done | bar => exact hOther nofun
  | atom a next => exact hOther (by cases hCount : a.opensCount <;> simp [Start.ofExpr, hCount])
  | quantifier q next => exact hOther (by cases hCount : q.bounds.isCount <;> simp [Start.ofExpr, hCount])
  | flags c next => cases hLead
  | group o body next =>
      rw [text_group]
      exact flagGroup?_opening o _ (char_ne_of_isReadable hReadable)

end Starts

end Conform.Signatures

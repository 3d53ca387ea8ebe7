import Conform.Glob
import Conform.Proofs.Glob.Ranges

/-! Sets of characters in a pattern. A set opens at a bracket, perhaps with a mark that turns it around, and closes at
the first closing bracket that has a member before it. Of the two marks only one is known to the search for the
closing bracket; the other is rewritten to it beforehand, wherever it stands behind an opening bracket. -/
namespace Conform.Glob

/-- What closes a set of characters. -/
def bracketEnd : Point := .ofChar ']'

/-- What stands behind an opening bracket, with or without a mark that turns the set around. -/
inductive Opens : Text → Bool → Text → Prop where
  | marked {q : Point} {rest : Text} (hMark : q.char = '!' ∨ q.char = '^') : Opens (q :: rest) true rest
  | plain {rest : Text} (hNone : ∀ q more, rest = q :: more → q.char ≠ '!' ∧ q.char ≠ '^') : Opens rest false rest

/-- A set of characters from behind its opening bracket on, and the text after it. The first closing bracket with a
member before it ends the set. -/
structure Closes (t : Text) (negated : Bool) (members after : Text) : Prop where
  opens : Opens t negated (members ++ bracketEnd :: after)
  nonempty : members ≠ []
  inside : bracketEnd ∉ members.tail

variable {p q x : Point} {t u rest inside members after : Text} {negated : Bool}

theorem Opens.unique {negated' : Bool} {rest' : Text} (h : Opens t negated rest) (h' : Opens t negated' rest') :
    negated = negated' ∧ rest = rest' := by
  cases h with
  | marked hMark =>
      cases h' with
      | marked => exact ⟨rfl, rfl⟩
      | plain hNone => exact absurd hMark (not_or.mpr (hNone _ _ rfl))
  | plain hNone =>
      cases h' with
      | marked hMark => exact absurd hMark (not_or.mpr (hNone _ _ rfl))
      | plain => exact ⟨rfl, rfl⟩

/-- Only one place of a text is the first with a closing bracket. -/
theorem eq_of_append_bracketEnd (hFree : bracketEnd ∉ t) (hFree' : bracketEnd ∉ u)
    (h : t ++ bracketEnd :: after = u ++ bracketEnd :: rest) : t = u ∧ after = rest := by
  rcases List.append_eq_append_iff.mp h with ⟨more, rfl, hEnd⟩ | ⟨more, rfl, hEnd⟩
  · cases more with
    | nil => exact ⟨(List.append_nil t).symm, (List.cons.inj hEnd).2⟩
    | cons q more =>
        obtain ⟨rfl, -⟩ := List.cons.inj hEnd
        exact absurd (List.mem_append_right t List.mem_cons_self) hFree'
  · cases more with
    | nil => exact ⟨List.append_nil u, (List.cons.inj hEnd).2.symm⟩
    | cons q more =>
        obtain ⟨rfl, -⟩ := List.cons.inj hEnd
        exact absurd (List.mem_append_right u List.mem_cons_self) hFree

theorem Closes.unique {negated' : Bool} {members' after' : Text} (h : Closes t negated members after)
    (h' : Closes t negated' members' after') : negated = negated' ∧ members = members' ∧ after = after' := by
  obtain ⟨hNegated, hText⟩ := h.opens.unique h'.opens
  obtain ⟨m, others, rfl⟩ := List.exists_cons_of_ne_nil h.nonempty
  obtain ⟨m', others', rfl⟩ := List.exists_cons_of_ne_nil h'.nonempty
  obtain ⟨rfl, hRest⟩ := List.cons.inj hText
  obtain ⟨rfl, rfl⟩ := eq_of_append_bracketEnd h.inside h'.inside hRest
  exact ⟨hNegated, rfl, rfl⟩

/-! ### Where brackets close -/

theorem placeFrom?_zero (c : Char) (x : Point) (t : Text) :
    placeFrom? c 0 (x :: t) = if x.char = c then some 0 else (placeFrom? c 0 t).map (· + 1) := by
  simp [placeFrom?, List.findIdx?_cons]

theorem placeFrom?_eq_some_iff {c : Char} {start k : Nat} : placeFrom? c start t = some k ↔
    start ≤ k ∧ ∃ before close after, t = before ++ close :: after ∧ before.length = k ∧ close.char = c ∧
      ∀ q ∈ before.drop start, q.char ≠ c := by
  induction t generalizing start k with
  | nil => simp [placeFrom?]
  | cons x t ih =>
      cases start with
      | zero =>
          rw [placeFrom?_zero]
          split
          · next hHere =>
              constructor
              · intro hPlace
                exact ⟨Nat.zero_le k, [], x, t, rfl, Option.some.inj hPlace, hHere, by simp⟩
              · rintro ⟨-, before, close, after, hText, rfl, -, hFree⟩
                cases before with
                | nil => rfl
                | cons y before =>
                    obtain ⟨rfl, -⟩ := List.cons.inj hText
                    exact absurd hHere (hFree x List.mem_cons_self)
          · next hOther =>
              rw [Option.map_eq_some_iff]
              constructor
              · rintro ⟨k, hPlace, rfl⟩
                obtain ⟨-, before, close, after, rfl, rfl, hClose, hFree⟩ := ih.mp hPlace
                exact ⟨Nat.zero_le _, x :: before, close, after, rfl, rfl, hClose,
                  List.forall_mem_cons.mpr ⟨hOther, hFree⟩⟩
              · rintro ⟨-, before, close, after, hText, rfl, hClose, hFree⟩
                cases before with
                | nil =>
                    obtain ⟨rfl, -⟩ := List.cons.inj hText
                    exact absurd hClose hOther
                | cons y before =>
                    obtain ⟨rfl, rfl⟩ := List.cons.inj hText
                    exact ⟨before.length, ih.mpr ⟨Nat.zero_le _, before, close, after, rfl, rfl, hClose,
                      (List.forall_mem_cons.mp hFree).2⟩, rfl⟩
      | succ start =>
          rw [placeFrom?_succ, Option.map_eq_some_iff]
          constructor
          · rintro ⟨k, hPlace, rfl⟩
            obtain ⟨hStart, before, close, after, rfl, rfl, hClose, hFree⟩ := ih.mp hPlace
            exact ⟨Nat.succ_le_succ hStart, x :: before, close, after, rfl, rfl, hClose, hFree⟩
          · rintro ⟨hStart, before, close, after, hText, rfl, hClose, hFree⟩
            cases before with
            | nil => cases hStart
            | cons y before =>
                obtain ⟨rfl, rfl⟩ := List.cons.inj hText
                have hLess : start ≤ before.length := Nat.le_of_succ_le_succ hStart
                exact ⟨before.length, ih.mpr ⟨hLess, before, close, after, rfl, rfl, hClose, hFree⟩, rfl⟩

/-- The number of marks that turn a set around. -/
def marks (t : Text) : Nat := if Text.startsWith t "!" then 1 else 0

theorem startsWith_bracketEnd : Text.startsWith t "]" = true ↔ ∃ rest, t = bracketEnd :: rest := by
  rw [Text.startsWith, List.isPrefixOf_iff_prefix]
  constructor
  · rintro ⟨rest, rfl⟩
    exact ⟨rest, rfl⟩
  · rintro ⟨rest, rfl⟩
    exact ⟨rest, rfl⟩

theorem char_eq_bracketEnd_iff : q.char = ']' ↔ q = bracketEnd := by
  refine ⟨fun hChar => Point.eq_ofChar hChar (by decide), ?_⟩
  rintro rfl
  decide

/-- A closing bracket that comes first is passed over, so the search begins behind one member in any case. -/
theorem searched_iff (m : Nat) (inside after : Text) :
    let start := if Text.startsWith ((inside ++ bracketEnd :: after).drop m) "]" then m + 1 else m
    (start ≤ inside.length ∧ ∀ q ∈ inside.drop start, q ≠ bracketEnd) ↔
      m < inside.length ∧ bracketEnd ∉ inside.drop (m + 1) := by
  intro start
  by_cases hInside : m < inside.length
  · obtain ⟨x, rest, hDrop⟩ : ∃ x rest, inside.drop m = x :: rest := ⟨_, _, List.drop_eq_getElem_cons hInside⟩
    have hRest : inside.drop (m + 1) = rest := by rw [← List.drop_drop, hDrop, List.drop_succ_cons, List.drop_zero]
    have hText : (inside ++ bracketEnd :: after).drop m = x :: (rest ++ bracketEnd :: after) := by
      rw [List.drop_append_of_le_length hInside.le, hDrop, List.cons_append]
    by_cases hFirst : x = bracketEnd
    · have hStart : start = m + 1 := if_pos (startsWith_bracketEnd.mpr ⟨_, hText.trans (by rw [hFirst])⟩)
      rw [hStart]
      exact and_congr_right fun _ => ⟨fun hFree hMem => hFree _ hMem rfl, fun hFree q hMem hEnd => hFree (hEnd ▸ hMem)⟩
    · have hStart : start = m := if_neg fun hEnd => by
        obtain ⟨_, hEnd⟩ := startsWith_bracketEnd.mp hEnd
        exact hFirst (List.cons.inj (hText.symm.trans hEnd)).1
      rw [hStart, hDrop, hRest, List.forall_mem_cons]
      constructor
      · rintro ⟨-, -, hFree⟩
        exact ⟨hInside, fun hMem => hFree _ hMem rfl⟩
      · rintro ⟨-, hFree⟩
        exact ⟨hInside.le, hFirst, fun q hMem hEnd => hFree (hEnd ▸ hMem)⟩
  · refine iff_of_false (fun hSearched => ?_) fun hFree => hInside hFree.1
    have hStart : start ≤ inside.length := hSearched.1
    by_cases hEnd : m = inside.length
    · have hHere : start = m + 1 := if_pos (startsWith_bracketEnd.mpr ⟨after, by rw [hEnd, List.drop_left]⟩)
      omega
    · have hLeast : m ≤ start := by
        unfold start
        split <;> omega
      omega

/-- Brackets end at the first closing one that has a member before it. -/
theorem bracketed?_eq_some_iff : bracketed? t = some (inside, after) ↔
    t = inside ++ bracketEnd :: after ∧ marks t < inside.length ∧ bracketEnd ∉ inside.drop (marks t + 1) := by
  have hSearch : bracketed? t =
      (placeFrom? ']' (if Text.startsWith (t.drop (marks t)) "]" then marks t + 1 else marks t) t).map
        fun k => (t.take k, t.drop (k + 1)) := rfl
  simp only [hSearch, Option.map_eq_some_iff, placeFrom?_eq_some_iff, Prod.mk.injEq, ne_eq, char_eq_bracketEnd_iff]
  constructor
  · rintro ⟨_, ⟨hStart, before, _, after', hText, rfl, rfl, hFree⟩, hInside, hAfter⟩
    obtain rfl : before = inside := by rw [← hInside, hText, List.take_left]
    obtain rfl : after' = after := by simpa [hText] using hAfter
    refine ⟨hText, (searched_iff (marks t) before after').mp ?_⟩
    rw [← hText]
    exact ⟨hStart, hFree⟩
  · rintro ⟨hText, hInside⟩
    obtain ⟨hStart, hFree⟩ := (searched_iff (marks t) inside after).mpr hInside
    rw [← hText] at hStart hFree
    refine ⟨inside.length, ⟨hStart, inside, bracketEnd, after, hText, rfl, rfl, hFree⟩, ?_, ?_⟩
    · rw [hText, List.take_left]
    · rw [hText]
      simp

theorem exists_bracketed?_iff : (∃ inside after, bracketed? t = some (inside, after)) ↔
    bracketEnd ∈ t.drop (marks t + 1) := by
  simp only [bracketed?_eq_some_iff]
  generalize marks t = m
  constructor
  · rintro ⟨inside, after, rfl, hMarks, -⟩
    rw [List.drop_append_of_le_length hMarks]
    exact List.mem_append_right _ List.mem_cons_self
  · intro hMem
    obtain ⟨members, after, hDrop, hFirst⟩ := List.eq_append_cons_of_mem hMem
    have hLength : (t.take (m + 1)).length = m + 1 := by
      have hSome := congrArg List.length hDrop
      rw [List.length_drop, List.length_append, List.length_cons] at hSome
      rw [List.length_take]
      omega
    refine ⟨t.take (m + 1) ++ members, after, ?_, ?_, ?_⟩
    · rw [List.append_assoc, ← hDrop, List.take_append_drop]
    · rw [List.length_append, hLength]
      omega
    · rw [List.drop_append_of_le_length hLength.ge, List.drop_of_length_le hLength.le]
      exact hFirst

/-! ### Carets -/

/-- Whether a text begins with a caret. -/
def HasCaret (t : Text) : Prop := ∃ q rest, t = q :: rest ∧ q.char = '^'

theorem not_hasCaret_nil : ¬ HasCaret [] := by
  rintro ⟨q, rest, hText, -⟩
  cases hText

theorem hasCaret_cons : HasCaret (q :: rest) ↔ q.char = '^' := by
  constructor
  · rintro ⟨_, _, hText, hCaret⟩
    obtain ⟨rfl, -⟩ := List.cons.inj hText
    exact hCaret
  · exact fun hCaret => ⟨q, rest, rfl, hCaret⟩

theorem segmentPattern_cons (h : p.char = '[' → ¬ HasCaret t) : segmentPattern (p :: t) = p :: segmentPattern t := by
  cases t with
  | nil => rfl
  | cons q rest =>
      have hPair : ¬ (p.char == '[' && q.char == '^') = true := by
        rw [Bool.and_eq_true, beq_iff_eq, beq_iff_eq]
        exact fun hBoth => h hBoth.1 (hasCaret_cons.mpr hBoth.2)
      rw [segmentPattern, Text.replacePair, if_neg hPair, segmentPattern]

theorem segmentPattern_caret (hBracket : p.char = '[') (hCaret : q.char = '^') :
    segmentPattern (p :: q :: t) = p :: Point.ofChar '!' :: segmentPattern t := by
  obtain rfl : p = Point.ofChar '[' := Point.eq_ofChar hBracket (by decide)
  rw [segmentPattern, Text.replacePair, if_pos (by simp [hBracket, hCaret])]
  rfl

/-- A pattern is rewritten pair by pair, and what is no such pair is kept. -/
theorem segmentPattern_induction {motive : Text → Prop} (nil : motive [])
    (caret : ∀ p q rest, p.char = '[' → q.char = '^' → motive rest → motive (p :: q :: rest))
    (other : ∀ p rest, (p.char = '[' → ¬ HasCaret rest) → motive rest → motive (p :: rest)) (t : Text) : motive t := by
  induction t using Text.replacePair.induct '[' '^' with
  | case1 => exact nil
  | case2 p => exact other p [] (fun _ => not_hasCaret_nil) nil
  | case3 p q rest hPair ih =>
      obtain ⟨hBracket, hCaret⟩ : p.char = '[' ∧ q.char = '^' := by simpa using hPair
      exact caret p q rest hBracket hCaret ih
  | case4 p q rest hOther ih =>
      have hNot : p.char = '[' → q.char ≠ '^' := by simpa using hOther
      exact other p (q :: rest) (fun hBracket => mt hasCaret_cons.mp (hNot hBracket)) ih

/-- A closing bracket is part of no pair that is rewritten. -/
theorem segmentPattern_append (t u : Text) :
    segmentPattern (t ++ bracketEnd :: u) = segmentPattern t ++ bracketEnd :: segmentPattern u := by
  induction t using segmentPattern_induction with
  | nil => exact segmentPattern_cons fun h => absurd h (by decide)
  | caret p q rest hBracket hCaret ih =>
      rw [List.cons_append, List.cons_append, segmentPattern_caret hBracket hCaret,
        segmentPattern_caret hBracket hCaret, ih]
      rfl
  | other p rest hOther ih =>
      have hNext : p.char = '[' → ¬ HasCaret (rest ++ bracketEnd :: u) := by
        intro hBracket hCaret
        cases rest with
        | nil => exact absurd (hasCaret_cons.mp hCaret) (by decide)
        | cons q rest => exact hOther hBracket (hasCaret_cons.mpr (hasCaret_cons.mp hCaret))
      rw [List.cons_append, segmentPattern_cons hNext, segmentPattern_cons hOther, ih]
      rfl

theorem segmentPattern_eq_self (h : ¬ Text.ofString "[^" <:+: t) : segmentPattern t = t := by
  induction t with
  | nil => rfl
  | cons p rest ih =>
      have hRest : ¬ Text.ofString "[^" <:+: rest := fun hInside => h (hInside.trans (List.suffix_cons p rest).isInfix)
      rw [segmentPattern_cons, ih hRest]
      rintro hBracket ⟨q, more, rfl, hCaret⟩
      obtain rfl : p = Point.ofChar '[' := Point.eq_ofChar hBracket (by decide)
      obtain rfl : q = Point.ofChar '^' := Point.eq_ofChar hCaret (by decide)
      exact h (List.prefix_append (Text.ofString "[^") more).isInfix

/-- Rewriting moves no closing bracket. -/
theorem mem_drop_segmentPattern (t : Text) (k : Nat) :
    bracketEnd ∈ (segmentPattern t).drop k ↔ bracketEnd ∈ t.drop k := by
  have hSame : (segmentPattern t).map (· == bracketEnd) = t.map (· == bracketEnd) := by
    induction t using segmentPattern_induction with
    | nil => rfl
    | caret p q rest hBracket hCaret ih =>
        obtain rfl : q = Point.ofChar '^' := Point.eq_ofChar hCaret (by decide)
        rw [segmentPattern_caret hBracket hCaret, List.map_cons, List.map_cons, ih]
        rfl
    | other p rest hOther ih => rw [segmentPattern_cons hOther, List.map_cons, List.map_cons, ih]
  have hMem : ∀ u : Text, bracketEnd ∈ u.drop k ↔ true ∈ (u.map (· == bracketEnd)).drop k := fun u => by
    rw [← List.map_drop, List.mem_map]
    simp
  rw [hMem, hMem, hSame]

theorem marks_segmentPattern (t : Text) : marks (segmentPattern t) = marks t := by
  induction t using segmentPattern_induction with
  | nil => rfl
  | caret p q rest hBracket hCaret =>
      rw [segmentPattern_caret hBracket hCaret, marks, marks, startsWith_bang, startsWith_bang]
  | other p rest hOther => rw [segmentPattern_cons hOther, marks, marks, startsWith_bang, startsWith_bang]

/-! ### Sets -/

/-- The mark in front of a set that is turned around, once the pattern is rewritten. -/
def mark (negated : Bool) : Text := if negated then "!" else []

theorem segmentPattern_of_opens (hBracket : p.char = '[') (hOpens : Opens t negated rest) :
    segmentPattern (p :: t) = p :: (mark negated ++ segmentPattern rest) := by
  cases hOpens with
  | @marked q _ hMark =>
      rcases hMark with hBang | hCaret
      · obtain rfl : q = Point.ofChar '!' := Point.eq_ofChar hBang (by decide)
        rw [segmentPattern_cons fun _ => mt hasCaret_cons.mp (by decide),
          segmentPattern_cons fun h => absurd h (by decide)]
        rfl
      · exact segmentPattern_caret hBracket hCaret
  | plain hNone =>
      refine segmentPattern_cons fun _ => ?_
      rintro ⟨q, more, hText, hCaret⟩
      exact (hNone q more hText).2 hCaret

theorem marks_of_closes (hCloses : Closes t negated members after) (rest : Text) :
    marks (mark negated ++ members ++ rest) = (mark negated).length := by
  obtain ⟨m, others, rfl⟩ := List.exists_cons_of_ne_nil hCloses.nonempty
  cases negated with
  | true => rfl
  | false =>
      have hOpens := hCloses.opens
      cases hOpens with
      | plain hNone =>
          have hBang : m.char ≠ '!' := (hNone m _ rfl).1
          have hStarts : Text.startsWith (m :: (others ++ rest)) "!" = false := by
            rw [startsWith_bang]
            exact beq_false_of_ne hBang
          exact if_neg (Bool.eq_false_iff.mp hStarts)

/-- The brackets of a set are found where they close. -/
theorem bracketed?_of_closes (hCloses : Closes t negated members after) (rest : Text) :
    bracketed? (mark negated ++ members ++ bracketEnd :: rest) = some (mark negated ++ members, rest) := by
  refine bracketed?_eq_some_iff.mpr ⟨rfl, ?_, ?_⟩
  · rw [marks_of_closes hCloses, List.length_append]
    exact Nat.lt_add_of_pos_right (List.length_pos_of_ne_nil hCloses.nonempty)
  · rw [marks_of_closes hCloses, ← List.drop_drop, List.drop_left, List.drop_one]
    exact hCloses.inside

/-- A set accepts its members, or all other characters if it is turned around. -/
theorem accepts_set_of_closes (hCloses : Closes t negated members after)
    (hCovered : negated = false → uncovers members = false) (x : Point) :
    (setOf (mark negated ++ members)).accepts x = true ↔ within (ranges members) x = !negated := by
  cases negated with
  | true =>
      have hBang : mark true ++ members = Point.ofChar '!' :: members := rfl
      rw [hBang, accepts_setOf_bang (by decide)]
      simp
  | false =>
      have hMarks := marks_of_closes hCloses []
      have hStarts : Text.startsWith members "!" = false := by
        simpa [mark, marks] using hMarks
      have hPlain : mark false ++ members = members := rfl
      rw [hPlain, accepts_setOf hStarts (hCovered rfl)]
      simp

theorem closes_of_bracketed? (hFound : bracketed? t = some (inside, after)) (hCaret : ¬ HasCaret t) :
    ∃ negated members, Closes t negated members after := by
  obtain ⟨hText, hMarks, hInside⟩ := bracketed?_eq_some_iff.mp hFound
  obtain ⟨q, more, rfl⟩ := List.exists_cons_of_ne_nil (List.ne_nil_of_length_pos (Nat.zero_lt_of_lt hMarks))
  obtain rfl : t = q :: (more ++ bracketEnd :: after) := hText
  by_cases hBang : q.char = '!'
  · have hOne : marks (q :: (more ++ bracketEnd :: after)) = 1 :=
      if_pos ((startsWith_bang q _).trans (beq_iff_eq.mpr hBang))
    rw [hOne] at hMarks hInside
    refine ⟨true, more, .marked (Or.inl hBang), List.ne_nil_of_length_pos (Nat.lt_of_succ_lt_succ hMarks), ?_⟩
    rwa [List.drop_succ_cons, List.drop_one] at hInside
  · have hZero : marks (q :: (more ++ bracketEnd :: after)) = 0 :=
      if_neg (Bool.eq_false_iff.mp ((startsWith_bang q _).trans (beq_false_of_ne hBang)))
    rw [hZero, List.drop_one] at hInside
    refine ⟨false, q :: more, .plain fun q' rest hSame => ?_, List.cons_ne_nil q more, hInside⟩
    obtain ⟨rfl, -⟩ := List.cons.inj hSame
    exact ⟨hBang, mt hasCaret_cons.mpr hCaret⟩

/-- Brackets that do not close are not found, unless they open with a caret. -/
theorem bracketed?_of_open (hOpen : ∀ negated members after, ¬ Closes t negated members after) (hCaret : ¬ HasCaret t) :
    bracketed? (segmentPattern t) = none := by
  refine Option.eq_none_iff_forall_ne_some.mpr fun found hFound => ?_
  have hMem := exists_bracketed?_iff.mp ⟨found.1, found.2, hFound⟩
  rw [marks_segmentPattern, mem_drop_segmentPattern] at hMem
  obtain ⟨inside, after, hFound'⟩ := exists_bracketed?_iff.mpr hMem
  obtain ⟨negated, members, hCloses⟩ := closes_of_bracketed? hFound' hCaret
  exact hOpen negated members after hCloses

end Conform.Glob

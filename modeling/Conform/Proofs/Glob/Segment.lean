import Conform.Proofs.Glob
import Conform.Proofs.Glob.Brackets
import Conform.Proofs.Glob.Closed

/-! The language of a segment of a pattern, as it is written: stars, question marks, sets of characters in brackets,
and characters that stand for themselves. What is matched is a rewritten pattern, cut into parts. The two
agree for all patterns whose sets are read as they are written. -/
namespace Conform.Glob

/-- Whether a pattern for one segment stands for a name. -/
inductive Describes : Text → Text → Prop where
  | nil : Describes [] []
  | run {p : Point} {t rest : Text} (hStar : p.char = '*') (run : Text) (h : Describes t rest) :
      Describes (p :: t) (run ++ rest)
  | one {p : Point} {t rest : Text} (hQuestion : p.char = '?') (x : Point) (h : Describes t rest) :
      Describes (p :: t) (x :: rest)
  | set {p x : Point} {t members after rest : Text} {negated : Bool} (hBracket : p.char = '[')
      (hCloses : Closes t negated members after) (hMember : within (ranges members) x = !negated)
      (h : Describes after rest) : Describes (p :: t) (x :: rest)
  /-- A bracket that is not closed stands for itself. -/
  | unclosed {p : Point} {t rest : Text} (hBracket : p.char = '[')
      (hOpen : ∀ negated members after, ¬ Closes t negated members after) (h : Describes t rest) :
      Describes (p :: t) (p :: rest)
  | literal {p : Point} {t rest : Text} (hOther : p.char ≠ '*' ∧ p.char ≠ '?' ∧ p.char ≠ '[')
      (h : Describes t rest) : Describes (p :: t) (p :: rest)

variable {p : Point} {t u inside members after name : Text} {negated : Bool} {part : Part} {ps : List Part}

/-! ### Parts against names -/

theorem someEnd_eq_any (test : Text → Bool) (t : Text) : someEnd test t = t.tails.any test := by
  induction t with
  | nil => simp [someEnd]
  | cons p t ih => simp [someEnd, ih]

theorem matchParts_run : matchParts (.run :: ps) t = true ↔
    ∃ run rest, t = run ++ rest ∧ matchParts ps rest = true := by
  rw [matchParts, someEnd_eq_any, List.any_eq_true]
  constructor
  · rintro ⟨rest, hMem, hRest⟩
    obtain ⟨run, rfl⟩ := (List.mem_tails _ _).mp hMem
    exact ⟨run, rest, rfl, hRest⟩
  · rintro ⟨run, rest, rfl, hRest⟩
    exact ⟨rest, (List.mem_tails _ _).mpr (List.suffix_append run rest), hRest⟩

theorem matchParts_other (hOther : part ≠ .run) : matchParts (part :: ps) t = true ↔
    ∃ x rest, t = x :: rest ∧ part.accepts x = true ∧ matchParts ps rest = true := by
  cases t with
  | nil => cases part <;> simp_all [matchParts]
  | cons x rest => cases part <;> simp_all [matchParts]

/-- A run after a run adds nothing. -/
theorem matchParts_joinRuns (ps : List Part) (t : Text) :
    matchParts (joinRuns ps) t = true ↔ matchParts ps t = true := by
  induction ps using joinRuns.induct generalizing t with
  | case1 rest ih =>
      rw [joinRuns, ih, matchParts_run, matchParts_run]
      constructor
      · rintro ⟨run, rest', rfl, hRest⟩
        exact ⟨[], _, rfl, matchParts_run.mpr ⟨run, rest', rfl, hRest⟩⟩
      · rintro ⟨run, _, rfl, hRest⟩
        obtain ⟨run', rest', rfl, hRest'⟩ := matchParts_run.mp hRest
        exact ⟨run ++ run', rest', (List.append_assoc ..).symm, hRest'⟩
  | case2 part rest hOther ih =>
      rw [joinRuns]
      · by_cases hRun : part = .run
        · subst hRun
          simp only [matchParts_run, ih]
        · simp only [matchParts_other hRun, ih]
      · exact hOther
  | case3 => rfl

/-! ### The parts of a pattern -/

/-- The parts of a pattern, read as far as there is something to read. -/
def parts (t : Text) : List Part := partsOf t.length t

theorem length_of_bracketed? (h : bracketed? t = some (inside, after)) : after.length < t.length := by
  rw [(bracketed?_eq_some_iff.mp h).1, List.length_append, List.length_cons]
  omega

/-- Each part takes a character away, so a pattern has enough fuel in its length. -/
theorem partsOf_eq_of_le {fuel fuel' : Nat} (hFuel : t.length ≤ fuel) (hFuel' : t.length ≤ fuel') :
    partsOf fuel t = partsOf fuel' t := by
  induction fuel generalizing t fuel' with
  | zero =>
      obtain rfl : t = [] := List.length_eq_zero_iff.mp (Nat.le_zero.mp hFuel)
      cases fuel' <;> rfl
  | succ fuel ih =>
      rcases t with - | ⟨p, rest⟩
      · cases fuel' <;> rfl
      · obtain ⟨fuel', rfl⟩ : ∃ n, fuel' = n + 1 := Nat.exists_eq_succ_of_ne_zero (by simp at hFuel'; omega)
        have hRest : rest.length ≤ fuel ∧ rest.length ≤ fuel' :=
          ⟨Nat.le_of_succ_le_succ hFuel, Nat.le_of_succ_le_succ hFuel'⟩
        rw [partsOf, partsOf, ih hRest.1 hRest.2]
        cases hFound : bracketed? rest with
        | none => rfl
        | some found =>
            have hLess := length_of_bracketed? hFound
            dsimp only
            rw [ih (hLess.le.trans hRest.1) (hLess.le.trans hRest.2)]

theorem parts_star (hStar : p.char = '*') : parts (p :: t) = .run :: parts t := by
  simp [parts, partsOf, hStar]

theorem parts_question (hQuestion : p.char = '?') : parts (p :: t) = .one :: parts t := by
  simp [parts, partsOf, hQuestion]

theorem parts_other (hOther : p.char ≠ '*' ∧ p.char ≠ '?' ∧ p.char ≠ '[') : parts (p :: t) = .literal p :: parts t := by
  simp [parts, partsOf, hOther]

theorem parts_open (hBracket : p.char = '[') (hOpen : bracketed? t = none) :
    parts (p :: t) = .literal p :: parts t := by
  simp [parts, partsOf, hBracket, hOpen]

theorem parts_set (hBracket : p.char = '[') (hFound : bracketed? t = some (inside, after)) :
    parts (p :: t) = setOf inside :: parts after := by
  have hFuel : after.length ≤ t.length := (length_of_bracketed? hFound).le
  simp [parts, partsOf, hBracket, hFound, partsOf_eq_of_le hFuel (Nat.le_refl _)]

theorem setOf_ne_run (inside : Text) : setOf inside ≠ .run := by
  unfold setOf
  dsimp only
  repeat' split
  all_goals exact Part.noConfusion

/-! ### Patterns -/

/-- Whether the sets of a pattern are read as they are written. A caret stands behind an opening bracket only where
it turns a set around, and no set uncovers an exclamation mark. -/
inductive Unmistakable : Text → Prop where
  | nil : Unmistakable []
  | other {p : Point} {t : Text} (hOther : p.char ≠ '[') (h : Unmistakable t) : Unmistakable (p :: t)
  | set {p : Point} {t members after : Text} {negated : Bool} (hBracket : p.char = '[')
      (hCloses : Closes t negated members after) (hInside : ¬ Text.ofString "[^" <:+: members)
      (hCovered : negated = false → uncovers members = false) (h : Unmistakable after) : Unmistakable (p :: t)
  | unclosed {p : Point} {t : Text} (hBracket : p.char = '[')
      (hOpen : ∀ negated members after, ¬ Closes t negated members after) (hCaret : ¬ HasCaret t)
      (h : Unmistakable t) : Unmistakable (p :: t)

theorem describes_nil_iff : Describes [] u ↔ u = [] := by
  constructor
  · rintro ⟨⟩
    rfl
  · rintro rfl
    exact .nil

theorem describes_run_iff (hStar : p.char = '*') :
    Describes (p :: t) u ↔ ∃ run rest, u = run ++ rest ∧ Describes t rest := by
  constructor
  · intro h
    cases h with
    | run _ run hRest => exact ⟨run, _, rfl, hRest⟩
    | one hQuestion => exact absurd (hStar.symm.trans hQuestion) (by decide)
    | set hBracket => exact absurd (hStar.symm.trans hBracket) (by decide)
    | unclosed hBracket => exact absurd (hStar.symm.trans hBracket) (by decide)
    | literal hOther => exact absurd hStar hOther.1
  · rintro ⟨run, rest, rfl, hRest⟩
    exact .run hStar run hRest

theorem describes_one_iff (hQuestion : p.char = '?') :
    Describes (p :: t) u ↔ ∃ x rest, u = x :: rest ∧ Describes t rest := by
  constructor
  · intro h
    cases h with
    | run hStar => exact absurd (hQuestion.symm.trans hStar) (by decide)
    | one _ x hRest => exact ⟨x, _, rfl, hRest⟩
    | set hBracket => exact absurd (hQuestion.symm.trans hBracket) (by decide)
    | unclosed hBracket => exact absurd (hQuestion.symm.trans hBracket) (by decide)
    | literal hOther => exact absurd hQuestion hOther.2.1
  · rintro ⟨x, rest, rfl, hRest⟩
    exact .one hQuestion x hRest

theorem describes_literal_iff (hOther : p.char ≠ '*' ∧ p.char ≠ '?' ∧ p.char ≠ '[') :
    Describes (p :: t) u ↔ ∃ rest, u = p :: rest ∧ Describes t rest := by
  constructor
  · intro h
    cases h with
    | run hStar => exact absurd hStar hOther.1
    | one hQuestion => exact absurd hQuestion hOther.2.1
    | set hBracket => exact absurd hBracket hOther.2.2
    | unclosed hBracket => exact absurd hBracket hOther.2.2
    | literal _ hRest => exact ⟨_, rfl, hRest⟩
  · rintro ⟨rest, rfl, hRest⟩
    exact .literal hOther hRest

section Bracket

variable (hBracket : p.char = '[')

include hBracket

theorem describes_set_iff (hCloses : Closes t negated members after) : Describes (p :: t) u ↔
    ∃ x rest, u = x :: rest ∧ within (ranges members) x = !negated ∧ Describes after rest := by
  constructor
  · intro h
    cases h with
    | run hStar => exact absurd (hBracket.symm.trans hStar) (by decide)
    | one hQuestion => exact absurd (hBracket.symm.trans hQuestion) (by decide)
    | set _ hCloses' hMember hRest =>
        obtain ⟨rfl, rfl, rfl⟩ := hCloses.unique hCloses'
        exact ⟨_, _, rfl, hMember, hRest⟩
    | unclosed _ hOpen => exact absurd hCloses (hOpen negated members after)
    | literal hOther => exact absurd hBracket hOther.2.2
  · rintro ⟨x, rest, rfl, hMember, hRest⟩
    exact .set hBracket hCloses hMember hRest

theorem describes_open_iff (hOpen : ∀ negated members after, ¬ Closes t negated members after) :
    Describes (p :: t) u ↔ ∃ rest, u = p :: rest ∧ Describes t rest := by
  constructor
  · intro h
    cases h with
    | run hStar => exact absurd (hBracket.symm.trans hStar) (by decide)
    | one hQuestion => exact absurd (hBracket.symm.trans hQuestion) (by decide)
    | set _ hCloses => exact absurd hCloses (hOpen _ _ _)
    | unclosed _ _ hRest => exact ⟨_, rfl, hRest⟩
    | literal hOther => exact absurd hBracket hOther.2.2
  · rintro ⟨rest, rfl, hRest⟩
    exact .unclosed hBracket hOpen hRest

end Bracket

theorem matchParts_literal_cons : matchParts (.literal p :: ps) u = true ↔
    ∃ rest, u = p :: rest ∧ matchParts ps rest = true := by
  rw [matchParts_other Part.noConfusion]
  constructor
  · rintro ⟨x, rest, rfl, hSame, hRest⟩
    obtain rfl : x = p := beq_iff_eq.mp hSame
    exact ⟨rest, rfl, hRest⟩
  · rintro ⟨rest, rfl, hRest⟩
    exact ⟨p, rest, rfl, beq_self_eq_true p, hRest⟩

/-- The parts of a rewritten pattern stand for the names that the pattern describes. -/
theorem matchParts_iff (h : Unmistakable t) : matchParts (parts (segmentPattern t)) u = true ↔ Describes t u := by
  induction h generalizing u with
  | nil =>
      rw [describes_nil_iff]
      exact List.isEmpty_iff
  | @other p t hOther _ ih =>
      rw [segmentPattern_cons fun hBracket => absurd hBracket hOther]
      by_cases hStar : p.char = '*'
      · rw [parts_star hStar, matchParts_run, describes_run_iff hStar]
        simp only [ih]
      · by_cases hQuestion : p.char = '?'
        · rw [parts_question hQuestion, matchParts_other Part.noConfusion, describes_one_iff hQuestion]
          simp only [ih, Part.accepts, true_and]
        · have hPlain : p.char ≠ '*' ∧ p.char ≠ '?' ∧ p.char ≠ '[' := ⟨hStar, hQuestion, hOther⟩
          rw [parts_other hPlain, matchParts_literal_cons, describes_literal_iff hPlain]
          simp only [ih]
  | @set p t members after negated hBracket hCloses hInside hCovered _ ih =>
      have hPattern : segmentPattern (p :: t) =
          p :: (mark negated ++ members ++ bracketEnd :: segmentPattern after) := by
        rw [segmentPattern_of_opens hBracket hCloses.opens, segmentPattern_append, segmentPattern_eq_self hInside,
          List.append_assoc]
      rw [hPattern, parts_set hBracket (bracketed?_of_closes hCloses _), matchParts_other (setOf_ne_run _),
        describes_set_iff hBracket hCloses]
      simp only [ih, accepts_set_of_closes hCloses hCovered]
  | @unclosed p t hBracket hOpen hCaret _ ih =>
      rw [segmentPattern_cons fun _ => hCaret, parts_open hBracket (bracketed?_of_open hOpen hCaret),
        matchParts_literal_cons, describes_open_iff hBracket hOpen]
      simp only [ih]

/-- A pattern that is one segment without braces describes the names that match it, as long as its sets are read as
they are written. -/
theorem accepts_iff_describes (hSome : t ≠ []) (hBraces : IsPlain t) (hSegment : ∀ q ∈ t, q.char ≠ '/')
    (hStars : t ≠ "**") (hRead : Unmistakable t) (hName : ∀ q ∈ name, q.char ≠ '/') :
    accepts t name = true ↔ Describes t name := by
  have hGroups : ∀ before options after, ¬ Group t before options after := fun _ _ _ hGroup =>
    hGroup.not_isPlain hBraces
  have hMatches : Spans [t] [name] ↔ Describes t name := by
    rw [← matchSegments_iff, List.map_singleton, matchSegments_other (mt segmentPattern_eq_stars_iff.mp hStars),
      ← matchParts_iff hRead, ← matchParts_joinRuns]
    constructor
    · rintro ⟨_, _, ⟨⟩, hMatch, -⟩
      exact hMatch
    · exact fun hMatch => ⟨name, [], rfl, hMatch, rfl⟩
  rw [accepts_iff, and_iff_right hSome]
  simp only [expands_of_no_group_iff hGroups, exists_eq_left, Text.splitOn_of_free hSegment, Text.splitOn_of_free hName]
  exact hMatches

/-- Whether a character is missing from a text, as a test. -/
theorem forall_ne_of_all {c : Char} (h : t.all (·.char != c) = true) : ∀ q ∈ t, q.char ≠ c := fun q hMem =>
  bne_iff_ne.mp (List.all_eq_true.mp h q hMem)

theorem accepts_iff_describes_caret : accepts "[^a]?" "bc" = true ∧ Unmistakable "[^a]?" ∧ Describes "[^a]?" "bc" := by
  have hCloses : Closes "^a]?" true "a" "?" := ⟨.marked (Or.inr (by decide)), by decide, by decide⟩
  have hRead : Unmistakable "[^a]?" := by
    refine .set (by decide) hCloses (by decide) (fun hFalse => by cases hFalse) ?_
    exact .other (by decide) .nil
  have hAccepts : accepts "[^a]?" "bc" = true := by decide +kernel
  refine ⟨hAccepts, hRead, (accepts_iff_describes (by decide) ?_ ?_ (by decide) hRead ?_).mp hAccepts⟩
  · exact forall_ne_of_all (by decide)
  · exact forall_ne_of_all (by decide)
  · exact forall_ne_of_all (by decide)

/-- A caret behind a bracket that is a member itself is not found. -/
theorem not_accepts_of_describes : Describes "[[^]" "^" ∧ accepts "[[^]" "^" = false := by
  have hCloses : Closes "[^]" false "[^" [] := by
    refine ⟨.plain fun q more hText => ?_, by decide, by decide⟩
    obtain ⟨rfl, -⟩ := List.cons.inj hText
    decide
  exact ⟨.set (by decide) hCloses (by decide) .nil, by decide +kernel⟩

end Conform.Glob

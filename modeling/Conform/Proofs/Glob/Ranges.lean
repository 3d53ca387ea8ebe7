import Conform.Glob.Segment
import Conform.Proofs.Text.Cutting

/-! The members of a set in brackets. The inside is cut into pieces at its hyphens, the pieces are put together again
where a range is empty, and then the ranges are taken from where two pieces meet. This comes to the same as reading
the inside from the front, except that an exclamation mark that stands first once empty ranges are dropped
negates the set. -/
namespace Conform.Glob

/-- The members of a set, read from the front: two characters with a hyphen between them are the ends of a range,
any other character is a member by itself. -/
def ranges : Text → List (Point × Point)
  | x :: h :: y :: rest => if h.char == '-' then (x, y) :: ranges rest else (x, x) :: ranges (h :: y :: rest)
  | x :: rest => (x, x) :: ranges rest
  | [] => []

/-- Whether a text does not go on with a hyphen and a further character, which would join what stands before to
that character. -/
def Alone (rest : Text) : Prop := ∀ h y more, rest = h :: y :: more → h.char ≠ '-'

/-- Whether an exclamation mark stands first once the empty ranges before it are dropped. -/
def uncovers : Text → Bool
  | x :: h :: y :: rest => if h.char == '-' && y < x then uncovers rest else x.char == '!'
  | x :: _ => x.char == '!'
  | [] => false

variable {x y h p : Point} {t rest : Text} {fuel fuel' start : Nat} {cs : List Text}

/-- A set is read range by range and member by member. -/
theorem ranges_induction {motive : Text → Prop} (nil : motive [])
    (range : ∀ x h y rest, h.char = '-' → motive rest → motive (x :: h :: y :: rest))
    (single : ∀ x rest, Alone rest → motive rest → motive (x :: rest)) (t : Text) : motive t := by
  induction t using ranges.induct with
  | case1 x h y rest hHyphen ih => exact range x h y rest (by simpa using hHyphen) ih
  | case2 x h y rest hOther ih =>
      refine single x (h :: y :: rest) (fun h' y' more hText => ?_) ih
      obtain ⟨rfl, -⟩ := List.cons.inj hText
      simpa using hOther
  | case3 x rest hShort ih => exact single x rest (fun h y more hText => absurd hText (hShort h y more)) ih
  | case4 => exact nil

theorem ranges_range (hHyphen : h.char = '-') : ranges (x :: h :: y :: rest) = (x, y) :: ranges rest := by
  rw [ranges, if_pos (by simpa using hHyphen)]

theorem ranges_single (hAlone : Alone rest) : ranges (x :: rest) = (x, x) :: ranges rest := by
  rcases rest with - | ⟨h, - | ⟨y, more⟩⟩
  · rfl
  · rfl
  · rw [ranges, if_neg (by simpa using hAlone h y more rfl)]

theorem uncovers_range (hHyphen : h.char = '-') :
    uncovers (x :: h :: y :: rest) = if y < x then uncovers rest else x.char == '!' := by
  simp [uncovers, hHyphen]

theorem uncovers_single (hAlone : Alone rest) : uncovers (x :: rest) = (x.char == '!') := by
  rcases rest with - | ⟨h, - | ⟨y, more⟩⟩
  · rfl
  · rfl
  · simp [uncovers, hAlone h y more rfl]

/-! ### The pieces -/

/-- Puts a character in front of the first piece. -/
def prepend (x : Point) : List Text → List Text
  | [] => [[x]]
  | c :: cs => (x :: c) :: cs

theorem placeFrom?_succ (c : Char) (start : Nat) (x : Point) (t : Text) :
    placeFrom? c (start + 1) (x :: t) = (placeFrom? c start t).map (· + 1) := by
  simp [placeFrom?, Nat.add_assoc, Function.comp_def]

theorem cutRanges_nil (fuel start : Nat) : cutRanges fuel start [] = [[]] := by
  cases fuel with
  | zero => rfl
  | succ fuel => simp [cutRanges, placeFrom?]

/-- Each cut takes a character away, so a text has enough fuel in its length. -/
theorem cutRanges_eq_of_le (hFuel : t.length ≤ fuel) (hFuel' : t.length ≤ fuel') :
    cutRanges fuel start t = cutRanges fuel' start t := by
  induction fuel generalizing fuel' start t with
  | zero =>
      obtain rfl : t = [] := List.length_eq_zero_iff.mp (Nat.le_zero.mp hFuel)
      rw [cutRanges_nil, cutRanges_nil]
  | succ fuel ih =>
      cases fuel' with
      | zero =>
          obtain rfl : t = [] := List.length_eq_zero_iff.mp (Nat.le_zero.mp hFuel')
          rw [cutRanges_nil, cutRanges_nil]
      | succ fuel' =>
          rw [cutRanges, cutRanges]
          cases placeFrom? '-' start t with
          | none => rfl
          | some k =>
              have hRest : (t.drop (k + 1)).length ≤ fuel ∧ (t.drop (k + 1)).length ≤ fuel' := by
                rw [List.length_drop]
                omega
              dsimp only
              rw [ih hRest.1 hRest.2]

/-- A character in front moves all hyphens by one place. -/
theorem cutRanges_succ (fuel start : Nat) (x : Point) (t : Text) :
    cutRanges fuel (start + 1) (x :: t) = prepend x (cutRanges fuel start t) := by
  cases fuel with
  | zero => rfl
  | succ fuel =>
      rw [cutRanges, cutRanges, placeFrom?_succ]
      cases placeFrom? '-' start t with
      | none => rfl
      | some k =>
          simp only [Option.map_some, List.drop_succ_cons, List.take_succ_cons]
          split <;> rfl

/-- The pieces of a set, cut as far as there is something to cut. -/
def pieces (t : Text) : List Text := cutRanges t.length 1 t

theorem pieces_range (hHyphen : h.char = '-') : pieces (x :: h :: y :: rest) = [x] :: prepend y (pieces rest) := by
  have hPlace : placeFrom? '-' 1 (x :: h :: y :: rest) = some 1 := by
    simp [placeFrom?, List.findIdx?_cons, hHyphen]
  rw [pieces, List.length_cons, cutRanges, hPlace]
  dsimp only
  rw [if_neg (by simp)]
  refine congrArg ([x] :: ·) ((cutRanges_succ _ 1 y rest).trans (congrArg (prepend y) ?_))
  exact cutRanges_eq_of_le (by simp only [List.length_cons]; omega) (Nat.le_refl _)

theorem pieces_single (hAlone : Alone rest) : pieces (x :: rest) = prepend x (pieces rest) := by
  rw [pieces, cutRanges_succ]
  refine congrArg (prepend x) ?_
  rcases rest with - | ⟨h, - | ⟨y, more⟩⟩
  · rfl
  · by_cases hHyphen : h.char = '-' <;> simp [pieces, cutRanges, placeFrom?, hHyphen]
  · have hOther : h.char ≠ '-' := hAlone h y more rfl
    have hPlace : placeFrom? '-' 0 (h :: y :: more) = placeFrom? '-' 1 (h :: y :: more) := by
      simp [placeFrom?, List.findIdx?_cons, hOther, Function.comp_def]
    rw [pieces, cutRanges_eq_of_le (Nat.le_refl _) (Nat.le_succ _), List.length_cons, cutRanges, cutRanges, hPlace]

/-- Whether there is a first piece, and a character in it if another piece follows. -/
def Solid (cs : List Text) : Prop := ∃ c more, cs = c :: more ∧ (more ≠ [] → c ≠ [])

theorem Solid.prepend (h : Solid cs) (x : Point) : Solid (prepend x cs) := by
  obtain ⟨c, more, rfl, -⟩ := h
  exact ⟨x :: c, more, rfl, fun _ => List.cons_ne_nil x c⟩

theorem solid_cons (x : Point) (cs : List Text) : Solid ([x] :: cs) :=
  ⟨[x], cs, rfl, fun _ => List.cons_ne_nil x []⟩

/-- A character in front of the first of several pieces changes neither where they meet nor what is dropped there. -/
theorem dropEmpty_prepend (h : Solid cs) (x : Point) : dropEmpty (prepend x cs) = prepend x (dropEmpty cs) := by
  obtain ⟨c, more, rfl, hFull⟩ := h
  rw [prepend, dropEmpty, dropEmpty]
  cases hMore : dropEmpty more with
  | nil => rfl
  | cons d others =>
      have hNext : more ≠ [] := by
        rintro rfl
        cases hMore
      obtain ⟨a, c, rfl⟩ := List.exists_cons_of_ne_nil (hFull hNext)
      dsimp only
      rw [List.getLast?_cons_cons]
      split <;> try split
      all_goals rfl

theorem rangesOf_prepend (h : Solid cs) (x : Point) : rangesOf (prepend x cs) = (x, x) :: rangesOf cs := by
  obtain ⟨c, more, rfl, hFull⟩ := h
  cases more with
  | nil => simp [prepend, rangesOf]
  | cons d others =>
      obtain ⟨a, c, rfl⟩ := List.exists_cons_of_ne_nil (hFull (List.cons_ne_nil d others))
      rw [prepend, rangesOf, rangesOf, List.getLast?_cons_cons]
      rfl

theorem rangesOf_range (h : Solid cs) (x y : Point) : rangesOf ([x] :: prepend y cs) = (x, y) :: rangesOf cs := by
  obtain ⟨c, more, rfl, -⟩ := h
  simp [prepend, rangesOf]

theorem solid_pieces (t : Text) : Solid (pieces t) := by
  induction t using ranges_induction with
  | nil => exact ⟨[], [], rfl, fun hMore => absurd rfl hMore⟩
  | range x h y rest hHyphen ih =>
      rw [pieces_range hHyphen]
      exact solid_cons x _
  | single x rest hAlone ih =>
      rw [pieces_single hAlone]
      exact ih.prepend x

/-! ### What is left of them -/

/-- The pieces without the empty ranges. -/
def kept (t : Text) : List Text := dropEmpty (pieces t)

theorem kept_nil : kept [] = [[]] := rfl

theorem kept_single (hAlone : Alone rest) : kept (x :: rest) = prepend x (kept rest) := by
  rw [kept, pieces_single hAlone, dropEmpty_prepend (solid_pieces rest)]
  rfl

/-- A range whose ends are in the wrong order leaves nothing behind. -/
theorem kept_range (hHyphen : h.char = '-') :
    kept (x :: h :: y :: rest) = if y < x then kept rest else [x] :: prepend y (kept rest) := by
  have hSome : ∃ c more, kept rest = c :: more := by
    obtain ⟨c, more, hPieces, -⟩ := solid_pieces rest
    rw [kept, hPieces, dropEmpty]
    split
    · exact ⟨_, _, rfl⟩
    · split
      · split <;> exact ⟨_, _, rfl⟩
      · exact ⟨_, _, rfl⟩
  obtain ⟨c, more, hKept⟩ := hSome
  have hRest : dropEmpty (prepend y (pieces rest)) = (y :: c) :: more :=
    (dropEmpty_prepend (solid_pieces rest) y).trans (congrArg (prepend y) hKept)
  rw [hKept, kept, pieces_range hHyphen, dropEmpty, hRest]
  rfl

theorem solid_kept (t : Text) : Solid (kept t) := by
  induction t using ranges_induction with
  | nil => exact ⟨[], [], rfl, fun hMore => absurd rfl hMore⟩
  | range x h y rest hHyphen ih =>
      rw [kept_range hHyphen]
      split
      · exact ih
      · exact solid_cons x _
  | single x rest hAlone ih =>
      rw [kept_single hAlone]
      exact ih.prepend x

/-- Whether a character lies between the ends of one of some ranges. -/
def within (rs : List (Point × Point)) (p : Point) : Bool := rs.any fun r => r.1 ≤ p && p ≤ r.2

/-- The pieces that are left have the members that the set has when it is read from the front. -/
theorem within_kept (t : Text) (p : Point) : within (rangesOf (kept t)) p = within (ranges t) p := by
  induction t using ranges_induction with
  | nil => simp [kept_nil, rangesOf, ranges]
  | range x h y rest hHyphen ih =>
      rw [kept_range hHyphen, ranges_range hHyphen]
      split
      · next hEmpty =>
          have hNone : (x ≤ p && p ≤ y) = false := by
            rw [Bool.and_eq_false_iff, decide_eq_false_iff_not, decide_eq_false_iff_not, Fin.le_def, Fin.le_def]
            rw [Fin.lt_def] at hEmpty
            omega
          rw [ih, within, within, List.any_cons, hNone, Bool.false_or]
      · rw [rangesOf_range (solid_kept rest), within, List.any_cons]
        exact congrArg (_ || ·) ih
  | single x rest hAlone ih =>
      rw [kept_single hAlone, rangesOf_prepend (solid_kept rest), ranges_single hAlone, within, List.any_cons]
      exact congrArg (_ || ·) ih

theorem startsWith_bang (x : Point) (c : Text) : Text.startsWith (x :: c) "!" = (x.char == '!') := by
  have hText : Text.startsWith (x :: c) "!" = (Point.ofChar '!' == x && true) := rfl
  rw [hText, Bool.and_true, Bool.eq_iff_iff, beq_iff_eq, beq_iff_eq]
  constructor
  · rintro rfl
    decide
  · exact fun hChar => (Point.eq_ofChar hChar (by decide)).symm

/-- The first piece that is left begins with an exclamation mark just if the set uncovers one. -/
theorem exists_kept (t : Text) : ∃ c more, kept t = c :: more ∧ Text.startsWith c "!" = uncovers t := by
  induction t using ranges_induction with
  | nil => exact ⟨[], [], rfl, rfl⟩
  | range x h y rest hHyphen ih =>
      rw [kept_range hHyphen, uncovers_range hHyphen]
      split
      · exact ih
      · exact ⟨[x], _, rfl, startsWith_bang x []⟩
  | single x rest hAlone ih =>
      obtain ⟨c, more, hKept, -⟩ := ih
      rw [kept_single hAlone, uncovers_single hAlone, hKept]
      exact ⟨x :: c, more, rfl, startsWith_bang x c⟩

/-! ### The set -/

theorem accepts_set (negated : Bool) (rs : List (Point × Point)) (p : Point) :
    (Part.set negated rs).accepts p = (within rs p != negated) := rfl

/-- A set that uncovers no exclamation mark has the members that are read from the front. -/
theorem accepts_setOf (hPlain : Text.startsWith t "!" = false) (hCovered : uncovers t = false) (p : Point) :
    (setOf t).accepts p = within (ranges t) p := by
  obtain ⟨c, more, hKept, hFirst⟩ := exists_kept t
  have hPieces : dropEmpty (cutRanges t.length (if Text.startsWith t "!" then 2 else 1) t) = c :: more := by
    rw [hPlain]
    exact hKept
  have hMembers : (Part.set false (rangesOf (c :: more))).accepts p = within (ranges t) p := by
    rw [accepts_set, Bool.bne_false, ← hKept, within_kept]
  rw [setOf, hPieces]
  split
  · exact absurd ‹_› (List.cons_ne_nil c more)
  · next hNone =>
      obtain ⟨rfl, rfl⟩ := List.cons.inj hNone
      rw [← hMembers]
      simp [rangesOf, Part.accepts]
  · next first others _ hSome =>
      obtain ⟨rfl, rfl⟩ := List.cons.inj hSome
      rw [hFirst, hCovered, if_pos Bool.not_false]
      exact hMembers

/-- An exclamation mark at the start turns the set around. -/
theorem accepts_setOf_bang (hBang : x.char = '!') (t : Text) (p : Point) :
    (setOf (x :: t)).accepts p = !within (ranges t) p := by
  obtain ⟨c, more, hKept, hFull⟩ := solid_kept t
  have hStarts : ∀ rest, Text.startsWith (x :: rest) "!" = true := fun rest =>
    (startsWith_bang x rest).trans (by simp [hBang])
  have hPieces : dropEmpty (cutRanges (x :: t).length (if Text.startsWith (x :: t) "!" then 2 else 1) (x :: t)) =
      (x :: c) :: more := by
    rw [hStarts, if_pos rfl, cutRanges_succ, cutRanges_eq_of_le (by simp) (Nat.le_refl _)]
    exact (dropEmpty_prepend (solid_pieces t) x).trans (congrArg (prepend x) hKept)
  have hMembers : (Part.set true (rangesOf (c :: more))).accepts p = !within (ranges t) p := by
    rw [accepts_set, Bool.bne_true, ← hKept, within_kept]
  rw [setOf, hPieces]
  dsimp only
  rw [hStarts, if_neg (by simp), List.drop_succ_cons, List.drop_zero]
  split
  · rw [← hMembers]
    simp [rangesOf, Part.accepts]
  · next hOther => exact absurd rfl (hFull fun hEmpty => hOther hEmpty)
  · exact hMembers

end Conform.Glob

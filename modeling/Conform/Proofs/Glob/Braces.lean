import Conform.Glob
import Conform.Proofs.Text.Cutting

/-! Braces in patterns. A group of braces is found by counting how many are open, and what it holds is cut
at the commas outside of further braces. Writing out a group takes one pair of braces away, so all of them are
written out in the end. -/
namespace Conform.Glob

/-- What begins a group of alternatives, what ends it, and what keeps them apart. -/
def opening : Point := .ofChar '\x7b'

def closing : Point := .ofChar '\x7d'

def comma : Point := .ofChar ','

/-- How many braces a text opens, and how many it closes. -/
def openings (t : Text) : Nat := t.countP (·.char == '\x7b')

def closings (t : Text) : Nat := t.countP (·.char == '\x7d')

/-- Whether a text closes `depth` braces and those that it opens itself, none too early, and has no comma
outside of them. -/
structure Fills (depth : Nat) (t : Text) : Prop where
  closes : closings t = openings t + depth
  inside : ∀ start, start <+: t → closings start ≤ openings start + depth
  commas : ∀ start, start ++ [comma] <+: t → closings start < openings start + depth

/-- Alternatives with commas between them, up to the brace that closes them and what comes after it. -/
def held (options : List Text) (after : Text) : Text := Text.join "," options ++ closing :: after

/-- The parts of a text around its first group of braces: what stands before and after it, and the alternatives
that it holds. -/
structure Group (t before : Text) (options : List Text) (after : Text) : Prop where
  text : t = before ++ opening :: held options after
  first : ∀ p ∈ before, p.char ≠ '\x7b'
  nonempty : options ≠ []
  fills : ∀ o ∈ options, Fills 0 o

/-- What can come of writing out the braces in a pattern: the text itself if it has no group, or what comes of it
with one of the alternatives in place of its first group. -/
inductive Expands : Text → Text → Prop where
  | literal {t : Text} (hNone : ∀ before options after, ¬ Group t before options after) : Expands t t
  | choice {t before o after u : Text} {options : List Text} (hGroup : Group t before options after) (hOption : o ∈ options)
      (h : Expands (before ++ o ++ after) u) : Expands t u

variable {depth : Nat} {t u before inside after : Text} {options : List Text} {p : Point}

theorem openings_append (t u : Text) : openings (t ++ u) = openings t + openings u := List.countP_append

theorem closings_append (t u : Text) : closings (t ++ u) = closings t + closings u := List.countP_append

theorem fills_nil : Fills depth [] ↔ depth = 0 := by
  constructor
  · intro h
    have hCloses := h.closes
    simpa [closings, openings] using hCloses.symm
  · rintro rfl
    exact ⟨rfl, fun start hStart => by simp [List.prefix_nil.mp hStart, closings, openings],
      fun start hStart => by simp at hStart⟩

/-- After the first character of a text the rest fills what that character has left open. -/
theorem fills_cons : Fills depth (p :: t) ↔ closings [p] ≤ openings [p] + depth ∧ (p = comma → 0 < depth) ∧
    Fills (openings [p] + depth - closings [p]) t := by
  have hOpen : ∀ u, openings (p :: u) = openings [p] + openings u := openings_append [p]
  have hClose : ∀ u, closings (p :: u) = closings [p] + closings u := closings_append [p]
  constructor
  · rintro ⟨hCloses, hInside, hCommas⟩
    have hHere : closings [p] ≤ openings [p] + depth := hInside [p] ⟨t, rfl⟩
    refine ⟨hHere, ?_, ?_, fun start hStart => ?_, fun start hStart => ?_⟩
    · rintro rfl
      simpa [closings, openings] using hCommas [] ⟨t, rfl⟩
    · rw [hOpen, hClose] at hCloses
      omega
    · have hBelow := hInside (p :: start) (List.cons_prefix_cons.mpr ⟨rfl, hStart⟩)
      rw [hOpen, hClose] at hBelow
      omega
    · have hBelow := hCommas (p :: start) (List.cons_prefix_cons.mpr ⟨rfl, hStart⟩)
      rw [hOpen, hClose] at hBelow
      omega
  · rintro ⟨hHere, hComma, hCloses, hInside, hCommas⟩
    refine ⟨?_, fun start hStart => ?_, fun start hStart => ?_⟩
    · rw [hOpen, hClose]
      omega
    · rcases List.prefix_cons_iff.mp hStart with rfl | ⟨start, rfl, hRest⟩
      · simp [closings]
      · have hBelow := hInside start hRest
        rw [hOpen, hClose]
        omega
    · cases start with
      | nil =>
          obtain ⟨rfl, -⟩ := List.cons_prefix_cons.mp hStart
          simpa [closings, openings] using hComma rfl
      | cons q start =>
          obtain ⟨rfl, hRest⟩ := List.cons_prefix_cons.mp hStart
          have hBelow := hCommas start hRest
          rw [hOpen, hClose]
          omega

theorem fills_opening : Fills depth (opening :: t) ↔ Fills (depth + 1) t := by
  have hCounts : openings [opening] = 1 ∧ closings [opening] = 0 := by decide
  rw [fills_cons, hCounts.1, hCounts.2]
  simp [(by decide : opening ≠ comma), Nat.add_comm 1 depth]

theorem fills_closing : Fills depth (closing :: t) ↔ ∃ outer, depth = outer + 1 ∧ Fills outer t := by
  have hCounts : openings [closing] = 0 ∧ closings [closing] = 1 := by decide
  rw [fills_cons, hCounts.1, hCounts.2]
  cases depth with
  | zero => simp
  | succ outer => simp [(by decide : closing ≠ comma)]

theorem fills_comma : Fills depth (comma :: t) ↔ 0 < depth ∧ Fills depth t := by
  have hCounts : openings [comma] = 0 ∧ closings [comma] = 0 := by decide
  rw [fills_cons, hCounts.1, hCounts.2]
  simp

theorem fills_other (hOpening : p.char ≠ '\x7b') (hClosing : p.char ≠ '\x7d') (hComma : p.char ≠ ',') :
    Fills depth (p :: t) ↔ Fills depth t := by
  have hNot : p ≠ comma := fun h => hComma (h ▸ by decide)
  rw [fills_cons]
  simp [openings, closings, hOpening, hClosing, hNot]

theorem cons_eq_held_iff {first rest : Text} {more : List Text} : p :: rest = held (first :: more) after ↔
    (first = [] ∧ more = [] ∧ p = closing ∧ rest = after) ∨
    (first = [] ∧ more ≠ [] ∧ p = comma ∧ rest = held more after) ∨
    ∃ start, first = p :: start ∧ rest = held (start :: more) after := by
  unfold held
  cases first with
  | nil =>
      cases more with
      | nil => simp [Text.join]
      | cons o others => simp [Text.join, comma, Text.ofString]
  | cons q start => cases more <;> simp [Text.join, eq_comm, and_comm]

/-- What there is to find from inside `depth` further braces on, with the text `acc` of the first alternative
already behind, in reverse. -/
def Found (depth : Nat) (acc t : Text) (options : List Text) (after : Text) : Prop :=
  ∃ first more, options = (acc.reverse ++ first) :: more ∧ Fills depth first ∧ (∀ o ∈ more, Fills 0 o) ∧
    t = held (first :: more) after

variable {acc : Text}

theorem not_found_nil : ¬ Found depth acc [] options after := by
  rintro ⟨first, more, -, -, -, hText⟩
  simp [held] at hText

/-- A character that does not end the alternative is part of it. -/
theorem found_within {depth' : Nat} (hFills : ∀ start, Fills depth (p :: start) ↔ Fills depth' start)
    (hEnds : p = closing ∨ p = comma → depth ≠ 0) :
    Found depth' (p :: acc) t options after ↔ Found depth acc (p :: t) options after := by
  constructor
  · rintro ⟨first, more, rfl, hFirst, hMore, rfl⟩
    exact ⟨p :: first, more, by simp, (hFills first).mpr hFirst, hMore,
      cons_eq_held_iff.mpr (Or.inr (Or.inr ⟨first, rfl, rfl⟩))⟩
  · rintro ⟨first, more, rfl, hFirst, hMore, hText⟩
    rcases cons_eq_held_iff.mp hText with ⟨rfl, -, hEnd, -⟩ | ⟨rfl, -, hCut, -⟩ | ⟨start, rfl, rfl⟩
    · exact absurd (fills_nil.mp hFirst) (hEnds (Or.inl hEnd))
    · exact absurd (fills_nil.mp hFirst) (hEnds (Or.inr hCut))
    · exact ⟨start, more, by simp, (hFills start).mp hFirst, hMore, rfl⟩

theorem found_closing : Found 0 acc (closing :: t) options after ↔ options = [acc.reverse] ∧ t = after := by
  constructor
  · rintro ⟨first, more, rfl, hFirst, -, hText⟩
    rcases cons_eq_held_iff.mp hText with ⟨rfl, rfl, -, hRest⟩ | ⟨-, -, hCut, -⟩ | ⟨start, rfl, -⟩
    · exact ⟨by simp, hRest⟩
    · exact absurd hCut (by decide)
    · obtain ⟨outer, hZero, -⟩ := fills_closing.mp hFirst
      cases hZero
  · rintro ⟨rfl, rfl⟩
    exact ⟨[], [], by simp, fills_nil.mpr rfl, nofun, rfl⟩

theorem found_comma : Found 0 acc (comma :: t) options after ↔
    ∃ others, options = acc.reverse :: others ∧ Found 0 [] t others after := by
  constructor
  · rintro ⟨first, more, rfl, hFirst, hMore, hText⟩
    rcases cons_eq_held_iff.mp hText with ⟨-, -, hEnd, -⟩ | ⟨rfl, hMany, -, hRest⟩ | ⟨start, rfl, -⟩
    · exact absurd hEnd (by decide)
    · obtain ⟨o, others, rfl⟩ := List.exists_cons_of_ne_nil hMany
      obtain ⟨hNext, hOthers⟩ := List.forall_mem_cons.mp hMore
      exact ⟨o :: others, by simp, o, others, rfl, hNext, hOthers, hRest⟩
    · exact absurd (fills_comma.mp hFirst).1 (Nat.lt_irrefl 0)
  · rintro ⟨_, rfl, first, more, rfl, hFirst, hMore, rfl⟩
    exact ⟨[], first :: more, by simp, fills_nil.mpr rfl, List.forall_mem_cons.mpr ⟨hFirst, hMore⟩,
      cons_eq_held_iff.mpr (Or.inr (Or.inl ⟨rfl, List.cons_ne_nil _ _, rfl, rfl⟩))⟩

/-- The search for the closing brace finds what there is to find. -/
theorem alternatives?_iff : alternatives? depth acc t = some (options, after) ↔ Found depth acc t options after := by
  induction t generalizing depth acc options with
  | nil => exact ⟨nofun, fun h => absurd h not_found_nil⟩
  | cons p rest ih =>
      rw [alternatives?.eq_def]
      dsimp only
      split
      · next hChar =>
          obtain rfl : p = opening := Point.eq_ofChar (beq_iff_eq.mp hChar) (by decide)
          rw [ih]
          exact found_within (fun _ => fills_opening) fun hEnd => absurd hEnd (by decide)
      · next hOpening =>
          split
          · next hChar =>
              obtain rfl : p = closing := Point.eq_ofChar (beq_iff_eq.mp hChar) (by decide)
              cases depth with
              | zero => simp [found_closing, eq_comm]
              | succ outer =>
                  dsimp only
                  rw [ih]
                  refine found_within (fun start => ?_) fun _ => Nat.succ_ne_zero outer
                  simp [fills_closing]
          · next hClosing =>
              split
              · next hCut =>
                  obtain ⟨hChar, hDepth⟩ : p.char = ',' ∧ depth = 0 := by simpa using hCut
                  obtain rfl : p = comma := Point.eq_ofChar hChar (by decide)
                  subst hDepth
                  rw [found_comma]
                  constructor
                  · intro h
                    obtain ⟨⟨others, after'⟩, hSearch, hSame⟩ := Option.map_eq_some_iff.mp h
                    obtain ⟨rfl, rfl⟩ := Prod.mk.inj hSame
                    exact ⟨others, rfl, ih.mp hSearch⟩
                  · rintro ⟨others, rfl, hFound⟩
                    rw [ih.mpr hFound]
                    rfl
              · next hCut =>
                  rw [ih]
                  by_cases hChar : p.char = ','
                  · obtain rfl : p = comma := Point.eq_ofChar hChar (by decide)
                    have hDepth : depth ≠ 0 := by simpa [hChar] using hCut
                    exact found_within (fun _ => fills_comma.trans (and_iff_right (Nat.pos_of_ne_zero hDepth)))
                      fun _ => hDepth
                  · have hOther : ¬ (p = closing ∨ p = comma) := by
                      rintro (rfl | rfl)
                      · exact hClosing (by decide)
                      · exact hChar (by decide)
                    exact found_within (fun _ => fills_other (by simpa using hOpening) (by simpa using hClosing) hChar)
                      fun hEnd => absurd hEnd hOther

/-- There is at most one first group, and it is the one that is cut out. -/
theorem group_iff : Group t before options after ↔
    ∃ inside, Text.cut? '\x7b' t = some (before, inside) ∧ alternatives? 0 [] inside = some (options, after) := by
  simp only [Text.cut?_eq_some_iff, alternatives?_iff]
  constructor
  · rintro ⟨rfl, hFirst, hNonempty, hFills⟩
    obtain ⟨first, more, rfl⟩ := List.exists_cons_of_ne_nil hNonempty
    obtain ⟨hHere, hMore⟩ := List.forall_mem_cons.mp hFills
    exact ⟨_, ⟨opening, by decide, rfl, hFirst⟩, first, more, rfl, hHere, hMore, rfl⟩
  · rintro ⟨_, ⟨p, hChar, rfl, hFirst⟩, first, more, rfl, hHere, hMore, rfl⟩
    obtain rfl : p = opening := Point.eq_ofChar hChar (by decide)
    exact ⟨rfl, hFirst, List.cons_ne_nil _ _, List.forall_mem_cons.mpr ⟨hHere, hMore⟩⟩

/-- No alternative opens more braces than the whole. -/
theorem openings_le_of_mem {o : Text} (h : o ∈ options) : openings o ≤ openings (Text.join "," options) := by
  induction options with
  | nil => cases h
  | cons first more ih =>
      have hFirst : openings (Text.join "," (first :: more)) = openings first + openings (Text.join "," more) := by
        cases more with
        | nil => rfl
        | cons next others =>
            rw [Text.join, openings_append, openings_append]
            · rfl
            · exact nofun
      rcases List.mem_cons.mp h with rfl | hMore
      · exact hFirst ▸ Nat.le_add_right ..
      · exact hFirst ▸ (ih hMore).trans (Nat.le_add_left ..)

/-- Writing out a group takes a brace away. -/
theorem openings_choice {o : Text} (hGroup : Group t before options after) (hOption : o ∈ options) :
    openings (before ++ o ++ after) < openings t := by
  have hCons : ∀ t, openings (opening :: t) = 1 + openings t := openings_append [opening]
  have hHeld : openings (held options after) = openings (Text.join "," options) + openings after :=
    openings_append _ (closing :: after)
  have hLess := openings_le_of_mem hOption
  rw [hGroup.text, openings_append, openings_append, openings_append, hCons, hHeld]
  omega

theorem expand_of_group (hGroup : Group t before options after) (fuel : Nat) :
    expand (fuel + 1) t = options.flatMap fun o => expand fuel (before ++ o ++ after) := by
  obtain ⟨inside, hCut, hSearch⟩ := group_iff.mp hGroup
  rw [expand, hCut]
  dsimp only
  rw [hSearch]

theorem expand_of_no_group (hNone : ∀ before options after, ¬ Group t before options after) (fuel : Nat) :
    expand fuel t = [t] := by
  cases fuel with
  | zero => rfl
  | succ fuel =>
      rw [expand]
      split
      · rfl
      · next before inside hCut =>
          split
          · rfl
          · next options after hSearch => exact absurd (group_iff.mpr ⟨inside, hCut, hSearch⟩) (hNone before options after)

theorem expands_of_group_iff (hGroup : Group t before options after) :
    Expands t u ↔ ∃ o ∈ options, Expands (before ++ o ++ after) u := by
  constructor
  · intro h
    cases h with
    | literal hNone => exact absurd hGroup (hNone before options after)
    | choice hOther hOption hRest =>
        obtain ⟨inside, hCut, hSearch⟩ := group_iff.mp hGroup
        obtain ⟨inside', hCut', hSearch'⟩ := group_iff.mp hOther
        obtain ⟨rfl, rfl⟩ := Prod.mk.inj (Option.some.inj (hCut.symm.trans hCut'))
        obtain ⟨rfl, rfl⟩ := Prod.mk.inj (Option.some.inj (hSearch.symm.trans hSearch'))
        exact ⟨_, hOption, hRest⟩
  · rintro ⟨o, hOption, hRest⟩
    exact .choice hGroup hOption hRest

theorem expands_of_no_group_iff (hNone : ∀ before options after, ¬ Group t before options after) :
    Expands t u ↔ u = t := by
  constructor
  · intro h
    cases h with
    | literal => rfl
    | choice hGroup => exact absurd hGroup (hNone _ _ _)
  · rintro rfl
    exact .literal hNone

theorem mem_expand_iff {fuel : Nat} (hFuel : openings t ≤ fuel) : u ∈ expand fuel t ↔ Expands t u := by
  induction fuel generalizing t with
  | zero =>
      have hNone : ∀ before options after, ¬ Group t before options after := fun before options after hGroup => by
        obtain ⟨o, hOption⟩ := List.exists_mem_of_ne_nil options hGroup.nonempty
        exact Nat.not_lt_zero _ ((openings_choice hGroup hOption).trans_le hFuel)
      rw [expand_of_no_group hNone, expands_of_no_group_iff hNone, List.mem_singleton]
  | succ fuel ih =>
      by_cases h : ∃ before options after, Group t before options after
      · obtain ⟨before, options, after, hGroup⟩ := h
        rw [expand_of_group hGroup, expands_of_group_iff hGroup, List.mem_flatMap]
        refine exists_congr fun o => and_congr_right fun hOption => ih ?_
        exact Nat.le_of_lt_succ ((openings_choice hGroup hOption).trans_le hFuel)
      · have hNone : ∀ before options after, ¬ Group t before options after := fun before options after hGroup =>
          h ⟨before, options, after, hGroup⟩
        rw [expand_of_no_group hNone, expands_of_no_group_iff hNone, List.mem_singleton]

/-- The written out patterns are the ones that can come of it. -/
theorem mem_expandBraces_iff : u ∈ expandBraces t ↔ Expands t u := mem_expand_iff (Nat.le_refl _)

end Conform.Glob

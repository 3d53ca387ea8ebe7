import Conform.Proofs.Glob.Braces
import Mathlib.Data.List.Nodup
import Mathlib.Tactic.Choose

/-! Patterns whose braces are all closed. Writing out such a pattern comes before writing out what follows it, and every
way to choose an alternative for each group that is met gives one of the results, in the order of the choices. -/
namespace Conform.Glob

variable {depth : Nat} {t u v p q before inside after : Text} {options : List Text}

/-! ### Groups one after the other -/

theorem Group.unique {before' after' : Text} {options' : List Text} (h : Group t before options after)
    (h' : Group t before' options' after') : before = before' ∧ options = options' ∧ after = after' := by
  obtain ⟨inside, hCut, hSearch⟩ := group_iff.mp h
  obtain ⟨inside', hCut', hSearch'⟩ := group_iff.mp h'
  obtain ⟨rfl, rfl⟩ := Prod.mk.inj (Option.some.inj (hCut.symm.trans hCut'))
  obtain ⟨rfl, rfl⟩ := Prod.mk.inj (Option.some.inj (hSearch.symm.trans hSearch'))
  exact ⟨rfl, rfl, rfl⟩

/-- What holds of texts without a group, and of a text whenever it holds of it with each of the alternatives in place
of its first group, holds of all texts. -/
@[elab_as_elim]
theorem group_induction {motive : Text → Prop}
    (literal : ∀ t, (∀ before options after, ¬ Group t before options after) → motive t)
    (choice : ∀ t before options after, Group t before options after →
      (∀ o ∈ options, motive (before ++ o ++ after)) → motive t) (t : Text) : motive t := by
  induction hCount : openings t using Nat.strong_induction_on generalizing t with
  | _ n ih =>
      by_cases h : ∃ before options after, Group t before options after
      · obtain ⟨before, options, after, hGroup⟩ := h
        exact choice t before options after hGroup fun o hOption =>
          ih _ (hCount ▸ openings_choice hGroup hOption) _ rfl
      · exact literal t fun before options after hGroup => h ⟨before, options, after, hGroup⟩

theorem expandBraces_of_no_group (hNone : ∀ before options after, ¬ Group t before options after) :
    expandBraces t = [t] :=
  expand_of_no_group hNone _

/-- More fuel than there are braces makes no difference. -/
theorem expand_eq_expandBraces {fuel : Nat} (hFuel : openings t ≤ fuel) : expand fuel t = expandBraces t := by
  induction t using group_induction generalizing fuel with
  | literal t hNone => rw [expandBraces_of_no_group hNone, expand_of_no_group hNone]
  | choice t before options after hGroup ih =>
      have hLess : ∀ o ∈ options, openings (before ++ o ++ after) < openings t :=
        fun o hOption => openings_choice hGroup hOption
      obtain ⟨o, hOption⟩ := List.exists_mem_of_ne_nil options hGroup.nonempty
      have hPositive : 0 < openings t := (Nat.zero_le _).trans_lt (hLess o hOption)
      have hEach : ∀ n, openings t ≤ n + 1 → expand (n + 1) t =
          options.flatMap fun o => expandBraces (before ++ o ++ after) := by
        intro n hEnough
        rw [expand_of_group hGroup]
        refine List.flatMap_congr fun o hOption => ih o hOption ?_
        exact Nat.le_of_lt_succ ((hLess o hOption).trans_le hEnough)
      have hOne : expandBraces t = expand (openings t - 1 + 1) t := by
        rw [Nat.sub_add_cancel hPositive]
        rfl
      rw [hOne, hEach _ (by omega), ← Nat.sub_add_cancel (hPositive.trans_le hFuel), hEach _ (by omega)]

theorem expandBraces_of_group (hGroup : Group t before options after) :
    expandBraces t = options.flatMap fun o => expandBraces (before ++ o ++ after) := by
  rw [← expand_eq_expandBraces (Nat.le_succ _), expand_of_group hGroup]
  refine List.flatMap_congr fun o hOption => expand_eq_expandBraces ?_
  exact (openings_choice hGroup hOption).le

/-- A run of the recursion by which braces are written out: it ends at a text without a group, and otherwise consists
of one run for each alternative. -/
inductive Runs : Text → List Text → Prop where
  | literal {t : Text} (hNone : ∀ before options after, ¬ Group t before options after) : Runs t [t]
  | choice {t before after : Text} {options : List Text} {results : Text → List Text}
      (hGroup : Group t before options after) (h : ∀ o ∈ options, Runs (before ++ o ++ after) (results o)) :
      Runs t (options.flatMap results)

/-- Every text has a run, and only one. -/
theorem runs_iff {us : List Text} : Runs t us ↔ us = expandBraces t := by
  constructor
  · intro h
    induction h with
    | literal hNone => exact (expandBraces_of_no_group hNone).symm
    | choice hGroup _ ih =>
        rw [expandBraces_of_group hGroup]
        exact List.flatMap_congr ih
  · rintro rfl
    induction t using group_induction with
    | literal t hNone =>
        rw [expandBraces_of_no_group hNone]
        exact .literal hNone
    | choice t before options after hGroup ih =>
        rw [expandBraces_of_group hGroup]
        exact .choice hGroup ih

/-! ### Texts next to each other -/

/-- Whether a text opens no group. -/
def IsPlain (t : Text) : Prop := ∀ p ∈ t, p.char ≠ '\x7b'

theorem Group.append (h : Group p before options after) (q : Text) : Group (p ++ q) before options (after ++ q) where
  text := by simp [h.text, held]
  first := h.first
  nonempty := h.nonempty
  fills := h.fills

theorem Group.not_isPlain (h : Group t before options after) : ¬ IsPlain t := by
  intro hPlain
  exact hPlain opening (by simp [h.text]) (by decide)

/-- The groups behind a text without any are those of the whole. -/
theorem group_append_iff (hPlain : IsPlain p) {whole : Text} :
    Group (p ++ q) whole options after ↔ ∃ before, whole = p ++ before ∧ Group q before options after := by
  constructor
  · rintro ⟨hText, hFirst, hNonempty, hFills⟩
    rcases List.append_eq_append_iff.mp hText with ⟨before, rfl, rfl⟩ | ⟨rest, rfl, hRest⟩
    · refine ⟨before, rfl, rfl, fun x hMem => hFirst x (List.mem_append_right p hMem), hNonempty, hFills⟩
    · cases rest with
      | nil => exact ⟨[], by simp, by simpa using hRest.symm, nofun, hNonempty, hFills⟩
      | cons x rest =>
          obtain ⟨rfl, -⟩ := List.cons_eq_cons.mp hRest
          exact absurd (by decide) (hPlain opening (by simp))
  · rintro ⟨before, rfl, hText, hFirst, hNonempty, hFills⟩
    refine ⟨by simp [hText], ?_, hNonempty, hFills⟩
    simpa [or_imp, forall_and] using ⟨hPlain, hFirst⟩

theorem expandBraces_plain_append (hPlain : IsPlain p) (q : Text) :
    expandBraces (p ++ q) = (expandBraces q).map (p ++ ·) := by
  induction q using group_induction with
  | literal q hNone =>
      have hNoneBehind : ∀ before options after, ¬ Group (p ++ q) before options after := by
        intro before options after hGroup
        obtain ⟨before', -, hThere⟩ := (group_append_iff hPlain).mp hGroup
        exact hNone before' options after hThere
      rw [expandBraces_of_no_group hNone, expandBraces_of_no_group hNoneBehind, List.map_singleton]
  | choice q before options after hGroup ih =>
      rw [expandBraces_of_group hGroup, expandBraces_of_group ((group_append_iff hPlain).mpr ⟨before, rfl, hGroup⟩),
        List.map_flatMap]
      refine List.flatMap_congr fun o hOption => ?_
      rw [← ih o hOption]
      simp

/-! ### Depth -/

/-- How many braces are open after a text of which `depth` were open before. A closing brace is ignored where none is
open. -/
def depthAfter (depth : Nat) (t : Text) : Nat :=
  t.foldl (fun n p => if p.char = '\x7b' then n + 1 else if p.char = '\x7d' then n - 1 else n) depth

/-- Whether all braces that a text opens are closed in it. -/
def IsClosed (t : Text) : Prop := depthAfter 0 t = 0

instance : DecidablePred IsClosed := fun t => inferInstanceAs (Decidable (depthAfter 0 t = 0))

theorem depthAfter_append (depth : Nat) (t u : Text) : depthAfter depth (t ++ u) = depthAfter (depthAfter depth t) u :=
  List.foldl_append

theorem depthAfter_cons (depth : Nat) (x : Point) (t : Text) :
    depthAfter depth (x :: t) = depthAfter (depth + openings [x] - closings [x]) t := by
  rw [depthAfter, List.foldl_cons, depthAfter]
  congr 1
  by_cases hOpening : x.char = '\x7b'
  · simp [openings, closings, hOpening]
  · by_cases hClosing : x.char = '\x7d' <;> simp [openings, closings, hOpening, hClosing]

theorem isClosed_of_isPlain (h : IsPlain t) : IsClosed t := by
  induction t with
  | nil => rfl
  | cons x rest ih =>
      obtain ⟨hHere, hRest⟩ := List.forall_mem_cons.mp h
      have hNone : openings [x] = 0 := by simpa [openings] using hHere
      rw [IsClosed, depthAfter_cons, hNone, Nat.zero_add, Nat.zero_sub]
      exact ih hRest

/-- A text that closes some braces and what it opens itself leaves the others open. -/
theorem depthAfter_of_fills {outer : Nat} (h : Fills depth t) : depthAfter (outer + depth) t = outer := by
  induction t generalizing depth with
  | nil =>
      obtain rfl := fills_nil.mp h
      rfl
  | cons x rest ih =>
      obtain ⟨hHere, -, hRest⟩ := fills_cons.mp h
      have hStep : outer + depth + openings [x] - closings [x] = outer + (openings [x] + depth - closings [x]) := by
        omega
      rw [depthAfter_cons, hStep]
      exact ih hRest

theorem depthAfter_join (hFills : ∀ o ∈ options, Fills 0 o) : depthAfter depth (Text.join "," options) = depth := by
  induction options with
  | nil => rfl
  | cons o more ih =>
      obtain ⟨hHere, hMore⟩ := List.forall_mem_cons.mp hFills
      have hFirst : depthAfter depth o = depth := depthAfter_of_fills hHere
      cases more with
      | nil => exact hFirst
      | cons next others =>
          have hComma : depthAfter depth "," = depth := rfl
          rw [Text.join, depthAfter_append, depthAfter_append, hFirst, hComma, ih hMore]
          exact List.cons_ne_nil next others

/-- Where a text has a group, it is closed exactly if what follows the group is. -/
theorem Group.isClosed_iff (h : Group t before options after) : IsClosed t ↔ IsClosed after := by
  have hBefore : depthAfter 0 before = 0 := isClosed_of_isPlain h.first
  have hOpening : ∀ u, depthAfter 0 (opening :: u) = depthAfter 1 u := fun _ => rfl
  have hClosing : ∀ u, depthAfter 1 (closing :: u) = depthAfter 0 u := fun _ => rfl
  rw [IsClosed, h.text, depthAfter_append, hBefore, hOpening, held, depthAfter_append, depthAfter_join h.fills, hClosing]
  rfl

theorem Group.isClosed_choice (h : Group t before options after) (hClosed : IsClosed t) {o : Text}
    (hOption : o ∈ options) : IsClosed (before ++ o) ∧ IsClosed (before ++ o ++ after) := by
  have hBefore : depthAfter 0 before = 0 := isClosed_of_isPlain h.first
  have hFirst : depthAfter 0 (before ++ o) = 0 := by
    rw [depthAfter_append, hBefore]
    exact depthAfter_of_fills (h.fills o hOption)
  refine ⟨hFirst, ?_⟩
  rw [IsClosed, depthAfter_append, hFirst]
  exact h.isClosed_iff.mp hClosed

/-- Where all braces are closed in the end, the search for the one that closes a group comes to its end. -/
theorem exists_alternatives? (acc : Text) (h : depthAfter (depth + 1) t = 0) :
    ∃ options after, alternatives? depth acc t = some (options, after) := by
  induction t generalizing depth acc with
  | nil => cases h
  | cons x rest ih =>
      rw [depthAfter_cons] at h
      rw [alternatives?.eq_def]
      dsimp only
      split
      · next hOpening =>
          apply ih
          simpa [openings, closings, beq_iff_eq.mp hOpening] using h
      · next hOpening =>
          have hNone : openings [x] = 0 := by simpa [openings] using hOpening
          split
          · next hClosing =>
              cases depth with
              | zero => exact ⟨_, _, rfl⟩
              | succ outer =>
                  apply ih
                  simpa [hNone, closings, beq_iff_eq.mp hClosing] using h
          · next hClosing =>
              have hSame : depthAfter (depth + 1) rest = 0 := by
                simpa [hNone, closings, hClosing] using h
              split
              · next hComma =>
                  obtain ⟨-, rfl⟩ : x.char = ',' ∧ depth = 0 := by simpa using hComma
                  obtain ⟨options, after, hSearch⟩ := ih [] hSame
                  exact ⟨acc.reverse :: options, after, by rw [hSearch]; rfl⟩
              · exact ih _ hSame

/-- A closed text has a group unless it is plain. -/
theorem exists_group (hClosed : IsClosed t) (hOpens : ¬ IsPlain t) :
    ∃ before options after, Group t before options after := by
  obtain ⟨x, hMem, hChar⟩ : ∃ x ∈ t, x.char = '\x7b' := by simpa [IsPlain] using hOpens
  obtain rfl : x = opening := Point.eq_ofChar hChar (by decide)
  obtain ⟨before, inside, rfl, hFirst⟩ := List.eq_append_cons_of_mem hMem
  have hPlain : IsPlain before := by
    intro y hThere hBrace
    obtain rfl : y = opening := Point.eq_ofChar hBrace (by decide)
    exact hFirst hThere
  have hInside : depthAfter 1 inside = 0 := by
    have hBefore : depthAfter 0 before = 0 := isClosed_of_isPlain hPlain
    rwa [IsClosed, depthAfter_append, hBefore] at hClosed
  obtain ⟨options, after, hSearch⟩ := exists_alternatives? [] hInside
  have hCut : Text.cut? '\x7b' (before ++ opening :: inside) = some (before, inside) :=
    Text.cut?_eq_some_iff.mpr ⟨opening, by decide, rfl, hPlain⟩
  exact ⟨before, options, after, group_iff.mpr ⟨inside, hCut, hSearch⟩⟩

theorem isPlain_of_no_group (hClosed : IsClosed t) (hNone : ∀ before options after, ¬ Group t before options after) :
    IsPlain t := by
  by_contra hOpens
  obtain ⟨before, options, after, hGroup⟩ := exists_group hClosed hOpens
  exact hNone before options after hGroup

/-- A closed text is written out before what follows it. -/
theorem expandBraces_append (hClosed : IsClosed p) (q : Text) :
    expandBraces (p ++ q) = (expandBraces p).flatMap fun u => (expandBraces q).map (u ++ ·) := by
  induction p using group_induction with
  | literal p hNone =>
      rw [expandBraces_plain_append (isPlain_of_no_group hClosed hNone), expandBraces_of_no_group hNone,
        List.flatMap_singleton]
  | choice p before options after hGroup ih =>
      rw [expandBraces_of_group (hGroup.append q), expandBraces_of_group hGroup, List.flatMap_assoc]
      refine List.flatMap_congr fun o hOption => ?_
      rw [← ih o hOption (hGroup.isClosed_choice hClosed hOption).2, List.append_assoc (before ++ o)]

/-! ### Choices -/

/-- What comes of a text if the alternatives with some numbers are chosen for the groups that are met, from left to
right: in each group those inside the chosen alternative come before those behind the group. -/
inductive Chosen : Text → List Nat → Text → Prop where
  | plain {t : Text} (hPlain : IsPlain t) : Chosen t [] t
  | group {t before o after u v : Text} {options : List Text} {i : Nat} {c d : List Nat}
      (hGroup : Group t before options after) (hOption : options[i]? = some o) (hInside : Chosen o c u)
      (hBehind : Chosen after d v) : Chosen t (i :: c ++ d) (before ++ u ++ v)

/-- Whether two lists of choices differ first at a group for which the one has an earlier alternative. -/
def Before (c d : List Nat) : Prop := ∃ common i j c' d', c = common ++ i :: c' ∧ d = common ++ j :: d' ∧ i < j

variable {c d : List Nat}

theorem before_cons {i j : Nat} (h : i < j) (c d : List Nat) : Before (i :: c) (j :: d) := ⟨[], i, j, c, d, rfl, rfl, h⟩

theorem Before.append (h : Before c d) (c' d' : List Nat) : Before (c ++ c') (d ++ d') := by
  obtain ⟨common, i, j, c, d, rfl, rfl, hLess⟩ := h
  exact ⟨common, i, j, c ++ c', d ++ d', by simp, by simp, hLess⟩

theorem Before.append_left (h : Before c d) (front : List Nat) : Before (front ++ c) (front ++ d) := by
  obtain ⟨common, i, j, c, d, rfl, rfl, hLess⟩ := h
  exact ⟨front ++ common, i, j, c, d, by simp, by simp, hLess⟩

theorem before_irrefl (c : List Nat) : ¬ Before c c := by
  rintro ⟨common, i, j, c', d', rfl, hSame, hLess⟩
  obtain ⟨rfl, -⟩ := List.cons_eq_cons.mp (List.append_cancel_left hSame)
  exact Nat.lt_irrefl i hLess

theorem chosen_of_isPlain (hPlain : IsPlain t) : Chosen t c u ↔ c = [] ∧ u = t := by
  constructor
  · intro h
    cases h with
    | plain => exact ⟨rfl, rfl⟩
    | group hGroup => exact absurd hPlain hGroup.not_isPlain
  · rintro ⟨rfl, rfl⟩
    exact .plain hPlain

theorem chosen_of_group (hGroup : Group t before options after) : Chosen t c u ↔ ∃ i o ci ui ca ua,
    options[i]? = some o ∧ Chosen o ci ui ∧ Chosen after ca ua ∧ c = i :: ci ++ ca ∧ u = before ++ ui ++ ua := by
  constructor
  · intro h
    cases h with
    | plain hPlain => exact absurd hPlain hGroup.not_isPlain
    | group hOther hOption hInside hBehind =>
        obtain ⟨rfl, rfl, rfl⟩ := hGroup.unique hOther
        exact ⟨_, _, _, _, _, _, hOption, hInside, hBehind, rfl, rfl⟩
  · rintro ⟨i, o, ci, ui, ca, ua, hOption, hInside, hBehind, rfl, rfl⟩
    exact .group hGroup hOption hInside hBehind

theorem Chosen.isPlain (h : Chosen t c u) : IsPlain u := by
  induction h with
  | plain hPlain => exact hPlain
  | group hGroup _ _ _ ihInside ihBehind =>
      intro x hMem
      rcases List.mem_append.mp hMem with hMem | hMem
      · rcases List.mem_append.mp hMem with hMem | hMem
        · exact hGroup.first x hMem
        · exact ihInside x hMem
      · exact ihBehind x hMem

/-- Whether a list has each way to choose with what comes of it, in the order of the choices, and so that the results
are those of writing out the braces. -/
structure Enumerates (t : Text) (rs : List (List Nat × Text)) : Prop where
  ascending : rs.Pairwise fun r r' => Before r.1 r'.1
  mem_iff : ∀ c u, (c, u) ∈ rs ↔ Chosen t c u
  results : rs.map Prod.snd = expandBraces t

theorem enumerates_of_isPlain (hPlain : IsPlain t) : Enumerates t [([], t)] where
  ascending := List.pairwise_singleton _ _
  mem_iff := by simp [chosen_of_isPlain hPlain]
  results := (expandBraces_of_no_group fun _ _ _ hGroup => hGroup.not_isPlain hPlain).symm

/-- The choices for which the first group has a given alternative: those inside of it, and for each of them those behind
the group. -/
def choicesWith (before : Text) (inside : Text → List (List Nat × Text)) (behind : List (List Nat × Text))
    (o : Text × Nat) : List (List Nat × Text) :=
  (inside o.1).flatMap fun r => behind.map fun r' => (o.2 :: r.1 ++ r'.1, before ++ r.2 ++ r'.2)

variable {inside : Text → List (List Nat × Text)} {behind : List (List Nat × Text)} {o : Text × Nat}

theorem mem_choicesWith : (c, u) ∈ choicesWith before inside behind o ↔
    ∃ r ∈ inside o.1, ∃ r' ∈ behind, c = o.2 :: r.1 ++ r'.1 ∧ u = before ++ r.2 ++ r'.2 := by
  simp [choicesWith, eq_comm]

theorem ascending_choicesWith (hInside : (inside o.1).Pairwise fun r r' => Before r.1 r'.1)
    (hBehind : behind.Pairwise fun r r' => Before r.1 r'.1) :
    (choicesWith before inside behind o).Pairwise fun r r' => Before r.1 r'.1 := by
  refine List.pairwise_flatMap.mpr ⟨fun r _ => ?_, hInside.imp fun hLess => ?_⟩
  · exact List.pairwise_map.mpr (hBehind.imp fun hLess => hLess.append_left (o.2 :: r.1))
  · simp only [List.forall_mem_map]
    exact fun r _ r' _ => (hLess.append r.1 r'.1).append_left [o.2]

/-- The ways to choose in a text with a group, one alternative after the other. -/
theorem Group.enumerates (hGroup : Group t before options after) (hClosed : IsClosed t)
    (hInside : ∀ o ∈ options, Enumerates o (inside o)) (hBehind : Enumerates after behind) :
    Enumerates t (options.zipIdx.flatMap (choicesWith before inside behind)) where
  ascending := by
    refine List.pairwise_flatMap.mpr ⟨fun o hMem => ?_, ?_⟩
    · exact ascending_choicesWith (hInside o.1 (List.fst_mem_of_mem_zipIdx hMem)).ascending hBehind.ascending
    · have hOrder : options.zipIdx.Pairwise fun o o' => o.2 < o'.2 := by
        rw [← List.pairwise_map (f := Prod.snd), List.zipIdx_map_snd]
        exact List.pairwise_lt_range'
      refine hOrder.imp fun hLess r hR r' hR' => ?_
      obtain ⟨_, -, _, -, hFirst, -⟩ := mem_choicesWith.mp hR
      obtain ⟨_, -, _, -, hSecond, -⟩ := mem_choicesWith.mp hR'
      rw [hFirst, hSecond]
      exact before_cons hLess _ _
  mem_iff := by
    intro c u
    rw [chosen_of_group hGroup, List.mem_flatMap]
    constructor
    · rintro ⟨⟨o, i⟩, hMem, h⟩
      obtain ⟨⟨ci, ui⟩, hR, ⟨ca, ua⟩, hR', rfl, rfl⟩ := mem_choicesWith.mp h
      have hOption := List.mem_zipIdx_iff_getElem?.mp hMem
      have hThere := List.mem_of_getElem? hOption
      exact ⟨i, o, ci, ui, ca, ua, hOption, ((hInside o hThere).mem_iff ci ui).mp hR,
        (hBehind.mem_iff ca ua).mp hR', rfl, rfl⟩
    · rintro ⟨i, o, ci, ui, ca, ua, hOption, hChosen, hChosenBehind, rfl, rfl⟩
      have hThere := List.mem_of_getElem? hOption
      refine ⟨(o, i), List.mem_zipIdx_iff_getElem?.mpr hOption, mem_choicesWith.mpr ?_⟩
      exact ⟨(ci, ui), ((hInside o hThere).mem_iff ci ui).mpr hChosen, (ca, ua),
        (hBehind.mem_iff ca ua).mpr hChosenBehind, rfl, rfl⟩
  results := by
    have hEach : ∀ o ∈ options, ∀ i, (choicesWith before inside behind (o, i)).map Prod.snd =
        expandBraces (before ++ o ++ after) := by
      intro o hOption i
      rw [expandBraces_append (hGroup.isClosed_choice hClosed hOption).1, expandBraces_plain_append hGroup.first,
        ← (hInside o hOption).results, ← hBehind.results]
      simp [choicesWith, List.map_flatMap, List.flatMap_map, Function.comp_def]
    rw [expandBraces_of_group hGroup, List.map_flatMap]
    calc options.zipIdx.flatMap (fun o => (choicesWith before inside behind o).map Prod.snd)
        = options.zipIdx.flatMap (fun o => expandBraces (before ++ o.1 ++ after)) :=
          List.flatMap_congr fun o hMem => hEach o.1 (List.fst_mem_of_mem_zipIdx hMem) o.2
      _ = options.flatMap fun o => expandBraces (before ++ o ++ after) := by
          conv_rhs => rw [← List.zipIdx_map_fst 0 options, List.flatMap_map]

/-- The ways to choose in a closed text can be listed in their order. -/
theorem exists_enumerates (hClosed : IsClosed t) : ∃ rs, Enumerates t rs := by
  induction hCount : openings t using Nat.strong_induction_on generalizing t with
  | _ n ih =>
      by_cases hPlain : IsPlain t
      · exact ⟨_, enumerates_of_isPlain hPlain⟩
      · obtain ⟨before, options, after, hGroup⟩ := exists_group hClosed hPlain
        have hLess : ∀ o ∈ options, openings o < n ∧ openings after < n := by
          intro o hOption
          have hChoice := openings_choice hGroup hOption
          rw [openings_append, openings_append] at hChoice
          omega
        have hEach : ∀ o, ∃ rs, o ∈ options → Enumerates o rs := by
          intro o
          by_cases hOption : o ∈ options
          · have hInside : IsClosed o := depthAfter_of_fills (hGroup.fills o hOption)
            obtain ⟨rs, hAll⟩ := ih _ (hLess o hOption).1 hInside rfl
            exact ⟨rs, fun _ => hAll⟩
          · exact ⟨[], fun h => absurd h hOption⟩
        choose inside hInside using hEach
        obtain ⟨o, hOption⟩ := List.exists_mem_of_ne_nil options hGroup.nonempty
        obtain ⟨behind, hBehind⟩ := ih _ (hLess o hOption).2 (hGroup.isClosed_iff.mp hClosed) rfl
        exact ⟨_, hGroup.enumerates hClosed hInside hBehind⟩

/-- Equal choices have equal results, as the choices of a list in their order differ. -/
theorem Enumerates.result_unique {rs : List (List Nat × Text)} (h : Enumerates t rs) (hU : Chosen t c u)
    (hV : Chosen t c v) : u = v := by
  have hOnly : (rs.map Prod.fst).Nodup := by
    refine List.pairwise_map.mpr (h.ascending.imp fun hLess hSame => ?_)
    rw [hSame] at hLess
    exact before_irrefl _ hLess
  have hPair := List.inj_on_of_nodup_map hOnly ((h.mem_iff c u).mpr hU) ((h.mem_iff c v).mpr hV) rfl
  exact congrArg Prod.snd hPair

/-- Writing out braces comes to an end for every text. What comes of a closed text with another one behind it are the
results of the two next to each other, those of the first one outermost. No result of a closed text opens a group, and
its results are those of the ways to choose an alternative for each group that is met, each way once and with one
result, in the order in which a later alternative of an earlier group comes later. -/
theorem expandBraces_closed (hClosed : IsClosed p) (q : Text) :
    (∀ us, Runs (p ++ q) us ↔ us = expandBraces (p ++ q)) ∧
      expandBraces (p ++ q) = (expandBraces p).flatMap (fun a => (expandBraces q).map (a ++ ·)) ∧
      (∀ a ∈ expandBraces p, IsPlain a) ∧ (∀ c a b, Chosen p c a → Chosen p c b → a = b) ∧
      ∃ rs, Enumerates p rs := by
  obtain ⟨rs, hAll⟩ := exists_enumerates hClosed
  refine ⟨fun us => runs_iff, expandBraces_append hClosed q, ?_, fun c a b => hAll.result_unique, rs, hAll⟩
  intro a hMem
  rw [← hAll.results] at hMem
  obtain ⟨⟨c, a⟩, hThere, rfl⟩ := List.mem_map.mp hMem
  exact ((hAll.mem_iff c a).mp hThere).isPlain

/-- A brace that closes nothing, a group in a group with an empty alternative, and a group with a single one. -/
def nested : Text := "a\x7d\x7bb,c\x7bd,\x7d\x7d\x7be\x7d,"

/-- The same before a brace that nothing closes. -/
theorem expandBraces_closed_nested : IsClosed nested ∧
    expandBraces nested = [Text.ofString "a\x7dbe,", Text.ofString "a\x7dcde,", Text.ofString "a\x7dce,"] ∧
    expandBraces (nested ++ "\x7bf,g") =
      [Text.ofString "a\x7dbe,\x7bf,g", Text.ofString "a\x7dcde,\x7bf,g", Text.ofString "a\x7dce,\x7bf,g"] ∧
    ∃ rs, Enumerates nested rs := by
  have hClosed : IsClosed nested := by decide
  obtain ⟨-, hProduct, -, -, hAll⟩ := expandBraces_closed hClosed "\x7bf,g"
  exact ⟨hClosed, by decide +kernel, hProduct.trans (by decide +kernel), hAll⟩

end Conform.Glob

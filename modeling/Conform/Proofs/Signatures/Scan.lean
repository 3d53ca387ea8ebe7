import Conform.Proofs.Text.Cutting
import Conform.Signatures.FlagScope

/-! How an expression is gone through when its flags are written out. The way is described here without a
bound on its length, together with the places that it comes to: it comes to its end for every text, however
malformed, and only ever goes forward, so no character is lost or met twice. -/
namespace Conform.Signatures

variable {t u rest : Text} {p : Point} {s : Scoped} {passed : List Text}

section Cutting

theorem take_append_of_suffix (h : u <:+ t) : t.take (t.length - u.length) ++ u = t :=
  List.suffix_iff_eq_append.mp h

theorem suffix_of_dropStart? {start : Text} (h : t.dropStart? start = some u) : u <:+ t :=
  ⟨start, (Text.dropStart?_eq_some_iff.mp h).symm⟩

theorem dropStart?_getD_suffix (t start : Text) : (t.dropStart? start).getD t <:+ t := by
  cases h : t.dropStart? start with
  | none => exact List.suffix_rfl
  | some u => exact suffix_of_dropStart? h

theorem flagRun_append (t : Text) : (flagRun t).1 ++ (flagRun t).2 = t := by
  have hLetters : t.takeWhile isFlagLetter ++ t.drop (t.takeWhile isFlagLetter).length = t :=
    List.prefix_iff_eq_append.mp (List.takeWhile_prefix _)
  unfold flagRun
  dsimp only
  split
  · next q after hRest =>
      split
      · have hMore : after.takeWhile isFlagLetter ++ after.drop (after.takeWhile isFlagLetter).length = after :=
          List.prefix_iff_eq_append.mp (List.takeWhile_prefix _)
        rw [List.append_assoc, List.cons_append, hMore, ← hRest, hLetters]
      · exact hLetters
  · exact hLetters

theorem flagRun_suffix (t : Text) : (flagRun t).2 <:+ t := ⟨_, flagRun_append t⟩

/-- A group of flags is its flags with the signs of a group around them. -/
theorem eq_of_flagGroup? {flags : Text} (h : flagGroup? t = some (flags, u)) : t = "(?" ++ flags ++ ")" ++ u := by
  obtain ⟨inside, hOpen, h⟩ := Option.bind_eq_some_iff.mp h
  dsimp only at h
  split at h
  · cases h
  · obtain ⟨after, hClose, h⟩ := Option.bind_eq_some_iff.mp h
    obtain ⟨rfl, rfl⟩ := Prod.mk.inj (Option.some.inj h)
    rw [Text.dropStart?_eq_some_iff.mp hOpen, List.append_assoc, List.append_assoc,
      ← Text.dropStart?_eq_some_iff.mp hClose, flagRun_append]

/-- Behind a group of flags less is left than before it. -/
theorem lt_of_flagGroup? {flags : Text} (h : flagGroup? t = some (flags, u)) : u <:+ t ∧ u.length < t.length := by
  have hText := eq_of_flagGroup? h
  refine ⟨⟨_, hText.symm⟩, ?_⟩
  have hOpen : (("(?" : Text)).length = 2 := rfl
  rw [hText, List.length_append, List.length_append, List.length_append, hOpen]
  omega

/-- A group of flags starts as a group does. -/
theorem exists_cons_of_flagGroup? {flags : Text} (h : flagGroup? t = some (flags, u)) :
    ∃ p rest, t = p :: rest ∧ p.char = '(' :=
  ⟨_, _, eq_of_flagGroup? h, rfl⟩

theorem flagGroup?_eq_none (h : p.char ≠ '(') : flagGroup? (p :: rest) = none := by
  cases hFlags : flagGroup? (p :: rest) with
  | none => rfl
  | some found =>
      obtain ⟨_, _, hText, hChar⟩ := exists_cons_of_flagGroup? hFlags
      exact absurd ((List.cons.inj hText).1 ▸ hChar) h

theorem openingName_suffix (h : openingName t = some u) : u <:+ t := by
  obtain ⟨inside, hOpen, h⟩ := Option.bind_eq_some_iff.mp h
  have hInside : inside <:+ t := (suffix_of_dropStart? hOpen).trans (dropStart?_getD_suffix t "P")
  cases inside with
  | nil => cases h
  | cons q after =>
      dsimp only at h
      split at h
      · exact (suffix_of_dropStart? h).trans
          ((List.dropWhile_suffix _).trans ((List.suffix_cons q after).trans hInside))
      · cases h

theorem openingRest_suffix (t : Text) : openingRest t <:+ t := by
  unfold openingRest
  split
  · next u hName => exact openingName_suffix hName
  · dsimp only
    split
    · next u hMark =>
        obtain ⟨mark, -, hMark⟩ := List.exists_of_findSome?_eq_some hMark
        exact suffix_of_dropStart? hMark
    · cases hColon : Text.dropStart? (flagRun t).2 ":" with
      | none => exact List.suffix_rfl
      | some u => exact (suffix_of_dropStart? hColon).trans (flagRun_suffix t)

theorem cutOpening_suffix (p : Point) (rest : Text) : (cutOpening (p :: rest)).2 <:+ rest := by
  cases rest with
  | nil => exact List.suffix_rfl
  | cons q after =>
      show (if q.char == '?' then openingRest after else q :: after) <:+ q :: after
      split
      · exact (openingRest_suffix after).trans (List.suffix_cons q after)
      · exact List.suffix_rfl

theorem cutOpening_append (p : Point) (rest : Text) :
    (cutOpening (p :: rest)).1 ++ (cutOpening (p :: rest)).2 = p :: rest :=
  take_append_of_suffix ((cutOpening_suffix p rest).trans (List.suffix_cons p rest))

theorem classRest_suffix (fuel : Nat) (t : Text) : classRest fuel t <:+ t := by
  induction fuel generalizing t with
  | zero => exact List.suffix_rfl
  | succ fuel ih =>
      cases t with
      | nil => exact List.suffix_rfl
      | cons p rest =>
          rw [classRest]
          split
          · exact List.suffix_cons p rest
          · split
            · exact (ih _).trans ((List.drop_suffix 1 rest).trans (List.suffix_cons p rest))
            · exact (ih rest).trans (List.suffix_cons p rest)

theorem cutClass_suffix (p : Point) (rest : Text) : (cutClass (p :: rest)).2 <:+ rest :=
  (classRest_suffix _ _).trans ((dropStart?_getD_suffix _ _).trans (dropStart?_getD_suffix rest "^"))

theorem cutClass_append (p : Point) (rest : Text) :
    (cutClass (p :: rest)).1 ++ (cutClass (p :: rest)).2 = p :: rest :=
  take_append_of_suffix ((cutClass_suffix p rest).trans (List.suffix_cons p rest))

end Cutting

section Alternatives

theorem join_cons_append (sep t first : Text) (others : List Text) :
    Text.join sep ((t ++ first) :: others) = t ++ Text.join sep (first :: others) := by
  cases others with
  | nil => rfl
  | cons _ _ => simp only [Text.join, List.append_assoc]

theorem join_nil_cons (sep first : Text) (others : List Text) :
    Text.join sep ([] :: first :: others) = sep ++ Text.join sep (first :: others) := rfl

end Alternatives

/-- Cuts a text behind its first character, escape or character class. -/
def cutPiece (p : Point) (rest : Text) : Text × Text :=
  if p.char == '\\' then (p :: rest.take 1, rest.drop 1)
  else if p.char == '[' then cutClass (p :: rest)
  else ([p], rest)

theorem cutPiece_append (p : Point) (rest : Text) : (cutPiece p rest).1 ++ (cutPiece p rest).2 = p :: rest := by
  unfold cutPiece
  split
  · exact congrArg (p :: ·) (List.take_append_drop 1 rest)
  · split
    · exact cutClass_append p rest
    · rfl

theorem cutPiece_suffix (p : Point) (rest : Text) : (cutPiece p rest).2 <:+ rest := by
  unfold cutPiece
  split
  · exact List.drop_suffix 1 rest
  · split
    · exact cutClass_suffix p rest
    · exact List.suffix_rfl

/-- The characters at which a scan does something else than pass on a piece. -/
def turns : List Char := [')', '|', '(']

/-- How the inside of a group is gone through: the text from a place on, the texts from the places at which
the scan stops to look at what is next, in their order, and what it comes to. -/
inductive Scans : Text → List Text → Scoped → Prop where
  | ended : Scans [] [] ⟨[], [], []⟩
  | closed {p : Point} {rest : Text} (h : p.char = ')') : Scans (p :: rest) [] ⟨[], [], p :: rest⟩
  | piece {p : Point} {rest : Text} {passed : List Text} {s : Scoped} (h : p.char ∉ turns)
      (hRest : Scans (cutPiece p rest).2 passed s) :
      Scans (p :: rest) ((p :: rest) :: passed) (s.after (cutPiece p rest).1)
  | bar {p : Point} {rest : Text} {passed : List Text} {s : Scoped} (h : p.char = '|')
      (hRest : Scans rest passed s) : Scans (p :: rest) ((p :: rest) :: passed) ⟨[], s.alternatives, s.rest⟩
  | flags {t flags rest : Text} {passed : List Text} {s : Scoped} (h : flagGroup? t = some (flags, rest))
      (hRest : Scans rest passed s) : Scans t (t :: passed) (s.under flags)
  | group {p q : Point} {rest after : Text} {passed passed' : List Text} {inner s : Scoped} (h : p.char = '(')
      (hNone : flagGroup? (p :: rest) = none) (hInner : Scans (cutOpening (p :: rest)).2 passed inner)
      (hClosed : inner.rest = q :: after) (hRest : Scans after passed' s) :
      Scans (p :: rest) ((p :: rest) :: (passed ++ passed'))
        (s.after ((cutOpening (p :: rest)).1 ++ Text.join "|" inner.alternatives ++ [q]))
  | unclosed {p : Point} {rest : Text} {passed : List Text} {inner : Scoped} (h : p.char = '(')
      (hNone : flagGroup? (p :: rest) = none) (hInner : Scans (cutOpening (p :: rest)).2 passed inner)
      (hOpen : inner.rest = []) :
      Scans (p :: rest) ((p :: rest) :: passed)
        ⟨(cutOpening (p :: rest)).1 ++ Text.join "|" inner.alternatives, [], []⟩

namespace Scans

/-- What a scan leaves is the end of what it was given. -/
theorem rest_suffix (h : Scans t passed s) : s.rest <:+ t := by
  induction h with
  | ended => exact List.suffix_rfl
  | closed _ => exact List.suffix_rfl
  | piece _ _ ih => exact ih.trans ((cutPiece_suffix _ _).trans (List.suffix_cons _ _))
  | bar _ _ ih => exact ih.trans (List.suffix_cons _ _)
  | flags hFlags _ ih => exact ih.trans (lt_of_flagGroup? hFlags).1
  | @group p q rest after _ _ inner s _ _ _ hClosed _ ihInner ih =>
      rw [hClosed] at ihInner
      exact ih.trans ((List.suffix_cons q after).trans
        (ihInner.trans ((cutOpening_suffix p rest).trans (List.suffix_cons p rest))))
  | unclosed _ _ _ _ _ => exact List.nil_suffix

/-- Whether a text is left of another further on. -/
def Further (t u : Text) : Prop := u <:+ t ∧ u.length < t.length

theorem Further.trans_suffix {v : Text} (h : Further t u) (h' : v <:+ u) : Further t v :=
  ⟨h'.trans h.1, h'.length_le.trans_lt h.2⟩

theorem further_cons (h : u <:+ rest) : Further (p :: rest) u :=
  ⟨h.trans (List.suffix_cons p rest), Nat.lt_succ_of_le h.length_le⟩

theorem pairwise_cons {v : Text} (hMem : ∀ w ∈ passed, w <:+ u) (hFurther : Further v u)
    (hLater : passed.Pairwise Further) : (v :: passed).Pairwise Further :=
  List.pairwise_cons.mpr ⟨fun w h => hFurther.trans_suffix (hMem w h), hLater⟩

/-- Every place of a scan lies in what it was given. -/
theorem suffix_of_mem (h : Scans t passed s) : ∀ u ∈ passed, u <:+ t := by
  induction h with
  | ended => exact nofun
  | closed _ => exact nofun
  | piece _ _ ih =>
      exact List.forall_mem_cons.mpr ⟨List.suffix_rfl, fun u hMem =>
        (ih u hMem).trans ((cutPiece_suffix _ _).trans (List.suffix_cons _ _))⟩
  | bar _ _ ih =>
      exact List.forall_mem_cons.mpr ⟨List.suffix_rfl, fun u hMem => (ih u hMem).trans (List.suffix_cons _ _)⟩
  | flags hFlags _ ih =>
      exact List.forall_mem_cons.mpr ⟨List.suffix_rfl, fun u hMem => (ih u hMem).trans (lt_of_flagGroup? hFlags).1⟩
  | @group p q rest after _ _ inner s _ _ hInner hClosed _ ihInner ih =>
      have hBody := (cutOpening_suffix p rest).trans (List.suffix_cons p rest)
      have hAfter := hInner.rest_suffix
      rw [hClosed] at hAfter
      refine List.forall_mem_cons.mpr ⟨List.suffix_rfl, fun u hMem => ?_⟩
      rcases List.mem_append.mp hMem with hMem | hMem
      · exact (ihInner u hMem).trans hBody
      · exact (ih u hMem).trans ((List.suffix_cons q after).trans (hAfter.trans hBody))
  | unclosed _ _ _ _ ihInner =>
      exact List.forall_mem_cons.mpr ⟨List.suffix_rfl, fun u hMem =>
        (ihInner u hMem).trans ((cutOpening_suffix _ _).trans (List.suffix_cons _ _))⟩

theorem suffix_of_mem_append (h : Scans t passed s) : ∀ u ∈ passed ++ [s.rest], u <:+ t := by
  intro u hMem
  rcases List.mem_append.mp hMem with hMem | hMem
  · exact h.suffix_of_mem u hMem
  · exact List.mem_singleton.mp hMem ▸ h.rest_suffix

/-- A scan only ever goes forward: from every place it comes only to later ones, and it ends behind all of
them. -/
theorem pairwise_further (h : Scans t passed s) : (passed ++ [s.rest]).Pairwise Further := by
  induction h with
  | ended => exact List.pairwise_singleton _ _
  | closed _ => exact List.pairwise_singleton _ _
  | piece _ hRest ih => exact pairwise_cons (hRest.suffix_of_mem_append) (further_cons (cutPiece_suffix _ _)) ih
  | bar _ hRest ih => exact pairwise_cons (hRest.suffix_of_mem_append) (further_cons List.suffix_rfl) ih
  | flags hFlags hRest ih => exact pairwise_cons (hRest.suffix_of_mem_append) (lt_of_flagGroup? hFlags) ih
  | @group p q rest after passed passed' inner s _ _ hInner hClosed hRest ihInner ih =>
      have hBody : Further (p :: rest) (cutOpening (p :: rest)).2 := further_cons (cutOpening_suffix p rest)
      have hAfter : after <:+ (cutOpening (p :: rest)).2 := by
        have := hInner.rest_suffix
        rw [hClosed] at this
        exact (List.suffix_cons q after).trans this
      rw [hClosed, List.pairwise_append] at ihInner
      obtain ⟨hPassed, -, hClose⟩ := ihInner
      have hLater : (passed ++ (passed' ++ [s.rest])).Pairwise Further :=
        List.pairwise_append.mpr ⟨hPassed, ih, fun u hu v hv =>
          (hClose u hu (q :: after) (List.mem_singleton_self _)).trans_suffix
            ((hRest.suffix_of_mem_append v hv).trans (List.suffix_cons q after))⟩
      show ((p :: rest) :: (passed ++ passed') ++ [s.rest]).Pairwise Further
      rw [List.cons_append, List.append_assoc]
      refine pairwise_cons (fun v hMem => ?_) hBody hLater
      rcases List.mem_append.mp hMem with hMem | hMem
      · exact hInner.suffix_of_mem v hMem
      · exact (hRest.suffix_of_mem_append v hMem).trans hAfter
  | @unclosed p rest passed inner _ _ hInner hOpen ihInner =>
      rw [hOpen] at ihInner
      refine pairwise_cons (fun v hMem => hInner.suffix_of_mem_append v ?_)
        (further_cons (cutOpening_suffix p rest)) ihInner
      rwa [hOpen]

/-- Every text is gone through to an end. -/
theorem exists_scans (t : Text) : ∃ passed s, Scans t passed s := by
  induction hLength : t.length using Nat.strong_induction_on generalizing t with
  | _ n ih =>
      have hLess : ∀ {p : Point} {rest u : Text}, t = p :: rest → u <:+ rest → ∃ passed s, Scans u passed s :=
        fun {p rest u} hText hRest => ih u.length
          (hLength ▸ hText ▸ Nat.lt_succ_of_le hRest.length_le) u rfl
      rcases t with - | ⟨p, rest⟩
      · exact ⟨_, _, ended⟩
      cases hFlags : flagGroup? (p :: rest) with
      | some found =>
          obtain ⟨-, hShort⟩ := lt_of_flagGroup? hFlags
          obtain ⟨_, _, hRest⟩ := ih found.2.length (hLength ▸ hShort) found.2 rfl
          exact ⟨_, _, flags hFlags hRest⟩
      | none =>
          by_cases hTurn : p.char ∈ turns
          · simp only [turns, List.mem_cons, List.not_mem_nil, or_false] at hTurn
            rcases hTurn with hChar | hChar | hChar
            · exact ⟨_, _, closed hChar⟩
            · obtain ⟨_, _, hRest⟩ := hLess rfl List.suffix_rfl
              exact ⟨_, _, bar hChar hRest⟩
            · obtain ⟨_, inner, hInner⟩ := hLess rfl (cutOpening_suffix p rest)
              cases hEnd : inner.rest with
              | nil => exact ⟨_, _, unclosed hChar hFlags hInner hEnd⟩
              | cons q after =>
                  have hAfter := hInner.rest_suffix
                  rw [hEnd] at hAfter
                  obtain ⟨_, _, hRest⟩ :=
                    hLess rfl ((List.suffix_cons q after).trans (hAfter.trans (cutOpening_suffix p rest)))
                  exact ⟨_, _, group hChar hFlags hInner hEnd hRest⟩
          · obtain ⟨_, _, hRest⟩ := hLess rfl (cutPiece_suffix p rest)
            exact ⟨_, _, piece hTurn hRest⟩

/-- A bound above the length of a text is no bound: what the program comes to is where the scan ends. -/
theorem scopeGroup_eq (h : Scans t passed s) {fuel : Nat} (hFuel : t.length < fuel) : scopeGroup fuel t = s := by
  induction h generalizing fuel with
  | ended =>
      obtain ⟨fuel, rfl⟩ := Nat.exists_eq_add_one_of_ne_zero (Nat.ne_zero_of_lt hFuel)
      rfl
  | closed hChar =>
      obtain ⟨fuel, rfl⟩ := Nat.exists_eq_add_one_of_ne_zero (Nat.ne_zero_of_lt hFuel)
      simp [scopeGroup, hChar]
  | @piece p rest _ s hChar _ ih =>
      obtain ⟨fuel, rfl⟩ := Nat.exists_eq_add_one_of_ne_zero (Nat.ne_zero_of_lt hFuel)
      simp only [turns, List.mem_cons, List.not_mem_nil, or_false, not_or] at hChar
      obtain ⟨hClose, hBar, hOpen⟩ := hChar
      have hRest := ih ((cutPiece_suffix p rest).length_le.trans_lt (Nat.lt_of_succ_lt_succ hFuel))
      simp only [scopeGroup, beq_iff_eq, hClose, hBar, hOpen, if_false, flagGroup?_eq_none hOpen]
      -- The scan of a piece is one step, which the program takes in three places.
      unfold cutPiece at hRest ⊢
      split_ifs at hRest ⊢ with hEscape hClass
      all_goals simp_all
  | bar hChar _ ih =>
      obtain ⟨fuel, rfl⟩ := Nat.exists_eq_add_one_of_ne_zero (Nat.ne_zero_of_lt hFuel)
      simp [scopeGroup, hChar, ih (Nat.lt_of_succ_lt_succ hFuel)]
  | flags hFlags _ ih =>
      obtain ⟨fuel, rfl⟩ := Nat.exists_eq_add_one_of_ne_zero (Nat.ne_zero_of_lt hFuel)
      have hRest := ih ((lt_of_flagGroup? hFlags).2.trans_le (Nat.le_of_lt_succ hFuel))
      obtain ⟨p, rest, rfl, hChar⟩ := exists_cons_of_flagGroup? hFlags
      simp [scopeGroup, hChar, hFlags, hRest]
  | @group p q rest after _ _ inner s hChar hNone hInner hClosed _ ihInner ih =>
      obtain ⟨fuel, rfl⟩ := Nat.exists_eq_add_one_of_ne_zero (Nat.ne_zero_of_lt hFuel)
      have hShort : (cutOpening (p :: rest)).2.length < fuel :=
        (cutOpening_suffix p rest).length_le.trans_lt (Nat.lt_of_succ_lt_succ hFuel)
      have hAfter : after.length < fuel := by
        have hLength := hInner.rest_suffix.length_le
        rw [hClosed, List.length_cons] at hLength
        omega
      simp [scopeGroup, hChar, hNone, ihInner hShort, hClosed, ih hAfter]
  | @unclosed p rest _ _ hChar hNone _ hOpen ihInner =>
      obtain ⟨fuel, rfl⟩ := Nat.exists_eq_add_one_of_ne_zero (Nat.ne_zero_of_lt hFuel)
      have hShort : (cutOpening (p :: rest)).2.length < fuel :=
        (cutOpening_suffix p rest).length_le.trans_lt (Nat.lt_of_succ_lt_succ hFuel)
      simp [scopeGroup, hChar, hNone, ihInner hShort, hOpen]

variable {passed' : List Text} {s' : Scoped}

theorem scoped_unique (h : Scans t passed s) (h' : Scans t passed' s') : s' = s :=
  (h'.scopeGroup_eq (Nat.lt_succ_self _)).symm.trans (h.scopeGroup_eq (Nat.lt_succ_self _))

/-- A text is gone through in one way only. -/
theorem passed_unique (h : Scans t passed s) (h' : Scans t passed' s') : passed' = passed := by
  induction h generalizing passed' s' with
  | ended =>
      cases h' with
      | ended => rfl
      | flags hFlags _ => cases hFlags
  | closed hChar => cases h' <;> simp_all [turns, flagGroup?_eq_none]
  | piece hChar _ ih =>
      simp only [turns, List.mem_cons, List.not_mem_nil, or_false, not_or] at hChar
      cases h' with
      | piece _ hRest' => rw [ih hRest']
      | closed | bar | flags | group | unclosed => simp_all [flagGroup?_eq_none]
  | bar hChar _ ih =>
      cases h' with
      | bar _ hRest' => rw [ih hRest']
      | closed | piece | flags | group | unclosed => simp_all [turns, flagGroup?_eq_none]
  | flags hFlags _ ih =>
      obtain ⟨p, rest, rfl, hChar⟩ := exists_cons_of_flagGroup? hFlags
      cases h' with
      | flags hFlags' hRest' =>
          obtain ⟨-, rfl⟩ := Prod.mk.inj (Option.some.inj (hFlags.symm.trans hFlags'))
          rw [ih hRest']
      | closed | piece | bar | group | unclosed => simp_all [turns]
  | group hChar hNone hInner hClosed _ ihInner ih =>
      cases h' with
      | group _ _ hInner' hClosed' hRest' =>
          rw [hInner.scoped_unique hInner', hClosed] at hClosed'
          obtain ⟨-, rfl⟩ := List.cons.inj hClosed'
          rw [ihInner hInner', ih hRest']
      | unclosed _ _ hInner' hOpen' =>
          rw [hInner.scoped_unique hInner', hClosed] at hOpen'
          cases hOpen'
      | closed | piece | bar | flags => simp_all [turns]
  | unclosed hChar hNone hInner hOpen ihInner =>
      cases h' with
      | unclosed _ _ hInner' _ => rw [ihInner hInner']
      | group _ _ hInner' hClosed' _ =>
          rw [hInner.scoped_unique hInner', hOpen] at hClosed'
          cases hClosed'
      | closed | piece | bar | flags => simp_all [turns]

/-- Where a scan meets no group of flags, it keeps every character: the alternatives that it comes to, put
together again, and what it leaves are the text that it was given. -/
theorem join_append_rest (h : Scans t passed s) (hNone : ∀ u ∈ passed, flagGroup? u = none) :
    Text.join "|" s.alternatives ++ s.rest = t := by
  induction h with
  | ended => rfl
  | closed _ => rfl
  | @piece p rest _ s _ _ ih =>
      rw [List.forall_mem_cons] at hNone
      show Text.join "|" (((cutPiece p rest).1 ++ s.first) :: s.others) ++ s.rest = p :: rest
      rw [join_cons_append, List.append_assoc]
      exact (congrArg _ (ih hNone.2)).trans (cutPiece_append p rest)
  | @bar p rest _ s hChar _ ih =>
      rw [List.forall_mem_cons] at hNone
      show Text.join "|" ([] :: s.first :: s.others) ++ s.rest = p :: rest
      rw [join_nil_cons, List.append_assoc, Point.eq_ofChar hChar (by decide)]
      exact congrArg (_ :: ·) (ih hNone.2)
  | flags hFlags _ _ =>
      rw [List.forall_mem_cons, hFlags] at hNone
      cases hNone.1
  | @group p q rest after passed passed' inner s _ _ _ hClosed _ ihInner ih =>
      obtain ⟨-, hInner, hRest⟩ := (List.forall_mem_cons.trans (and_congr_right' List.forall_mem_append)).mp hNone
      show Text.join "|" (((cutOpening (p :: rest)).1 ++ Text.join "|" inner.alternatives ++ [q] ++ s.first) ::
        s.others) ++ s.rest = p :: rest
      calc
        _ = (cutOpening (p :: rest)).1 ++ (Text.join "|" inner.alternatives ++
              (q :: (Text.join "|" s.alternatives ++ s.rest))) := by
          rw [join_cons_append]
          simp only [List.append_assoc, List.cons_append, List.nil_append, Scoped.alternatives]
        _ = (cutOpening (p :: rest)).1 ++ (Text.join "|" inner.alternatives ++ inner.rest) := by
          rw [ih hRest, hClosed]
        _ = p :: rest := by rw [ihInner hInner, cutOpening_append]
  | @unclosed p rest passed inner _ _ _ hOpen ihInner =>
      rw [List.forall_mem_cons] at hNone
      show (cutOpening (p :: rest)).1 ++ Text.join "|" inner.alternatives ++ [] = p :: rest
      rw [List.append_assoc, ← hOpen, ihInner hNone.2, cutOpening_append]

end Scans

section Leading

theorem leadingFlags_append (fuel : Nat) (t : Text) : (leadingFlags fuel t).1 ++ (leadingFlags fuel t).2 = t := by
  induction fuel generalizing t with
  | zero => rfl
  | succ fuel ih =>
      rw [leadingFlags]
      split
      · next flags rest hFlags =>
          rw [List.append_assoc, ih, take_append_of_suffix (lt_of_flagGroup? hFlags).1]
      · rfl

/-- The run of groups of flags at the start is cut to its end. -/
theorem flagGroup?_leadingFlags {fuel : Nat} (hFuel : t.length ≤ fuel) :
    flagGroup? (leadingFlags fuel t).2 = none := by
  induction fuel generalizing t with
  | zero => rw [List.length_eq_zero_iff.mp (Nat.le_zero.mp hFuel)]; rfl
  | succ fuel ih =>
      rw [leadingFlags]
      split
      · next flags rest hFlags =>
          exact ih (Nat.le_of_lt_succ ((lt_of_flagGroup? hFlags).2.trans_le hFuel))
      · next hNone => exact hNone

end Leading

/-- Where no group of flags stands in a text, none is met in it. -/
theorem flagGroup?_of_suffix (h : hasFlagGroup t = false) (hSuffix : u <:+ t) : flagGroup? u = none := by
  induction t with
  | nil => rw [List.suffix_nil.mp hSuffix]; rfl
  | cons p rest ih =>
      rw [hasFlagGroup, Bool.or_eq_false_iff] at h
      rcases List.suffix_cons_iff.mp hSuffix with rfl | hSuffix
      · exact Option.isSome_eq_false_iff.mp h.1 |> Option.isNone_iff_eq_none.mp
      · exact ih h.2 hSuffix

/-- Whether a text has a group of flags makes no difference to how it is written out: without one the scan
keeps it as it is. -/
theorem scopeFlags_eq (t : Text) (h : Scans (leadingFlags t.length t).2 passed s) :
    scopeFlags t = (leadingFlags t.length t).1 ++ (Text.join "|" s.alternatives ++ s.rest) := by
  rw [scopeFlags]
  dsimp only
  split
  · rw [h.scopeGroup_eq (Nat.lt_succ_self _), List.append_assoc]
  · next hNone =>
      rw [h.join_append_rest fun u hMem =>
        flagGroup?_of_suffix (Bool.eq_false_iff.mpr hNone) (h.suffix_of_mem u hMem), leadingFlags_append]

/-- Every text, however malformed, is gone through to an end, in one way only and always forward, and none of
its characters is lost or doubled where no group of flags is met behind the leading ones. -/
theorem scopeFlags_of_scan (t : Text) :
    ∃ lead body passed s, lead ++ body = t ∧ leadingFlags t.length t = (lead, body) ∧ flagGroup? body = none ∧
      Scans body passed s ∧ (∀ passed' s', Scans body passed' s' → passed' = passed ∧ s' = s) ∧
      (∀ fuel, body.length < fuel → scopeGroup fuel body = s) ∧
      (passed ++ [s.rest]).Pairwise Scans.Further ∧
      ((∀ u ∈ passed, flagGroup? u = none) → scopeFlags t = t) := by
  obtain ⟨passed, s, hScan⟩ := Scans.exists_scans (leadingFlags t.length t).2
  refine ⟨_, _, passed, s, leadingFlags_append t.length t, rfl, flagGroup?_leadingFlags le_rfl, hScan,
    fun _ _ h => ⟨hScan.passed_unique h, hScan.scoped_unique h⟩, fun _ => hScan.scopeGroup_eq,
    hScan.pairwise_further, fun hNone => ?_⟩
  rw [scopeFlags_eq t hScan, hScan.join_append_rest hNone, leadingFlags_append]

example : scopeFlags "[(?i)]x\\(\\?i\\)" = ("[(?i)]x\\(\\?i\\)" : Text) := by decide +kernel

end Conform.Signatures

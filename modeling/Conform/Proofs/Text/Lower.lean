import Conform.Proofs.Text.Case
import Mathlib.Data.Nat.Bitwise

/-! Lower case twice, of a part, and at the end. What is in lower case stays as it is. A part of a text has its own
lower case within the whole, unless a capital sigma is the last letter of a word in one of them only. Whether a text
ends in certain letters is seen from its lower case. -/
namespace Conform

namespace CaseRun

variable {r : CaseRun} {n : Nat}

/-- The points that a run covers. -/
def points (r : CaseRun) : List Nat :=
  (List.range ((r.last - r.first) / r.step + 1)).map fun k => r.first + k * r.step

theorem mem_points (hStep : 0 < r.step) (h : r.covers n = true) : n ∈ r.points := by
  simp only [covers, Bool.and_eq_true, decide_eq_true_eq, beq_iff_eq] at h
  obtain ⟨⟨hFirst, hLast⟩, hStride⟩ := h
  obtain ⟨k, hk⟩ := Nat.dvd_of_mod_eq_zero hStride
  refine List.mem_map.mpr ⟨k, List.mem_range.mpr ?_, ?_⟩
  · have hMost : k ≤ (r.last - r.first) / r.step := by
      rw [Nat.le_div_iff_mul_le hStep, Nat.mul_comm, ← hk]
      omega
    omega
  · rw [Nat.mul_comm, ← hk]
    omega

/-- The points that a run leads to. -/
def partners (r : CaseRun) : List Nat := r.points.map fun (n : Nat) => ((n : Int) + r.shift).toNat

end CaseRun

/-! ### Sets of points as numbers -/

/-- The points of lists as the bits of a number. -/
def bitsOf (lists : List (List Nat)) : Nat :=
  lists.foldr (fun ns bits => ns.foldr (fun n others => 1 <<< n ||| others) 0 ||| bits) 0

theorem testBit_foldr (ns : List Nat) (n : Nat) :
    (ns.foldr (fun n others => 1 <<< n ||| others) 0).testBit n = ns.contains n := by
  induction ns with
  | nil => simp
  | cons m rest ih =>
      rw [List.foldr_cons, Nat.testBit_or, ih, Nat.one_shiftLeft, Nat.testBit_two_pow, List.contains_cons]
      simp [Bool.beq_eq_decide_eq, eq_comm]

theorem testBit_bitsOf (lists : List (List Nat)) (n : Nat) :
    (bitsOf lists).testBit n = lists.any (·.contains n) := by
  induction lists with
  | nil => simp [bitsOf]
  | cons ns rest ih =>
      rw [bitsOf, List.foldr_cons, Nat.testBit_or, testBit_foldr, List.any_cons, ← ih]
      rfl

theorem not_mem_of_bitsOf {lists lists' : List (List Nat)} {ns ns' : List Nat} {n : Nat}
    (h : bitsOf lists &&& bitsOf lists' = 0) (hLists : ns ∈ lists) (hMem : n ∈ ns) (hLists' : ns' ∈ lists') :
    n ∉ ns' := by
  intro hMem'
  have hNone : (bitsOf lists &&& bitsOf lists').testBit n = false := by rw [h, Nat.zero_testBit]
  rw [Nat.testBit_and, testBit_bitsOf, testBit_bitsOf, Bool.and_eq_false_iff] at hNone
  rcases hNone with hNone | hNone
  · exact List.any_eq_false.mp hNone ns hLists (List.contains_iff_mem.mpr hMem)
  · exact List.any_eq_false.mp hNone ns' hLists' (List.contains_iff_mem.mpr hMem')

namespace Point

variable {p : Point}

/-- Whether a point stays as it is in lower case, whatever stands around it. -/
structure IsLow (p : Point) : Prop where
  lower : p.lower = p
  not_dotted : p.val ≠ 0x130
  not_sigma : p.val ≠ 0x3A3

/-- No point that is the lower case of another one has another lower case itself. -/
theorem partners_apart : bitsOf (lowerRuns.map CaseRun.partners) &&&
    bitsOf ([0x130] :: lowerRuns.map CaseRun.points) = 0 := by
  decide +kernel

theorem lower_of_uncovered (hDotted : p.val ≠ 0x130) (h : ∀ r ∈ lowerRuns, r.covers p.val = false) :
    p.lower = p := by
  have hAscii : ∀ n ∈ List.range 0x80, (ofNat? n).all (fun p =>
      !p.char.isUpper || lowerRuns.head?.any (·.covers n)) = true := by decide +kernel
  unfold lower
  split
  · next hSmall =>
      have hUpper := hAscii p.val (by simpa [isAscii] using hSmall)
      have hFirst := h ⟨65, 90, 1, 32⟩ List.mem_cons_self
      simp [ofNat?, lowerRuns, hFirst] at hUpper
      simp [hUpper]
  · rw [if_neg (by simpa using hDotted), CaseRun.apply, List.find?_eq_none.mpr (by simpa using h)]

theorem isLow_of_uncovered (hDotted : p.val ≠ 0x130) (h : ∀ r ∈ lowerRuns, r.covers p.val = false) : p.IsLow := by
  have hSigma : (lowerRuns.any (·.covers 0x3A3)) = true := by decide +kernel
  refine ⟨lower_of_uncovered hDotted h, hDotted, fun hSame => ?_⟩
  obtain ⟨r, hRun, hCovers⟩ := List.any_eq_true.mp hSigma
  rw [← hSame, h r hRun] at hCovers
  cases hCovers

theorem isLow_apply (hDotted : p.val ≠ 0x130) : (CaseRun.apply lowerRuns p).IsLow := by
  have hRuns : ∀ r ∈ lowerRuns, 0 < r.step ∧ (r.last : Int) + r.shift < 0x110000 := by decide +kernel
  unfold CaseRun.apply
  split
  · next r hFound =>
      have hRun := List.mem_of_find?_eq_some hFound
      have hCovers : r.covers p.val = true := by simpa using List.find?_some hFound
      obtain ⟨hStep, hRange⟩ := hRuns r hRun
      have hPoint : ((p.val : Int) + r.shift).toNat < 0x110000 := by
        simp only [CaseRun.covers, Bool.and_eq_true, decide_eq_true_eq] at hCovers
        omega
      have hPartner : ((p.val : Int) + r.shift).toNat ∈ r.partners :=
        List.mem_map.mpr ⟨p.val, CaseRun.mem_points hStep hCovers, rfl⟩
      have hApart : ∀ ns ∈ [0x130] :: lowerRuns.map CaseRun.points, ((p.val : Int) + r.shift).toNat ∉ ns := fun ns hMem =>
        not_mem_of_bitsOf partners_apart (List.mem_map_of_mem hRun) hPartner hMem
      rw [ofNat?, dif_pos hPoint, Option.getD_some]
      obtain ⟨hDotted', hOthers⟩ := List.forall_mem_cons.mp hApart
      refine isLow_of_uncovered (by simpa using hDotted') fun r' hRun' => ?_
      by_contra hCovers'
      exact hOthers _ (List.mem_map_of_mem hRun') (CaseRun.mem_points (hRuns r' hRun').1 (by simpa using hCovers'))
  · next hNone =>
      exact isLow_of_uncovered hDotted (by simpa using List.find?_eq_none.mp hNone)

theorem isLow_lower (hDotted : p.val ≠ 0x130) : p.lower.IsLow := by
  have hAscii : ∀ n ∈ List.range 0x80, (ofNat? n).all (fun p =>
      p.lower.lower == p.lower && p.lower.isAscii) = true := by decide +kernel
  cases hSmall : p.isAscii with
  | true =>
      have hLow := hAscii p.val (by simpa [isAscii] using hSmall)
      simp only [ofNat?, p.isLt, dite_true, Fin.eta, Option.all_some, Bool.and_eq_true, beq_iff_eq, isAscii,
        decide_eq_true_eq] at hLow
      exact ⟨hLow.1, by omega, by omega⟩
  | false =>
      rw [lower, hSmall, if_neg Bool.false_ne_true, if_neg (by simpa using hDotted)]
      exact isLow_apply hDotted

/-- A small sigma, of either form. -/
def isSmallSigma (p : Point) : Bool := p.val == 0x3C2 || p.val == 0x3C3

/-- A point, a sigma being what it is within a word. -/
def inWord (p : Point) : Point := if p.val == 0x3C2 then ofChar (Char.ofNat 0x3C3) else p

theorem eq_of_inWord {q : Point} (hFree : p.isSmallSigma = false) (h : p.inWord = q.inWord) : p = q := by
  obtain ⟨hFinal, hInner⟩ := Bool.or_eq_false_iff.mp hFree
  simp only [inWord, hFinal, Bool.false_eq_true, if_false] at h
  split at h
  · rw [h] at hInner
    exact absurd hInner (by decide)
  · exact h

end Point

namespace Text

variable {t before before' after after' : Text}

/-! ### Twice -/

theorem isLow_of_mem_lowOf {p q : Point} (h : q ∈ lowOf before after p) : q.IsLow := by
  unfold lowOf at h
  split at h
  · obtain rfl | rfl := List.mem_pair.mp h <;> exact ⟨by decide +kernel, by decide, by decide⟩
  · split at h
    · obtain rfl := List.mem_singleton.mp h
      split <;> exact ⟨by decide +kernel, by decide, by decide⟩
    · next hDotted _ =>
        obtain rfl := List.mem_singleton.mp h
        exact Point.isLow_lower (by simpa using hDotted)

theorem isLow_of_mem_lowerAfter {q : Point} (h : q ∈ lowerAfter before t) : q.IsLow := by
  induction t generalizing before with
  | nil => cases h
  | cons p rest ih =>
      rw [lowerAfter_cons, List.mem_append] at h
      rcases h with hFirst | hRest
      · exact isLow_of_mem_lowOf hFirst
      · exact ih hRest

theorem lowOf_of_isLow {p : Point} (h : p.IsLow) (before after : Text) : lowOf before after p = [p] := by
  simp [lowOf, h.not_dotted, h.not_sigma, h.lower]

theorem lower_of_isLow (h : ∀ p ∈ t, p.IsLow) : t.lower = t := by
  rw [lower_eq_lowerAfter]
  suffices hRun : ∀ before, lowerAfter before t = t from hRun []
  induction t with
  | nil => exact fun _ => rfl
  | cons p rest ih =>
      intro before
      obtain ⟨hFirst, hRest⟩ := List.forall_mem_cons.mp h
      rw [lowerAfter_cons, lowOf_of_isLow hFirst, ih hRest]
      rfl

/-- What is in lower case stays as it is. -/
theorem lower_lower (t : Text) : t.lower.lower = t.lower :=
  lower_of_isLow fun _ hMem => isLow_of_mem_lowerAfter (lower_eq_lowerAfter t ▸ hMem)

/-! ### Parts -/

/-- The lower case of a text with other text around it; `before` holds the points before it, the nearest first. -/
def lowerWithin (before after : Text) : Text → Text
  | [] => []
  | p :: rest => lowOf before (rest ++ after) p ++ lowerWithin (p :: before) after rest

theorem lowerAfter_append (before t after : Text) :
    lowerAfter before (t ++ after) = lowerWithin before after t ++ lowerAfter (t.reverse ++ before) after := by
  induction t generalizing before with
  | nil => rfl
  | cons p rest ih =>
      rw [List.cons_append, lowerAfter_cons, ih, lowerWithin]
      simp

theorem lower_eq_lowerWithin (t : Text) : t.lower = lowerWithin [] [] t := by
  have hWhole := lowerAfter_append [] t []
  rw [List.append_nil, lowerAfter, List.append_nil] at hWhole
  rw [lower_eq_lowerAfter, hWhole]

/-- Whether a capital sigma with this around it is the last letter of a word; `before` has the nearest point first. -/
def endsWord (before after : Text) : Bool := meetsCased before && !meetsCased after

/-- Whether each capital sigma of a text is the last letter of a word in it exactly if it is one within a whole. -/
def KeepsSigmas (before after t : Text) : Prop :=
  ∀ front p back, t = front ++ p :: back → p.val = 0x3A3 →
    endsWord (front.reverse ++ before.reverse) (back ++ after) = endsWord front.reverse back

theorem lowOf_congr_sigma {p : Point} (h : p.val = 0x3A3 → endsWord before after = endsWord before' after') :
    lowOf before after p = lowOf before' after' p := by
  unfold lowOf
  split
  · rfl
  · split
    · next hSigma =>
        have hSame : (meetsCased before && !meetsCased after) = (meetsCased before' && !meetsCased after') :=
          h (by simpa using hSigma)
        rw [hSame]
    · rfl

theorem lowerWithin_congr (h : ∀ front p back, t = front ++ p :: back → p.val = 0x3A3 →
    endsWord (front.reverse ++ before) (back ++ after) = endsWord (front.reverse ++ before') (back ++ after')) :
    lowerWithin before after t = lowerWithin before' after' t := by
  induction t generalizing before before' with
  | nil => rfl
  | cons p rest ih =>
      have hFirst := lowOf_congr_sigma (h [] p rest rfl)
      have hRest : lowerWithin (p :: before) after rest = lowerWithin (p :: before') after' rest := by
        apply ih
        intro front q back hSplit hSigma
        simpa using h (p :: front) q back (by rw [hSplit, List.cons_append]) hSigma
      rw [lowerWithin, lowerWithin, hRest]
      exact congrArg (· ++ _) hFirst

theorem infix_lowerWithin (before after t : Text) :
    lowerWithin before.reverse after t <:+: (before ++ t ++ after).lower := by
  refine ⟨lowerWithin [] (t ++ after) before, lowerAfter (t.reverse ++ before.reverse) after, ?_⟩
  rw [lower_eq_lowerAfter, List.append_assoc, List.append_assoc, lowerAfter_append, List.append_nil,
    lowerAfter_append]

/-- A part whose capital sigmas are kept has its own lower case within the whole. -/
theorem infix_lower (h : KeepsSigmas before after t) : t.lower <:+: (before ++ t ++ after).lower := by
  have hPart : lowerWithin before.reverse after t = t.lower := by
    rw [lower_eq_lowerWithin]
    apply lowerWithin_congr
    intro front p back hSplit hSigma
    rw [List.append_nil, List.append_nil, h front p back hSplit hSigma]
  exact hPart ▸ infix_lowerWithin before after t

theorem map_inWord_lowerWithin (before before' after after' t : Text) :
    (lowerWithin before after t).map Point.inWord = (lowerWithin before' after' t).map Point.inWord := by
  induction t generalizing before before' with
  | nil => rfl
  | cons p rest ih =>
      have hFirst : (lowOf before (rest ++ after) p).map Point.inWord =
          (lowOf before' (rest ++ after') p).map Point.inWord := by
        unfold lowOf
        split
        · rfl
        · split
          · split <;> split <;> decide
          · rfl
      rw [lowerWithin, lowerWithin, List.map_append, List.map_append, hFirst, ih]

theorem eq_of_map_inWord {part u : Text} (hFree : ∀ p ∈ part, p.isSmallSigma = false)
    (h : part.map Point.inWord = u.map Point.inWord) : part = u := by
  induction part generalizing u with
  | nil => exact (List.map_eq_nil_iff.mp h.symm).symm
  | cons p rest ih =>
      obtain ⟨hFirst, hRest⟩ := List.forall_mem_cons.mp hFree
      obtain ⟨q, others, rfl, hPoint, hOthers⟩ := List.map_eq_cons_iff.mp h.symm
      rw [Point.eq_of_inWord hFirst hPoint.symm, ih hRest hOthers.symm]

/-- A part without small sigmas that is in the lower case of a text is in that of every whole, too. -/
theorem infix_lower_of_sigmaless {part : Text} (hFree : ∀ p ∈ part, p.isSmallSigma = false)
    (h : part <:+: t.lower) (before after : Text) : part <:+: (before ++ t ++ after).lower := by
  have hWithin : part.map Point.inWord <:+: (lowerWithin before.reverse after t).map Point.inWord := by
    rw [lower_eq_lowerWithin] at h
    rw [map_inWord_lowerWithin before.reverse [] after []]
    exact h.map _
  obtain ⟨found, hFound, hSame⟩ := List.infix_map_iff.mp hWithin
  obtain rfl : part = found := eq_of_map_inWord hFree hSame
  exact hFound.trans (infix_lowerWithin before after t)

theorem keepsSigmas_of_free (h : ∀ p ∈ t, p.val ≠ 0x3A3) (before after : Text) : KeepsSigmas before after t := by
  intro front p back hSplit hSigma
  exact absurd hSigma (h p (by simp [hSplit]))

/-- Text around a part that does not lengthen a word of it keeps its sigmas. -/
theorem keepsSigmas_of_apart (hBefore : meetsCased before.reverse = false) (hAfter : meetsCased after = false)
    (t : Text) : KeepsSigmas before after t := by
  intro front p back _ _
  rw [endsWord, endsWord, meetsCased_append hBefore, meetsCased_append hAfter]

/-! ### Endings -/

/-- Whether a text ends in an ending, whatever the case of its letters. -/
def EndsAnyCase (t ending : Text) : Prop := ∃ front tail, t = front ++ tail ∧ tail.map Point.lower = ending

/-- Whether a point is an ASCII character, but not `i`, to which one leads that becomes two in lower case. -/
def IsSteady (p : Point) : Prop := p.isAscii = true ∧ p ≠ Point.ofChar 'i'

instance : DecidablePred IsSteady := fun _ => inferInstanceAs (Decidable (_ ∧ _))

/-- Lower case that does not come of the point alone ends in no steady point, nor is the point steady alone. -/
theorem lowOf_cases (before after : Text) (p : Point) : lowOf before after p = [p.lower] ∨
    ¬ IsSteady p.lower ∧ ∃ front q, lowOf before after p = front ++ [q] ∧ ¬ IsSteady q := by
  unfold lowOf
  split
  · next hDotted =>
      obtain rfl : p = ⟨0x130, by decide⟩ := Fin.ext (beq_iff_eq.mp hDotted)
      refine .inr ⟨fun h => h.2 (by decide +kernel), [Point.ofChar 'i'], Point.ofChar (Char.ofNat 0x307), rfl, ?_⟩
      exact fun h => absurd h.1 (by decide)
  · split
    · next hSigma =>
        obtain rfl : p = ⟨0x3A3, by decide⟩ := Fin.ext (beq_iff_eq.mp hSigma)
        refine .inr ⟨fun h => absurd h.1 (by decide +kernel), [], _, rfl, fun h => absurd h.1 ?_⟩
        split <;> decide
    · exact .inl rfl

theorem lowerAfter_eq_iff {e : Text} (h : ∀ p ∈ e, IsSteady p) : lowerAfter before t = e ↔ t.map Point.lower = e := by
  induction t generalizing before e with
  | nil => rfl
  | cons p rest ih =>
      rw [lowerAfter_cons, List.map_cons]
      rcases lowOf_cases before rest p with hSame | ⟨hPoint, front, q, hLow, hLast⟩
      · rw [hSame, List.singleton_append]
        cases e with
        | nil => exact iff_of_false (List.cons_ne_nil _ _) (List.cons_ne_nil _ _)
        | cons q others => rw [List.cons.injEq, List.cons.injEq, ih (List.forall_mem_cons.mp h).2]
      · refine iff_of_false ?_ ?_
        · rintro rfl
          exact hLast (h q (by simp [hLow]))
        · rintro rfl
          exact hPoint (h _ List.mem_cons_self)

theorem endsAnyCase_of_suffix {e : Text} (h : ∀ p ∈ e, IsSteady p) (hEnd : e <:+ lowerAfter before t) :
    t.EndsAnyCase e := by
  induction t generalizing before with
  | nil => exact ⟨[], [], rfl, (List.suffix_nil.mp hEnd).symm⟩
  | cons p rest ih =>
      have hLater (hRest : e <:+ lowerAfter (p :: before) rest) : EndsAnyCase (p :: rest) e := by
        obtain ⟨front, tail, rfl, hTail⟩ := ih hRest
        exact ⟨p :: front, tail, rfl, hTail⟩
      rw [lowerAfter_cons] at hEnd
      rcases List.suffix_or_suffix_of_suffix hEnd (List.suffix_append _ _) with hRest | ⟨more, rfl⟩
      · exact hLater hRest
      · have hMore : more <:+ lowOf before rest p := List.suffix_append_self_iff.mp hEnd
        rcases lowOf_cases before rest p with hSame | ⟨-, front, q, hLow, hLast⟩
        · rw [hSame, List.suffix_cons_iff, List.suffix_nil] at hMore
          rcases hMore with rfl | rfl
          · have hWhole : lowerAfter before (p :: rest) = [p.lower] ++ lowerAfter (p :: before) rest := by
              rw [lowerAfter_cons, hSame]
            exact ⟨[], p :: rest, rfl, (lowerAfter_eq_iff h).mp hWhole⟩
          · exact hLater (List.suffix_refl _)
        · rw [hLow, List.suffix_concat_iff] at hMore
          rcases hMore with rfl | ⟨begun, rfl, -⟩
          · exact hLater (List.suffix_refl _)
          · exact absurd (h q (by simp)) hLast

/-- Lower case ends in steady points exactly if the text does, whatever their case. -/
theorem suffix_lower_iff {e : Text} (h : ∀ p ∈ e, IsSteady p) : e <:+ t.lower ↔ t.EndsAnyCase e := by
  rw [lower_eq_lowerAfter]
  constructor
  · exact endsAnyCase_of_suffix h
  · rintro ⟨front, tail, rfl, hTail⟩
    rw [lowerAfter_append, (lowerAfter_eq_iff h).mpr hTail]
    exact List.suffix_append _ _

end Text
end Conform

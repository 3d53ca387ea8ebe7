import Conform.Proofs.Text.Cutting
import Conform.Text.Case

/-! Lower case and blanks. Blanks have no case, and nothing becomes a blank in lower case, so it makes no
difference whether a text is stripped before or after. -/
namespace Conform

namespace PointSet

variable {n : Nat}

/-- The points of a set with an end, in order. -/
def toList : PointSet → List Nat
  | first :: stop :: rest => List.range' first (stop - first) ++ toList rest
  | _ => []

theorem mem_toList_of_has {bounds : PointSet} (hEven : bounds.length % 2 = 0) (h : bounds.has n = true) :
    n ∈ bounds.toList := by
  match bounds with
  | [] => cases h
  | [_] => cases hEven
  | first :: stop :: rest =>
      rw [toList, List.mem_append, List.mem_range'_1]
      rw [has, has.go, has.go] at h
      by_cases hFirst : n < first
      · rw [if_pos hFirst] at h
        cases h
      · rw [if_neg hFirst] at h
        by_cases hStop : n < stop
        · exact Or.inl (by omega)
        · rw [if_neg hStop] at h
          exact Or.inr (mem_toList_of_has (by simp only [List.length_cons] at hEven; omega) h)

end PointSet

namespace Point

variable {p : Point}

/-- Whether a point has no case of its own and still counts when a word is judged for its end. -/
def isCaseless (p : Point) : Bool :=
  p.val != 0x130 && p.val != 0x3A3 && p.lower == p && !caseIgnorablePoints.has p.val && !casedPoints.has p.val

theorem isCaseless_of_isBlank (h : p.isBlank = true) : p.isCaseless = true := by
  have hAll : ∀ n ∈ blankPoints.toList, (ofNat? n).all isCaseless = true := by decide +kernel
  simpa [ofNat?] using hAll p.val (PointSet.mem_toList_of_has (by decide) h)

theorem isBlank_of_isBlank_apply (h : (CaseRun.apply lowerRuns p).isBlank = true) : p.isBlank = true := by
  have hApart : ∀ r ∈ lowerRuns, ∀ n ∈ blankPoints.toList,
      (n : Int) < r.first + r.shift ∨ r.last + r.shift < n := by decide +kernel
  unfold CaseRun.apply at h
  split at h
  · next r hRun =>
      unfold ofNat? at h
      split at h
      · next hPoint =>
          have hMem := PointSet.mem_toList_of_has (by decide) h
          have hCovers : r.covers p.val = true := by simpa using List.find?_some hRun
          simp only [CaseRun.covers, Bool.and_eq_true, decide_eq_true_eq] at hCovers
          have hRange := hApart r (List.mem_of_find?_eq_some hRun) _ hMem
          have hPositive : ∀ n ∈ blankPoints.toList, 0 < n := by decide +kernel
          have hSome := hPositive _ hMem
          simp only [Option.getD_some] at hRange hSome
          omega
      · exact h
  · exact h

/-- Nothing becomes a blank in lower case. -/
theorem isBlank_of_isBlank_lower (h : p.lower.isBlank = true) : p.isBlank = true := by
  have hAscii : ∀ n ∈ List.range 0x80, (ofNat? n).all (fun p =>
      !(if p.char.isUpper then ofChar p.char.toLower else p).isBlank || p.isBlank) = true := by decide +kernel
  unfold lower at h
  split at h
  · next hSmall =>
      have hLow := hAscii p.val (by simpa [isAscii] using hSmall)
      simp only [ofNat?, p.isLt, dite_true, Fin.eta, Option.all_some, h] at hLow
      simpa using hLow
  · split at h
    · cases h
    · exact isBlank_of_isBlank_apply h

end Point

namespace Text

variable {t before before' rest rest' after : Text} {p : Point}

/-! ### What stands around a point -/

theorem meetsCased_cons (p : Point) (t : Text) :
    meetsCased (p :: t) = if caseIgnorablePoints.has p.val then meetsCased t else casedPoints.has p.val := by
  cases h : caseIgnorablePoints.has p.val <;> simp [meetsCased, h]

theorem meetsCased_blank_cons (h : p.isBlank = true) (t : Text) : meetsCased (p :: t) = false := by
  have hCaseless := Point.isCaseless_of_isBlank h
  simp only [Point.isCaseless, Bool.and_eq_true, Bool.not_eq_true'] at hCaseless
  rw [meetsCased_cons, hCaseless.1.2, hCaseless.2]
  rfl

theorem meetsCased_blanks (h : ∀ p ∈ t, p.isBlank = true) : meetsCased t = false := by
  cases t with
  | nil => rfl
  | cons p rest => exact meetsCased_blank_cons (h p List.mem_cons_self) rest

theorem meetsCased_append (h : meetsCased after = false) (t : Text) : meetsCased (t ++ after) = meetsCased t := by
  induction t with
  | nil => exact h
  | cons p rest ih => rw [List.cons_append, meetsCased_cons, meetsCased_cons, ih]

theorem meetsCased_append_blanks (h : ∀ p ∈ after, p.isBlank = true) (t : Text) :
    meetsCased (t ++ after) = meetsCased t :=
  meetsCased_append (meetsCased_blanks h) t

/-! ### One point after the other -/

/-- The lower case of a point between others. -/
def lowOf (before rest : Text) (p : Point) : Text :=
  if p.val == 0x130 then [Point.ofChar 'i', Point.ofChar (Char.ofNat 0x307)]
  else if p.val == 0x3A3 then
    [Point.ofChar (Char.ofNat (if meetsCased before && !meetsCased rest then 0x3C2 else 0x3C3))]
  else [p.lower]

theorem lowerAfter_cons (before : Text) (p : Point) (rest : Text) :
    lowerAfter before (p :: rest) = lowOf before rest p ++ lowerAfter (p :: before) rest := rfl

theorem lowOf_blank (h : p.isBlank = true) (before rest : Text) : lowOf before rest p = [p] := by
  have hCaseless := Point.isCaseless_of_isBlank h
  simp only [Point.isCaseless, Bool.and_eq_true, bne_iff_ne, ne_eq, beq_iff_eq] at hCaseless
  obtain ⟨⟨⟨⟨hDotted, hSigma⟩, hLower⟩, -⟩, -⟩ := hCaseless
  simp [lowOf, hDotted, hSigma, hLower]

theorem lowOf_congr (hBefore : meetsCased before = meetsCased before') (hRest : meetsCased rest = meetsCased rest')
    (p : Point) : lowOf before rest p = lowOf before' rest' p := by
  unfold lowOf
  rw [hBefore, hRest]

/-- Where there was no blank, there is none in lower case. -/
theorem lowOf_spec (h : p.isBlank = false) (before rest : Text) :
    lowOf before rest p ≠ [] ∧ ∀ q ∈ lowOf before rest p, q.isBlank = false := by
  unfold lowOf
  split
  · refine ⟨List.cons_ne_nil _ _, List.forall_mem_cons.mpr ⟨by decide, List.forall_mem_singleton.mpr (by decide)⟩⟩
  · split
    · refine ⟨List.cons_ne_nil _ _, List.forall_mem_singleton.mpr ?_⟩
      split <;> decide
    · refine ⟨List.cons_ne_nil _ _, fun q hMem => ?_⟩
      obtain rfl := List.mem_singleton.mp hMem
      cases hLow : p.lower.isBlank with
      | false => rfl
      | true => exact absurd (Point.isBlank_of_isBlank_lower hLow) (by simp [h])

theorem lowerAfter_congr (h : meetsCased before = meetsCased before') (t : Text) :
    lowerAfter before t = lowerAfter before' t := by
  induction t generalizing before before' with
  | nil => rfl
  | cons p rest ih =>
      have hNext : meetsCased (p :: before) = meetsCased (p :: before') := by
        rw [meetsCased_cons, meetsCased_cons, h]
      rw [lowerAfter_cons, lowerAfter_cons, lowOf_congr h rfl, ih hNext]

theorem lowerAfter_blanks_append (h : ∀ p ∈ rest, p.isBlank = true) (before t : Text) :
    lowerAfter before (rest ++ t) = rest ++ lowerAfter (rest.reverse ++ before) t := by
  induction rest generalizing before with
  | nil => rfl
  | cons p rest ih =>
      obtain ⟨hFirst, hRest⟩ := List.forall_mem_cons.mp h
      rw [List.cons_append, lowerAfter_cons, lowOf_blank hFirst, ih hRest]
      simp

theorem lowerAfter_append_blanks (h : ∀ p ∈ after, p.isBlank = true) (before t : Text) :
    lowerAfter before (t ++ after) = lowerAfter before t ++ after := by
  induction t generalizing before with
  | nil => simpa [lowerAfter] using lowerAfter_blanks_append h before []
  | cons p rest ih =>
      rw [List.cons_append, lowerAfter_cons, lowerAfter_cons, ih, lowOf_congr rfl (meetsCased_append_blanks h rest),
        List.append_assoc]

/-! ### Whole texts -/

theorem lower_eq_lowerAfter (t : Text) : t.lower = lowerAfter [] t := by
  unfold lower
  split
  · next hAscii =>
      suffices hRun : ∀ before, lowerAfter before t = t.map Point.lower from (hRun []).symm
      induction t with
      | nil => exact fun _ => rfl
      | cons p rest ih =>
          intro before
          simp only [isAscii, List.all_cons, Bool.and_eq_true, Point.isAscii, decide_eq_true_eq] at hAscii
          have hLow : lowOf before rest p = [p.lower] := by
            have hDotted : p.val ≠ 0x130 := by omega
            have hSigma : p.val ≠ 0x3A3 := by omega
            simp [lowOf, hDotted, hSigma]
          rw [lowerAfter_cons, hLow, ih hAscii.2]
          rfl
  · rfl

theorem lower_blanks (hBefore : ∀ p ∈ before, p.isBlank = true) (hAfter : ∀ p ∈ after, p.isBlank = true) (t : Text) :
    lower (before ++ t ++ after) = before ++ lower t ++ after := by
  have hStart : meetsCased before.reverse = meetsCased [] :=
    meetsCased_blanks fun p hMem => hBefore p (List.mem_reverse.mp hMem)
  rw [lower_eq_lowerAfter, lower_eq_lowerAfter, lowerAfter_append_blanks hAfter, lowerAfter_blanks_append hBefore,
    List.append_nil, lowerAfter_congr hStart]

theorem lowOf_ne_nil (before rest : Text) (p : Point) : lowOf before rest p ≠ [] := by
  cases h : p.isBlank with
  | false => exact (lowOf_spec h before rest).1
  | true => exact lowOf_blank h before rest ▸ List.cons_ne_nil p []

theorem not_blank_getLast?_lowerAfter (h : ∀ p ∈ t.getLast?, p.isBlank = false) (before : Text) :
    ∀ q ∈ (lowerAfter before t).getLast?, q.isBlank = false := by
  induction t generalizing before with
  | nil => exact nofun
  | cons p rest ih =>
      intro q hMem
      rw [lowerAfter_cons] at hMem
      cases rest with
      | nil =>
          rw [lowerAfter, List.append_nil] at hMem
          exact (lowOf_spec (h p rfl) before []).2 q (List.mem_of_getLast? hMem)
      | cons next rest =>
          have hRest : lowerAfter (p :: before) (next :: rest) ≠ [] :=
            List.append_ne_nil_of_left_ne_nil (lowOf_ne_nil _ _ _) _
          rw [List.getLast?_append_of_ne_nil _ hRest] at hMem
          exact ih (by simpa using h) _ q hMem

theorem isTrimmed_lower (h : IsTrimmed t) : IsTrimmed t.lower := by
  obtain ⟨hFirst, hLast⟩ := isTrimmed_iff.mp h
  rw [lower_eq_lowerAfter]
  refine isTrimmed_iff.mpr ⟨?_, not_blank_getLast?_lowerAfter hLast []⟩
  cases t with
  | nil => exact nofun
  | cons p rest =>
      obtain ⟨hSome, hLow⟩ := lowOf_spec (hFirst p rfl) [] rest
      intro q hMem
      rw [lowerAfter_cons, List.head?_append_of_ne_nil _ hSome] at hMem
      exact hLow q (List.mem_of_mem_head? hMem)

/-- A text may be stripped before or after it is put into lower case. -/
theorem strip_lower (t : Text) : t.lower.strip = t.strip.lower := by
  obtain ⟨before, after, hText, hBefore, hAfter⟩ := exists_blanks t
  calc t.lower.strip = (before ++ t.strip.lower ++ after).strip := by rw [← lower_blanks hBefore hAfter, ← hText]
    _ = t.strip.lower.strip := strip_blanks hBefore hAfter _
    _ = t.strip.lower := isTrimmed_lower (isTrimmed_strip t)

end Text
end Conform

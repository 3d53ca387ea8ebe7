import Conform.Moment
import Conform.Proofs.Text.Numeral

/-! Texts without a given character. What numbers and dates are written with is made of digits and of a few marks. -/
namespace Conform

namespace Text

/-- Whether a text is without a character. -/
def Lacks (c : Char) (t : Text) : Prop := ∀ p ∈ t, p.char ≠ c

variable {c : Char} {t u : Text}

instance (c : Char) (t : Text) : Decidable (Lacks c t) :=
  decidable_of_iff (t.all (·.char != c) = true) (by simp [Lacks])

theorem lacks_append (h : Lacks c t) (hRest : Lacks c u) : Lacks c (t ++ u) := fun p hMem =>
  (List.mem_append.mp hMem).elim (h p) (hRest p)

theorem lacks_of_subset (h : Lacks c t) (hSub : u ⊆ t) : Lacks c u := fun p hMem => h p (hSub hMem)

theorem lacks_replicate (fill : Char) (hFill : (Point.ofChar fill).char ≠ c) (n : Nat) :
    Lacks c (List.replicate n (Point.ofChar fill)) := by
  intro p hMem
  rw [List.eq_of_mem_replicate hMem]
  exact hFill

/-- Whether a character is none of those that stand for digits. -/
def IsMark (c : Char) : Prop := ∀ d < 10, (digitPoint d).char ≠ c

instance (c : Char) : Decidable (IsMark c) := inferInstanceAs (Decidable (∀ d < 10, _))

theorem lacks_ofNat (h : IsMark c) (n : Nat) : Lacks c (ofNat n) := by
  intro p hMem
  rw [ofNat_eq_spell] at hMem
  obtain ⟨d, hDigit, rfl⟩ := List.mem_map.mp hMem
  exact h d (areDigits_decimals n d hDigit)

theorem lacks_padLeft (h : IsMark c) (width : Nat) (hText : Lacks c t) : Lacks c (padLeft '0' width t) :=
  lacks_append (lacks_replicate '0' (h 0 (by decide)) _) hText

theorem lacks_ofInt (h : IsMark c) (hSign : c ≠ '-') (n : Int) : Lacks c (ofInt n) := by
  cases n with
  | ofNat n => exact lacks_ofNat h n
  | negSucc n =>
      have hMinus : (Point.ofChar '-').char ≠ c := fun hSame => hSign (by rw [← hSame]; decide)
      exact List.forall_mem_cons.mpr ⟨hMinus, lacks_ofNat h (n + 1)⟩

end Text

open Text

theorem Double.lacks_display (x : Double) : Lacks '$' x.display := by
  have hMark : IsMark '$' := by decide
  have hSign : ∀ (s : Bool) {t : Text}, Lacks '$' t → Lacks '$' (sign s t) := by
    intro s t h
    cases s with
    | true => exact lacks_append (by decide) h
    | false => exact h
  cases x with
  | nan => decide
  | infinite s => exact hSign s (by decide)
  | finite s m e =>
      simp only [display]
      split
      · exact hSign s (by decide)
      · have hDigits := lacks_ofNat hMark (dropZeros 20 (shortest m e)).1
        generalize ofNat (dropZeros 20 (shortest m e)).1 = ds at hDigits ⊢
        have hTake : ∀ k, Lacks '$' (ds.take k) := fun k => lacks_of_subset hDigits (List.take_subset k ds)
        have hDrop : ∀ k, Lacks '$' (ds.drop k) := fun k => lacks_of_subset hDigits (List.drop_subset k ds)
        have hZeros : ∀ k, Lacks '$' (repeatChar k '0') := lacks_replicate '0' (by decide)
        refine hSign s ?_
        split
        · split
          · exact lacks_append (lacks_append (by decide) (hZeros _)) hDigits
          · split
            · exact lacks_append (lacks_append (hTake _) (by decide)) (hDrop _)
            · exact lacks_append (lacks_append hDigits (hZeros _)) (by decide)
        · refine lacks_append (lacks_append (lacks_append (lacks_append (hTake 1) ?_) (by decide)) ?_)
            (lacks_padLeft hMark 2 (lacks_ofNat hMark _))
          · split
            · decide
            · exact lacks_append (by decide) (hDrop 1)
          · split <;> decide

theorem Date.lacks_display {c : Char} (h : IsMark c) (hDash : Lacks c "-") (d : Date) : Lacks c d.display :=
  have hPadded : ∀ width n, Lacks c (padLeft '0' width (ofNat n)) := fun width n => lacks_padLeft h width (lacks_ofNat h n)
  lacks_append (lacks_append (lacks_append (lacks_append (hPadded 4 _) hDash) (hPadded 2 _)) hDash) (hPadded 2 _)

theorem Moment.lacks_display (m : Moment) : Lacks '$' m.display := by
  have hMark : IsMark '$' := by decide
  have hPadded : ∀ width n, Lacks '$' (padLeft '0' width (ofNat n)) := fun width n =>
    lacks_padLeft hMark width (lacks_ofNat hMark n)
  have hDate := Date.lacks_display hMark (by decide) m.date
  unfold display
  split
  · exact hDate
  · refine lacks_append (lacks_append hDate (by decide)) ?_
    unfold Time.display
    refine lacks_append (lacks_append (lacks_append (lacks_append (lacks_append (lacks_append (hPadded 2 _) (by decide))
      (hPadded 2 _)) (by decide)) (hPadded 2 _)) ?_) ?_
    · split
      · decide
      · exact lacks_append (by decide) (hPadded 6 _)
    · split
      · decide
      · unfold Time.displayOffset
        refine lacks_append (lacks_append (lacks_append ?_ (hPadded 2 _)) (by decide)) (hPadded 2 _)
        split <;> decide

end Conform

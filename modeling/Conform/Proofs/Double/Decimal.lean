import Conform.Proofs.Double
import Conform.Proofs.Text.Numeral

/-! The decimal text of a floating-point number reads back as that number. -/
namespace Conform.Double

open Text (decimals)

variable {s : Bool} {m d : Nat} {e p : Int} {x : Double}

section Shortest

theorem ofRatio_sign {num den : Nat} (h : ofRatio false num den = finite false m e) (s : Bool) :
    ofRatio s num den = finite s m e := by
  unfold ofRatio at h ⊢
  split at h
  · next hZero =>
      rw [if_pos hZero]
      cases h
      rfl
  · next hSome =>
      rw [if_neg hSome]
      dsimp only at h ⊢
      generalize (if _ = Nat.pow 2 53 then _ else _ : Nat × Int) = rounded at h ⊢
      split at h
      · cases h
      · next hSmall =>
          rw [if_neg hSmall]
          cases h
          rfl

/-- The sign goes through the reading of digits. -/
theorem ofDecimal_sign (h : ofDecimal false d p = finite false m e) (s : Bool) :
    ofDecimal s d p = finite s m e := by
  unfold ofDecimal at h ⊢
  split at h
  · next hZero =>
      rw [if_pos hZero]
      cases h
      rfl
  · next hSome =>
      rw [if_neg hSome]
      dsimp only at h ⊢
      split at h
      · cases h
      · next hLow =>
          rw [if_neg hLow]
          split at h
          · next hHigh =>
              rw [if_pos hHigh]
              cases h
              rfl
          · next hHigh =>
              rw [if_neg hHigh]
              exact ofRatio_sign h s

/-- Zeros at the end of the digits do not matter if the power makes up for them. -/
theorem ofDecimal_mul_pow (s : Bool) (hPos : 0 < d) (p : Int) (k : Nat) :
    ofDecimal s (d * 10 ^ k) (p - k) = ofDecimal s d p := by
  have hLength : ((Nat.toDigits 10 (d * 10 ^ k)).length : Int) + (p - k) =
      (Nat.toDigits 10 d).length + p := by
    rw [Text.length_toDigits, Text.length_toDigits, Text.decimals_mul_pow hPos, List.length_append,
      List.length_replicate]
    omega
  have hSame : ofRatio s (d * 10 ^ k * 10 ^ (p - k).toNat) (10 ^ (-(p - k)).toNat) =
      ofRatio s (d * 10 ^ p.toNat) (10 ^ (-p).toNat) := by
    refine ofRatio_congr s (by positivity) (by positivity) ?_
    have hPowers : k + (p - k).toNat + (-p).toNat = p.toNat + (-(p - k)).toNat := by omega
    rw [mul_assoc d, mul_assoc d, mul_assoc d, ← pow_add, ← pow_add, ← pow_add, hPowers]
  unfold ofDecimal
  simp only [Nat.pow_eq]
  rw [if_neg (by positivity), if_neg hPos.ne']
  rw [hLength, hSame]

/-- All digits of a number are its value. -/
theorem ofDecimal_exact (hNormal : (finite false m e).Normal) (hPos : 0 < m) :
    ofDecimal false (exact m e).1 (exact m e).2 = finite false m e := by
  have hSelf := ofRatio_self hNormal
  obtain ⟨hBelow, hMin, hMax, _⟩ := hNormal
  simp only [minExponent, maxExponent] at hMin hMax
  simp only [exact, Nat.pow_eq]
  generalize hUp : e.toNat = up
  generalize hDown : (-e).toNat = down
  rw [hUp, hDown] at hSelf
  have hDigits : 0 < m * 2 ^ up * 5 ^ down := by positivity
  -- The number of digits keeps the value within the range in which it is computed.
  have hMost : (decimals (m * 2 ^ up * 5 ^ down)).length ≤ 310 + down := by
    rw [Text.length_decimals_le (by omega)]
    have hUpBound : 2 ^ up ≤ 2 ^ 971 := Nat.pow_le_pow_right (by omega) (by omega)
    have hDownBound : 5 ^ down ≤ 10 ^ down := Nat.pow_le_pow_left (by omega) down
    calc m * 2 ^ up * 5 ^ down < 2 ^ 53 * 2 ^ 971 * 10 ^ down :=
          Nat.mul_lt_mul_of_lt_of_le (Nat.mul_lt_mul_of_lt_of_le hBelow hUpBound (by positivity))
            hDownBound (by positivity)
      _ ≤ 10 ^ 310 * 10 ^ down := Nat.mul_le_mul_right _ (by decide +kernel)
      _ = 10 ^ (310 + down) := (pow_add 10 310 down).symm
  have hLeast : down < (decimals (m * 2 ^ up * 5 ^ down)).length + 401 := by
    by_contra hShort
    obtain ⟨rest, rfl⟩ : ∃ rest, down = rest + 401 := ⟨down - 401, by omega⟩
    have hFew : (decimals (m * 2 ^ up * 5 ^ (rest + 401))).length ≤ rest := by omega
    have hSome : 0 < rest := lt_of_lt_of_le (List.length_pos_iff.mpr (Text.decimals_ne_nil _)) hFew
    rw [Text.length_decimals_le hSome] at hFew
    have hTwos : 2 ^ rest ≤ 5 ^ 401 :=
      (Nat.pow_le_pow_right (by omega) (show rest ≤ 673 by omega)).trans (by decide +kernel)
    have hTens : 10 ^ rest ≤ 5 ^ (rest + 401) := by
      rw [show (10 : Nat) = 5 * 2 by norm_num, mul_pow, pow_add]
      exact Nat.mul_le_mul_left _ hTwos
    have hOnes : 1 ≤ m * 2 ^ up := Nat.mul_pos hPos (by positivity)
    have hAbove : 10 ^ rest ≤ m * 2 ^ up * 5 ^ (rest + 401) :=
      hTens.trans (Nat.le_mul_of_pos_left _ hOnes)
    omega
  unfold ofDecimal
  simp only [Nat.pow_eq]
  rw [if_neg hDigits.ne']
  rw [Text.length_toDigits, if_neg (by omega), if_neg (by omega)]
  rw [← hSelf]
  refine ofRatio_congr false (by positivity) (by positivity) ?_
  have hZero : (-(down : Int)).toNat = 0 := by omega
  have hSame : (-(-(down : Int))).toNat = down := by omega
  rw [hZero, hSame, pow_zero, mul_one, show (10 : Nat) = 5 * 2 by norm_num, mul_pow]
  ring

/-- The shortest digits read back as the number. -/
theorem ofDecimal_shortest (hNormal : (finite false m e).Normal) (hPos : 0 < m) :
    ofDecimal false (shortest m e).1 (shortest m e).2 = finite false m e := by
  have hGo : ∀ num den place left n,
      ofDecimal false (shortest.go num den place (finite false m e) (exact m e) left n).1
        (shortest.go num den place (finite false m e) (exact m e) left n).2 = finite false m e := by
    intro num den place left
    induction left with
    | zero => exact fun n => ofDecimal_exact hNormal hPos
    | succ left ih =>
        intro n
        unfold shortest.go
        dsimp only
        split
        · next hLow => exact eq_of_beq (Bool.and_eq_true_iff.mp hLow).1
        · split
          · next hHigh => exact eq_of_beq hHigh
          · exact ih (n + 1)
  exact hGo ..

theorem dropZeros_spec (fuel : Nat) (hPos : 0 < d) : ∃ k : Nat,
    d = (dropZeros fuel (d, p)).1 * 10 ^ k ∧ p = (dropZeros fuel (d, p)).2 - k := by
  induction fuel generalizing d p with
  | zero => exact ⟨0, by simp [dropZeros]⟩
  | succ fuel ih =>
      unfold dropZeros
      split
      · next hZero =>
          obtain ⟨k, hDigits, hPower⟩ := ih (d := d / 10) (p := p + 1) (by omega)
          refine ⟨k + 1, ?_, by push_cast; omega⟩
          rw [pow_succ, ← mul_assoc, ← hDigits]
          omega
      · exact ⟨0, by simp⟩

end Shortest

end Conform.Double

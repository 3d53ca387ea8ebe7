import Conform.Double.Decimal
import Mathlib.Data.Int.Log
import Mathlib.Data.Rat.Floor
import Mathlib.Tactic.FieldSimp
import Mathlib.Tactic.NormNum
import Mathlib.Tactic.Ring

/-! Rounding. What it gives depends on the value of a quotient only, has the mantissa and exponent
that its value calls for, and a number that is already of that kind is its own rounding. -/
namespace Conform.Double

/-- Whether mantissa and exponent are those that the value calls for. -/
def Normal : Double → Prop
  | finite _ m e =>
    m < 2 ^ 53 ∧ minExponent ≤ e ∧ e ≤ maxExponent ∧ (2 ^ 52 ≤ m ∨ e = minExponent)
  | _ => True

section Rounding

variable {num den num' den' n d m : Nat} {e : Int}

theorem scaled_ratio (num den : Nat) (e : Int) :
    ((scaled num den e).1 : ℚ) / (scaled num den e).2 = num / den / 2 ^ e := by
  simp only [scaled, Nat.pow_eq]
  rcases le_total 0 e with hSign | hSign
  · obtain ⟨k, rfl⟩ := Int.eq_ofNat_of_zero_le hSign
    simp [div_div]
  · obtain ⟨k, hk⟩ := Int.eq_ofNat_of_zero_le (Int.neg_nonneg.mpr hSign)
    obtain rfl : e = -(k : Int) := by omega
    simp only [neg_neg, Int.toNat_natCast, Int.toNat_neg_natCast, zpow_neg, zpow_natCast, div_inv_eq_mul]
    push_cast
    ring

theorem scaled_pos (num : Nat) (hDen : 0 < den) (e : Int) : 0 < (scaled num den e).2 :=
  Nat.mul_pos hDen (Nat.two_pow_pos _)

/-- The value lies between two neighbouring powers of two, of which the logarithms tell. -/
theorem log2_bounds (hNum : 0 < num) (hDen : 0 < den) :
    (2 : ℚ) ^ ((Nat.log2 num : Int) - Nat.log2 den - 1) ≤ num / den ∧
      (num : ℚ) / den < 2 ^ ((Nat.log2 num : Int) - Nat.log2 den + 1) := by
  have hLow : (2 : ℚ) ^ Nat.log2 num ≤ num := by exact_mod_cast Nat.log2_self_le hNum.ne'
  have hHigh : (num : ℚ) < 2 ^ (Nat.log2 num + 1) := by exact_mod_cast Nat.lt_log2_self
  have hLow' : (2 : ℚ) ^ Nat.log2 den ≤ den := by exact_mod_cast Nat.log2_self_le hDen.ne'
  have hHigh' : (den : ℚ) < 2 ^ (Nat.log2 den + 1) := by exact_mod_cast Nat.lt_log2_self
  have hDenQ : (0 : ℚ) < den := by exact_mod_cast hDen
  have hTwo : (2 : ℚ) ≠ 0 := two_ne_zero
  constructor
  · rw [le_div_iff₀ hDenQ, zpow_sub_one₀ hTwo, zpow_sub₀ hTwo, zpow_natCast, zpow_natCast]
    have hPow : (0 : ℚ) < 2 ^ Nat.log2 den := by positivity
    calc (2 : ℚ) ^ Nat.log2 num / 2 ^ Nat.log2 den * 2⁻¹ * den
        ≤ 2 ^ Nat.log2 num / 2 ^ Nat.log2 den * 2⁻¹ * 2 ^ (Nat.log2 den + 1) := by gcongr
      _ = 2 ^ Nat.log2 num := by rw [pow_succ]; field_simp
      _ ≤ num := hLow
  · rw [div_lt_iff₀ hDenQ, zpow_add_one₀ hTwo, zpow_sub₀ hTwo, zpow_natCast, zpow_natCast]
    have hPow : (0 : ℚ) < 2 ^ Nat.log2 den := by positivity
    calc (num : ℚ) < 2 ^ (Nat.log2 num + 1) := hHigh
      _ = 2 ^ Nat.log2 num / 2 ^ Nat.log2 den * 2 * 2 ^ Nat.log2 den := by rw [pow_succ]; field_simp
      _ ≤ 2 ^ Nat.log2 num / 2 ^ Nat.log2 den * 2 * den := by gcongr

/-- The fitting exponent is a matter of the value alone. -/
theorem fittingExponent_eq (hNum : 0 < num) (hDen : 0 < den) :
    fittingExponent num den = max minExponent (Int.log 2 ((num : ℚ) / den) - 52) := by
  have hPos : (0 : ℚ) < num / den := by
    have hNumQ : (0 : ℚ) < num := by exact_mod_cast hNum
    have hDenQ : (0 : ℚ) < den := by exact_mod_cast hDen
    exact div_pos hNumQ hDenQ
  have hBounds := log2_bounds hNum hDen
  unfold fittingExponent
  dsimp only
  generalize (Nat.log2 num : Int) - Nat.log2 den = l at *
  have hLowLog := (Int.zpow_le_iff_le_log (b := 2) one_lt_two hPos).mp (by exact_mod_cast hBounds.1)
  have hHighLog := (Int.lt_zpow_iff_log_lt (b := 2) one_lt_two hPos).mp (by exact_mod_cast hBounds.2)
  have hRatio := scaled_ratio num den l
  have hScaledPos : (0 : ℚ) < (scaled num den l).2 := by exact_mod_cast scaled_pos num hDen l
  have hPowPos : (0 : ℚ) < 2 ^ l := zpow_pos two_pos l
  split
  · next hLess =>
      have hBelow : (num : ℚ) / den < 2 ^ l := by
        rw [← div_lt_one hPowPos, ← hRatio, div_lt_one hScaledPos]
        exact_mod_cast hLess
      have hLog := (Int.lt_zpow_iff_log_lt (b := 2) one_lt_two hPos).mp (by exact_mod_cast hBelow)
      congr 1
      omega
  · next hMore =>
      have hAbove : (2 : ℚ) ^ l ≤ num / den := by
        rw [← one_le_div hPowPos, ← hRatio, one_le_div hScaledPos]
        exact_mod_cast Nat.le_of_not_lt hMore
      have hLog := (Int.zpow_le_iff_le_log (b := 2) one_lt_two hPos).mp (by exact_mod_cast hAbove)
      congr 1
      omega

theorem divRoundEven_le {bound : Nat} (hBelow : n < d * bound) : divRoundEven n d ≤ bound := by
  have hQuotient : n / d < bound := Nat.div_lt_of_lt_mul hBelow
  unfold divRoundEven
  dsimp only
  split_ifs <;> omega

theorem le_divRoundEven {bound : Nat} (hPos : 0 < d) (hAbove : d * bound ≤ n) :
    bound ≤ divRoundEven n d := by
  have hQuotient : bound ≤ n / d := (Nat.le_div_iff_mul_le hPos).mpr (by rwa [Nat.mul_comm])
  unfold divRoundEven
  dsimp only
  split_ifs <;> omega

theorem divRoundEven_mul {k : Nat} (hPos : 0 < k) (n d : Nat) :
    divRoundEven (k * n) (k * d) = divRoundEven n d := by
  unfold divRoundEven
  simp only [Nat.mul_div_mul_left _ _ hPos, Nat.mul_mod_mul_left]
  have hLess : ∀ a b, 2 * (k * a) < k * b ↔ 2 * a < b := fun a b => by
    rw [Nat.mul_left_comm]
    exact Nat.mul_lt_mul_left hPos
  have hMore : ∀ a b, k * b < 2 * (k * a) ↔ b < 2 * a := fun a b => by
    rw [Nat.mul_left_comm]
    exact Nat.mul_lt_mul_left hPos
  simp only [hLess, hMore]

/-- A whole quotient is not rounded. -/
theorem divRoundEven_self (hPos : 0 < d) (m : Nat) : divRoundEven (m * d) d = m := by
  unfold divRoundEven
  simp [Nat.mul_div_cancel _ hPos, hPos]

/-- Quotients of one value round to one number. -/
theorem divRoundEven_congr (hDen : 0 < den) (hDen' : 0 < den') (hSame : num * den' = num' * den) :
    divRoundEven num den = divRoundEven num' den' := by
  rw [← divRoundEven_mul hDen' num den, ← divRoundEven_mul hDen num' den', Nat.mul_comm den' num,
    hSame, Nat.mul_comm num' den, Nat.mul_comm den' den]

/-- Rounding depends on the value of the quotient only. -/
theorem ofRatio_congr (negative : Bool) (hDen : 0 < den) (hDen' : 0 < den')
    (hSame : num * den' = num' * den) : ofRatio negative num den = ofRatio negative num' den' := by
  rcases Nat.eq_zero_or_pos num with rfl | hNum
  · obtain rfl : num' = 0 := by
      rw [Nat.zero_mul] at hSame
      exact (Nat.mul_eq_zero.mp hSame.symm).resolve_right hDen.ne'
    rfl
  · have hNum' : 0 < num' := by
      refine Nat.pos_of_ne_zero fun hZero => ?_
      rw [hZero, Nat.zero_mul] at hSame
      exact (Nat.mul_pos hNum hDen').ne' hSame
    have hValue : (num : ℚ) / den = num' / den' := by
      rw [div_eq_div_iff (by exact_mod_cast hDen.ne') (by exact_mod_cast hDen'.ne')]
      exact_mod_cast hSame
    have hExponent : fittingExponent num den = fittingExponent num' den' := by
      rw [fittingExponent_eq hNum hDen, fittingExponent_eq hNum' hDen', hValue]
    have hRound : divRoundEven (scaled num den (fittingExponent num' den')).1
          (scaled num den (fittingExponent num' den')).2 =
        divRoundEven (scaled num' den' (fittingExponent num' den')).1
          (scaled num' den' (fittingExponent num' den')).2 := by
      refine divRoundEven_congr (scaled_pos num hDen _) (scaled_pos num' hDen' _) ?_
      simp only [scaled]
      rw [Nat.mul_mul_mul_comm, hSame, Nat.mul_mul_mul_comm]
    unfold ofRatio
    rw [if_neg hNum.ne', if_neg hNum'.ne', hExponent]
    simp only [hRound]

/-- The mantissa before the last correction is at most that of the next power of two, and it is
large unless the exponent is the least. -/
theorem rounded_bounds (hNum : 0 < num) (hDen : 0 < den) :
    divRoundEven (scaled num den (fittingExponent num den)).1
        (scaled num den (fittingExponent num den)).2 ≤ 2 ^ 53 ∧
      (2 ^ 52 ≤ divRoundEven (scaled num den (fittingExponent num den)).1
          (scaled num den (fittingExponent num den)).2 ∨ fittingExponent num den = minExponent) := by
  have hPos : (0 : ℚ) < num / den := by
    have hNumQ : (0 : ℚ) < num := by exact_mod_cast hNum
    have hDenQ : (0 : ℚ) < den := by exact_mod_cast hDen
    exact div_pos hNumQ hDenQ
  have hFit := fittingExponent_eq hNum hDen
  generalize fittingExponent num den = e at *
  have hScaled := scaled_pos num hDen e
  have hScaledQ : (0 : ℚ) < (scaled num den e).2 := by exact_mod_cast hScaled
  have hRatio := scaled_ratio num den e
  have hPow : (0 : ℚ) < 2 ^ e := zpow_pos two_pos e
  have hTwo : (2 : ℚ) ≠ 0 := two_ne_zero
  constructor
  · refine divRoundEven_le ?_
    have hBelow : (num : ℚ) / den < 2 ^ (e + 53) := by
      have hLog := Int.lt_zpow_succ_log_self (b := 2) one_lt_two ((num : ℚ) / den)
      refine lt_of_lt_of_le (by exact_mod_cast hLog) (zpow_le_zpow_right₀ one_le_two ?_)
      omega
    have hQuotient : ((scaled num den e).1 : ℚ) / (scaled num den e).2 < 2 ^ 53 := by
      rw [hRatio, div_lt_iff₀ hPow, ← zpow_natCast, ← zpow_add₀ hTwo]
      exact_mod_cast (by rwa [add_comm] : (num : ℚ) / den < 2 ^ (53 + e))
    rw [div_lt_iff₀ hScaledQ] at hQuotient
    rw [Nat.mul_comm]
    exact_mod_cast hQuotient
  · rcases eq_or_ne e minExponent with hLeast | hLarger
    · exact Or.inr hLeast
    · refine Or.inl (le_divRoundEven hScaled ?_)
      have hAbove : (2 : ℚ) ^ (e + 52) ≤ num / den := by
        have hLog := Int.zpow_log_le_self (b := 2) one_lt_two hPos
        refine le_trans (zpow_le_zpow_right₀ one_le_two ?_) (by exact_mod_cast hLog)
        omega
      have hQuotient : 2 ^ 52 ≤ ((scaled num den e).1 : ℚ) / (scaled num den e).2 := by
        rw [hRatio, le_div_iff₀ hPow, ← zpow_natCast, ← zpow_add₀ hTwo]
        exact_mod_cast (by rwa [add_comm] : (2 : ℚ) ^ (52 + e) ≤ num / den)
      rw [le_div_iff₀ hScaledQ] at hQuotient
      rw [Nat.mul_comm]
      exact_mod_cast hQuotient

theorem ofRatio_normal (negative : Bool) (hDen : 0 < den) : (ofRatio negative num den).Normal := by
  rcases Nat.eq_zero_or_pos num with rfl | hNum
  · exact ⟨by norm_num, le_refl _, by decide, Or.inr rfl⟩
  · obtain ⟨hMost, hLeast⟩ := rounded_bounds hNum hDen
    have hMin : minExponent ≤ fittingExponent num den := by
      rw [fittingExponent_eq hNum hDen]
      exact le_max_left _ _
    unfold ofRatio
    rw [if_neg hNum.ne']
    generalize fittingExponent num den = e at *
    dsimp only
    generalize divRoundEven (scaled num den e).1 (scaled num den e).2 = m at *
    simp only [Nat.pow_eq]
    by_cases hCarry : m = 2 ^ 53
    · simp only [if_pos hCarry]
      split
      · trivial
      · exact ⟨by norm_num, by omega, by omega, Or.inl le_rfl⟩
    · simp only [if_neg hCarry]
      split
      · trivial
      · exact ⟨by omega, hMin, by omega, hLeast⟩

/-- A number of the right kind is what its own value rounds to. -/
theorem ofRatio_self {negative : Bool} (hNormal : (finite negative m e).Normal) :
    ofRatio negative (m * 2 ^ e.toNat) (2 ^ (-e).toNat) = finite negative m e := by
  obtain ⟨hBelow, hMin, hMax, hLeast⟩ := hNormal
  rcases Nat.eq_zero_or_pos m with rfl | hPos
  · obtain rfl : e = minExponent := hLeast.resolve_left (by norm_num)
    simp [ofRatio]
  · have hNum : 0 < m * 2 ^ e.toNat := Nat.mul_pos hPos (Nat.two_pow_pos _)
    have hDen : 0 < 2 ^ (-e).toNat := Nat.two_pow_pos _
    have hTwo : (2 : ℚ) ≠ 0 := two_ne_zero
    have hPosQ : (0 : ℚ) < m := by exact_mod_cast hPos
    have hPow : (0 : ℚ) < 2 ^ e := zpow_pos two_pos e
    have hValue : ((m * 2 ^ e.toNat : Nat) : ℚ) / (2 ^ (-e).toNat : Nat) = m * 2 ^ e := by
      have h := scaled_ratio m 1 (-e)
      simp only [scaled, Nat.pow_eq, neg_neg, Nat.one_mul, zpow_neg, Nat.cast_one, div_one, div_inv_eq_mul] at h
      exact h
    have hFit : fittingExponent (m * 2 ^ e.toNat) (2 ^ (-e).toNat) = e := by
      have hHigh : (m : ℚ) * 2 ^ e < 2 ^ (e + 53) := by
        rw [zpow_add₀ hTwo, mul_comm]
        exact mul_lt_mul_of_pos_left (by exact_mod_cast hBelow) hPow
      have hHighLog := (Int.lt_zpow_iff_log_lt (b := 2) one_lt_two (mul_pos hPosQ hPow)).mp
        (by exact_mod_cast hHigh)
      rw [fittingExponent_eq hNum hDen, hValue]
      rcases hLeast with hLarge | hLeast
      · have hLow : (2 : ℚ) ^ (e + 52) ≤ m * 2 ^ e := by
          rw [zpow_add₀ hTwo, mul_comm]
          exact mul_le_mul_of_nonneg_right (by exact_mod_cast hLarge) hPow.le
        have hLowLog := (Int.zpow_le_iff_le_log (b := 2) one_lt_two (mul_pos hPosQ hPow)).mp
          (by exact_mod_cast hLow)
        omega
      · omega
    have hRound : divRoundEven (scaled (m * 2 ^ e.toNat) (2 ^ (-e).toNat) e).1
        (scaled (m * 2 ^ e.toNat) (2 ^ (-e).toNat) e).2 = m := by
      rw [show scaled (m * 2 ^ e.toNat) (2 ^ (-e).toNat) e =
        (m * (2 ^ (-e).toNat * 2 ^ e.toNat), 2 ^ (-e).toNat * 2 ^ e.toNat) by
          simp only [scaled, Nat.pow_eq, Nat.mul_assoc, Nat.mul_comm (2 ^ e.toNat)]]
      exact divRoundEven_self (Nat.mul_pos hDen (Nat.two_pow_pos _)) m
    unfold ofRatio
    rw [if_neg hNum.ne', hFit]
    simp only [hRound, Nat.pow_eq, if_neg hBelow.ne]
    rw [if_neg (by omega)]

end Rounding

section Results

variable {x y : Double}

theorem neg_normal (h : x.Normal) : x.neg.Normal := by
  cases x <;> exact h

theorem ofQuotient_normal (num : Int) {den : Nat} (hDen : 0 < den) : (ofQuotient num den).Normal :=
  ofRatio_normal _ hDen

theorem ofRatio_ne_nan (negative : Bool) (num den : Nat) : ofRatio negative num den ≠ nan := by
  have hLarge : ∀ m e, (if maxExponent < e then infinite negative else finite negative m e) ≠ nan := by
    intro m e
    split <;> exact Double.noConfusion
  unfold ofRatio
  split
  · exact Double.noConfusion
  · exact hLarge _ _

theorem isFinite_of_ofInt? {n : Int} (h : ofInt? n = some x) : x.isFinite = true := by
  unfold ofInt? at h
  cases hQuotient : ofQuotient n 1 with
  | nan => exact absurd hQuotient (ofRatio_ne_nan _ _ _)
  | infinite negative =>
      rw [hQuotient] at h
      cases h
  | finite negative m e =>
      rw [hQuotient] at h
      exact Option.some.inj h ▸ rfl

theorem zero_normal (s : Bool) : (finite s 0 minExponent).Normal :=
  ⟨by norm_num, le_rfl, by decide, Or.inr rfl⟩

theorem add_normal (x y : Double) : (x.add y).Normal := by
  cases x <;> cases y
  case finite.finite s m e t n f =>
    simp only [add, ratio?]
    split
    · exact zero_normal _
    · exact ofQuotient_normal _ (Nat.mul_pos (Nat.two_pow_pos _) (Nat.two_pow_pos _))
  case infinite.infinite =>
    simp only [add]
    split <;> trivial
  all_goals trivial

theorem mul_normal (x y : Double) : (x.mul y).Normal := by
  cases x <;> cases y
  case finite.finite s m e t n f =>
    simp only [mul, ratio?]
    exact ofRatio_normal _ (Nat.mul_pos (Nat.two_pow_pos _) (Nat.two_pow_pos _))
  all_goals
    simp only [mul]
    first
    | trivial
    | split <;> trivial

theorem ofDecimal_normal (negative : Bool) (digits : Nat) (power : Int) :
    (ofDecimal negative digits power).Normal := by
  unfold ofDecimal
  split
  · exact zero_normal _
  · dsimp only
    split
    · trivial
    · split
      · exact zero_normal _
      · exact ofRatio_normal _ (Nat.pow_pos (by norm_num))

theorem read?_normal {t : Text} (h : read? t = some x) : x.Normal := by
  have hDigits : ∀ (negative : Bool) (whole places : List Nat) (rest : Text),
      (if whole.isEmpty && places.isEmpty then none
        else (readExponent rest).map fun power =>
          ofDecimal negative (ofDigits (whole ++ places)) (power - places.length)) = some x →
      x.Normal := by
    intro negative whole places rest h
    split at h
    · cases h
    · obtain ⟨power, _, rfl⟩ := Option.map_eq_some_iff.mp h
      exact ofDecimal_normal ..
  unfold read? at h
  dsimp only at h
  split at h
  · cases h
    trivial
  · split at h
    · cases h
      trivial
    · exact hDigits _ _ _ _ h

end Results

end Conform.Double

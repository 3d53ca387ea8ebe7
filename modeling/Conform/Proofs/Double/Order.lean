import Conform.Proofs.Double
import Mathlib.Algebra.Order.Field.Power
import Mathlib.Order.WithBot

/-! The order of numbers. Numbers compare as their exact values do, and rounding keeps that order, so that a sum does
not fall when one of its terms grows. -/
namespace Conform.Double

/-- The exact value of a finite number. -/
def value : Double → ℚ
  | finite s m e => if s then -(m * 2 ^ e) else m * 2 ^ e
  | _ => 0

/-- Where a number stands among the others. NaN, which stands nowhere, is put below them all. -/
def place : Double → WithBot (WithTop ℚ)
  | nan => ⊥
  | infinite s => if s then ⊥ else ((⊤ : WithTop ℚ) : WithBot (WithTop ℚ))
  | finite s m e => (((finite s m e).value : WithTop ℚ) : WithBot (WithTop ℚ))

section Comparison

variable {x y : Double}

theorem mul_pow_eq_div (m : Nat) (e : Int) : (m : ℚ) * 2 ^ e = (m * 2 ^ e.toNat : Nat) / (2 ^ (-e).toNat : Nat) := by
  have hPower := scaled_ratio m 1 (-e)
  simp only [scaled, Nat.pow_eq, neg_neg, one_mul, zpow_neg, Nat.cast_one, div_one, div_inv_eq_mul] at hPower
  exact hPower.symm

theorem exists_ratio (s : Bool) (m : Nat) (e : Int) : ∃ (p : Int) (q : Nat), 0 < q ∧
    (finite s m e).ratio? = some (p, q) ∧ (finite s m e).value = p / q := by
  refine ⟨_, _, Nat.two_pow_pos (-e).toNat, rfl, ?_⟩
  cases s <;> simp [value, mul_pow_eq_div, neg_div]

theorem div_lt_div_iff_ratio {p r : Int} {q u : Nat} (hq : 0 < q) (hu : 0 < u) :
    (p : ℚ) / q < r / u ↔ p * u < r * q := by
  rw [div_lt_div_iff₀ (by exact_mod_cast hq) (by exact_mod_cast hu)]
  exact_mod_cast Iff.rfl

theorem compareRatio_eq {p r : Int} {q u : Nat} (hq : 0 < q) (hu : 0 < u) :
    compareRatio (p, q) (r, u) = compare ((p : ℚ) / q) (r / u) := by
  unfold compareRatio
  rcases lt_trichotomy (p * (u : Int)) (r * q) with h | h | h
  · rw [compare_lt_iff_lt.mpr h, compare_lt_iff_lt.mpr ((div_lt_div_iff_ratio hq hu).mpr h)]
  · have hSame : (p : ℚ) / q = r / u := by
      rw [div_eq_div_iff (by exact_mod_cast hq.ne') (by exact_mod_cast hu.ne')]
      exact_mod_cast h
    rw [compare_eq_iff_eq.mpr h, compare_eq_iff_eq.mpr hSame]
  · rw [compare_gt_iff_gt.mpr h, compare_gt_iff_gt.mpr ((div_lt_div_iff_ratio hu hq).mpr h)]

/-- Numbers compare as their places do. -/
theorem compare?_eq (hX : x ≠ nan) (hY : y ≠ nan) : compare? x y = some (compare x.place y.place) := by
  have hInfinite : ∀ q : ℚ, ((q : WithTop ℚ) : WithBot (WithTop ℚ)) < (⊤ : WithTop ℚ) := fun q =>
    WithBot.coe_lt_coe.mpr (WithTop.coe_lt_top q)
  have hBottom : ∀ q : WithTop ℚ, (⊥ : WithBot (WithTop ℚ)) < q := WithBot.bot_lt_coe
  cases x with
  | nan => exact absurd rfl hX
  | infinite s =>
      cases y with
      | nan => exact absurd rfl hY
      | infinite t => cases s <;> cases t <;> rfl
      | finite t n f =>
          cases s
          · exact congrArg some (compare_gt_iff_gt.mpr (hInfinite _)).symm
          · exact congrArg some (compare_lt_iff_lt.mpr (hBottom _)).symm
  | finite s m e =>
      cases y with
      | nan => exact absurd rfl hY
      | infinite t =>
          cases t
          · exact congrArg some (compare_lt_iff_lt.mpr (hInfinite _)).symm
          · exact congrArg some (compare_gt_iff_gt.mpr (hBottom _)).symm
      | finite t n f =>
          have hMono : StrictMono fun q : ℚ => ((q : WithTop ℚ) : WithBot (WithTop ℚ)) :=
            WithBot.coe_strictMono.comp WithTop.coe_strictMono
          obtain ⟨p, q, hq, hX, hValue⟩ := exists_ratio s m e
          obtain ⟨r, u, hu, hY, hValue'⟩ := exists_ratio t n f
          calc compare? (finite s m e) (finite t n f) = some (compareRatio (p, q) (r, u)) := by
                simp only [compare?, hX, hY]
            _ = some (compare (finite s m e).value (finite t n f).value) := by
                rw [compareRatio_eq hq hu, ← hValue, ← hValue']
            _ = some (compare (finite s m e).place (finite t n f).place) := by
                rw [← cmp_eq_compare, ← cmp_eq_compare]
                exact congrArg some (hMono.cmp_map_eq _ _).symm

theorem lt_iff (hX : x ≠ nan) : x.lt y = true ↔ x.place < y.place := by
  by_cases hY : y = nan
  · subst hY
    cases x <;> simp [lt, compare?, place]
  · simp [lt, compare?_eq hX hY, compare_lt_iff_lt]

theorem le_iff (hX : x ≠ nan) (hY : y ≠ nan) : x.le y = true ↔ x.place ≤ y.place := by
  rw [le, Bool.or_eq_true, lt_iff hX, compare?_eq hX hY, le_iff_lt_or_eq]
  simp

theorem place_zero : zero.place = 0 := by
  simp [place, value, zero]

theorem isPositive_iff : x.isPositive = true ↔ 0 < x.place := by
  rw [isPositive, lt_iff (show zero ≠ nan by simp [zero]), place_zero]

theorem ne_nan_of_isPositive (h : x.isPositive = true) : x ≠ nan := by
  rintro rfl
  cases h

theorem le_zero_eq_false_iff (hNumber : x ≠ nan) : x.le zero = false ↔ x.isPositive = true := by
  have hZero : zero ≠ nan := by simp [zero]
  rw [isPositive_iff, ← place_zero, ← not_le, ← le_iff hNumber hZero, Bool.not_eq_true]

theorem ne_nan_of_le (h : x.le y = true) : x ≠ nan ∧ y ≠ nan := by
  constructor
  · rintro rfl
    simp [le, lt, compare?] at h
  · rintro rfl
    cases x <;> simp [le, lt, compare?] at h

end Comparison

section Rounding

variable {num den num' den' n d n' : Nat}

theorem divRoundEven_mono (h : n ≤ n') (d : Nat) : divRoundEven n d ≤ divRoundEven n' d := by
  have hQuotient : n / d ≤ n' / d := Nat.div_le_div_right h
  have hParts := Nat.div_add_mod n d
  have hParts' := Nat.div_add_mod n' d
  unfold divRoundEven
  dsimp only
  rcases hQuotient.lt_or_eq with hLess | hSame
  · split_ifs <;> omega
  · rw [hSame] at hParts ⊢
    split_ifs <;> omega

/-- Greater quotients round to greater numbers. -/
theorem divRoundEven_le_of_ratio (hDen : 0 < den) (hDen' : 0 < den') (h : num * den' ≤ num' * den) :
    divRoundEven num den ≤ divRoundEven num' den' := by
  rw [← divRoundEven_mul hDen' num den, ← divRoundEven_mul hDen num' den', Nat.mul_comm den' num,
    Nat.mul_comm den num', Nat.mul_comm den' den]
  exact divRoundEven_mono h _

theorem scaled_le (h : num * den' ≤ num' * den) (e : Int) :
    (scaled num den e).1 * (scaled num' den' e).2 ≤ (scaled num' den' e).1 * (scaled num den e).2 := by
  simp only [scaled]
  rw [Nat.mul_mul_mul_comm, Nat.mul_mul_mul_comm num']
  exact Nat.mul_le_mul_right _ h

/-- The mantissa before the last correction, and its exponent, as a value. -/
def roundedValue (num den : Nat) : ℚ :=
  divRoundEven (scaled num den (fittingExponent num den)).1 (scaled num den (fittingExponent num den)).2 *
    2 ^ fittingExponent num den

theorem roundedValue_le (hNum : 0 < num) (hDen : 0 < den) (hDen' : 0 < den') (h : num * den' ≤ num' * den) :
    roundedValue num den ≤ roundedValue num' den' := by
  have hNum' : 0 < num' := Nat.pos_of_mul_pos_right ((Nat.mul_pos hNum hDen').trans_le h)
  have hPos : (0 : ℚ) < num / den := div_pos (by exact_mod_cast hNum) (by exact_mod_cast hDen)
  have hRatio : (num : ℚ) / den ≤ num' / den' := by
    rw [div_le_div_iff₀ (by exact_mod_cast hDen) (by exact_mod_cast hDen')]
    exact_mod_cast h
  have hLog := Int.log_mono_right (b := 2) hPos hRatio
  have hFit := fittingExponent_eq hNum hDen
  have hFit' := fittingExponent_eq hNum' hDen'
  have hMost := (rounded_bounds hNum hDen).1
  have hLeast := (rounded_bounds hNum' hDen').2
  unfold roundedValue
  rcases eq_or_ne (fittingExponent num den) (fittingExponent num' den') with hSame | hOther
  · rw [← hSame]
    gcongr
    exact divRoundEven_le_of_ratio (scaled_pos num hDen _) (scaled_pos num' hDen' _) (scaled_le h _)
  · generalize fittingExponent num den = e at *
    generalize fittingExponent num' den' = e' at *
    generalize divRoundEven (scaled num den e).1 (scaled num den e).2 = m at *
    generalize divRoundEven (scaled num' den' e').1 (scaled num' den' e').2 = m' at *
    have hLarge : 2 ^ 52 ≤ m' := hLeast.resolve_right (by omega)
    have hNext : e + 1 ≤ e' := by omega
    calc (m : ℚ) * 2 ^ e ≤ 2 ^ 53 * 2 ^ e := by gcongr; exact_mod_cast hMost
      _ = 2 ^ 52 * 2 ^ (e + 1) := by rw [zpow_add_one₀ two_ne_zero]; ring
      _ ≤ 2 ^ 52 * 2 ^ e' := by gcongr; exact one_le_two
      _ ≤ m' * 2 ^ e' := by gcongr; exact_mod_cast hLarge

/-- What a quotient is rounded to before it is known to be small enough: mantissa and exponent are those that the
value calls for. -/
theorem exists_rounded (hNum : 0 < num) (hDen : 0 < den) : ∃ (m : Nat) (e : Int),
    m < 2 ^ 53 ∧ (2 ^ 52 ≤ m ∨ e = minExponent) ∧ (m : ℚ) * 2 ^ e = roundedValue num den ∧
    ∀ s, ofRatio s num den = if maxExponent < e then infinite s else finite s m e := by
  obtain ⟨hMost, hLeast⟩ := rounded_bounds hNum hDen
  unfold ofRatio roundedValue
  simp only [if_neg hNum.ne', Nat.pow_eq]
  generalize fittingExponent num den = e at *
  generalize divRoundEven (scaled num den e).1 (scaled num den e).2 = m at *
  by_cases hCarry : m = 2 ^ 53
  · refine ⟨2 ^ 52, e + 1, by norm_num, Or.inl le_rfl, ?_, fun s => ?_⟩
    · rw [hCarry, zpow_add_one₀ two_ne_zero]
      push_cast
      ring
    · simp only [if_pos hCarry]
  · refine ⟨m, e, by omega, hLeast, rfl, fun s => ?_⟩
    simp only [if_neg hCarry]

theorem place_ofRatio_nonneg (num : Nat) (hDen : 0 < den) : 0 ≤ (ofRatio false num den).place := by
  rcases Nat.eq_zero_or_pos num with rfl | hNum
  · simp [ofRatio, place, value]
  · obtain ⟨m, e, -, -, -, hRound⟩ := exists_rounded hNum hDen
    rw [hRound]
    split
    · simp [place]
    · simp only [place, value, Bool.false_eq_true, if_false]
      have hValue : (0 : ℚ) ≤ m * 2 ^ e := by positivity
      exact_mod_cast hValue

/-- Rounding keeps the order of quotients. -/
theorem place_ofRatio_mono (hDen : 0 < den) (hDen' : 0 < den') (h : (num : ℚ) / den ≤ num' / den') :
    (ofRatio false num den).place ≤ (ofRatio false num' den').place := by
  rw [div_le_div_iff₀ (by exact_mod_cast hDen) (by exact_mod_cast hDen')] at h
  have hCross : num * den' ≤ num' * den := by exact_mod_cast h
  rcases Nat.eq_zero_or_pos num with rfl | hNum
  · have hZero : (ofRatio false 0 den).place = 0 := by simp [ofRatio, place, value]
    exact hZero.trans_le (place_ofRatio_nonneg num' hDen')
  · have hNum' : 0 < num' := Nat.pos_of_mul_pos_right ((Nat.mul_pos hNum hDen').trans_le hCross)
    obtain ⟨m, e, -, hLeast, hValue, hRound⟩ := exists_rounded hNum hDen
    obtain ⟨m', e', hMost, -, hValue', hRound'⟩ := exists_rounded hNum' hDen'
    have hLess : (m : ℚ) * 2 ^ e ≤ m' * 2 ^ e' := by
      rw [hValue, hValue']
      exact roundedValue_le hNum hDen hDen' hCross
    rw [hRound, hRound']
    by_cases hInfinite : maxExponent < e
    · have hLarge : 2 ^ 52 ≤ m := hLeast.resolve_right (by unfold maxExponent minExponent at *; omega)
      have hPowers : (2 : ℚ) ^ (52 + e) < 2 ^ (53 + e') := by
        calc (2 : ℚ) ^ (52 + e) = 2 ^ 52 * 2 ^ e := zpow_add₀ two_ne_zero 52 e
          _ ≤ m * 2 ^ e := by gcongr; exact_mod_cast hLarge
          _ ≤ m' * 2 ^ e' := hLess
          _ < 2 ^ 53 * 2 ^ e' := by gcongr; exact_mod_cast hMost
          _ = 2 ^ (53 + e') := (zpow_add₀ two_ne_zero 53 e').symm
      have hExponents := (zpow_lt_zpow_iff_right₀ one_lt_two).mp hPowers
      rw [if_pos hInfinite, if_pos (by omega)]
    · rw [if_neg hInfinite]
      split
      · simp [place]
      · simp only [place, value, Bool.false_eq_true, if_false]
        exact_mod_cast hLess

/-- A positive number of the right kind is its own value, rounded. -/
theorem eq_ofRatio {s : Bool} {m : Nat} {e : Int} (hNormal : (finite s m e).Normal)
    (hPos : 0 < (finite s m e).value) :
    finite s m e = ofRatio false (m * 2 ^ e.toNat) (2 ^ (-e).toNat) ∧
      (finite s m e).value = (m * 2 ^ e.toNat : Nat) / (2 ^ (-e).toNat : Nat) := by
  cases s
  · exact ⟨(ofRatio_self hNormal).symm, mul_pow_eq_div m e⟩
  · have hValue : (0 : ℚ) ≤ m * 2 ^ e := by positivity
    simp only [value, if_true] at hPos
    linarith

/-- Positive numbers of the right kind are known by their places. -/
theorem eq_of_place_eq {x y : Double} (hX : x.Normal) (hY : y.Normal) (hPos : 0 < x.place)
    (h : x.place = y.place) : x = y := by
  cases x with
  | nan => simp [place] at hPos
  | infinite s =>
      cases s
      · cases y with
        | nan => simp [place] at h
        | infinite t =>
            cases t
            · rfl
            · simp [place] at h
        | finite t n f => simp [place] at h
      · simp [place] at hPos
  | finite s m e =>
      cases y with
      | nan => simp [place] at h
      | infinite t => cases t <;> simp [place] at h
      | finite t n f =>
          have hValue : 0 < (finite s m e).value := by simpa [place] using hPos
          have hSame : (finite s m e).value = (finite t n f).value := by simpa [place] using h
          obtain ⟨hRoundX, hRatioX⟩ := eq_ofRatio hX hValue
          obtain ⟨hRoundY, hRatioY⟩ := eq_ofRatio hY (hSame ▸ hValue)
          rw [hRatioX, hRatioY, div_eq_div_iff (by positivity) (by positivity)] at hSame
          rw [hRoundX, hRoundY]
          exact ofRatio_congr false (Nat.two_pow_pos _) (Nat.two_pow_pos _) (by exact_mod_cast hSame)

end Rounding

section Sums

variable {x y w : Double} {s t : Bool} {m n : Nat} {e f : Int}

/-- What is not below zero is infinite or has a value that is not below zero. -/
theorem cases_of_place_nonneg (h : 0 ≤ x.place) :
    x = infinite false ∨ ∃ s m e, x = finite s m e ∧ 0 ≤ x.value := by
  cases x with
  | nan => simp [place] at h
  | infinite s =>
      cases s
      · exact Or.inl rfl
      · simp [place] at h
  | finite s m e =>
      refine Or.inr ⟨s, m, e, rfl, ?_⟩
      simpa [place] using h

theorem value_nonneg (h : 0 ≤ x.place) : 0 ≤ x.value := by
  obtain rfl | ⟨s, m, e, rfl, hValue⟩ := cases_of_place_nonneg h
  · exact le_rfl
  · exact hValue

/-- The sum of numbers that are not below zero is the exact sum, rounded. -/
theorem exists_add (hX : 0 ≤ (finite s m e).value) (hY : 0 ≤ (finite t n f).value) :
    ∃ num den : Nat, 0 < den ∧ (num : ℚ) / den = (finite s m e).value + (finite t n f).value ∧
      ((finite s m e).add (finite t n f)).place = (ofRatio false num den).place := by
  obtain ⟨p, q, hq, hRatio, hValue⟩ := exists_ratio s m e
  obtain ⟨r, u, hu, hRatio', hValue'⟩ := exists_ratio t n f
  have hSum : (finite s m e).value + (finite t n f).value = ((p * u + r * q : Int) : ℚ) / (q * u : Nat) := by
    rw [hValue, hValue', div_add_div _ _ (by exact_mod_cast hq.ne') (by exact_mod_cast hu.ne')]
    push_cast
    ring
  have hNonneg : 0 ≤ p * u + r * q := by
    have hTotal := add_nonneg hX hY
    rw [hSum, le_div_iff₀ (by exact_mod_cast Nat.mul_pos hq hu), zero_mul] at hTotal
    exact_mod_cast hTotal
  obtain ⟨k, hk⟩ := Int.eq_ofNat_of_zero_le hNonneg
  refine ⟨k, q * u, Nat.mul_pos hq hu, ?_, ?_⟩
  · rw [hSum, hk, Int.cast_natCast]
  · simp only [add, hRatio, hRatio']
    split
    · next hZeros =>
        -- Two zeros add up to a zero, whatever their signs.
        simp only [Bool.and_eq_true, beq_iff_eq] at hZeros
        obtain ⟨rfl, rfl⟩ := hZeros
        have hNone : k = 0 := by
          have hTotal : (finite s 0 e).value + (finite t 0 f).value = 0 := by simp [value]
          rw [hSum, hk, div_eq_zero_iff] at hTotal
          have hDen : ((q * u : Nat) : ℚ) ≠ 0 := by exact_mod_cast (Nat.mul_pos hq hu).ne'
          exact_mod_cast hTotal.resolve_right hDen
        simp [hNone, ofRatio, place, value]
    · have hSign : ¬(k : Int) < 0 := by omega
      rw [hk, ofQuotient, decide_eq_false hSign, Int.natAbs_natCast]

theorem place_add_nonneg (hX : 0 ≤ x.place) (hW : 0 ≤ w.place) : 0 ≤ (x.add w).place := by
  obtain rfl | ⟨s, m, e, rfl, hValue⟩ := cases_of_place_nonneg hX
  · obtain rfl | ⟨t, n, f, rfl, -⟩ := cases_of_place_nonneg hW <;> simp [add, place]
  · obtain rfl | ⟨t, n, f, rfl, hValue'⟩ := cases_of_place_nonneg hW
    · simp [add, place]
    · obtain ⟨num, den, hDen, -, hPlace⟩ := exists_add hValue hValue'
      rw [hPlace]
      exact place_ofRatio_nonneg num hDen

/-- A sum does not fall when its first term grows. -/
theorem place_add_mono (hX : 0 ≤ x.place) (h : x.place ≤ y.place) (hW : 0 ≤ w.place) :
    (x.add w).place ≤ (y.add w).place := by
  obtain rfl | ⟨r, k, d, rfl, hValueY⟩ := cases_of_place_nonneg (hX.trans h)
  · obtain rfl | ⟨t, n, f, rfl, -⟩ := cases_of_place_nonneg hW <;> simp [add, place]
  · obtain rfl | ⟨s, m, e, rfl, hValueX⟩ := cases_of_place_nonneg hX
    · simp [place] at h
    · obtain rfl | ⟨t, n, f, rfl, hValueW⟩ := cases_of_place_nonneg hW
      · simp [add]
      · obtain ⟨num, den, hDen, hSum, hPlace⟩ := exists_add hValueX hValueW
        obtain ⟨num', den', hDen', hSum', hPlace'⟩ := exists_add hValueY hValueW
        rw [hPlace, hPlace']
        refine place_ofRatio_mono hDen hDen' ?_
        rw [hSum, hSum']
        have hValues : (finite s m e).value ≤ (finite r k d).value := by simpa [place] using h
        gcongr

/-- A sum is not below its first term. -/
theorem place_le_add (hNormal : x.Normal) (hX : 0 ≤ x.place) (hW : 0 ≤ w.place) :
    x.place ≤ (x.add w).place := by
  obtain rfl | ⟨s, m, e, rfl, hValue⟩ := cases_of_place_nonneg hX
  · obtain rfl | ⟨t, n, f, rfl, -⟩ := cases_of_place_nonneg hW <;> simp [add]
  · obtain rfl | ⟨t, n, f, rfl, hValueW⟩ := cases_of_place_nonneg hW
    · simp [add, place]
    · rcases hValue.eq_or_lt with hZero | hPos
      · have hPlace : (finite s m e).place = 0 := by simp [place, ← hZero]
        exact hPlace.trans_le (place_add_nonneg hX hW)
      · obtain ⟨num, den, hDen, hSum, hPlace⟩ := exists_add hValue hValueW
        obtain ⟨hRound, hRatio⟩ := eq_ofRatio hNormal hPos
        rw [hPlace]
        refine (congrArg place hRound).trans_le (place_ofRatio_mono (Nat.two_pow_pos _) hDen ?_)
        rw [hSum, ← hRatio]
        exact le_add_of_nonneg_right hValueW

end Sums

end Conform.Double

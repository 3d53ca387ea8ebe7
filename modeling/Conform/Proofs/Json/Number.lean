import Conform.Json.Printer
import Conform.Json.Reader
import Conform.Proofs.Double.Numeral

/-! Numbers in a JSON text. A numeral is cut off where it ends, and the number that is written reads
back. -/
namespace Conform.Json

open Text (AreDigits decimals digitPoint signOf spell)

variable {n : Numeral} {ds : List Nat} {rest : Text} {p : Point}

/-- What stands behind a value in a text without gaps. -/
def closings : List Point := [',', ']', '\x7d'].map Point.ofChar

/-- Whether a value can end before the text. -/
def Closes (rest : Text) : Prop := ∀ p ∈ rest.head?, p ∈ closings

section Parts

/-- The characters that no run of digits passes over. -/
def Halts (rest : Text) : Prop := ∀ p ∈ rest.head?, isDigit p = false

theorem isDigit_digitPoint {d : Nat} (h : d < 10) : isDigit (digitPoint d) = true := by
  have hAll : ∀ d < 10, isDigit (digitPoint d) = true := by decide
  exact hAll d h

theorem takeWhile_spell (hDigits : AreDigits ds) (hRest : Halts rest) :
    (spell ds ++ rest).takeWhile isDigit = spell ds := by
  have hAll : ∀ p ∈ spell ds, isDigit p = true := by
    intro p hMem
    obtain ⟨d, hD, rfl⟩ := List.mem_map.mp hMem
    exact isDigit_digitPoint (hDigits d hD)
  have hNone : rest.takeWhile isDigit = [] := by
    cases rest with
    | nil => rfl
    | cons q others => rw [List.takeWhile_cons, hRest q rfl, if_neg (by decide)]
  rw [List.takeWhile_append_of_pos hAll, hNone, List.append_nil]

theorem halts_closes (h : Closes rest) : Halts rest := by
  have hAll : closings.all (!isDigit ·) = true := by decide
  intro p hP
  simpa using List.all_eq_true.mp hAll p (h p hP)

theorem halts_exponentText (n : Numeral) (hRest : Closes rest) : Halts (n.exponentText ++ rest) := by
  unfold Numeral.exponentText
  split
  · exact halts_closes hRest
  · intro p hP
    obtain rfl := Option.some.inj hP
    decide

theorem halts_placesText (n : Numeral) (hRest : Closes rest) :
    Halts (n.placesText ++ (n.exponentText ++ rest)) := by
  unfold Numeral.placesText
  split
  · exact halts_exponentText n hRest
  · intro p hP
    obtain rfl := Option.some.inj hP
    decide

theorem minus_text (h : n.WellFormed) (rest : Text) :
    minus (n.text ++ rest) = (signOf n.negative, n.body ++ rest) := by
  have hMinus : ((Point.ofChar '-').char == '-') = true := by decide
  rw [Numeral.text, List.append_assoc]
  cases n.negative with
  | true => simp [signOf, minus, hMinus]
  | false =>
      have hHead := Numeral.head_body h rest
      cases hBody : n.body ++ rest with
      | nil => rfl
      | cons p others =>
          obtain ⟨d, hDigit, rfl⟩ := hHead p (by rw [hBody]; rfl)
          have hChar := Text.char_digitPoint hDigit
          simp only [List.mem_cons, not_or] at hChar
          simp [signOf, minus, hChar.1]

theorem whole?_body (h : n.WellFormed) (hRest : Closes rest) :
    whole? (n.body ++ rest) = some (spell n.whole) := by
  have hHalts := halts_placesText n hRest
  rw [Numeral.body, List.append_assoc, List.append_assoc]
  have hDigits := h.whole
  have hStart := h.start
  cases hWhole : n.whole with
  | nil => exact absurd hWhole h.nonempty
  | cons d others =>
      rw [hWhole] at hDigits hStart
      have hDigit := hDigits d List.mem_cons_self
      have hRun := takeWhile_spell (fun e hE => hDigits e (List.mem_cons_of_mem _ hE)) hHalts
      have hZero : ∀ d < 10, ((digitPoint d).char == '0') = (d == 0) := by decide
      rw [spell] at hRun
      simp only [spell, List.map_cons, List.cons_append, whole?, isDigit_digitPoint hDigit, hZero d hDigit,
        hRun]
      by_cases hNone : d = 0
      · subst hNone
        obtain rfl := (List.cons.inj (hStart rfl)).2
        rfl
      · simp [hNone]

theorem fraction_placesText (h : n.WellFormed) (hRest : Closes rest) :
    fraction (n.placesText ++ (n.exponentText ++ rest)) = (n.placesText, n.exponentText ++ rest) := by
  have hPoint : ((Point.ofChar '.').char == '.') = true := by decide
  by_cases hPlaces : n.places = []
  · simp only [Numeral.placesText, if_pos hPlaces, List.nil_append]
    have hOther : ∀ p ∈ (n.exponentText ++ rest).head?, (p.char == '.') = false := by
      unfold Numeral.exponentText
      split
      · have hAll : closings.all (!·.char == '.') = true := by decide
        intro p hP
        simpa using List.all_eq_true.mp hAll p (hRest p hP)
      · intro p hP
        obtain rfl := Option.some.inj hP
        decide
    cases hText : n.exponentText ++ rest with
    | nil => rfl
    | cons p others =>
        have hHead := hOther p (by rw [hText]; rfl)
        simp [fraction, hHead]
  · have hRun := takeWhile_spell h.places (halts_exponentText n hRest)
    have hSome : (spell n.places).isEmpty = false := by simpa [spell] using hPlaces
    simp only [Numeral.placesText, if_neg hPlaces, List.cons_append, fraction, hRun, hPoint, hSome,
      Bool.not_false, Bool.and_self, if_true, List.drop_left]

theorem exponent?_exponentText (h : n.WellFormed) (hRest : Closes rest) :
    (exponent? (n.exponentText ++ rest)).getD ([], n.exponentText ++ rest) = (n.exponentText, rest) := by
  have hLetter : ((Point.ofChar 'e').char == 'e') = true := by decide
  unfold Numeral.exponentText
  cases hExponent : n.exponent with
  | none =>
      have hAll : closings.all (fun p => !(p.char == 'e' || p.char == 'E')) = true := by decide
      cases rest with
      | nil => rfl
      | cons p others =>
          have hOther := List.all_eq_true.mp hAll p (hRest p rfl)
          rw [Bool.not_eq_true'] at hOther
          simp only [List.nil_append, exponent?, hOther, Bool.false_eq_true, if_false, Option.getD_none]
  | some e =>
      obtain ⟨negative, ds⟩ := e
      obtain ⟨hDigits, hSome⟩ := h.exponent _ hExponent
      have hRun := takeWhile_spell hDigits (halts_closes hRest)
      have hNonempty : (spell ds).isEmpty = false := by simpa [spell] using hSome
      have hSign : ∀ negative : Bool, ((Point.ofChar (if negative then '-' else '+')).char == '+' ||
          (Point.ofChar (if negative then '-' else '+')).char == '-') = true := by decide
      simp only [List.cons_append, exponent?, hLetter, Bool.true_or, if_true, hSign, hRun, hNonempty,
        Bool.false_eq_true, if_false, Option.getD_some, List.drop_left, List.nil_append]

end Parts

/-- A numeral before a closing is read as the number that its parts are. -/
theorem number?_text (h : n.WellFormed) (hRest : Closes rest) :
    number? (n.text ++ rest) =
      (numberOf? (signOf n.negative) (spell n.whole) n.placesText n.exponentText).map (·, rest) := by
  have hAfter : (n.body ++ rest).drop (spell n.whole).length = n.placesText ++ (n.exponentText ++ rest) := by
    rw [Numeral.body, List.append_assoc, List.append_assoc, List.drop_left]
  unfold number?
  simp only [minus_text h, whole?_body h hRest, Option.bind_eq_bind, Option.bind_some, hAfter,
    fraction_placesText h hRest, exponent?_exponentText h hRest]
  exact (Option.map_eq_bind ..).symm

/-- Finite numbers read back. -/
theorem number?_display {s : Bool} {m : Nat} {e : Int} (hNormal : (Double.finite s m e).Normal)
    (hRest : Closes rest) :
    number? ((Double.finite s m e).display ++ rest) = some (.float (.finite s m e), rest) := by
  obtain ⟨n, hForm, hMarked, hText, hValue⟩ := Double.display_finite hNormal
  have hFloat : (n.placesText.isEmpty && n.exponentText.isEmpty) = false := by
    rcases hMarked with hPlaces | hExponent
    · rw [Numeral.placesText, if_neg hPlaces]
      rfl
    · obtain ⟨e, hE⟩ := Option.ne_none_iff_exists'.mp hExponent
      rw [Numeral.exponentText, hE]
      simp
  have hRead := Numeral.read?_text hForm
  rw [Numeral.text, Numeral.body, ← List.append_assoc, ← List.append_assoc] at hRead
  rw [hText, number?_text hForm hRest, numberOf?, hFloat, if_neg (by decide), hRead, hValue]
  rfl

/-- A whole number as a numeral. -/
def wholeNumeral (k : Int) : Numeral := ⟨decide (k < 0), decimals k.natAbs, [], none⟩

theorem wholeNumeral_wellFormed (k : Int) : (wholeNumeral k).WellFormed := by
  refine ⟨Text.areDigits_decimals _, Text.decimals_ne_nil _, fun hHead => ?_, by simp [AreDigits, wholeNumeral], nofun⟩
  rcases Nat.eq_zero_or_pos k.natAbs with hZero | hPos
  · simp only [wholeNumeral, hZero]
    exact Text.decimals_of_lt (by omega)
  · exact absurd hHead (Numeral.head_decimals hPos)

theorem text_wholeNumeral (k : Int) : Text.ofInt k = (wholeNumeral k).text := by
  cases k with
  | ofNat k => simp [wholeNumeral, Numeral.text, Numeral.body, Numeral.placesText, Numeral.exponentText,
      Text.ofInt, Text.ofNat_eq_spell, signOf]
  | negSucc k => simp [wholeNumeral, Numeral.text, Numeral.body, Numeral.placesText, Numeral.exponentText,
      Text.ofInt, Text.ofNat_eq_spell, signOf, Int.negSucc_lt_zero, Int.natAbs_negSucc]

/-- Whole numbers read back, if they are short enough to be read at all. -/
theorem number?_ofInt {k : Int} (hShort : (Text.ofNat k.natAbs).length ≤ Text.maxDigits)
    (hRest : Closes rest) : number? (Text.ofInt k ++ rest) = some (.int k, rest) := by
  have hRead := Text.int?_ofInt k
  rw [text_wholeNumeral] at hRead
  rw [text_wholeNumeral, number?_text (wholeNumeral_wellFormed k) hRest]
  have hLength : ¬Text.maxDigits < (spell (wholeNumeral k).whole).length := by
    rw [Text.ofNat_eq_spell] at hShort
    exact Nat.not_lt.mpr hShort
  simp only [Numeral.text, Numeral.body, Numeral.placesText, Numeral.exponentText, wholeNumeral, if_true,
    List.append_nil] at hRead hLength ⊢
  simp [numberOf?, hLength, hRead]

end Conform.Json

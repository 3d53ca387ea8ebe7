import Conform.Proofs.Double.Decimal

/-! Decimal numerals with a point and an exponent: a floating-point number is written as one, and
it reads back as that number. -/
namespace Conform

open Text (AreDigits decimals digitPoint signOf spell)

/-- A decimal numeral. Without places it has no point. -/
structure Numeral where
  negative : Bool
  whole : List Nat
  places : List Nat
  /-- Whether the exponent is negative, and its digits. -/
  exponent : Option (Bool × List Nat)

namespace Numeral

variable {n : Numeral} {ds : List Nat} {rest t : Text} {p : Point}

/-- Whether there are digits wherever there have to be some, and no zero stands before others. -/
structure WellFormed (n : Numeral) : Prop where
  whole : AreDigits n.whole
  nonempty : n.whole ≠ []
  start : n.whole.head? = some 0 → n.whole = [0]
  places : AreDigits n.places
  exponent : ∀ e ∈ n.exponent, AreDigits e.2 ∧ e.2 ≠ []

/-- The point and the places after it. -/
def placesText (n : Numeral) : Text :=
  if n.places = [] then [] else Point.ofChar '.' :: spell n.places

def exponentText (n : Numeral) : Text :=
  match n.exponent with
  | none => []
  | some (negative, ds) =>
    Point.ofChar 'e' :: Point.ofChar (if negative then '-' else '+') :: spell ds

/-- The numeral without its sign. -/
def body (n : Numeral) : Text := spell n.whole ++ (n.placesText ++ n.exponentText)

def text (n : Numeral) : Text := signOf n.negative ++ n.body

def power (n : Numeral) : Int :=
  match n.exponent with
  | none => 0
  | some (negative, ds) => if negative then -(Double.ofDigits ds : Int) else Double.ofDigits ds

def value (n : Numeral) : Double :=
  .ofDecimal n.negative (Double.ofDigits (n.whole ++ n.places)) (n.power - n.places.length)

/-- The characters of numerals. -/
def alphabet : List Point := (List.range 10).map digitPoint ++ ['+', '-', '.', 'e'].map Point.ofChar

theorem digitPoint_mem_alphabet (ds : List Nat) (h : AreDigits ds) : ∀ p ∈ spell ds, p ∈ alphabet := by
  intro p hMem
  obtain ⟨d, hD, rfl⟩ := List.mem_map.mp hMem
  exact List.mem_append_left _ (List.mem_map_of_mem (List.mem_range.mpr (h d hD)))

theorem mem_alphabet (h : n.WellFormed) : ∀ p ∈ n.text, p ∈ alphabet := by
  have hMarks : ∀ c ∈ ['+', '-', '.', 'e'], Point.ofChar c ∈ alphabet := fun c hC =>
    List.mem_append_right _ (List.mem_map_of_mem hC)
  have hSign : ∀ p ∈ signOf n.negative, p ∈ alphabet := by
    intro p hMem
    cases hNegative : n.negative with
    | false =>
        rw [hNegative] at hMem
        cases hMem
    | true =>
        rw [hNegative] at hMem
        rw [List.mem_singleton.mp hMem]
        exact hMarks '-' (by simp)
  have hPlaces : ∀ p ∈ n.placesText, p ∈ alphabet := by
    intro p hMem
    unfold placesText at hMem
    split at hMem
    · cases hMem
    · rcases List.mem_cons.mp hMem with rfl | hMem
      · exact hMarks '.' (by simp)
      · exact digitPoint_mem_alphabet _ h.places p hMem
  have hExponent : ∀ p ∈ n.exponentText, p ∈ alphabet := by
    intro p hMem
    unfold exponentText at hMem
    split at hMem
    · cases hMem
    · next negative ds hSome =>
        rcases List.mem_cons.mp hMem with rfl | hMem
        · exact hMarks 'e' (by simp)
        · rcases List.mem_cons.mp hMem with rfl | hMem
          · cases negative
            · exact hMarks '+' (by simp)
            · exact hMarks '-' (by simp)
          · exact digitPoint_mem_alphabet ds (h.exponent _ hSome).1 p hMem
  intro p hMem
  simp only [text, body, List.mem_append] at hMem
  rcases hMem with hMem | hMem | hMem | hMem
  · exact hSign p hMem
  · exact digitPoint_mem_alphabet _ h.whole p hMem
  · exact hPlaces p hMem
  · exact hExponent p hMem

theorem isAscii_of_mem (h : p ∈ alphabet) : p.isAscii = true := by
  have hAll : alphabet.all Point.isAscii = true := by decide
  exact List.all_eq_true.mp hAll p h

theorem isBlank_of_mem (h : p ∈ alphabet) : p.isBlank = false := by
  have hAll : alphabet.all (!·.isBlank) = true := by decide
  simpa using List.all_eq_true.mp hAll p h

theorem head_body (h : n.WellFormed) (rest : Text) :
    ∀ p ∈ (n.body ++ rest).head?, ∃ d < 10, p = digitPoint d := by
  rw [body, List.append_assoc]
  exact Text.head_spell h.whole _ h.nonempty

theorem exists_body (h : n.WellFormed) : ∃ d < 10, ∃ others, n.body = digitPoint d :: others := by
  cases hBody : n.body with
  | nil =>
      rw [body, List.append_eq_nil_iff, spell, List.map_eq_nil_iff] at hBody
      exact absurd hBody.1 h.nonempty
  | cons p others =>
      obtain ⟨d, hDigit, rfl⟩ := head_body h [] p (by rw [List.append_nil, hBody]; rfl)
      exact ⟨d, hDigit, others, rfl⟩

section Reading

open Double (digitGroups readExponent)

/-- What may follow digits that are read to their end. -/
def Ends (rest : Text) : Prop := ∀ p ∈ rest.head?, p.decimal? = none ∧ (p.char == '_') = false

theorem more_cons {d : Nat} (hDigit : p.decimal? = some d) (acc : List Nat) (t : Text) :
    digitGroups.more acc (p :: t) = digitGroups.more (d :: acc) t := by
  cases t with
  | nil => simp [digitGroups.more, hDigit]
  | cons q rest => rw [digitGroups.more, hDigit]

theorem more_ends (hRest : Ends rest) (acc : List Nat) :
    digitGroups.more acc rest = (acc.reverse, rest) := by
  cases rest with
  | nil => rfl
  | cons p rest =>
      obtain ⟨hNone, hOther⟩ := hRest p rfl
      cases rest with
      | nil => simp [digitGroups.more, hNone]
      | cons q rest => simp [digitGroups.more, hNone, hOther]

theorem more_spell (hDigits : AreDigits ds) (hRest : Ends rest) (acc : List Nat) :
    digitGroups.more acc (spell ds ++ rest) = (acc.reverse ++ ds, rest) := by
  induction ds generalizing acc with
  | nil => simpa [spell] using more_ends hRest acc
  | cons d others ih =>
      have hDigit := Text.decimal?_digitPoint (hDigits d List.mem_cons_self)
      have hOthers := ih (fun e hE => hDigits e (List.mem_cons_of_mem _ hE)) (d :: acc)
      rw [spell, List.map_cons, List.cons_append, more_cons hDigit]
      rw [spell] at hOthers
      simpa using hOthers

theorem digitGroups_spell (hDigits : AreDigits ds) (hSome : ds ≠ []) (hRest : Ends rest) :
    digitGroups (spell ds ++ rest) = some (ds, rest) := by
  cases ds with
  | nil => exact absurd rfl hSome
  | cons d others =>
      have hDigit := Text.decimal?_digitPoint (hDigits d List.mem_cons_self)
      have hOthers := more_spell (fun e hE => hDigits e (List.mem_cons_of_mem _ hE)) hRest [d]
      rw [spell] at hOthers
      simp [spell, digitGroups, hDigit, hOthers]

theorem ends_mark {c : Char} (hMark : c ∈ ['.', 'e']) (rest : Text) : Ends (Point.ofChar c :: rest) := by
  have hAll : ∀ c ∈ ['.', 'e'],
      (Point.ofChar c).decimal? = none ∧ ((Point.ofChar c).char == '_') = false := by
    intro c hC
    simp only [List.mem_cons, List.not_mem_nil, or_false] at hC
    rcases hC with rfl | rfl
    · decide
    · decide
  intro p hP
  obtain rfl := Option.some.inj hP
  exact hAll c hMark

theorem ends_exponentText (n : Numeral) : Ends n.exponentText := by
  unfold exponentText
  split
  · exact nofun
  · exact ends_mark (by simp) _

theorem ends_placesText (n : Numeral) : Ends (n.placesText ++ n.exponentText) := by
  unfold placesText
  split
  · exact ends_exponentText n
  · exact ends_mark (by simp) _

theorem readExponent_exponentText (h : n.WellFormed) : readExponent n.exponentText = some n.power := by
  unfold exponentText power
  cases hExponent : n.exponent with
  | none => rfl
  | some e =>
      obtain ⟨negative, ds⟩ := e
      obtain ⟨hDigits, hSome⟩ := h.exponent _ hExponent
      have hRun : digitGroups (spell ds ++ []) = some (ds, []) := digitGroups_spell hDigits hSome nofun
      rw [List.append_nil] at hRun
      have hLetter : ((Point.ofChar 'e').char == 'e') = true := by decide
      have hMinus : ((Point.ofChar '-').char == '-') = true := by decide
      have hPlus : ((Point.ofChar '+').char == '-') = false ∧ ((Point.ofChar '+').char == '+') = true := by
        decide
      cases negative with
      | true => simp [readExponent, readExponent.takeSign, hLetter, hMinus, hRun]
      | false => simp [readExponent, readExponent.takeSign, hLetter, hPlus, hRun]

theorem takeSign_text (h : n.WellFormed) : readExponent.takeSign n.text = (n.negative, n.body) := by
  have hHead : ∀ p ∈ n.body.head?, p.char ∉ ['-', '+'] := by
    intro p hP
    obtain ⟨d, hDigit, rfl⟩ := head_body h [] p (by simpa using hP)
    have hChar := Text.char_digitPoint hDigit
    simp only [List.mem_cons, not_or] at hChar ⊢
    exact ⟨hChar.1, hChar.2.1, by simp⟩
  have hSame : ∀ t : Text, readExponent.takeSign t = Text.takeSign t := fun t => by cases t <;> rfl
  rw [hSame, text]
  exact Text.takeSign_signOf n.negative hHead

/-- A numeral begins with a digit, so it is none of the words for numbers. -/
theorem lower_body_ne (h : n.WellFormed) {word : Text} (hWord : word ∈ [Text.ofString "inf", Text.ofString "infinity", Text.ofString "nan"]) :
    (n.body.lower == word) = false := by
  have hAscii : n.body.isAscii = true := by
    rw [Text.isAscii, List.all_eq_true]
    exact fun p hMem => isAscii_of_mem (mem_alphabet h p (List.mem_append_right _ hMem))
  have hWords : ∀ d < 10, ∀ word ∈ [Text.ofString "inf", Text.ofString "infinity", Text.ofString "nan"],
      some (digitPoint d).lower ≠ word.head? := by decide
  rw [beq_eq_false_iff_ne]
  intro hSame
  rw [Text.lower, if_pos hAscii] at hSame
  have hHead := congrArg List.head? hSame
  obtain ⟨d, hDigit, others, hBody⟩ := exists_body h
  rw [hBody] at hHead
  exact hWords d hDigit word hWord hHead

/-- A numeral reads back as its value. -/
theorem read?_text (h : n.WellFormed) : Double.read? n.text = some n.value := by
  have hStrip : n.text.strip = n.text :=
    Text.strip_of_forall fun p hMem => isBlank_of_mem (mem_alphabet h p hMem)
  have hWhole : digitGroups n.body = some (n.whole, n.placesText ++ n.exponentText) :=
    digitGroups_spell h.whole h.nonempty (ends_placesText n)
  have hNonempty : n.whole.isEmpty = false := List.isEmpty_eq_false_iff.mpr h.nonempty
  have hPoint : ((Point.ofChar '.').char == '.') = true := by decide
  have hLetter : ((Point.ofChar 'e').char == '.') = false := by decide
  have hPower := readExponent_exponentText h
  unfold Double.read?
  rw [hStrip, takeSign_text h]
  dsimp only
  rw [lower_body_ne h (by simp), lower_body_ne h (by simp), lower_body_ne h (by simp), hWhole]
  simp only [Bool.or_self, Bool.false_eq_true, if_false, Option.getD_some, hNonempty, Bool.false_and, value]
  by_cases hPlaces : n.places = []
  · rw [placesText, if_pos hPlaces, List.nil_append, hPlaces]
    cases hExponent : n.exponentText with
    | nil =>
        rw [hExponent] at hPower
        simp [hPower]
    | cons p others =>
        have hHead : p = Point.ofChar 'e' := by
          unfold exponentText at hExponent
          split at hExponent
          · cases hExponent
          · exact (List.cons.inj hExponent).1.symm
        rw [hExponent] at hPower
        subst hHead
        simp [hLetter, hPower]
  · have hRun := digitGroups_spell h.places hPlaces (ends_exponentText n)
    rw [placesText, if_neg hPlaces]
    simp [hPoint, hRun, hPower]

end Reading

section Writing

variable {s : Bool} {digits : Nat} {power : Int}

/-- The numeral by which digits with a power of ten are written: with a point if it is near them,
else with an exponent of at least two digits. -/
def written (negative : Bool) (digits : Nat) (power : Int) : Numeral :=
  let ds := decimals digits
  let place : Int := ds.length + power
  if -4 < place ∧ place ≤ 16 then
    if place ≤ 0 then ⟨negative, [0], List.replicate (-place).toNat 0 ++ ds, none⟩
    else if power < 0 then ⟨negative, ds.take place.toNat, ds.drop place.toNat, none⟩
    else ⟨negative, ds ++ List.replicate power.toNat 0, [0], none⟩
  else
    let exponent := decimals (place - 1).natAbs
    ⟨negative, ds.take 1, ds.drop 1,
      some (decide (place - 1 < 0), List.replicate (2 - exponent.length) 0 ++ exponent)⟩

theorem areDigits_zeros (k : Nat) : AreDigits (List.replicate k 0) := by
  intro d hMem
  rw [List.eq_of_mem_replicate hMem]
  omega

theorem areDigits_append {ds es : List Nat} (h : AreDigits ds) (h' : AreDigits es) : AreDigits (ds ++ es) :=
  fun d hMem => (List.mem_append.mp hMem).elim (h d) (h' d)

theorem head_decimals (hPos : 0 < digits) : (decimals digits).head? ≠ some 0 := by
  rw [List.head?_eq_some_head (Text.decimals_ne_nil digits)]
  exact fun hZero => Text.head_decimals_ne_zero hPos (Option.some.inj hZero)

theorem wellFormed_written (s : Bool) (hPos : 0 < digits) (power : Int) : (written s digits power).WellFormed := by
  have hDigits := Text.areDigits_decimals digits
  have hLength := List.length_pos_iff.mpr (Text.decimals_ne_nil digits)
  have hTake : ∀ k, 0 < k → (decimals digits).take k ≠ [] ∧ ((decimals digits).take k).head? ≠ some 0 := by
    intro k hK
    refine ⟨fun hNil => ?_, ?_⟩
    · have hShort := congrArg List.length hNil
      rw [List.length_take, List.length_nil] at hShort
      omega
    · rw [List.head?_take, if_neg hK.ne']
      exact head_decimals hPos
  unfold written
  dsimp only
  split
  · split
    · exact ⟨by simp [AreDigits], by simp, fun _ => rfl, areDigits_append (areDigits_zeros _) hDigits, nofun⟩
    · split
      · next hFar _ =>
          obtain ⟨hSome, hHead⟩ := hTake _ (show 0 < ((decimals digits).length + power).toNat by omega)
          exact ⟨fun d hMem => hDigits d (List.mem_of_mem_take hMem), hSome, fun h => absurd h hHead,
            fun d hMem => hDigits d (List.mem_of_mem_drop hMem), nofun⟩
      · refine ⟨areDigits_append hDigits (areDigits_zeros _), by simp [Text.decimals_ne_nil], fun h => ?_,
          by simp [AreDigits], nofun⟩
        rw [List.head?_append_of_ne_nil _ (Text.decimals_ne_nil digits)] at h
        exact absurd h (head_decimals hPos)
  · obtain ⟨hSome, hHead⟩ := hTake 1 Nat.one_pos
    refine ⟨fun d hMem => hDigits d (List.mem_of_mem_take hMem), hSome, fun h => absurd h hHead,
      fun d hMem => hDigits d (List.mem_of_mem_drop hMem), fun e hE => ?_⟩
    obtain rfl := Option.mem_some_iff.mp hE
    exact ⟨areDigits_append (areDigits_zeros _) (Text.areDigits_decimals _), by simp [Text.decimals_ne_nil]⟩

/-- What is written has a point or an exponent, so it is never taken for a whole number. -/
theorem written_marked (s : Bool) (digits : Nat) (power : Int) :
    (written s digits power).places ≠ [] ∨ (written s digits power).exponent ≠ none := by
  unfold written
  dsimp only
  split
  · refine Or.inl ?_
    split
    · simp [Text.decimals_ne_nil]
    · split
      · rw [Ne, List.drop_eq_nil_iff]
        omega
      · simp
  · exact Or.inr (by simp)

theorem value_written (s : Bool) (hPos : 0 < digits) (power : Int) :
    (written s digits power).value = .ofDecimal s digits power := by
  have hLength := List.length_pos_iff.mpr (Text.decimals_ne_nil digits)
  have hDigits := Text.ofDigits_decimals digits
  unfold written
  dsimp only
  split
  · split
    · have hAll : Double.ofDigits ([0] ++ (List.replicate (-((decimals digits).length + power)).toNat 0
          ++ decimals digits)) = digits := by
        rw [Text.ofDigits_append, Text.ofDigits_append, Text.ofDigits_zeros, hDigits]
        simp [Double.ofDigits]
      simp only [value, Numeral.power, hAll, List.length_append, List.length_replicate]
      congr 1
      omega
    · split
      · simp only [value, Numeral.power, List.take_append_drop, hDigits, List.length_drop]
        congr 1
        omega
      · obtain ⟨k, rfl⟩ : ∃ k : Nat, power = k := ⟨power.toNat, by omega⟩
        have hAll : Double.ofDigits (decimals digits ++ List.replicate k 0 ++ [0]) = digits * 10 ^ (k + 1) := by
          rw [Text.ofDigits_append, Text.ofDigits_append, Text.ofDigits_zeros, hDigits]
          simp [Double.ofDigits, pow_succ, mul_assoc]
        simp only [value, Numeral.power, Int.toNat_natCast, hAll, List.length_singleton]
        rw [← Double.ofDecimal_mul_pow s hPos k (k + 1)]
        congr 1
        push_cast
        omega
  · have hPower : ∀ place : Int, (if place - 1 < 0 then
        -(Double.ofDigits (List.replicate (2 - (decimals (place - 1).natAbs).length) 0
          ++ decimals (place - 1).natAbs) : Int)
        else Double.ofDigits (List.replicate (2 - (decimals (place - 1).natAbs).length) 0
          ++ decimals (place - 1).natAbs)) = place - 1 := by
      intro place
      rw [Text.ofDigits_append, Text.ofDigits_zeros, Text.ofDigits_decimals, Nat.zero_mul, Nat.zero_add]
      split <;> omega
    simp only [value, Numeral.power, decide_eq_true_eq, hPower, List.take_append_drop, hDigits, List.length_drop]
    congr 1
    omega

end Writing

end Numeral

namespace Double

variable {s : Bool} {m : Nat} {e : Int}

theorem sign_eq (s : Bool) (t : Text) : sign s t = signOf s ++ t := by
  have hMinus : Text.ofString "-" = [Point.ofChar '-'] := by decide
  cases s with
  | true => exact congrArg (· ++ t) hMinus
  | false => rfl

/-- The text of digits and a power is that of their numeral. -/
theorem display_eq_text (hPos : m ≠ 0) : (finite s m e).display =
    (Numeral.written s (dropZeros 20 (shortest m e)).1 (dropZeros 20 (shortest m e)).2).text := by
  have hPoint : Text.ofString "." = [Point.ofChar '.'] := by decide
  have hStart : Text.ofString "0." = [Point.ofChar '0', Point.ofChar '.'] := by decide
  have hEnd : Text.ofString ".0" = [Point.ofChar '.', Point.ofChar '0'] := by decide
  have hLetter : Text.ofString "e" = [Point.ofChar 'e'] := by decide
  have hMinus : Text.ofString "-" = [Point.ofChar '-'] := by decide
  have hPlus : Text.ofString "+" = [Point.ofChar '+'] := by decide
  have hZero : digitPoint 0 = Point.ofChar '0' := rfl
  have hBefore : ∀ (w : String) (t : Text), (HAppend.hAppend w t : Text) = Text.ofString w ++ t :=
    fun _ _ => rfl
  simp only [display, if_neg hPos]
  generalize (dropZeros 20 (shortest m e)).1 = digits
  generalize (dropZeros 20 (shortest m e)).2 = power
  have hLength : (Text.ofNat digits).length = (decimals digits).length := by
    rw [Text.ofNat_eq_spell, spell, List.length_map]
  rw [sign_eq, hLength, Text.ofNat_eq_spell]
  unfold Numeral.written
  dsimp only
  rw [Numeral.text, Numeral.body]
  split
  · split
    · simp [Numeral.placesText, Numeral.exponentText, Text.decimals_ne_nil, Text.repeatChar, hStart, spell, hZero]
    · split
      · have hSome : (decimals digits).drop ((decimals digits).length + power).toNat ≠ [] := by
          rw [Ne, List.drop_eq_nil_iff]
          omega
        simp [Numeral.placesText, Numeral.exponentText, hSome, hPoint, spell, List.map_take, List.map_drop]
      · simp [Numeral.placesText, Numeral.exponentText, Text.repeatChar, hEnd, spell, hZero]
  · have hPadding : Text.padLeft '0' 2 (Text.ofNat ((decimals digits).length + power - 1).natAbs) =
        spell (List.replicate (2 - (decimals ((decimals digits).length + power - 1).natAbs).length) 0
          ++ decimals ((decimals digits).length + power - 1).natAbs) := by
      simp [Text.ofNat_eq_spell, Text.padLeft, spell, hZero]
    have hSign : Text.ofString (if (decimals digits).length + power - 1 < 0 then "-" else "+") =
        [Point.ofChar (if (decimals digits).length + power - 1 < 0 then '-' else '+')] := by
      split
      · exact hMinus
      · exact hPlus
    rw [hPadding]
    simp only [Numeral.placesText, Numeral.exponentText, decide_eq_true_eq]
    by_cases hOne : (decimals digits).length ≤ 1
    · rw [if_pos hOne, if_pos (List.drop_eq_nil_iff.mpr hOne), hSign, hLetter]
      simp [spell, List.map_take]
    · rw [if_neg hOne, if_neg (fun hNil => hOne (List.drop_eq_nil_iff.mp hNil)), hBefore, hSign, hLetter, hPoint]
      simp [spell, List.map_take]

/-- A finite number is written as a numeral that is no whole number and has its value. -/
theorem display_finite (hNormal : (finite s m e).Normal) : ∃ n : Numeral, n.WellFormed ∧
    (n.places ≠ [] ∨ n.exponent ≠ none) ∧ (finite s m e).display = n.text ∧ n.value = finite s m e := by
  by_cases hZero : m = 0
  · subst hZero
    obtain rfl : e = minExponent := hNormal.2.2.2.resolve_left (by norm_num)
    have hText : Text.ofString "0.0" = [Point.ofChar '0', Point.ofChar '.', Point.ofChar '0'] := by
      decide
    refine ⟨⟨s, [0], [0], none⟩, ⟨?_, by simp, fun _ => rfl, ?_, nofun⟩, Or.inl (by simp), ?_, rfl⟩
    · simp [AreDigits]
    · simp [AreDigits]
    · rw [display, if_pos rfl, sign_eq, hText]
      rfl
  · have hPos : 0 < m := Nat.pos_of_ne_zero hZero
    have hShortest := ofDecimal_shortest (m := m) (e := e) hNormal hPos
    have hSome : 0 < (shortest m e).1 := by
      refine Nat.pos_of_ne_zero fun hNone => ?_
      rw [hNone, ofDecimal, if_pos rfl] at hShortest
      cases hShortest
      exact hZero rfl
    obtain ⟨k, hDigits, hPower⟩ := dropZeros_spec 20 (p := (shortest m e).2) hSome
    have hLeft : 0 < (dropZeros 20 (shortest m e)).1 :=
      Nat.pos_of_ne_zero fun hNone => hSome.ne' (by rw [hDigits, hNone, Nat.zero_mul])
    refine ⟨_, Numeral.wellFormed_written s hLeft _, Numeral.written_marked s _ _, display_eq_text hZero, ?_⟩
    rw [Numeral.value_written s hLeft, ← ofDecimal_mul_pow s hLeft _ k, ← hDigits, ← hPower]
    exact ofDecimal_sign hShortest s

/-- A floating-point number reads back from its text. -/
theorem read?_display {x : Double} (h : x.Normal) : read? x.display = some x := by
  cases x with
  | nan => decide
  | infinite s => cases s <;> decide
  | finite s m e =>
      obtain ⟨n, hForm, -, hText, hValue⟩ := display_finite h
      rw [hText, Numeral.read?_text hForm, hValue]

theorem eq_of_display {x y : Double} (hX : x.Normal) (hY : y.Normal) (h : x.display = y.display) : x = y :=
  Option.some.inj ((read?_display hX).symm.trans ((congrArg read? h).trans (read?_display hY)))

end Double
end Conform

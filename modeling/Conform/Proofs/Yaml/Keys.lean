import Conform.Proofs.Double.Numeral
import Conform.Proofs.Yaml.Reduced

/-! The texts of keys. A mapping has no key twice, but as a member a key goes by its text. Keys of one kind have
different texts, and the text of a key that is no text says of which kind it is. -/
namespace Conform

open Text (AreDigits Lacks decimals digitPoint spell)

/-! ### Moments -/

namespace Text

variable {ds es : List Nat} {t u : Text} {width m n : Nat}

/-- Whether digits before a text end where it begins. -/
def EndsDigits (t : Text) : Prop := ∀ p ∈ t.head?, p.decimal? = none

theorem endsDigits_nil : EndsDigits [] := fun p h => by cases h

theorem endsDigits_cons {p : Point} (h : p.decimal? = none) (t : Text) : EndsDigits (p :: t) := fun _ hP =>
  Option.some.inj hP ▸ h

theorem spell_append_inj (hDigits : AreDigits ds) (hDigits' : AreDigits es) (ht : EndsDigits t) (hu : EndsDigits u)
    (h : spell ds ++ t = spell es ++ u) : ds = es ∧ t = u := by
  have hFirst : ∀ {d : Nat} {ds' : List Nat} {t' u' : Text}, d < 10 → EndsDigits t' → spell (d :: ds') ++ u' ≠ t' := by
    rintro d ds' t' u' hDigit hEnds rfl
    cases (decimal?_digitPoint hDigit).symm.trans (hEnds _ rfl)
  induction ds generalizing es with
  | nil =>
      cases es with
      | nil => exact ⟨rfl, h⟩
      | cons e others => exact absurd h.symm (hFirst (hDigits' e List.mem_cons_self) ht)
  | cons d rest ih =>
      have hD := hDigits d List.mem_cons_self
      cases es with
      | nil => exact absurd h (hFirst hD hu)
      | cons e others =>
          obtain ⟨hPoint, hRest⟩ := List.cons.inj h
          have hSame : some d = some e := by
            rw [← decimal?_digitPoint hD, hPoint, decimal?_digitPoint (hDigits' e List.mem_cons_self)]
          obtain ⟨rfl, hText⟩ := ih (fun d hMem => hDigits d (List.mem_cons_of_mem _ hMem))
            (fun e hMem => hDigits' e (List.mem_cons_of_mem _ hMem)) hRest
          exact ⟨by rw [Option.some.inj hSame], hText⟩

/-- A number with zeros before it. -/
def padded (width n : Nat) : Text := padLeft '0' width (ofNat n)

theorem padded_eq_spell (width n : Nat) :
    padded width n = spell (List.replicate (width - (decimals n).length) 0 ++ decimals n) := by
  have hZero : digitPoint 0 = Point.ofChar '0' := rfl
  rw [padded, padLeft, ofNat_eq_spell]
  simp [spell, hZero]

theorem areDigits_padded (width n : Nat) : AreDigits (List.replicate (width - (decimals n).length) 0 ++ decimals n) :=
  Numeral.areDigits_append (Numeral.areDigits_zeros _) (areDigits_decimals n)

/-- A number with zeros before it can be told from what comes after it. -/
theorem padded_append_inj (ht : EndsDigits t) (hu : EndsDigits u) (h : padded width m ++ t = padded width n ++ u) :
    m = n ∧ t = u := by
  rw [padded_eq_spell, padded_eq_spell] at h
  obtain ⟨hDigits, hRest⟩ := spell_append_inj (areDigits_padded width m) (areDigits_padded width n) ht hu h
  have hValue := congrArg Double.ofDigits hDigits
  simp only [ofDigits_append, ofDigits_zeros, ofDigits_decimals, Nat.zero_mul, Nat.zero_add] at hValue
  exact ⟨hValue, hRest⟩

end Text

open Text (EndsDigits padded padded_append_inj)

theorem Date.display_append_inj {d d' : Date} {t u : Text} (ht : EndsDigits t) (hu : EndsDigits u)
    (h : d.display ++ t = d'.display ++ u) : d = d' ∧ t = u := by
  have hMark : ∀ t : Text, EndsDigits (Text.ofString "-" ++ t) := Text.endsDigits_cons (p := Point.ofChar '-') (by decide)
  obtain ⟨y, m, d⟩ := d
  obtain ⟨y', m', d'⟩ := d'
  simp only [display, List.append_assoc] at h
  obtain ⟨rfl, hMonth⟩ := padded_append_inj (hMark _) (hMark _) h
  obtain ⟨rfl, hDay⟩ := padded_append_inj (hMark _) (hMark _) (List.append_cancel_left hMonth)
  obtain ⟨rfl, hRest⟩ := padded_append_inj ht hu (List.append_cancel_left hDay)
  exact ⟨rfl, hRest⟩

namespace Time

/-- The fraction of a second, if there is one. -/
def fractionText (t : Time) : Text := if t.microsecond = 0 then [] else "." ++ padded 6 t.microsecond

/-- The zone, if there is one. -/
def zoneText (t : Time) : Text :=
  match t.offset with
  | none => []
  | some m => displayOffset m

theorem display_eq (t : Time) : t.display =
    padded 2 t.hour ++ (Text.ofString ":" ++ (padded 2 t.minute ++ (Text.ofString ":" ++ (padded 2 t.second ++
      (t.fractionText ++ t.zoneText))))) := by
  have hFields : t.display = (padded 2 t.hour ++ Text.ofString ":" ++ padded 2 t.minute ++ Text.ofString ":" ++
      padded 2 t.second ++ t.fractionText) ++ t.zoneText := rfl
  simpa only [List.append_assoc] using hFields

/-- The sign of a zone. -/
def signPoint (m : Int) : Point := Point.ofChar (if m < 0 then '-' else '+')

theorem signPoint_cases (m : Int) : m < 0 ∧ signPoint m = Point.ofChar '-' ∨ 0 ≤ m ∧ signPoint m = Point.ofChar '+' := by
  unfold signPoint
  split
  · next hNeg => exact .inl ⟨hNeg, rfl⟩
  · next hNot => exact .inr ⟨not_lt.mp hNot, rfl⟩

theorem displayOffset_eq (m : Int) : displayOffset m = signPoint m ::
    (padded 2 (m.natAbs / 60) ++ (Text.ofString ":" ++ (padded 2 (m.natAbs % 60) ++ []))) := by
  have hPlus : Text.ofString "+" = [Point.ofChar '+'] := by decide
  have hMinus : Text.ofString "-" = [Point.ofChar '-'] := by decide
  unfold displayOffset signPoint two padded
  split <;> simp [hPlus, hMinus, List.append_assoc]

theorem endsDigits_colon (t : Text) : EndsDigits (Text.ofString ":" ++ t) :=
  Text.endsDigits_cons (p := Point.ofChar ':') (by decide) t

theorem displayOffset_injective : Function.Injective displayOffset := by
  intro m n h
  rw [displayOffset_eq, displayOffset_eq] at h
  obtain ⟨hSign, h⟩ := List.cons.inj h
  obtain ⟨hHours, h⟩ := padded_append_inj (endsDigits_colon _) (endsDigits_colon _) h
  obtain ⟨hMinutes, -⟩ :=
    padded_append_inj Text.endsDigits_nil Text.endsDigits_nil (List.append_cancel_left h)
  have hOther : Point.ofChar '-' ≠ Point.ofChar '+' := by decide
  rcases signPoint_cases m with ⟨hM, hPoint⟩ | ⟨hM, hPoint⟩ <;>
    rcases signPoint_cases n with ⟨hN, hPoint'⟩ | ⟨hN, hPoint'⟩
  · omega
  · exact absurd (hPoint.symm.trans (hSign.trans hPoint')) hOther
  · exact absurd (hPoint'.symm.trans (hSign.symm.trans hPoint)) hOther
  · omega

theorem zoneText_none {t : Time} (h : t.offset = none) : t.zoneText = [] := by rw [zoneText, h]

theorem zoneText_some {t : Time} {m : Int} (h : t.offset = some m) : t.zoneText = displayOffset m := by rw [zoneText, h]

theorem endsDigits_zoneText (t : Time) : EndsDigits t.zoneText := by
  cases hZone : t.offset with
  | none => exact zoneText_none hZone ▸ Text.endsDigits_nil
  | some m =>
      rw [zoneText_some hZone, displayOffset_eq]
      refine Text.endsDigits_cons ?_ _
      rcases signPoint_cases m with ⟨-, hPoint⟩ | ⟨-, hPoint⟩ <;> rw [hPoint] <;> decide

theorem offset_eq_of_zoneText {s t : Time} (h : s.zoneText = t.zoneText) : s.offset = t.offset := by
  cases hS : s.offset with
  | none =>
      cases hT : t.offset with
      | none => rfl
      | some n =>
          rw [zoneText_none hS, zoneText_some hT, displayOffset_eq] at h
          cases h
  | some m =>
      cases hT : t.offset with
      | none =>
          rw [zoneText_some hS, zoneText_none hT, displayOffset_eq] at h
          cases h
      | some n =>
          rw [zoneText_some hS, zoneText_some hT] at h
          rw [displayOffset_injective h]

/-- A point is not the sign of a zone. -/
theorem point_append_ne (u : Text) (t : Time) : Text.ofString "." ++ u ≠ t.zoneText := by
  intro h
  cases hZone : t.offset with
  | none =>
      rw [zoneText_none hZone] at h
      cases h
  | some m =>
      rw [zoneText_some hZone, displayOffset_eq] at h
      have hPoint : Point.ofChar '.' = signPoint m := (List.cons.inj h).1
      rcases signPoint_cases m with ⟨-, hSign⟩ | ⟨-, hSign⟩ <;> exact absurd (hPoint.trans hSign) (by decide)

theorem fractionText_zero {t : Time} (h : t.microsecond = 0) : t.fractionText ++ t.zoneText = t.zoneText := by
  rw [fractionText, if_pos h, List.nil_append]

theorem fractionText_some {t : Time} (h : t.microsecond ≠ 0) :
    t.fractionText ++ t.zoneText = Text.ofString "." ++ (padded 6 t.microsecond ++ t.zoneText) := by
  rw [fractionText, if_neg h]
  exact List.append_assoc ..

theorem endsDigits_fractionText (t : Time) : EndsDigits (t.fractionText ++ t.zoneText) := by
  by_cases hNone : t.microsecond = 0
  · rw [fractionText_zero hNone]
    exact endsDigits_zoneText t
  · rw [fractionText_some hNone]
    exact Text.endsDigits_cons (p := Point.ofChar '.') (by decide) _

theorem fraction_eq_of_text {s t : Time} (h : s.fractionText ++ s.zoneText = t.fractionText ++ t.zoneText) :
    s.microsecond = t.microsecond ∧ s.zoneText = t.zoneText := by
  by_cases hS : s.microsecond = 0 <;> by_cases hT : t.microsecond = 0
  · rw [fractionText_zero hS, fractionText_zero hT] at h
    exact ⟨hS.trans hT.symm, h⟩
  · rw [fractionText_zero hS, fractionText_some hT] at h
    exact absurd h.symm (point_append_ne _ s)
  · rw [fractionText_some hS, fractionText_zero hT] at h
    exact absurd h (point_append_ne _ t)
  · rw [fractionText_some hS, fractionText_some hT] at h
    exact padded_append_inj (endsDigits_zoneText s) (endsDigits_zoneText t) (List.append_cancel_left h)

theorem display_injective : Function.Injective display := by
  intro s t h
  rw [display_eq, display_eq] at h
  obtain ⟨hHour, h⟩ := padded_append_inj (endsDigits_colon _) (endsDigits_colon _) h
  obtain ⟨hMinute, h⟩ := padded_append_inj (endsDigits_colon _) (endsDigits_colon _) (List.append_cancel_left h)
  obtain ⟨hSecond, h⟩ :=
    padded_append_inj (endsDigits_fractionText s) (endsDigits_fractionText t) (List.append_cancel_left h)
  obtain ⟨hFraction, hZone⟩ := fraction_eq_of_text h
  have hOffset := offset_eq_of_zoneText hZone
  obtain ⟨hour, minute, second, microsecond, offset⟩ := s
  obtain ⟨hour', minute', second', microsecond', offset'⟩ := t
  simp only at hHour hMinute hSecond hFraction hOffset
  subst hHour hMinute hSecond hFraction hOffset
  rfl

end Time

/-- Moments of one text are one moment. -/
theorem Moment.display_injective : Function.Injective Moment.display := by
  intro m n h
  have hBlank : ∀ t : Text, EndsDigits (Text.ofString " " ++ t) := Text.endsDigits_cons (p := Point.ofChar ' ') (by decide)
  have hTime : ∀ (d : Date) (t : Time), display ⟨d, some t⟩ = d.display ++ (Text.ofString " " ++ t.display) :=
    fun d t => List.append_assoc ..
  have hDate : ∀ d : Date, display ⟨d, none⟩ = d.display ++ [] := fun d => (List.append_nil _).symm
  obtain ⟨d, s⟩ := m
  obtain ⟨d', t⟩ := n
  cases s with
  | none =>
      rw [hDate] at h
      cases t with
      | none =>
          rw [hDate] at h
          rw [(Date.display_append_inj Text.endsDigits_nil Text.endsDigits_nil h).1]
      | some t =>
          rw [hTime] at h
          cases (Date.display_append_inj Text.endsDigits_nil (hBlank _) h).2
  | some s =>
      rw [hTime] at h
      cases t with
      | none =>
          rw [hDate] at h
          cases (Date.display_append_inj (hBlank _) Text.endsDigits_nil h).2
      | some t =>
          rw [hTime] at h
          obtain ⟨rfl, hRest⟩ := Date.display_append_inj (hBlank _) (hBlank _) h
          rw [Time.display_injective (List.append_cancel_left hRest)]

namespace Yaml.Value

/-! ### Byte strings -/

/-- A byte inside quotes. -/
def byteText (quote : Char) (b : UInt8) : Text :=
  let p := Point.ofChar (Char.ofNat b.toNat)
  if p.isAscii then Text.quotePoint quote p else "\\x" ++ Text.hexDigits 2 p.val

theorem quotedBytes_eq (bs : Bytes) : ∃ q, (q = '"' ∨ q = '\'') ∧
    quotedBytes bs = Point.ofChar 'b' :: Point.ofChar q :: (bs.flatMap (byteText q) ++ [Point.ofChar q]) := by
  refine ⟨Text.quoteMark (bs.map fun b => Point.ofChar (Char.ofNat b.toNat)), ?_, ?_⟩
  · unfold Text.quoteMark
    split
    · exact .inl rfl
    · exact .inr rfl
  · have hStart : Text.ofString "b" = [Point.ofChar 'b'] := by decide
    have hAll : ∀ q, (bs.map fun b => Point.ofChar (Char.ofNat b.toNat)).flatMap (fun p =>
        if p.isAscii then Text.quotePoint q p else "\\x" ++ Text.hexDigits 2 p.val) = bs.flatMap (byteText q) := fun q => by
      rw [List.flatMap_map]
      rfl
    unfold quotedBytes
    dsimp only
    rw [hAll]
    simp [hStart]

/-- Reads two digits in base sixteen. -/
def hexByte : Text → Option (Nat × Text)
  | h :: l :: rest => some (((Text.int? 16 [h, l]).getD 0).toNat, rest)
  | _ => none

/-- Reads what comes after a backslash. -/
def escapedByte : Text → Option (Nat × Text)
  | [] => none
  | p :: rest =>
    if p.char = 'x' then hexByte rest
    else some ((([('n', 10), ('r', 13), ('t', 9)] : List (Char × Nat)).lookup p.char).getD p.val, rest)

/-- Reads the first of the bytes inside quotes. -/
def firstByte : Text → Option (Nat × Text)
  | [] => none
  | p :: rest => if p.char = '\\' then escapedByte rest else some (p.val, rest)

theorem hexByte_append {t rest : Text} {n : Nat} (h : hexByte t = some (n, rest)) (u : Text) :
    hexByte (t ++ u) = some (n, rest ++ u) := by
  rcases t with - | ⟨p, - | ⟨q, others⟩⟩
  · cases h
  · cases h
  · cases h
    rfl

theorem escapedByte_append {t rest : Text} {n : Nat} (h : escapedByte t = some (n, rest)) (u : Text) :
    escapedByte (t ++ u) = some (n, rest ++ u) := by
  cases t with
  | nil => cases h
  | cons p others =>
      rw [List.cons_append, escapedByte]
      rw [escapedByte] at h
      split at h
      · next hHex =>
          rw [if_pos hHex]
          exact hexByte_append h u
      · next hOther =>
          rw [if_neg hOther]
          cases h
          rfl

theorem firstByte_append {t rest : Text} {n : Nat} (h : firstByte t = some (n, rest)) (u : Text) :
    firstByte (t ++ u) = some (n, rest ++ u) := by
  cases t with
  | nil => cases h
  | cons p others =>
      rw [List.cons_append, firstByte]
      rw [firstByte] at h
      split at h
      · next hEscape =>
          rw [if_pos hEscape]
          exact escapedByte_append h u
      · next hPlain =>
          rw [if_neg hPlain]
          cases h
          rfl

theorem firstByte_byteText {q : Char} (hQuote : q = '"' ∨ q = '\'') (b : UInt8) (rest : Text) :
    firstByte (byteText q b ++ rest) = some (b.toNat, rest) := by
  have hAll : ∀ q ∈ ['"', '\''], ∀ n : Fin 256, firstByte (byteText q (UInt8.ofNat n.val)) = some (n.val, []) :=
    List.all_iff_forall_prop.mp (by decide +kernel)
  have hOne := hAll q (by simpa using hQuote) b.toFin
  rw [show UInt8.ofNat b.toFin.val = b from UInt8.ofNat_toNat] at hOne
  exact firstByte_append hOne rest

theorem flatMap_byteText_inj {q : Char} (hQuote : q = '"' ∨ q = '\'') {bs cs : Bytes}
    (h : bs.flatMap (byteText q) = cs.flatMap (byteText q)) : bs = cs := by
  induction bs generalizing cs with
  | nil =>
      cases cs with
      | nil => rfl
      | cons c others =>
          have hRead := firstByte_byteText hQuote c (others.flatMap (byteText q))
          rw [← List.flatMap_cons, ← h] at hRead
          cases hRead
  | cons b rest ih =>
      have hRead := firstByte_byteText hQuote b (rest.flatMap (byteText q))
      rw [← List.flatMap_cons, h] at hRead
      cases cs with
      | nil => cases hRead
      | cons c others =>
          rw [List.flatMap_cons, firstByte_byteText hQuote] at hRead
          obtain ⟨hByte, hRest⟩ := Prod.mk.inj (Option.some.inj hRead)
          rw [UInt8.toNat_inj.mp hByte, ih hRest.symm]

/-- Byte strings that are shown as one text are one byte string. -/
theorem quotedBytes_injective : Function.Injective quotedBytes := by
  intro bs cs h
  obtain ⟨q, hQuote, hText⟩ := quotedBytes_eq bs
  obtain ⟨q', hQuote', hText'⟩ := quotedBytes_eq cs
  rw [hText, hText'] at h
  obtain ⟨hMark, hInside⟩ := List.cons.inj (List.cons.inj h).2
  have hSame : q = q' := by
    rw [← Point.char_ofChar q, hMark, Point.char_ofChar]
  subst hSame
  exact flatMap_byteText_inj hQuote (List.append_cancel_right hInside)

end Yaml.Value

/-- A number is equal to itself. -/
theorem Document.numberEq_self (x : Double) : numberEq (.float x) (.float x) = true := by
  cases x with
  | nan => rfl
  | infinite s => cases s <;> rfl
  | finite s m e => simp [numberEq, Double.compare?, Double.ratio?, Double.compareRatio]

theorem Moment.same_self (m : Moment) : m.same m = true := by
  unfold same
  split
  · split <;> exact beq_self_eq_true _
  · exact beq_self_eq_true _

namespace Yaml.Value

/-! ### Kinds -/

/-- The kind of a key that is no text, from its text. Words and byte strings are known by their first letter, a time of
day by the blank before it, a floating-point number by its point, its exponent or its word, and a date by the dashes in
it. -/
def kindOf (t : Text) : Text :=
  if t.head? = some (Point.ofChar 'N') then "NoneType"
  else if t.head? = some (Point.ofChar 'T') ∨ t.head? = some (Point.ofChar 'F') then "bool"
  else if t.head? = some (Point.ofChar 'b') then "bytes"
  else if ¬ Lacks ' ' t then "datetime"
  else if ¬ (Lacks '.' t ∧ Lacks 'e' t ∧ Lacks 'n' t) then "float"
  else if ¬ Lacks '-' t.tail then "date"
  else "int"

/-- The letters with which the texts of words and of byte strings begin. -/
def initials : List Char := ['N', 'T', 'F', 'b']

theorem kindOf_of_lacks {t : Text} (h : ∀ c ∈ initials, t.head? ≠ some (Point.ofChar c)) : kindOf t =
    if ¬ Lacks ' ' t then Text.ofString "datetime"
    else if ¬ (Lacks '.' t ∧ Lacks 'e' t ∧ Lacks 'n' t) then "float"
    else if ¬ Lacks '-' t.tail then "date"
    else "int" := by
  simp only [initials, List.forall_mem_cons] at h
  obtain ⟨hN, hT, hF, hB, -⟩ := h
  rw [kindOf, if_neg hN, if_neg (not_or.mpr ⟨hT, hF⟩), if_neg hB]

theorem head?_ne_of_lacks {c : Char} {t : Text} (h : Lacks c t) : t.head? ≠ some (Point.ofChar c) := fun hHead =>
  h _ (List.mem_of_mem_head? hHead) (Point.char_ofChar c)

theorem kindOf_int (n : Int) : kindOf (Text.ofInt n) = "int" := by
  have hLacks : ∀ c ∈ initials ++ [' ', '.', 'e', 'n'], Lacks c (Text.ofInt n) := by
    intro c hMem
    have hMarks : ∀ c ∈ initials ++ [' ', '.', 'e', 'n'], Text.IsMark c ∧ c ≠ '-' :=
      List.all_iff_forall_prop.mp (by decide)
    exact Text.lacks_ofInt (hMarks c hMem).1 (hMarks c hMem).2 n
  have hTail : Lacks '-' (Text.ofInt n).tail := by
    cases n with
    | ofNat n => exact Text.lacks_of_subset (Text.lacks_ofNat (by decide) n) (List.tail_subset _)
    | negSucc n => exact Text.lacks_ofNat (by decide) (n + 1)
  rw [kindOf_of_lacks fun c hMem => head?_ne_of_lacks (hLacks c (List.mem_append_left _ hMem)),
    if_neg (not_not.mpr (hLacks ' ' (by decide))),
    if_neg (not_not.mpr ⟨hLacks '.' (by decide), hLacks 'e' (by decide), hLacks 'n' (by decide)⟩),
    if_neg (not_not.mpr hTail)]

theorem kindOf_float {x : Double} (h : x.Normal) : kindOf x.display = "float" := by
  cases x with
  | nan => decide
  | infinite s => cases s <;> decide
  | finite s m e =>
      obtain ⟨n, hForm, hMarked, hText, -⟩ := Double.display_finite h
      rw [hText]
      have hLacks : ∀ c ∈ initials ++ [' '], Lacks c n.text := by
        intro c hMem p hP
        have hAll : ∀ c ∈ initials ++ [' '], Lacks c Numeral.alphabet := List.all_iff_forall_prop.mp (by decide)
        exact hAll c hMem p (Numeral.mem_alphabet hForm p hP)
      have hPlace : ¬ (Lacks '.' n.text ∧ Lacks 'e' n.text ∧ Lacks 'n' n.text) := by
        rintro ⟨hPoint, hLetter, -⟩
        rcases hMarked with hPlaces | hExponent
        · refine hPoint (Point.ofChar '.') ?_ (by decide)
          simp [Numeral.text, Numeral.body, Numeral.placesText, hPlaces]
        · obtain ⟨e, hSome⟩ := Option.ne_none_iff_exists'.mp hExponent
          refine hLetter (Point.ofChar 'e') ?_ (by decide)
          simp [Numeral.text, Numeral.body, Numeral.exponentText, hSome]
      rw [kindOf_of_lacks fun c hMem => head?_ne_of_lacks (hLacks c (List.mem_append_left _ hMem)),
        if_neg (not_not.mpr (hLacks ' ' (by decide))), if_pos hPlace]

theorem kindOf_moment (m : Moment) : kindOf m.display = (moment m).kind := by
  obtain ⟨d, time⟩ := m
  have hLacks : ∀ c ∈ initials ++ [' ', '.', 'e', 'n'], Lacks c d.display := by
    intro c hMem
    have hMarks : ∀ c ∈ initials ++ [' ', '.', 'e', 'n'], Text.IsMark c ∧ Lacks c "-" :=
      List.all_iff_forall_prop.mp (by decide)
    exact Date.lacks_display (hMarks c hMem).1 (hMarks c hMem).2 d
  obtain ⟨p, rest, hYear⟩ : ∃ p rest, padded 4 d.year = p :: rest :=
    List.exists_cons_of_ne_nil (by simp [padded, Text.padLeft, Text.ofNat_eq_spell, spell, Text.decimals_ne_nil])
  obtain ⟨u, hDate⟩ : ∃ u, d.display = p :: (rest ++ Point.ofChar '-' :: u) := by
    refine ⟨padded 2 d.month ++ (Text.ofString "-" ++ padded 2 d.day), ?_⟩
    rw [← List.cons_append, ← hYear]
    simp only [Date.display, List.append_assoc]
    rfl
  cases time with
  | none =>
      have hDash : ¬ Lacks '-' d.display.tail := fun hFree =>
        hFree (Point.ofChar '-') (by rw [hDate]; simp) (by decide)
      rw [show (Moment.display ⟨d, none⟩) = d.display from rfl,
        kindOf_of_lacks fun c hMem => head?_ne_of_lacks (hLacks c (List.mem_append_left _ hMem)),
        if_neg (not_not.mpr (hLacks ' ' (by decide))),
        if_neg (not_not.mpr ⟨hLacks '.' (by decide), hLacks 'e' (by decide), hLacks 'n' (by decide)⟩), if_pos hDash]
      rfl
  | some t =>
      have hText : Moment.display ⟨d, some t⟩ = d.display ++ (Point.ofChar ' ' :: t.display) := List.append_assoc ..
      have hHead : (Moment.display ⟨d, some t⟩).head? = d.display.head? := by
        rw [hText, hDate]
        rfl
      have hBlank : ¬ Lacks ' ' (Moment.display ⟨d, some t⟩) := fun hFree =>
        hFree (Point.ofChar ' ') (by rw [hText]; simp) (by decide)
      rw [kindOf_of_lacks fun c hMem => hHead ▸ head?_ne_of_lacks (hLacks c (List.mem_append_left _ hMem)), if_pos hBlank]
      rfl

/-- Whether a value can be a key: it is a scalar, and as a floating-point number it is the rounding of its value. -/
def IsKey (k : Value) : Prop := k.isScalar = true ∧ k.toDocument.Fine

variable {k a b v : Value}

/-- The text of a key that is no text says of which kind it is. -/
theorem kindOf_plain (h : IsKey k) (hOther : k.kind ≠ "str") : kindOf k.plain = k.kind := by
  cases k with
  | null => decide
  | bool b => cases b <;> decide
  | int n => exact kindOf_int n
  | float x => exact kindOf_float h.2
  | text t => exact absurd rfl hOther
  | bytes bs =>
      obtain ⟨q, -, hText⟩ := quotedBytes_eq bs
      change kindOf (quotedBytes bs) = _
      rw [hText, kindOf, List.head?_cons, if_neg (by decide), if_neg (by decide), if_pos rfl]
      rfl
  | moment m => exact kindOf_moment m
  | list | tuple | set | mapping => cases h.1

/-- Whether two scalars are made in one way. -/
inductive Alike : Value → Value → Prop where
  | null : Alike null null
  | bool (b c : Bool) : Alike (bool b) (bool c)
  | int (m n : Int) : Alike (int m) (int n)
  | float (x y : Double) : Alike (float x) (float y)
  | text (s t : Text) : Alike (text s) (text t)
  | bytes (bs cs : Bytes) : Alike (bytes bs) (bytes cs)
  | moment (m n : Moment) : Alike (moment m) (moment n)

theorem kind_moment_ne {t : Text} (hDate : t ≠ "date") (hTime : t ≠ "datetime") (m : Moment) : (moment m).kind ≠ t := by
  obtain ⟨d, time⟩ := m
  cases time with
  | none => exact hDate.symm
  | some => exact hTime.symm

theorem alike_of_kind (hA : a.isScalar = true) (hB : b.isScalar = true) (h : a.kind = b.kind) : Alike a b := by
  cases a <;> cases b <;> first
    | constructor
    | exact absurd hA Bool.false_ne_true
    | exact absurd hB Bool.false_ne_true
    | exact absurd h (by simp only [kind]; decide)
    | exact absurd h (kind_moment_ne (by simp only [kind]; decide) (by simp only [kind]; decide) _)
    | exact absurd h.symm (kind_moment_ne (by simp only [kind]; decide) (by simp only [kind]; decide) _)

theorem eq_text_of_kind (h : k.isScalar = true) (hText : k.kind = "str") : k = text k.plain := by
  cases alike_of_kind (b := text []) h rfl hText
  rfl

/-- Keys of one kind with one text are one key. -/
theorem sameKey_of_kind (hA : IsKey a) (hB : IsKey b) (hKind : a.kind = b.kind) (h : a.plain = b.plain) :
    a.sameKey b = true := by
  cases alike_of_kind hA.1 hB.1 hKind with
  | null => rfl
  | bool b c =>
      have hWords : ∀ b c : Bool, (bool b).plain = (bool c).plain → b = c := by decide
      obtain rfl := hWords b c h
      cases b <;> rfl
  | int m n =>
      obtain rfl := Text.ofInt_injective h
      exact beq_self_eq_true m
  | float x y =>
      obtain rfl := Double.eq_of_display hA.2 hB.2 h
      exact Document.numberEq_self x
  | text s t => exact beq_iff_eq.mpr h
  | bytes bs cs => exact beq_iff_eq.mpr (quotedBytes_injective h)
  | moment m n =>
      obtain rfl := Moment.display_injective h
      exact Moment.same_self m

/-- Two keys have one text only if one of them is this text and the other is no text. -/
theorem texts_of_plain (hA : IsKey a) (hB : IsKey b) (hDiffer : a.sameKey b = false) (h : a.plain = b.plain) :
    (a = text b.plain ∧ b.kind ≠ "str") ∨ (b = text a.plain ∧ a.kind ≠ "str") := by
  have hKinds : a.kind ≠ b.kind := fun hKind => Bool.false_ne_true (hDiffer.symm.trans (sameKey_of_kind hA hB hKind h))
  by_cases hText : a.kind = "str"
  · refine .inl ⟨?_, fun hOther => hKinds (hText.trans hOther.symm)⟩
    rw [← h]
    exact eq_text_of_kind hA.1 hText
  · by_cases hOther : b.kind = "str"
    · refine .inr ⟨?_, hText⟩
      rw [h]
      exact eq_text_of_kind hB.1 hOther
    · exact absurd ((kindOf_plain hA hText).symm.trans ((congrArg kindOf h).trans (kindOf_plain hB hOther))) hKinds

/-! ### Entries and members -/

variable {es : List (Value × Value)}

/-- Whether a mapping has the keys of one that is loaded: they can be keys, and no two of them are one. -/
def HasKeys : Value → Prop
  | mapping es => (∀ e ∈ es, IsKey e.1) ∧ es.Pairwise fun e f => e.1.sameKey f.1 = false
  | _ => True

theorem pairwise_enter {es : List (Value × Value)} (h : es.Pairwise fun e f => e.1.sameKey f.1 = false) (k v : Value) :
    (enter k v es).Pairwise fun e f => e.1.sameKey f.1 = false := by
  induction es with
  | nil => exact List.pairwise_singleton _ _
  | cons first rest ih =>
      obtain ⟨hFirst, hRest⟩ := List.pairwise_cons.mp h
      rw [enter]
      split
      · exact List.pairwise_cons.mpr ⟨hFirst, hRest⟩
      · next hOther =>
          refine List.pairwise_cons.mpr ⟨fun e hMem => ?_, ih hRest⟩
          exact (forall_mem_enter (P := fun k' => first.1.sameKey k' = false) (Q := fun _ => True)
            (Bool.eq_false_iff.mpr hOther) trivial (fun e hE => ⟨hFirst e hE, trivial⟩) e hMem).1

theorem pairwise_enterAll (es : List (Value × Value)) :
    (enterAll es).Pairwise fun e f => e.1.sameKey f.1 = false := by
  induction es using List.reverseRecOn with
  | nil => exact List.Pairwise.nil
  | append_singleton es e ih =>
      rw [enterAll_append]
      exact pairwise_enter ih e.1 e.2

/-- What is inside a value is the value, or it is inside a part. -/
theorem hasKeys_of_parts (h : v.HasKeys) (hParts : ∀ p, Part v p → ∀ sub, Inside p sub → sub.HasKeys) :
    ∀ sub, Inside v sub → sub.HasKeys := by
  intro sub hInside
  rcases Relation.ReflTransGen.cases_head hInside with rfl | ⟨p, hPart, hSub⟩
  · exact h
  · exact hParts p hPart sub hSub

/-- Mappings have such keys wherever they are in what is loaded. -/
theorem kept_hasKeys : Kept fun v => (v.isScalar = true → IsKey v) ∧ ∀ sub, Inside v sub → sub.HasKeys where
  scalar {depth tag t v} h := by
    have hScalar := isScalar_of_scalarNode h
    refine ⟨fun _ => ⟨hScalar, scalarNode_fine h⟩, hasKeys_of_parts ?_ fun p hPart => ?_⟩
    · cases v with
      | mapping => cases hScalar
      | _ => trivial
    · cases hPart <;> cases hScalar
  list h := by
    refine ⟨nofun, hasKeys_of_parts trivial fun p hPart => ?_⟩
    cases hPart with
    | item hMem => exact (h p hMem).2
  tuple hA hB := by
    refine ⟨nofun, hasKeys_of_parts trivial fun p hPart => ?_⟩
    cases hPart with
    | component hMem =>
        rcases List.mem_pair.mp hMem with rfl | rfl
        · exact hA.2
        · exact hB.2
  set h := by
    refine ⟨nofun, hasKeys_of_parts trivial fun p hPart => ?_⟩
    cases hPart with
    | member hMem =>
        obtain ⟨e, hE, rfl⟩ := List.mem_map.mp hMem
        exact (h e hE).1.2.2
  mapping {es} h := by
    refine ⟨nofun, hasKeys_of_parts ?_ fun p hPart => ?_⟩
    · exact ⟨fun e hMem => (h e hMem).1.2.1 (h e hMem).1.1, pairwise_enterAll es⟩
    · cases hPart with
      | value hMem => exact (h _ hMem).2.2

/-- Whether a key is no text, while its text is a key too. -/
def hasTwin (es : List (Value × Value)) (k : Value) : Bool := k.kind != "str" && es.any (isNamed k.plain)

theorem hasTwin_iff : hasTwin es k = true ↔ k.kind ≠ "str" ∧ ∃ e ∈ es, e.1 = text k.plain := by
  simp only [hasTwin, Bool.and_eq_true, bne_iff_ne, List.any_eq_true, isNamed_iff]

/-- The entries that are not hidden by others. -/
def apart (es : List (Value × Value)) : List (Value × Value) := es.filter fun e => !hasTwin es e.1

theorem nodup_apart (h : (mapping es).HasKeys) : ((apart es).map (·.1.plain)).Nodup := by
  obtain ⟨hKeys, hDiffer⟩ := h
  rw [List.Nodup, List.pairwise_map]
  refine List.Pairwise.imp_of_mem ?_ (hDiffer.filter fun e => !hasTwin es e.1)
  intro e f hE hF hOther hText
  obtain ⟨hE, hFree⟩ := List.mem_filter.mp hE
  obtain ⟨hF, hFree'⟩ := List.mem_filter.mp hF
  rw [Bool.not_eq_true'] at hFree hFree'
  rcases texts_of_plain (hKeys e hE) (hKeys f hF) hOther hText with ⟨hTwin, hKind⟩ | ⟨hTwin, hKind⟩
  · exact Bool.false_ne_true (hFree'.symm.trans (hasTwin_iff.mpr ⟨hKind, e, hE, hTwin⟩))
  · exact Bool.false_ne_true (hFree.symm.trans (hasTwin_iff.mpr ⟨hKind, f, hF, hTwin⟩))

/-- Every text of a key is one of a key that is not hidden. -/
theorem mem_apart_iff (t : Text) : t ∈ (apart es).map (·.1.plain) ↔ t ∈ es.map (·.1.plain) := by
  refine ⟨fun hMem => (List.filter_sublist.map _).subset hMem, fun hMem => ?_⟩
  obtain ⟨e, hE, rfl⟩ := List.mem_map.mp hMem
  cases hTwin : hasTwin es e.1 with
  | false => exact List.mem_map_of_mem (List.mem_filter.mpr ⟨hE, by rw [hTwin]; rfl⟩)
  | true =>
      obtain ⟨-, f, hF, hText⟩ := hasTwin_iff.mp hTwin
      have hFree : hasTwin es f.1 = false := by
        rw [hText]
        rfl
      have hSame : f.1.plain = e.1.plain := by
        rw [hText]
        rfl
      exact hSame ▸ List.mem_map_of_mem (List.mem_filter.mpr ⟨hF, by rw [hFree]; rfl⟩)

theorem length_apart (es : List (Value × Value)) :
    (apart es).length + es.countP (fun e => hasTwin es e.1) = es.length := by
  have hSplit := List.length_eq_countP_add_countP (fun e => hasTwin es e.1) (l := es)
  rw [hSplit, Nat.add_comm, apart, ← List.countP_eq_length_filter]
  simp

/-- What the members of the object made of a mapping are. There is one for every text of a key, so there are as many
as entries, less those of which the key is no text while its text is a key too. Without such keys the members are the
entries. -/
structure HasMembers (es : List (Value × Value)) (ms : Members) : Prop where
  nodup : (Members.names ms).Nodup
  mem_names (t : Text) : t ∈ Members.names ms ↔ ∃ e ∈ es, e.1.plain = t
  length : ms.length + es.countP (fun e => hasTwin es e.1) = es.length
  eq_entries (h : ∀ e ∈ es, hasTwin es e.1 = false) : ms = es.map fun e => (e.1.plain, e.2.toDocument)

theorem names_toMembers (es : List (Value × Value)) : Members.names (toMembers es) = es.map (·.1.plain) := by
  rw [toMembers_eq, Members.names, List.map_map]
  rfl

theorem hasMembers_ofList (h : (mapping es).HasKeys) : HasMembers es (Members.ofList (toMembers es)) := by
  have hNames : ∀ t, t ∈ Members.names (Members.ofList (toMembers es)) ↔ t ∈ es.map (·.1.plain) := fun t => by
    rw [Members.mem_names_ofList, names_toMembers]
  refine ⟨Members.nodup_ofList _, fun t => (hNames t).trans List.mem_map, ?_, fun hFree => ?_⟩
  · have hPerm : (Members.names (Members.ofList (toMembers es))).Perm ((apart es).map (·.1.plain)) :=
      (List.perm_ext_iff_of_nodup (Members.nodup_ofList _) (nodup_apart h)).mpr fun t =>
        (hNames t).trans (mem_apart_iff t).symm
    have hLength := hPerm.length_eq
    rw [Members.names, List.length_map, List.length_map] at hLength
    rw [hLength, length_apart]
  · have hApart : apart es = es := List.filter_eq_self.mpr fun e hMem => by rw [hFree e hMem]; rfl
    have hNodup := nodup_apart h
    rw [hApart, ← names_toMembers] at hNodup
    rw [Members.ofList_of_nodup hNodup, toMembers_eq]

/-- A stream with keys of several kinds. -/
def mixedKeys : Bytes := Text.utf8 "1: a\n~: \x7btrue: b, !!timestamp 2001-02-03: c\x7d\n"

/-- The kinds of the keys of a mapping. -/
def keyKinds : Value → List Text
  | mapping es => es.map (·.1.kind)
  | _ => []

/-- A stream with a number and its text for keys. -/
def twins : Bytes := Text.utf8 "\x7b1: a, \"1\": b\x7d"

end Yaml.Value
end Conform

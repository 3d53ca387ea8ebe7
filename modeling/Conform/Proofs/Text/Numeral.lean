import Conform.Double.Decimal
import Conform.Text.Numeral
import Mathlib.Tactic.Positivity
import Mathlib.Tactic.Ring

/-! Decimal numerals: the digits of a number, their spelling, and that it reads back. -/
namespace Conform

namespace Text

open Double (ofDigits)

variable {n k : Nat} {ds es : List Nat} {rest t : Text}

/-- The decimal digits of a number, the highest first. -/
def decimals (n : Nat) : List Nat := if n < 10 then [n] else decimals (n / 10) ++ [n % 10]

def digitPoint (d : Nat) : Point := Point.ofChar d.digitChar

/-- The digits as a text. -/
def spell (ds : List Nat) : Text := ds.map digitPoint

/-- Whether all members of a list are digits. -/
def AreDigits (ds : List Nat) : Prop := ∀ d ∈ ds, d < 10

theorem decimals_of_lt (h : n < 10) : decimals n = [n] := by rw [decimals, if_pos h]

theorem decimals_append {d : Nat} (hPos : 0 < n) (hDigit : d < 10) :
    decimals (n * 10 + d) = decimals n ++ [d] := by
  rw [decimals, if_neg (by omega)]
  congr 2 <;> omega

theorem areDigits_decimals (n : Nat) : AreDigits (decimals n) := by
  induction n using Nat.strongRecOn with
  | _ n ih =>
      intro d hMem
      rw [decimals] at hMem
      split at hMem
      · next hSmall => exact List.mem_singleton.mp hMem ▸ hSmall
      · rcases List.mem_append.mp hMem with hMem | hMem
        · exact ih (n / 10) (by omega) d hMem
        · rw [List.mem_singleton.mp hMem]
          omega

theorem decimals_ne_nil (n : Nat) : decimals n ≠ [] := by
  rw [decimals]
  split <;> simp

theorem ofNat_eq_spell (n : Nat) : ofNat n = spell (decimals n) := by
  induction n using Nat.strongRecOn with
  | _ n ih =>
      rw [decimals, ofNat, Nat.toDigits_eq_if (by omega)]
      split
      · rfl
      · have hRest := ih (n / 10) (by omega)
        rw [ofNat, ofChars] at hRest
        rw [ofChars, List.map_append, hRest, spell, spell, List.map_append]
        rfl

theorem foldl_digits (ds : List Nat) (a : Nat) :
    ds.foldl (fun n d => n * 10 + d) a = a * 10 ^ ds.length + ofDigits ds := by
  induction ds generalizing a with
  | nil => simp [ofDigits]
  | cons d rest ih =>
      have hAll : ofDigits (d :: rest) = (0 * 10 + d) * 10 ^ rest.length + ofDigits rest := ih _
      rw [List.foldl_cons, ih, hAll, List.length_cons, pow_succ]
      ring

theorem ofDigits_append (ds es : List Nat) :
    ofDigits (ds ++ es) = ofDigits ds * 10 ^ es.length + ofDigits es := by
  rw [ofDigits, List.foldl_append, foldl_digits]
  rfl

theorem ofDigits_decimals (n : Nat) : ofDigits (decimals n) = n := by
  induction n using Nat.strongRecOn with
  | _ n ih =>
      rw [decimals]
      split
      · simp [ofDigits]
      · rw [ofDigits_append, ih (n / 10) (by omega)]
        simp [ofDigits]
        omega

theorem ofDigits_zeros (k : Nat) : ofDigits (List.replicate k 0) = 0 := by
  induction k with
  | zero => rfl
  | succ k ih => rw [List.replicate_succ, ofDigits, List.foldl_cons, ← ofDigits]; exact ih

/-- Zeros at the end of the digits multiply by powers of ten. -/
theorem decimals_mul_pow (hPos : 0 < n) (k : Nat) :
    decimals (n * 10 ^ k) = decimals n ++ List.replicate k 0 := by
  induction k with
  | zero => simp
  | succ k ih =>
      have hStep := decimals_append (n := n * 10 ^ k) (d := 0) (by positivity) (by omega)
      rw [Nat.add_zero, ih] at hStep
      rw [pow_succ, ← mul_assoc, hStep, List.replicate_succ', List.append_assoc]

theorem length_decimals_le (h : 0 < k) : (decimals n).length ≤ k ↔ n < 10 ^ k := by
  have hLength : (ofNat n).length = (decimals n).length := by rw [ofNat_eq_spell, spell, List.length_map]
  rw [← hLength, ofNat, ofChars, List.length_map]
  exact Nat.length_toDigits_le_iff (by omega) h

theorem length_toDigits (n : Nat) : (Nat.toDigits 10 n).length = (decimals n).length := by
  have hLength : (ofNat n).length = (decimals n).length := by rw [ofNat_eq_spell, spell, List.length_map]
  rw [← hLength, ofNat, ofChars, List.length_map]

/-- Only zero has a zero for its first digit. -/
theorem head_decimals_ne_zero (hPos : 0 < n) : (decimals n).head (decimals_ne_nil n) ≠ 0 := by
  induction n using Nat.strongRecOn with
  | _ n ih =>
      by_cases hSmall : n < 10
      · simp only [decimals_of_lt hSmall, List.head_cons]
        omega
      · have hDigits : decimals n = decimals (n / 10) ++ [n % 10] := by rw [decimals, if_neg hSmall]
        simp only [hDigits, List.head_append_of_ne_nil (decimals_ne_nil _)]
        exact ih (n / 10) (by omega) (by omega)

section Digits

variable {d : Nat} (hDigit : d < 10)

include hDigit

theorem decimal?_digitPoint : (digitPoint d).decimal? = some d := by
  have hAll : ∀ d < 10, (digitPoint d).decimal? = some d := by decide
  exact hAll d hDigit

theorem isBlank_digitPoint : (digitPoint d).isBlank = false := by
  have hAll : ∀ d < 10, (digitPoint d).isBlank = false := by decide
  exact hAll d hDigit

/-- A digit is none of the characters that stand around digits. -/
theorem char_digitPoint : (digitPoint d).char ∉ ['-', '+', '.', '_', 'e', 'E'] := by
  have hAll : ∀ d < 10, (digitPoint d).char ∉ ['-', '+', '.', '_', 'e', 'E'] := by decide
  exact hAll d hDigit

omit hDigit

theorem digitRun_spell (hDigits : AreDigits ds) {after : Bool} (hSome : ds ≠ [] ∨ after = true)
    (n : Nat) : digitRun 10 after n (spell ds) = some (ds.foldl (fun n d => n * 10 + d) n) := by
  induction ds generalizing after n with
  | nil =>
      obtain rfl := hSome.resolve_left (by simp)
      rfl
  | cons d rest ih =>
      have hDigit : d < 10 := hDigits d List.mem_cons_self
      have hOther : ((digitPoint d).char == '_') = false := by
        have hChar := char_digitPoint hDigit
        simp only [List.mem_cons, not_or] at hChar
        simpa using hChar.2.2.2.1
      rw [spell, List.map_cons, digitRun, hOther, digitValue?, decimal?_digitPoint hDigit]
      simp only [Bool.false_eq_true, if_false, if_pos hDigit, List.foldl_cons]
      exact ih (fun e hE => hDigits e (List.mem_cons_of_mem _ hE)) (Or.inr rfl) _

end Digits

theorem strip_of_forall (h : ∀ p ∈ t, p.isBlank = false) : t.strip = t := by
  have hDrop : ∀ t : Text, (∀ p ∈ t, p.isBlank = false) → t.dropWhile Point.isBlank = t := by
    intro t h
    cases t with
    | nil => rfl
    | cons p rest => rw [List.dropWhile_cons, h p List.mem_cons_self, if_neg (by simp)]
  rw [strip, hDrop t h, dropEndWhile, hDrop t.reverse (fun p hMem => h p (List.mem_reverse.mp hMem)),
    List.reverse_reverse]

theorem dropBaseMark_ten (t : Text) : dropBaseMark 10 t = t := by
  cases t with
  | nil => rfl
  | cons a rest =>
      cases rest with
      | nil => rfl
      | cons b rest => simp [dropBaseMark]

/-- The sign of a number, if it is negative. -/
def signOf (negative : Bool) : Text := if negative then [Point.ofChar '-'] else []

theorem takeSign_signOf (negative : Bool) (hHead : ∀ p ∈ t.head?, p.char ∉ ['-', '+']) :
    takeSign (signOf negative ++ t) = (negative, t) := by
  cases negative with
  | true => rfl
  | false =>
      cases t with
      | nil => rfl
      | cons p rest =>
          have hOther := hHead p rfl
          simp only [List.mem_cons, List.not_mem_nil, or_false, not_or] at hOther
          simp [signOf, takeSign, hOther]

theorem head_spell (hDigits : AreDigits ds) (rest : Text) (hSome : ds ≠ []) :
    ∀ p ∈ (spell ds ++ rest).head?, ∃ d < 10, p = digitPoint d := by
  cases ds with
  | nil => exact absurd rfl hSome
  | cons d others =>
      intro p hP
      exact ⟨d, hDigits d List.mem_cons_self, (Option.some.inj hP).symm⟩

theorem int?_spell (negative : Bool) (hDigits : AreDigits ds) (hSome : ds ≠ []) :
    int? 10 (signOf negative ++ spell ds) =
      some (if negative then -(ofDigits ds : Int) else ofDigits ds) := by
  have hSolid : ∀ p ∈ signOf negative ++ spell ds, p.isBlank = false := by
    intro p hMem
    rcases List.mem_append.mp hMem with hSign | hDigit
    · cases negative
      · cases hSign
      · rw [List.mem_singleton.mp hSign]
        decide
    · obtain ⟨d, hD, rfl⟩ := List.mem_map.mp hDigit
      exact isBlank_digitPoint (hDigits d hD)
  have hHead : ∀ p ∈ (spell ds).head?, p.char ∉ ['-', '+'] := by
    intro p hP
    obtain ⟨d, hD, rfl⟩ := head_spell hDigits [] hSome p (by simpa using hP)
    have hChar := char_digitPoint hD
    simp only [List.mem_cons, not_or] at hChar ⊢
    exact ⟨hChar.1, hChar.2.1, by simp⟩
  rw [int?, strip_of_forall hSolid, takeSign_signOf negative hHead]
  dsimp only
  rw [dropBaseMark_ten, digitRun_spell hDigits (Or.inl hSome)]
  rfl

/-- Whole numbers read back from their decimal text. -/
theorem int?_ofInt (n : Int) : int? 10 (ofInt n) = some n := by
  cases n with
  | ofNat n =>
      have hRead := int?_spell false (areDigits_decimals n) (decimals_ne_nil n)
      rw [ofDigits_decimals] at hRead
      rw [ofInt, ofNat_eq_spell]
      exact hRead
  | negSucc n =>
      have hRead := int?_spell true (areDigits_decimals (n + 1)) (decimals_ne_nil (n + 1))
      rw [ofDigits_decimals] at hRead
      rw [ofInt, ofNat_eq_spell]
      exact hRead

theorem ofInt_injective : Function.Injective ofInt := fun m n h => by
  have hRead := congrArg (int? 10) h
  rw [int?_ofInt, int?_ofInt] at hRead
  exact Option.some.inj hRead

end Text
end Conform

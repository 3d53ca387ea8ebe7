import Conform.Json.Printer
import Conform.Json.Reader
import Conform.Proofs.Text.Cutting

/-! Texts between quotes. Each point of a text reads back from its escape. -/
namespace Conform

namespace Point

/-- Whether the point is an ASCII character that is not a control character, apart from the last one. -/
def Printable (p : Point) : Prop := 0x20 ≤ p.val ∧ p.val < 0x80

instance (p : Point) : Decidable p.Printable := inferInstanceAs (Decidable (_ ∧ _))

end Point

namespace Json

variable {fuel : Nat} {acc t rest : Text} {p : Point}

theorem stringRest?_escape {c r : Char} (hLookup : escapes.lookup (Point.ofChar c).char = some r)
    (hOther : ((Point.ofChar c).char == 'u') = false) (fuel : Nat) (acc rest : Text) :
    stringRest? (fuel + 1) acc (Point.ofChar '\\' :: Point.ofChar c :: rest) =
      stringRest? fuel (Point.ofChar r :: acc) rest := by
  have hSlash : ((Point.ofChar '\\').char == '"') = false ∧ ((Point.ofChar '\\').char == '\\') = true := by
    decide
  simp [stringRest?, hSlash, hLookup, hOther]

theorem hex4?_append {digits : Text} (hLength : digits.length = 4) (rest : Text) :
    hex4? (digits ++ rest) = hex4? digits := by
  simp only [hex4?, List.length_append, hLength, List.take_left' hLength,
    List.take_of_length_le (Nat.le_of_eq hLength), if_pos (show 4 ≤ 4 + rest.length by omega), if_pos (Nat.le_refl 4)]

/-- A control character reads back from the number in its escape, whatever follows. -/
theorem stringRest?_unit16 (h : p.val < 0x20) (fuel : Nat) (acc rest : Text) :
    stringRest? (fuel + 1) acc (unit16 p.val ++ rest) = stringRest? fuel (p :: acc) rest := by
  have hSlash : ((Point.ofChar '\\').char == '"') = false ∧ ((Point.ofChar '\\').char == '\\') = true := by
    decide
  have hMark : Text.ofString "\\u" = [Point.ofChar '\\', Point.ofChar 'u'] := by decide
  have hLetter : ((Point.ofChar 'u').char == 'u') = true := by decide
  have hDigits : ∀ n < 0x20, (Text.hexDigits 4 n).length = 4 ∧ hex4? (Text.hexDigits 4 n) = some n := by
    decide
  obtain ⟨hLength, hRead⟩ := hDigits _ h
  have hPoint : Point.ofNat? p.val = some p := by simp [Point.ofNat?]
  have hAlone : (0xD800 ≤ p.val && p.val ≤ 0xDBFF) = false := by
    rw [Bool.and_eq_false_iff]
    exact Or.inl (decide_eq_false (by omega))
  have hHead : unit16 p.val ++ rest =
      Point.ofChar '\\' :: Point.ofChar 'u' :: (Text.hexDigits 4 p.val ++ rest) := by
    show Text.ofString "\\u" ++ Text.hexDigits 4 p.val ++ rest = _
    rw [hMark]
    rfl
  rw [hHead, stringRest?]
  simp only [hSlash, hLetter, hex4?_append hLength, hRead, List.drop_left' hLength, Bool.false_eq_true, if_false,
    if_true, Option.bind_eq_bind, Option.bind_some, hAlone, hPoint]
  -- The number is no surrogate, so nothing that follows is taken for its second half.
  split
  · next hPair => cases hPair
  · rfl

/-- A point stands after a backslash as the letter for it, or as its number, or it stands for itself. -/
theorem escapePoint_cases (p : Point) :
    (∃ c r : Char, escapePoint false p = [Point.ofChar '\\', Point.ofChar c] ∧ p = Point.ofChar r ∧
      escapes.lookup (Point.ofChar c).char = some r ∧ ((Point.ofChar c).char == 'u') = false ∧
      (Point.ofChar c).Printable) ∨
    (escapePoint false p = unit16 p.val ∧ p.val < 0x20) ∨
    (escapePoint false p = [p] ∧ ¬(p.char == '"') = true ∧ ¬(p.char == '\\') = true ∧ ¬p.val < 0x20) := by
  have hOne : ∀ (c : Char) {r : Char} {w : String}, escapePoint false p = Text.ofString w →
      (p.char == r) = true → Text.ofString w = [Point.ofChar '\\', Point.ofChar c] →
      (escapes.lookup (Point.ofChar c).char = some r ∧ ((Point.ofChar c).char == 'u') = false ∧
        (Point.ofChar c).Printable ∧ r.toNat ≠ 0) →
      ∃ c r : Char, escapePoint false p = [Point.ofChar '\\', Point.ofChar c] ∧ p = Point.ofChar r ∧
        escapes.lookup (Point.ofChar c).char = some r ∧ ((Point.ofChar c).char == 'u') = false ∧
        (Point.ofChar c).Printable := fun c r w hEscape hChar hText ⟨hLookup, hOther, hHigh, hSome⟩ =>
    ⟨c, r, hEscape.trans hText, Point.eq_ofChar (eq_of_beq hChar) hSome, hLookup, hOther, hHigh⟩
  have hEscape : escapePoint false p = escapePoint false p := rfl
  conv at hEscape => rhs; unfold escapePoint
  dsimp only at hEscape
  by_cases hQuote : (p.char == '"') = true
  · rw [if_pos hQuote] at hEscape
    exact Or.inl (hOne '"' hEscape hQuote (by decide) (by decide +kernel))
  rw [if_neg hQuote] at hEscape
  by_cases hSlash : (p.char == '\\') = true
  · rw [if_pos hSlash] at hEscape
    exact Or.inl (hOne '\\' hEscape hSlash (by decide) (by decide +kernel))
  rw [if_neg hSlash] at hEscape
  by_cases hFeed : (p.char == '\n') = true
  · rw [if_pos hFeed] at hEscape
    exact Or.inl (hOne 'n' hEscape hFeed (by decide) (by decide +kernel))
  rw [if_neg hFeed] at hEscape
  by_cases hReturn : (p.char == '\r') = true
  · rw [if_pos hReturn] at hEscape
    exact Or.inl (hOne 'r' hEscape hReturn (by decide) (by decide +kernel))
  rw [if_neg hReturn] at hEscape
  by_cases hTab : (p.char == '\t') = true
  · rw [if_pos hTab] at hEscape
    exact Or.inl (hOne 't' hEscape hTab (by decide) (by decide +kernel))
  rw [if_neg hTab] at hEscape
  by_cases hForm : (p.char == '\x0c') = true
  · rw [if_pos hForm] at hEscape
    exact Or.inl (hOne 'f' hEscape hForm (by decide) (by decide +kernel))
  rw [if_neg hForm] at hEscape
  by_cases hBack : (p.char == '\x08') = true
  · rw [if_pos hBack] at hEscape
    exact Or.inl (hOne 'b' hEscape hBack (by decide) (by decide +kernel))
  rw [if_neg hBack] at hEscape
  by_cases hLow : p.val < 0x20
  · rw [if_pos hLow] at hEscape
    exact Or.inr (Or.inl ⟨hEscape, hLow⟩)
  · rw [if_neg hLow] at hEscape
    exact Or.inr (Or.inr ⟨by simpa using hEscape, hQuote, hSlash, hLow⟩)

/-- Every point reads back from what is written for it. -/
theorem stringRest?_escapePoint (fuel : Nat) (acc : Text) (p : Point) (rest : Text) :
    stringRest? (fuel + 1) acc (escapePoint false p ++ rest) = stringRest? fuel (p :: acc) rest := by
  rcases escapePoint_cases p with ⟨c, r, hEscape, hPoint, hLookup, hOther, _⟩ | ⟨hEscape, hLow⟩ |
    ⟨hEscape, hQuote, hSlash, hHigh⟩
  · rw [hEscape, hPoint]
    exact stringRest?_escape hLookup hOther fuel acc rest
  · rw [hEscape]
    exact stringRest?_unit16 hLow fuel acc rest
  · rw [hEscape, List.singleton_append]
    conv => lhs; unfold stringRest?
    dsimp only
    rw [if_neg hQuote, if_neg hSlash, if_neg hHigh]

theorem escapePoint_ne_nil (p : Point) : escapePoint false p ≠ [] := by
  rcases escapePoint_cases p with ⟨c, r, hEscape, _⟩ | ⟨hEscape, _⟩ | ⟨hEscape, _⟩
  · simp [hEscape]
  · have hMark : Text.ofString "\\u" ≠ [] := by decide
    rw [hEscape]
    exact List.append_ne_nil_of_left_ne_nil hMark _
  · simp [hEscape]

theorem length_le_escaped (t : Text) : t.length ≤ (t.flatMap (escapePoint false)).length := by
  induction t with
  | nil => exact Nat.le_refl 0
  | cons p others ih =>
      have hSome := List.length_pos_iff.mpr (escapePoint_ne_nil p)
      rw [List.flatMap_cons, List.length_append, List.length_cons]
      omega

/-- A text reads back from between its quotes. -/
theorem stringRest?_string (h : t.length < fuel) (acc rest : Text) :
    stringRest? fuel acc (t.flatMap (escapePoint false) ++ Point.ofChar '"' :: rest) =
      some (acc.reverse ++ t, rest) := by
  have hQuote : ((Point.ofChar '"').char == '"') = true := by decide
  induction t generalizing fuel acc with
  | nil =>
      obtain ⟨left, rfl⟩ : ∃ left, fuel = left + 1 := ⟨fuel - 1, by omega⟩
      simp [stringRest?, hQuote]
  | cons p others ih =>
      obtain ⟨left, rfl⟩ : ∃ left, fuel = left + 1 := ⟨fuel - 1, by omega⟩
      rw [List.flatMap_cons, List.append_assoc, stringRest?_escapePoint, ih (by simpa using h)]
      simp

/-- What is written for a point is printable ASCII, or the point itself. -/
theorem escapePoint_printable (p : Point) :
    ∀ q ∈ escapePoint false p, q.Printable ∨ (q = p ∧ 0x20 ≤ p.val) := by
  have hUnits : ∀ n < 0x20, (unit16 n).all (fun q => decide q.Printable) = true := by decide
  have hSlash : (Point.ofChar '\\').Printable := by decide
  intro q hMem
  rcases escapePoint_cases p with ⟨c, r, hEscape, _, _, _, hShown⟩ | ⟨hEscape, hLow⟩ | ⟨hEscape, _, _, hHigh⟩
  · rw [hEscape] at hMem
    rcases List.mem_cons.mp hMem with rfl | hMem
    · exact Or.inl hSlash
    · exact Or.inl (List.mem_singleton.mp hMem ▸ hShown)
  · rw [hEscape] at hMem
    exact Or.inl (of_decide_eq_true (List.all_eq_true.mp (hUnits _ hLow) q hMem))
  · rw [hEscape] at hMem
    exact Or.inr ⟨List.mem_singleton.mp hMem, by omega⟩

end Json
end Conform

import Conform.Text.Encoding

/-! What is written in UTF-8 reads back. -/
namespace Conform

variable {p : Point} {t : Text} {rest bs : Bytes}

theorem toNat_ofNat {k : Nat} (h : k < 256) : (UInt8.ofNat k).toNat = k := by
  simp [Nat.mod_eq_of_lt h]

namespace Point

theorem char_ofChar (c : Char) : (ofChar c).char = c := Char.ofNat_toNat c

theorem utf8_ne_nil (p : Point) : p.utf8 ≠ [] := by
  unfold utf8
  dsimp only
  split
  · simp
  · split
    · simp
    · split <;> simp

/-- No byte of a point other than NUL is zero, and the first byte of an ASCII point is the point. -/
theorem mem_utf8_ne_zero (h : p.val ≠ 0) : ∀ b ∈ p.utf8, b ≠ 0 := by
  have hPositive : ∀ {k : Nat}, 0 < k → k < 256 → UInt8.ofNat k ≠ 0 := by
    intro k hPos hLt hZero
    have hNat := congrArg UInt8.toNat hZero
    rw [toNat_ofNat hLt] at hNat
    simp at hNat
    omega
  have hRange := p.isLt
  intro b hMem
  unfold utf8 at hMem
  dsimp only at hMem
  split at hMem
  · simp only [List.mem_singleton] at hMem
    exact hMem ▸ hPositive (by omega) (by omega)
  · split at hMem
    · simp only [List.mem_cons, List.not_mem_nil, or_false] at hMem
      rcases hMem with rfl | rfl <;> exact hPositive (by omega) (by omega)
    · split at hMem
      · simp only [List.mem_cons, List.not_mem_nil, or_false] at hMem
        rcases hMem with rfl | rfl | rfl <;> exact hPositive (by omega) (by omega)
      · simp only [List.mem_cons, List.not_mem_nil, or_false] at hMem
        rcases hMem with rfl | rfl | rfl | rfl <;> exact hPositive (by omega) (by omega)

end Point

namespace Text

theorem chars_ofChars (cs : List Char) : (ofChars cs).chars = cs := by
  rw [chars, ofChars, List.map_map]
  exact (List.map_congr_left fun c _ => Point.char_ofChar c).trans (List.map_id cs)

theorem isAscii_cons : isAscii (p :: t) = true ↔ p.val < 0x80 ∧ t.isAscii = true := by
  simp [isAscii, Point.isAscii]

/-- A text in ASCII has one byte for each character. -/
theorem utf8_of_isAscii (h : t.isAscii = true) : t.utf8 = t.map fun p => UInt8.ofNat p.val := by
  induction t with
  | nil => rfl
  | cons p rest ih =>
      obtain ⟨hPoint, hRest⟩ := isAscii_cons.mp h
      rw [utf8, List.flatMap_cons, Point.utf8, if_pos hPoint, List.map_cons, ← ih hRest]
      rfl

end Text

namespace Bytes

/-- The bytes of one point are read as that point; a surrogate must be allowed. -/
theorem nextPoint?_utf8 (p : Point) (rest : Bytes) :
    nextPoint? true (p.utf8 ++ rest) = some (some p.val, rest) := by
  have hRange := p.isLt
  unfold Point.utf8
  dsimp only
  split
  · next hOne =>
      simp only [List.cons_append, List.nil_append, nextPoint?, toNat_ofNat (show p.val < 256 by omega),
        if_pos hOne]
  · split
    · next hOne hTwo =>
        have hFirst := toNat_ofNat (show 0xC0 + p.val / 64 < 256 by omega)
        have hSecond := toNat_ofNat (show 0x80 + p.val % 64 < 256 by omega)
        simp only [List.cons_append, List.nil_append, nextPoint?, continuation, hFirst, hSecond]
        rw [if_neg (by omega), if_neg (by omega), if_pos (by omega), if_pos (by simp; omega)]
        exact congrArg (fun k => some (some k, rest)) (by omega)
    · split
      · next hOne hTwo hThree =>
          have hFirst := toNat_ofNat (show 0xE0 + p.val / 4096 < 256 by omega)
          have hSecond := toNat_ofNat (show 0x80 + p.val / 64 % 64 < 256 by omega)
          have hThird := toNat_ofNat (show 0x80 + p.val % 64 < 256 by omega)
          simp only [List.cons_append, List.nil_append, nextPoint?, continuation, hFirst, hSecond, hThird,
            Bool.not_true, Bool.and_false, Bool.false_eq_true, if_false]
          rw [if_neg (by omega), if_neg (by omega), if_neg (by omega), if_pos (by omega), if_pos ?_,
            if_pos (by simp; omega)]
          · exact congrArg (fun k => some (some k, rest)) (by omega)
          · simp only [Bool.and_eq_true, decide_eq_true_eq]
            refine ⟨?_, by omega⟩
            split
            · next hLow => rw [beq_iff_eq] at hLow; omega
            · omega
      · next hOne hTwo hThree =>
          have hFirst := toNat_ofNat (show 0xF0 + p.val / 262144 < 256 by omega)
          have hSecond := toNat_ofNat (show 0x80 + p.val / 4096 % 64 < 256 by omega)
          have hThird := toNat_ofNat (show 0x80 + p.val / 64 % 64 < 256 by omega)
          have hFourth := toNat_ofNat (show 0x80 + p.val % 64 < 256 by omega)
          simp only [List.cons_append, List.nil_append, nextPoint?, continuation, hFirst, hSecond, hThird,
            hFourth]
          rw [if_neg (by omega), if_neg (by omega), if_neg (by omega), if_neg (by omega),
            if_pos (by omega), if_pos ?_, if_pos (by simp; omega), if_pos (by simp; omega)]
          · exact congrArg (fun k => some (some k, rest)) (by omega)
          · simp only [Bool.and_eq_true, decide_eq_true_eq]
            constructor
            · split
              · next hLow => rw [beq_iff_eq] at hLow; omega
              · omega
            · split
              · next hHigh => rw [beq_iff_eq] at hHigh; omega
              · omega

theorem go_utf8 (t : Text) {fuel : Nat} (h : t.utf8.length ≤ fuel) :
    points.go true fuel t.utf8 = t.map some := by
  induction t generalizing fuel with
  | nil => cases fuel <;> rfl
  | cons p rest ih =>
      rw [Text.utf8, List.flatMap_cons, List.length_append] at h
      have hSome := List.length_pos_iff.mpr p.utf8_ne_nil
      obtain ⟨left, rfl⟩ : ∃ left, fuel = left + 1 := ⟨fuel - 1, by omega⟩
      rw [Text.utf8, List.flatMap_cons, points.go, nextPoint?_utf8]
      have hRest : points.go true left (Text.utf8 rest) = rest.map some := by
        refine ih ?_
        rw [Text.utf8]
        omega
      have hPoint : Point.ofNat? p.val = some p := by simp [Point.ofNat?]
      simp only [Option.bind_some, hPoint, List.map_cons]
      exact congrArg _ hRest

theorem mapM_map_some (t : Text) : (t.map some).mapM id = some t := by
  induction t with
  | nil => rfl
  | cons p rest ih => rw [List.map_cons, List.mapM_cons, ih]; rfl

/-- Every text reads back from its bytes, if surrogates are allowed. -/
theorem text?_utf8 (t : Text) : text? t.utf8 true = some t := by
  rw [text?, points, go_utf8 t (Nat.le_refl _), mapM_map_some]

theorem go_map_ofNat (h : t.isAscii = true) {surrogates : Bool} {fuel : Nat} (hFuel : t.length ≤ fuel) :
    points.go surrogates fuel (t.map fun p => UInt8.ofNat p.val) = t.map some := by
  induction t generalizing fuel with
  | nil => cases fuel <;> rfl
  | cons p rest ih =>
      obtain ⟨hPoint, hRest⟩ := Text.isAscii_cons.mp h
      obtain ⟨left, rfl⟩ : ∃ left, fuel = left + 1 := ⟨fuel - 1, by rw [List.length_cons] at hFuel; omega⟩
      have hFirst : (UInt8.ofNat p.val).toNat = p.val := toNat_ofNat (by omega)
      have hNext (bs : Bytes) : nextPoint? surrogates (UInt8.ofNat p.val :: bs) = some (some p.val, bs) := by
        simp only [nextPoint?, hFirst, if_pos hPoint]
      have hNumber : Point.ofNat? p.val = some p := by simp [Point.ofNat?]
      rw [List.map_cons, points.go, hNext]
      dsimp only [Option.bind_some]
      rw [hNumber, ih hRest (Nat.le_of_succ_le_succ hFuel), List.map_cons]

/-- A text in ASCII reads back from its bytes, whether surrogates are allowed or not. -/
theorem text?_of_isAscii (h : t.isAscii = true) (surrogates : Bool) : text? t.utf8 surrogates = some t := by
  rw [text?, points, Text.utf8_of_isAscii h, go_map_ofNat h (Nat.le_of_eq (List.length_map _).symm), mapM_map_some]

end Bytes
end Conform

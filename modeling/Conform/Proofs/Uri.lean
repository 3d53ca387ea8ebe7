import Conform.Uri

/-! References that do not depend on the name against which they are read. -/
namespace Conform.Uri

variable {t base s name : Text} {u : Uri}

/-- Whether a reference names a host, is written in the standard way and has no fragment. -/
def isAbsolute (t : Text) : Bool :=
  !t.containsChar '#' && match parse? t with
    | some u => !u.scheme.isEmpty && authoritySchemes.contains u.scheme && !u.authority.isEmpty
        && u.format == t
    | none => false

theorem scheme_of_afterScheme? (h : afterScheme? s t = some u) : u.scheme = s := by
  simp only [afterScheme?, Option.ite_none_right_eq_some, Option.some.injEq] at h
  exact h.2 ▸ rfl

/-- A reference with a scheme of its own has that scheme wherever it stands. -/
theorem parse?_of_scheme (h : parse? t = some u) (hScheme : u.scheme ≠ []) (s : Text) :
    parse? t s = some u := by
  unfold parse? at h ⊢
  dsimp only at h ⊢
  split at h
  · exact h
  · exact absurd (scheme_of_afterScheme? h) hScheme

theorem join?_of_isAbsolute (h : isAbsolute t = true) (hBase : base = [] ∨ (parse? base).isSome) :
    join? base t = some t := by
  unfold isAbsolute at h
  obtain ⟨_, h⟩ := Bool.and_eq_true_iff.mp h
  split at h
  · next u hParse =>
      simp only [Bool.and_eq_true, Bool.not_eq_true', List.isEmpty_eq_false_iff, beq_iff_eq] at h
      obtain ⟨⟨⟨hScheme, hHosted⟩, hAuthority⟩, hFormat⟩ := h
      unfold join?
      split
      · rfl
      · next hSome =>
          split
          · next hEmpty =>
              obtain rfl : t = [] := List.isEmpty_iff.mp hEmpty
              obtain rfl : (⟨[], [], [], [], [], []⟩ : Uri) = u := Option.some.inj hParse
              exact absurd rfl hScheme
          · rcases hBase with rfl | hBase
            · exact absurd rfl hSome
            · obtain ⟨b, hB⟩ := Option.isSome_iff_exists.mp hBase
              simp only [hB, parse?_of_scheme hParse hScheme, bind, Option.bind, pure]
              split
              · rfl
              · rw [hHosted, if_pos (by simpa using hAuthority), hFormat]
  · cases h

theorem defragment?_of_isAbsolute (h : isAbsolute t = true) : defragment? t = some (t, []) := by
  unfold isAbsolute at h
  simp only [Bool.and_eq_true, Bool.not_eq_true'] at h
  simp [defragment?, h.1]

theorem isSome_of_isAbsolute (h : isAbsolute t = true) : (parse? t).isSome := by
  unfold isAbsolute at h
  obtain ⟨_, h⟩ := Bool.and_eq_true_iff.mp h
  split at h
  · next hParse => simp [hParse]
  · cases h

theorem eq_of_join? (h : isAbsolute t = true) (hJoin : join? base t = some name) : name = t := by
  have hBase : base = [] ∨ (parse? base).isSome := by
    cases hParse : parse? base with
    | some b => exact Or.inr rfl
    | none =>
        unfold join? at hJoin
        split at hJoin
        · next hEmpty => exact Or.inl (List.isEmpty_iff.mp hEmpty)
        · split at hJoin
          · next hEmpty =>
              obtain rfl : t = [] := List.isEmpty_iff.mp hEmpty
              cases h
          · rw [hParse] at hJoin
            cases hJoin
  exact Option.some.inj (hJoin.symm.trans (join?_of_isAbsolute h hBase))

theorem dropStart?_of_isAbsolute (h : isAbsolute t = true) : t.dropStart? "#" = none := by
  unfold isAbsolute at h
  obtain ⟨hFree, _⟩ := Bool.and_eq_true_iff.mp h
  cases t with
  | nil => rfl
  | cons p rest =>
      have hOther : p ≠ Point.ofChar '#' := by
        rintro rfl
        simp [Text.containsChar, show (Point.ofChar '#').char = '#' from by decide] at hFree
      have hHash : Text.ofString "#" = [Point.ofChar '#'] := by decide
      rw [Text.dropStart?, hHash, if_neg]
      simp [List.isPrefixOf, hOther.symm]

end Conform.Uri

import Conform.Path
import Conform.Proofs.Text.Cutting

/-! Two dots in a row. Normalising a path takes names away and puts slashes between the others, so it
never brings two dots together that were apart: a path that is refused has them in its own text. -/
namespace Conform

namespace Text

variable {part t u : Text} {ts : List Text} {slash : Point}

theorem contains_iff : contains part t = true ↔ part <:+: t := by
  induction t with
  | nil => simp [contains]
  | cons p rest ih =>
      rw [contains, Bool.or_eq_true, ih, List.infix_cons_iff, List.isPrefixOf_iff_prefix]

/-- A part without a separator at the start of a text stands before the separator. -/
theorem prefix_of_prefix_append (hFree : slash ∉ part) (h : part <+: t ++ slash :: u) : part <+: t := by
  have hWhole : t ++ [slash] <+: t ++ slash :: u := ⟨u, by simp⟩
  rcases List.prefix_or_prefix_of_prefix h hWhole with hBefore | hBeyond
  · rcases List.prefix_concat_iff.mp hBefore with rfl | hBefore
    · exact absurd (by simp) hFree
    · exact hBefore
  · exact absurd (hBeyond.subset (by simp)) hFree

/-- A part without a separator stands on one side of it. -/
theorem infix_of_infix_append (hFree : slash ∉ part) (h : part <:+: t ++ slash :: u) :
    part <:+: t ∨ part <:+: u := by
  induction t with
  | nil =>
      rcases List.infix_cons_iff.mp h with hPrefix | hLater
      · exact Or.inl (prefix_of_prefix_append (t := []) hFree hPrefix).isInfix
      · exact Or.inr hLater
  | cons p rest ih =>
      rcases List.infix_cons_iff.mp h with hPrefix | hLater
      · exact Or.inl (prefix_of_prefix_append (t := p :: rest) hFree hPrefix).isInfix
      · exact (ih hLater).imp_left fun hInside => hInside.trans (List.suffix_cons p rest).isInfix

/-- A part without the separator that is found in a joined text is found in one of the pieces. -/
theorem exists_infix_of_join (hFree : slash ∉ part) (hPart : part ≠ []) (h : part <:+: join [slash] ts) :
    ∃ t ∈ ts, part <:+: t := by
  induction ts with
  | nil => exact absurd (List.eq_nil_of_infix_nil h) hPart
  | cons t rest ih =>
      cases rest with
      | nil => exact ⟨t, List.mem_cons_self, h⟩
      | cons next others =>
          have hJoin : join [slash] (t :: next :: others) = t ++ slash :: join [slash] (next :: others) := by
            simp [join]
          rw [hJoin] at h
          rcases infix_of_infix_append hFree h with hHere | hLater
          · exact ⟨t, List.mem_cons_self, hHere⟩
          · obtain ⟨u, hMem, hInside⟩ := ih hLater
            exact ⟨u, List.mem_cons_of_mem _ hMem, hInside⟩

end Text

namespace Path

variable {p : Text}

/-- Whether two dots stand next to each other anywhere in a path. -/
def HasDots (p : Text) : Prop := Text.ofString ".." <:+: p

/-- What is gathered step by step comes from what was given, if every step adds no more than its own item. -/
theorem foldl_subset {α : Type} {f : List α → α → List α} (hStep : ∀ acc a, f acc a ⊆ acc ++ [a])
    (given acc : List α) : given.foldl f acc ⊆ acc ++ given := by
  induction given generalizing acc with
  | nil => simp
  | cons a rest ih =>
      intro b hMem
      rcases List.mem_append.mp (ih (f acc a) hMem) with hNow | hLater
      · rcases List.mem_append.mp (hStep acc a hNow) with hBefore | hHere
        · exact List.mem_append_left _ hBefore
        · exact List.mem_append_right _ (List.mem_cons.mpr (Or.inl (List.mem_singleton.mp hHere)))
      · exact List.mem_append_right _ (List.mem_cons_of_mem a hLater)

/-- Taking names back leaves only names that were there. -/
theorem resolveUp_subset (absolute : Bool) (ns : List Text) : resolveUp absolute ns ⊆ ns := by
  refine foldl_subset (fun acc n => ?_) ns []
  have hKept : acc ⊆ acc ++ [n] := List.subset_append_left acc [n]
  split
  · exact List.Subset.refl _
  · split
    · split
      · exact List.Subset.refl _
      · exact List.Subset.trans (List.dropLast_subset acc) hKept
    · split
      · exact hKept
      · simp

theorem hasDots_of_ofNames {root : Text} {ns : List Text} (hRoot : root ∈ ([[], "/", "//"] : List Text))
    (h : HasDots (ofNames root ns)) : ∃ n ∈ ns, HasDots n := by
  have hFree : Point.ofChar '/' ∉ Text.ofString ".." := by decide
  have hJoined : HasDots (Text.join "/" ns) := by
    have hWhole : HasDots (root ++ Text.join "/" ns) := by
      unfold ofNames at h
      dsimp only at h
      split at h
      · exact absurd h (by unfold HasDots; decide)
      · exact h
    have hSlash : ∀ t : Text, HasDots (Text.ofString "/" ++ t) → HasDots t := by
      intro t hDots
      rcases Text.infix_of_infix_append (t := []) hFree hDots with hNone | hLater
      · cases List.eq_nil_of_infix_nil hNone
      · exact hLater
    simp only [List.mem_cons, List.not_mem_nil, or_false] at hRoot
    rcases hRoot with rfl | rfl | rfl
    · exact hWhole
    · exact hSlash _ hWhole
    · exact hSlash _ (hSlash _ hWhole)
  exact Text.exists_infix_of_join hFree (by decide) hJoined

theorem rootOf_mem (p : Text) : rootOf p ∈ ([[], "/", "//"] : List Text) := by
  unfold rootOf
  split
  · simp
  · split <;> simp

theorem hasDots_of_normal (h : HasDots (normal p)) : HasDots p := by
  obtain ⟨n, hName, hDots⟩ := hasDots_of_ofNames (rootOf_mem p) h
  have hPiece : n ∈ Text.splitOn '/' p := (List.mem_filter.mp (resolveUp_subset _ _ hName)).1
  exact hDots.trans (Text.infix_of_mem_splitOn hPiece)

/-- A path is refused for two dots in its own text, and one that is accepted comes out without any. -/
theorem clean_cases (p : Text) : (∃ q, clean p = .ok q ∧ ¬ HasDots q) ∨
    (clean p = .error (.pathTraversal p) ∧ HasDots p) := by
  unfold clean
  dsimp only
  by_cases hDots : Text.contains ".." (normal p) = true
  · exact Or.inr ⟨if_pos hDots, hasDots_of_normal (Text.contains_iff.mp hDots)⟩
  · exact Or.inl ⟨normal p, if_neg hDots, fun hInside => hDots (Text.contains_iff.mpr hInside)⟩

end Path
end Conform

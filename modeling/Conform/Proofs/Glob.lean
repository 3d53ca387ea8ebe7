import Conform.Proofs.Glob.Braces

/-! What patterns for paths stand for. The search for a match tries every place where a run of segments can
end, takes short ways where stars come last and joins stars next to each other. None of this adds a match or
loses one. -/
namespace Conform.Glob

/-- Whether the segments of a pattern cover those of a path: two stars any run of segments, also none, and any
other segment one that it matches as a name. -/
inductive Spans : List Text → List Text → Prop where
  | nil : Spans [] []
  | stars {pattern rest : List Text} (run : List Text) (h : Spans pattern rest) : Spans ("**" :: pattern) (run ++ rest)
  | one {s name : Text} {pattern rest : List Text} (hOther : s ≠ "**") (hName : matchName (segmentPattern s) name = true)
      (h : Spans pattern rest) : Spans (s :: pattern) (name :: rest)

variable {s t name : Text} {pattern path rest : List Text} {test : List Text → Bool}

theorem someTail_iff : someTail test path = true ↔ ∃ run rest, path = run ++ rest ∧ test rest = true := by
  induction path with
  | nil => simp [someTail]
  | cons s path ih =>
      rw [someTail, Bool.or_eq_true, ih]
      constructor
      · rintro (hHere | ⟨run, rest, rfl, hLater⟩)
        · exact ⟨[], s :: path, rfl, hHere⟩
        · exact ⟨s :: run, rest, rfl, hLater⟩
      · rintro ⟨run, rest, hPath, hTest⟩
        cases run with
        | nil => exact Or.inl (hPath ▸ hTest)
        | cons q run =>
            obtain ⟨rfl, rfl⟩ := List.cons.inj hPath
            exact Or.inr ⟨run, rest, rfl, hTest⟩

/-- A segment is rewritten to a text without brackets only if it is that text. -/
theorem segmentPattern_eq_iff (hFree : ∀ p ∈ t, p.char ≠ '[') : segmentPattern s = t ↔ s = t := by
  unfold segmentPattern
  induction s using Text.replacePair.induct '[' '^' generalizing t with
  | case1 => rfl
  | case2 p => rfl
  | case3 p q rest hPair ih =>
      have hBracket : p.char = '[' := by simp at hPair; exact hPair.1
      rw [Text.replacePair, if_pos hPair]
      constructor
      · rintro rfl
        exact absurd (by decide) (hFree (Point.ofChar '[') List.mem_cons_self)
      · rintro rfl
        exact absurd hBracket (hFree p List.mem_cons_self)
  | case4 p q rest hOther ih =>
      rw [Text.replacePair, if_neg hOther]
      cases t with
      | nil => simp
      | cons c t =>
          rw [List.cons.injEq, List.cons.injEq, ih (List.forall_mem_cons.mp hFree).2]

/-- Rewriting a segment neither makes two stars nor takes them away. -/
theorem segmentPattern_eq_stars_iff : segmentPattern s = "**" ↔ s = "**" :=
  segmentPattern_eq_iff (List.forall_mem_cons.mpr ⟨by decide, List.forall_mem_singleton.mpr (by decide)⟩)

/-- Two stars cover every path that the rest covers an end of. -/
theorem matchSegments_stars : matchSegments ("**" :: pattern) path = true ↔
    ∃ run rest, path = run ++ rest ∧ matchSegments pattern rest = true := by
  rw [matchSegments.eq_def]
  dsimp only
  rw [if_pos (by decide), Bool.or_eq_true, someTail_iff]
  constructor
  · rintro (hLast | hSome)
    · obtain rfl := List.isEmpty_iff.mp hLast
      exact ⟨path, [], (List.append_nil path).symm, rfl⟩
    · exact hSome
  · exact Or.inr

theorem matchSegments_other (hOther : s ≠ "**") : matchSegments (s :: pattern) path = true ↔
    ∃ name rest, path = name :: rest ∧ matchName s name = true ∧ matchSegments pattern rest = true := by
  rw [matchSegments.eq_def]
  dsimp only
  rw [if_neg (by simpa using hOther)]
  cases path with
  | nil => simp
  | cons name rest => simp

/-- Two stars after two stars add nothing. -/
theorem matchSegments_stars_stars :
    matchSegments ("**" :: "**" :: pattern) path = true ↔ matchSegments ("**" :: pattern) path = true := by
  simp only [matchSegments_stars]
  constructor
  · rintro ⟨run, _, rfl, run', rest, rfl, hRest⟩
    exact ⟨run ++ run', rest, (List.append_assoc ..).symm, hRest⟩
  · rintro ⟨run, rest, rfl, hRest⟩
    exact ⟨[], run ++ rest, rfl, run, rest, rfl, hRest⟩

theorem matchSegments_joinStars (pattern path : List Text) :
    matchSegments (joinStars pattern) path = true ↔ matchSegments pattern path = true := by
  induction pattern using joinStars.induct generalizing path with
  | case1 s t rest hStars ih =>
      obtain ⟨rfl, rfl⟩ : s = Text.ofString "**" ∧ t = Text.ofString "**" := by simpa using hStars
      rw [joinStars, if_pos hStars, ih, matchSegments_stars_stars]
  | case2 s t rest hOther ih =>
      rw [joinStars, if_neg hOther]
      by_cases hStars : s = "**"
      · subst hStars
        simp only [matchSegments_stars, ih]
      · simp only [matchSegments_other hStars, ih]
  | case3 ss hShort =>
      match ss, hShort with
      | [], _ => rfl
      | [s], _ => rfl
      | s :: t :: rest, hShort => exact absurd rfl (hShort s t rest)

theorem matchSegments_iff : matchSegments (pattern.map segmentPattern) path = true ↔ Spans pattern path := by
  induction pattern generalizing path with
  | nil =>
      rw [List.map_nil, matchSegments.eq_def]
      constructor
      · intro h
        obtain rfl := List.isEmpty_iff.mp h
        exact .nil
      · rintro ⟨⟩
        rfl
  | cons s pattern ih =>
      rw [List.map_cons]
      by_cases hStars : s = "**"
      · rw [segmentPattern_eq_stars_iff.mpr hStars, matchSegments_stars, hStars]
        simp only [ih]
        constructor
        · rintro ⟨run, rest, rfl, hRest⟩
          exact .stars run hRest
        · intro h
          cases h with
          | stars run hRest => exact ⟨run, _, rfl, hRest⟩
          | one hOther => exact absurd rfl hOther
      · rw [matchSegments_other (mt segmentPattern_eq_stars_iff.mp hStars)]
        simp only [ih]
        constructor
        · rintro ⟨name, rest, rfl, hName, hRest⟩
          exact .one hStars hName hRest
        · intro h
          cases h with
          | stars => exact absurd rfl hStars
          | one _ hName hRest => exact ⟨_, _, rfl, hName, hRest⟩

/-- A path matches a pattern that is not empty exactly if one of the patterns that its braces stand for covers
the path segment by segment. -/
theorem accepts_iff (pattern path : Text) : accepts pattern path = true ↔ pattern ≠ [] ∧
    ∃ p, Expands pattern p ∧ Spans (Text.splitOn '/' p) (Text.splitOn '/' path) := by
  rw [accepts, Bool.and_eq_true, List.any_eq_true]
  refine and_congr (by simp) (exists_congr fun p => and_congr mem_expandBraces_iff ?_)
  rw [matchSegments_joinStars, matchSegments_iff]

end Conform.Glob

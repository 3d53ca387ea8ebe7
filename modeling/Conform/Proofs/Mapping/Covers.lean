import Conform.Mapping.Resolver
import Conform.Proofs.Glob.Segment
import Conform.Proofs.Text.Cutting

/-! The two ways in which patterns are held against paths. The patterns of a suite lose a `./` at their start, as
the paths do, the patterns of a manifest keep it. So a pattern of a suite serves in a manifest too, unless it
begins so; then it stands for files whose paths, without their `./`, begin so again. -/
namespace Conform

namespace Path

/-- What stands before a slash does not count for the last name. -/
theorem base_append_slash {p : Point} (hSlash : p.char = '/') (before r : Text) : base (before ++ p :: r) = base r := by
  rw [base, Text.cutLast?_append hSlash]
  unfold base
  cases Text.cutLast? '/' r <;> rfl

end Path

namespace Glob

variable {g p r name : Text} {path : List Text}

/-- A pattern or a path with slashes in place of all backslashes. -/
def slashed (t : Text) : Text := Text.replaceChar '\\' '/' t

theorem slashed_of_free (h : ∀ p ∈ r, p.char ≠ '\\') : slashed r = r :=
  (List.map_congr_left fun p hMem => if_neg (by simpa using h p hMem)).trans (List.map_id' r)

theorem free_slashed (t : Text) : ∀ p ∈ slashed t, p.char ≠ '\\' := by
  intro p hMem
  obtain ⟨q, -, rfl⟩ := List.mem_map.mp hMem
  split
  · decide
  · next hOther => simpa using hOther

/-- What is left of a text after a `./` at its start, and the whole of a text without one. -/
theorem normalPath_cases (t : Text) : (∃ r, slashed t = "./" ++ r ∧ normalPath t = r) ∨
    (∀ r, slashed t ≠ "./" ++ r) ∧ normalPath t = slashed t := by
  have hNormal : normalPath t = (Text.dropStart? (slashed t) "./").getD (slashed t) := rfl
  cases hDrop : Text.dropStart? (slashed t) "./" with
  | some r =>
      rw [hDrop] at hNormal
      exact Or.inl ⟨r, Text.dropStart?_eq_some_iff.mp hDrop, hNormal⟩
  | none =>
      rw [hDrop] at hNormal
      refine Or.inr ⟨fun r hText => ?_, hNormal⟩
      cases hDrop.symm.trans (Text.dropStart?_eq_some_iff.mpr hText)

/-- Normalizing twice does no more than normalizing the separators once. -/
theorem slashed_normalPath (t : Text) : slashed (normalPath t) = normalPath t := by
  refine slashed_of_free fun p hMem => ?_
  rcases normalPath_cases t with ⟨r, hText, hNormal⟩ | ⟨-, hNormal⟩
  · exact free_slashed t p (hText ▸ List.mem_append_right _ (hNormal ▸ hMem))
  · exact free_slashed t p (hNormal ▸ hMem)

/-- A dot stands for itself alone. -/
theorem matchName_dot : matchName "." name = true ↔ name = Text.ofString "." := by
  have hParts : parts (Text.ofString ".") = [.literal (Point.ofChar '.')] := parts_other (by decide)
  rw [matchName, matchParts_joinRuns, ← parts, hParts, matchParts_literal_cons]
  constructor
  · rintro ⟨rest, rfl, hRest⟩
    obtain rfl := List.isEmpty_iff.mp hRest
    rfl
  · rintro rfl
    exact ⟨[], rfl, rfl⟩

/-- Whether the segments of a path are covered by those of a pattern whose braces are written out. -/
def CoversSegments (r : Text) (path : List Text) : Prop :=
  ∃ u, Expands r u ∧ Spans (Text.splitOn '/' u) path

/-- A pattern that begins with `./` asks for a path whose first segment is a dot. -/
theorem accepts_dot_slash : accepts ("./" ++ r) p = true ↔
    ∃ path, Text.splitOn '/' p = Text.ofString "." :: path ∧ CoversSegments r path := by
  have hPlain : IsPlain "./" := List.forall_mem_cons.mpr ⟨by decide, List.forall_mem_singleton.mpr (by decide)⟩
  have hSplit : ∀ u, Text.splitOn '/' (Text.ofString "./" ++ u) = Text.ofString "." :: Text.splitOn '/' u :=
    Text.splitOn_append (p := Point.ofChar '/') (by decide) "."
  have hOther : Text.ofString "." ≠ Text.ofString "**" := by decide
  have hDot : segmentPattern "." = Text.ofString "." := by decide
  rw [accepts_iff]
  constructor
  · rintro ⟨-, u, hExpands, hSpans⟩
    have hMem := mem_expandBraces_iff.mpr hExpands
    rw [expandBraces_plain_append hPlain] at hMem
    obtain ⟨v, hV, rfl⟩ := List.mem_map.mp hMem
    rw [hSplit] at hSpans
    cases hPath : Text.splitOn '/' p with
    | nil =>
        rw [hPath] at hSpans
        cases hSpans
    | cons name path =>
        rw [hPath] at hSpans
        cases hSpans with
        | one _ hName hRest =>
            rw [hDot] at hName
            exact ⟨path, by rw [matchName_dot.mp hName], v, mem_expandBraces_iff.mp hV, hRest⟩
  · rintro ⟨path, hPath, v, hV, hRest⟩
    refine ⟨by simp [Text.ofString], Text.ofString "./" ++ v, ?_, ?_⟩
    · rw [← mem_expandBraces_iff, expandBraces_plain_append hPlain]
      exact List.mem_map.mpr ⟨v, mem_expandBraces_iff.mpr hV, rfl⟩
    · rw [hSplit, hPath]
      exact .one hOther (hDot ▸ matchName_dot.mpr rfl) hRest

end Glob

namespace Mapping

open Glob

variable {g p q : Text}

theorem covers_iff : covers g p = true ↔
    g ≠ [] ∧ (accepts (slashed g) p = true ∨ Path.base p = Path.base (slashed g)) := by
  simp [covers, slashed]

/-- Whether a pattern of a manifest keeps a path that the rest of it, after the `./` at its start, stands for:
the last names are the same, or the path has a dot for its own first segment. -/
def KeepsDot (r path : Text) : Prop :=
  Path.base path = Path.base r ∨ ∃ rest, Text.splitOn '/' path = Text.ofString "." :: rest ∧ CoversSegments r rest

/-- A pattern that serves a suite serves a manifest once it is normalized as a suite does it. As it stands, it
serves unless it begins with `./`, and then only where that is kept. -/
theorem covers_of_acceptsAny (hTrimmed : g.IsTrimmed) (h : acceptsAny [g] p = true) :
    covers (normalPath g) (normalPath p) = true ∧
    (covers g (normalPath p) = true ↔ ∀ r, slashed g = "./" ++ r → KeepsDot r (normalPath p)) := by
  have hStrip : g.strip = g := hTrimmed
  have hAccepts : accepts (normalPath g) (normalPath p) = true := by
    simpa [acceptsAny, hStrip] using h
  have hNormal : normalPath g ≠ [] := (accepts_iff ..).mp hAccepts |>.1
  have hSome : g ≠ [] := by
    rintro rfl
    exact hNormal rfl
  refine ⟨covers_iff.mpr ⟨hNormal, Or.inl ((slashed_normalPath g).symm ▸ hAccepts)⟩, ?_⟩
  rw [covers_iff, and_iff_right hSome]
  rcases normalPath_cases g with ⟨r, hText, -⟩ | ⟨hNone, hSame⟩
  · have hBase : Path.base (slashed g) = Path.base r := by
      rw [hText]
      exact Path.base_append_slash (p := Point.ofChar '/') (by decide) "." r
    rw [hText, accepts_dot_slash, ← hText, hBase]
    constructor
    · intro hCovers r' hText'
      obtain rfl : r = r' := List.append_cancel_left (hText.symm.trans hText')
      exact hCovers.symm
    · intro hKeeps
      exact (hKeeps r hText).symm
  · exact iff_of_true (Or.inl (hSame ▸ hAccepts)) fun r hText => absurd hText (hNone r)

/-- A pattern with a `./` at its start, and a path without one. -/
def dotted : Text := "./a/*.json"

theorem covers_of_acceptsAny_dotted : acceptsAny [dotted] "a/x.json" = true ∧
    covers (normalPath dotted) (normalPath "a/x.json") = true ∧ ¬ KeepsDot "a/*.json" (normalPath "a/x.json") := by
  have hAccepts : acceptsAny [dotted] "a/x.json" = true := by decide +kernel
  obtain ⟨hCovers, hAsIs⟩ := covers_of_acceptsAny (by decide +kernel) hAccepts
  refine ⟨hAccepts, hCovers, fun hKeeps => ?_⟩
  have hNot : covers dotted (normalPath "a/x.json") = false := by decide +kernel
  refine Bool.false_ne_true (hNot.symm.trans (hAsIs.mpr fun r hText => ?_))
  have hSplit : Text.ofString "./" ++ Text.ofString "a/*.json" = Text.ofString "./" ++ r := hText
  exact List.append_cancel_left hSplit ▸ hKeeps

/-- A pattern that serves a suite does not always serve a manifest. -/
theorem not_covers_of_acceptsAny : ¬ ∀ g p, Text.IsTrimmed g → acceptsAny [g] p = true →
    covers g (normalPath p) = true := by
  intro h
  have hNot : covers dotted (normalPath "a/x.json") = false := by decide +kernel
  exact Bool.false_ne_true (hNot.symm.trans (h dotted "a/x.json" (by decide +kernel) (by decide +kernel)))

end Mapping
end Conform

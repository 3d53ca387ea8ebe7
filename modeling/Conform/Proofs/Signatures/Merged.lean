import Conform.Proofs.Signatures.Overlay
import Mathlib.Order.Fin.Basic

/-! A manifest laid over another one. No two ids of the result differ in case at most: the ids of the base keep their
places, the new ones follow in the order in which they first come up, and under each id stands the signature that was
declared last. -/
namespace Conform.Signatures.Manifest

variable {base merged overlay : Manifest} {ss upper : List Signature} {s : Signature} {k : Text}

/-- The ids of a manifest, as they are compared when it is laid over another one or another one over it. -/
def ids (m : Manifest) : List Text := m.signatures.map Signature.folded

/-- The signature under an id. -/
def under? (m : Manifest) (k : Text) : Option Signature := m.signatures.find? (·.folded == k)

/-- A signature with a source: one that names none has been declared by the overlay. -/
def sourced (version : Text) (s : Signature) : Signature :=
  if s.source.isEmpty then { s with source := overlaySource version } else s

/-- What a manifest is once another one has been laid over it. -/
structure Merges (base overlay merged : Manifest) : Prop where
  distinct : merged.ids.Nodup
  /-- The ids of the base keep their places, and new ones follow in the order in which they first come up. -/
  ids : merged.ids = base.ids ++ (overlay.ids.filter (· ∉ base.ids)).eraseDups
  /-- Under an id stands the overlay's last signature, or else that of the base. -/
  under : ∀ k, merged.under? k =
    ((overlay.signatures.reverse.find? (·.folded == k)).map (sourced overlay.version)).or (base.under? k)
  version : merged.version = if overlay.version = [] then base.version else overlay.version

theorem folded_sourced (version : Text) (s : Signature) : (sourced version s).folded = s.folded := by
  unfold sourced
  split <;> rfl

theorem laid_eq (m : Manifest) : m.laid = m.signatures.map (sourced m.version) := rfl

theorem map_folded_laid (m : Manifest) : m.laid.map Signature.folded = m.ids := by
  simp [laid_eq, ids, folded_sourced]

/-- An id that is there keeps its place, and one that is not comes last. -/
theorem map_folded_put (ss : List Signature) (s : Signature) : (put ss s).map Signature.folded =
    if s.folded ∈ ss.map Signature.folded then ss.map Signature.folded else ss.map Signature.folded ++ [s.folded] := by
  rcases put_cases ss s with ⟨front, old, back, rfl, hSame, hPut⟩ | ⟨hFresh, hPut⟩
  · rw [hPut, if_pos (by simp [hSame])]
    simp [hSame]
  · have hAbsent : s.folded ∉ ss.map Signature.folded := by simpa using hFresh
    rw [hPut, if_neg hAbsent, List.map_append, List.map_singleton]

theorem map_folded_foldl_put (upper ss : List Signature) : (upper.foldl put ss).map Signature.folded =
    ss.map Signature.folded ++ ((upper.map Signature.folded).filter (· ∉ ss.map Signature.folded)).eraseDups := by
  induction upper generalizing ss with
  | nil => simp
  | cons s rest ih =>
      rw [List.foldl_cons, ih, map_folded_put, List.map_cons]
      by_cases hThere : s.folded ∈ ss.map Signature.folded
      · rw [if_pos hThere, List.filter_cons_of_neg (by simpa using hThere)]
      · -- From here on the new id is one of those that are there.
        have hNew : ∀ k, decide (k ∉ ss.map Signature.folded ++ [s.folded]) =
            (decide (k ∉ ss.map Signature.folded) && !k == s.folded) := by
          intro k
          by_cases hSame : k = s.folded <;> simp [hSame]
        rw [if_neg hThere, eraseDups_filter_cons (by simpa using hThere) hNew, List.append_assoc,
          List.singleton_append]

theorem under?_merge (h : base.ids.Nodup) (overlay : Manifest) (k : Text) : (base.merge overlay).under? k =
    ((overlay.signatures.reverse.find? (·.folded == k)).map (sourced overlay.version)).or (base.under? k) := by
  have hLast := ((lays_self h).foldl overlay.laid).last k
  rw [under?, signatures_merge, hLast, List.reverse_append, List.find?_append, ← find?_reverse_of_nodup h, laid_eq,
    ← List.map_reverse, List.find?_map]
  simp only [Function.comp_def, folded_sourced]
  rfl

theorem merges_merge (h : base.ids.Nodup) (overlay : Manifest) : Merges base overlay (base.merge overlay) where
  distinct := by
    rw [ids, signatures_merge]
    exact ((lays_self h).foldl overlay.laid).distinct
  ids := by
    rw [ids, signatures_merge, map_folded_foldl_put, map_folded_laid]
    rfl
  under := under?_merge h overlay
  version := by simp [merge, List.isEmpty_iff]

/-- Where the ids of a manifest are distinct, they are so once another manifest has been laid over it, whatever ids
that one repeats, and after any number of manifests. -/
theorem merge_of_distinct (h : base.ids.Nodup) :
    (∀ overlay, Merges base overlay (base.merge overlay)) ∧
      ∀ overlays : List Manifest, (overlays.foldl merge base).ids.Nodup := by
  refine ⟨merges_merge h, fun overlays => ?_⟩
  induction overlays generalizing base with
  | nil => exact h
  | cons overlay rest ih => exact ih (merges_merge h overlay).distinct

/-- A signature of which nothing but the id and the description matters. -/
def described (id description : Text) : Signature := ⟨id, [], description, .zero, [], [], [], [], []⟩

/-- A manifest of two signatures. -/
def twoIds : Manifest := ⟨"1", [described "A" "old", described "b" "old"]⟩

/-- An overlay that declares a new id twice, in two cases, and one of the two ids above between them. -/
def repeating : Manifest := ⟨[], [described "c" "first", described "B" "new", described "C" "last"]⟩

theorem merge_of_distinct_repeating : twoIds.ids.Nodup ∧
    (twoIds.merge repeating).ids = [Text.ofString "a", Text.ofString "b", Text.ofString "c"] ∧
    ((twoIds.merge repeating).under? "b").map Signature.description = some (Text.ofString "new") ∧
    ((twoIds.merge repeating).under? "c").map Signature.description = some (Text.ofString "last") ∧
    (twoIds.merge repeating).version = Text.ofString "1" ∧
    ([repeating, twoIds, repeating].foldl merge twoIds).ids.Nodup := by
  have hDistinct : twoIds.ids.Nodup := by decide +kernel
  obtain ⟨hMerges, hChain⟩ := merge_of_distinct hDistinct
  have hMerged := hMerges repeating
  refine ⟨hDistinct, hMerged.ids.trans (by decide +kernel), ?_, ?_, hMerged.version, hChain _⟩
  · rw [hMerged.under]
    decide +kernel
  · rw [hMerged.under]
    decide +kernel

end Conform.Signatures.Manifest

import Conform.Proofs.Signatures.Normalized

/-! Signatures by name. A name is an id or an alias, and of the signatures with a name the first one is found. The ids
of a manifest in order differ, so all that can stand between a signature and its own id are aliases of earlier ones. -/
namespace Conform.Signatures.Manifest

variable {m : Manifest} {s t : Signature} {before after : List Signature}

/-- Whether an alias of a signature differs from a name in case at most. -/
def HasAlias (name : Text) (s : Signature) : Prop := ∃ a ∈ s.aliases, a.lower = name.lower

instance (name : Text) : DecidablePred (HasAlias name) :=
  fun s => inferInstanceAs (Decidable (∃ a ∈ s.aliases, a.lower = name.lower))

/-- A name without blanks around it finds the first signature that has it as its id or among its aliases. -/
theorem find?_of_isTrimmed {name : Text} (hTrimmed : name.IsTrimmed) (hSome : name.lower ≠ []) :
    m.find? name = m.signatures.find? fun s => s.folded = name.lower ∨ HasAlias name s := by
  have hStrip : name.strip = name := hTrimmed
  rw [find?, hStrip, if_neg (by simpa using hSome)]
  refine List.find?_congr fun s _ => ?_
  rw [Bool.eq_iff_iff, decide_eq_true_iff]
  simp [HasAlias, Signature.folded]

/-- Ids that differ in case at most are compared as equal. -/
theorem folded_ne_of_nodup (hNames : ((before ++ s :: after).map key).Nodup) (hMem : t ∈ before) :
    t.folded ≠ s.folded := by
  intro hSame
  rw [List.map_append, List.map_cons] at hNames
  apply (List.nodup_append.mp hNames).2.2 (key t) (List.mem_map_of_mem hMem) (key s) List.mem_cons_self
  rw [key_eq, key_eq, hSame]

/-- Up to the signature with an id, only aliases can be found under it. -/
theorem find?_folded (hNames : ((before ++ s :: after).map key).Nodup) :
    (before ++ s :: after).find? (fun t => t.folded = s.folded ∨ HasAlias s.id t) =
      some ((before.find? (HasAlias s.id ·)).getD s) := by
  have hBefore : before.find? (fun t => t.folded = s.folded ∨ HasAlias s.id t) = before.find? (HasAlias s.id ·) := by
    refine List.find?_congr fun t hMem => ?_
    rw [decide_eq_decide]
    exact or_iff_right (folded_ne_of_nodup hNames hMem)
  rw [List.find?_append, hBefore, List.find?_cons_of_pos (by simp)]
  cases before.find? (HasAlias s.id ·) <;> rfl

theorem getD_find?_eq_self_iff {p : Signature → Prop} [DecidablePred p] (hFresh : s ∉ before) :
    (before.find? (p ·)).getD s = s ↔ ∀ t ∈ before, ¬p t := by
  cases hFound : before.find? (p ·) with
  | none => simpa using hFound
  | some t =>
      have hThere := List.mem_of_find?_eq_some hFound
      have hPasses : p t := by simpa using List.find?_some hFound
      constructor
      · intro hSame
        exact absurd (hSame ▸ hThere) hFresh
      · exact fun hNone => absurd hPasses (hNone t hThere)

/-- In a manifest in order the id of a signature, if no blanks stand around it, finds the first of the earlier
signatures with this id among its aliases, and the signature itself if there is none. So a signature is found by its
own id exactly if no earlier one has that as an alias. -/
theorem find?_own_id (hPlace : m.normalize.signatures = before ++ s :: after) (hTrimmed : s.id.IsTrimmed) :
    m.normalize.find? s.id = some ((before.find? (HasAlias s.id ·)).getD s) ∧
      (m.normalize.find? s.id = some s ↔ ∀ t ∈ before, ∀ a ∈ t.aliases, a.lower ≠ s.id.lower) := by
  have hNames : ((before ++ s :: after).map key).Nodup := hPlace ▸ nodup_normalize m
  have hFresh : s ∉ before := fun hMem => folded_ne_of_nodup hNames hMem rfl
  have hSome : s.id.lower ≠ [] := by
    have hStrip : s.id.strip = s.id := hTrimmed
    have hMem : s ∈ m.normalize.signatures := hPlace ▸ List.mem_append_right before List.mem_cons_self
    have hKey := key_ne_nil_of_mem_normalize hMem
    rwa [key, hStrip] at hKey
  have hFound : m.normalize.find? s.id = some ((before.find? (HasAlias s.id ·)).getD s) := by
    rw [find?_of_isTrimmed hTrimmed hSome, hPlace]
    exact find?_folded hNames
  refine ⟨hFound, ?_⟩
  rw [hFound, Option.some_inj, getD_find?_eq_self_iff hFresh]
  simp only [HasAlias, not_exists, not_and]

/-- A signature of which nothing is said but its id and its aliases. -/
def bare (id : Text) (aliases : List Text) : Signature where
  id := id
  category := []
  description := []
  threshold := usualThreshold
  aliases := aliases
  extensions := []
  matchers := []
  metadata := []
  source := []

/-- A signature with the id of another one as an alias, in upper case, in front of that one. -/
def shadowing : Manifest where
  version := "1"
  signatures := [bare "a" ["B"], bare "b" ["a"], bare "c" []]

theorem isNormal_bare (id : Text) (aliases : List Text) : IsNormalSignature (bare id aliases) where
  threshold := show usualThreshold.isPositive = true by decide +kernel
  ascending := List.Pairwise.nil
  extensions := nofun
  matchers := nofun

theorem normalize_shadowing : shadowing.normalize = shadowing := by
  refine normalize_of_isNormal ⟨by decide +kernel, by decide +kernel, ?_⟩
  simp [shadowing, isNormal_bare]

theorem find?_own_id_shadowing :
    shadowing.normalize.signatures = [bare "a" ["B"]] ++ bare "b" ["a"] :: [bare "c" []] ∧
      (bare "b" ["a"]).id.IsTrimmed ∧
      shadowing.normalize.find? "b" = some (([bare "a" ["B"]].find? (HasAlias "b" ·)).getD (bare "b" ["a"])) := by
  have hPlace : shadowing.normalize.signatures = [bare "a" ["B"]] ++ bare "b" ["a"] :: [bare "c" []] := by
    rw [normalize_shadowing]
    rfl
  have hTrimmed : (bare "b" ["a"]).id.IsTrimmed := by decide +kernel
  exact ⟨hPlace, hTrimmed, (find?_own_id hPlace hTrimmed).1⟩

/-- The second of these signatures is not found by its own id. -/
theorem exists_not_found_by_own_id :
    ∃ s ∈ shadowing.normalize.signatures, shadowing.normalize.find? s.id ≠ some s := by
  rw [normalize_shadowing]
  refine ⟨bare "b" ["a"], by simp [shadowing], fun hSame => ?_⟩
  have hFound : (shadowing.find? "b").map Signature.id = some "a" := by decide +kernel
  rw [show shadowing.find? "b" = some (bare "b" ["a"]) from hSame] at hFound
  cases hFound

end Conform.Signatures.Manifest

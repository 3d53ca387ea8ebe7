import Conform.Proofs.Except
import Conform.Proofs.Lookup
import Conform.Proofs.Text.Case
import Conform.Signatures.Overlay
import Mathlib.Data.List.Find

/-! Signatures over signatures. One that is laid over others takes the place of the one whose id differs from its
own in case at most, so of such ids the signature that is declared last is kept. Ids are compared without the
blanks around them only after that, and then the first place decides. -/
namespace Conform.Signatures

/-- An id as it is compared when one signature is laid over another. -/
def Signature.folded (s : Signature) : Text := s.id.lower

namespace Manifest

variable {declared merged base upper ss : List Signature} {s t : Signature} {k : Text}

/-- What ids are at last compared by depends on nothing but what they are compared by before. -/
theorem key_eq (s : Signature) : key s = s.folded.strip := (Text.strip_lower s.id).symm

/-! ### One signature over others -/

theorem lastPlace?_eq_none (h : lastPlace? k ss = none) : ∀ t ∈ ss, t.folded ≠ k := by
  intro t hMem hSame
  obtain ⟨i, hInside, hHere⟩ := List.getElem_of_mem hMem
  have hNone : ss.zipIdx.reverse.find? (fun s => s.1.id.lower == k) = none := Option.map_eq_none_iff.mp h
  rw [List.find?_eq_none] at hNone
  refine hNone (t, i) (List.mem_reverse.mpr ?_) (beq_iff_eq.mpr hSame)
  exact List.mem_zipIdx_iff_getElem?.mpr (by simp [← hHere])

theorem exists_of_lastPlace? {i : Nat} (h : lastPlace? k ss = some i) :
    ∃ hInside : i < ss.length, ss[i].folded = k := by
  obtain ⟨⟨old, j⟩, hFound, hPlace⟩ := Option.map_eq_some_iff.mp h
  have hSame : old.folded = k := by simpa [Signature.folded] using List.find?_some hFound
  have hMem := List.mem_reverse.mp (List.mem_of_find?_eq_some hFound)
  obtain ⟨hInside, hOld⟩ := List.getElem?_eq_some_iff.mp (List.mem_zipIdx_iff_getElem?.mp hMem)
  obtain rfl : j = i := hPlace
  exact ⟨hInside, hOld ▸ hSame⟩

/-- A signature takes the place of one with its id, or else comes last. -/
theorem put_cases (ss : List Signature) (s : Signature) :
    (∃ front old back, ss = front ++ old :: back ∧ old.folded = s.folded ∧ put ss s = front ++ s :: back) ∨
      (∀ t ∈ ss, t.folded ≠ s.folded) ∧ put ss s = ss ++ [s] := by
  unfold put
  cases hPlace : lastPlace? s.id.lower ss with
  | none => exact Or.inr ⟨lastPlace?_eq_none hPlace, rfl⟩
  | some i =>
      obtain ⟨hInside, hSame⟩ := exists_of_lastPlace? hPlace
      refine Or.inl ⟨ss.take i, ss[i], ss.drop (i + 1), ?_, hSame, ?_⟩
      · rw [List.getElem_cons_drop, List.take_append_drop]
      · exact (List.set_eq_take_append_cons_drop ..).trans (if_pos hInside)

/-- What is left of signatures that were laid one over the other: one for each id, in the places where the ids
came up first, and of those with one id the last. -/
structure Lays (declared merged : List Signature) : Prop where
  distinct : (merged.map Signature.folded).Nodup
  first : ∀ p : Text → Bool, (merged.map Signature.folded).find? p = (declared.map Signature.folded).find? p
  last : ∀ k, merged.find? (·.folded == k) = declared.reverse.find? (·.folded == k)

theorem lays_self (h : (base.map Signature.folded).Nodup) : Lays base base :=
  ⟨h, fun _ => rfl, find?_reverse_of_nodup h⟩

theorem Lays.put (h : Lays declared merged) (s : Signature) : Lays (declared ++ [s]) (put merged s) := by
  rcases put_cases merged s with ⟨front, old, back, rfl, hSame, hPut⟩ | ⟨hFresh, hPut⟩
  · have hFolded : (front ++ s :: back).map Signature.folded = (front ++ old :: back).map Signature.folded := by
      simp [hSame]
    have hDistinct := hFolded ▸ h.distinct
    rw [hPut]
    refine ⟨hDistinct, fun p => ?_, fun k => ?_⟩
    · rw [hFolded, h.first, List.map_append, List.find?_append]
      cases hFirst : (declared.map Signature.folded).find? p with
      | some l => rfl
      | none =>
          -- The new id is that of a signature which is there, so it passes no test that all of these fail.
          have hFails : ¬p s.folded = true :=
            List.find?_eq_none.mp ((h.first p).trans hFirst) s.folded (hFolded ▸ by simp)
          simp [hFails]
    · by_cases hName : s.folded = k
      · subst hName
        rw [find?_of_mem hDistinct (by simp)]
        simp
      · have hRest := h.last k
        rw [List.find?_append, List.find?_cons_of_neg (by simpa [hSame] using hName), ← List.find?_append] at hRest
        rw [List.find?_append, List.find?_cons_of_neg (by simpa using hName), ← List.find?_append, hRest]
        simp [hName]
  · rw [hPut]
    refine ⟨?_, fun p => ?_, fun k => ?_⟩
    · rw [List.map_append, List.nodup_append]
      refine ⟨h.distinct, by simp, ?_⟩
      simpa using hFresh
    · rw [List.map_append, List.map_append, List.find?_append, List.find?_append, h.first]
    · by_cases hName : s.folded = k
      · subst hName
        have hNone : merged.find? (·.folded == s.folded) = none := List.find?_eq_none.mpr (by simpa using hFresh)
        rw [List.find?_append, hNone]
        simp
      · rw [List.find?_append, h.last]
        simp [hName]

/-- Signatures that are laid over others one after the other leave what all of them together leave. -/
theorem Lays.foldl (h : Lays declared merged) (upper : List Signature) :
    Lays (declared ++ upper) (upper.foldl Manifest.put merged) := by
  induction upper generalizing declared merged with
  | nil => rwa [List.append_nil]
  | cons s rest ih =>
      have hRest := ih (h.put s)
      rwa [List.append_assoc, List.singleton_append] at hRest

/-! ### Manifests over manifests -/

/-- The signatures that a manifest lays over those of others. -/
def laid (m : Manifest) : List Signature :=
  m.signatures.map fun s => if s.source.isEmpty then { s with source := overlaySource m.version } else s

/-- All signatures that manifests declare, those that are laid over others last. -/
def declaredBy (base : Manifest) (overlays : List Manifest) : List Signature :=
  base.signatures ++ overlays.flatMap laid

theorem signatures_merge (base overlay : Manifest) :
    (base.merge overlay).signatures = overlay.laid.foldl put base.signatures := by
  rw [merge, laid, List.foldl_map]

theorem signatures_foldl_merge (base : Manifest) (overlays : List Manifest) :
    (overlays.foldl merge base).signatures = (overlays.flatMap laid).foldl put base.signatures := by
  induction overlays generalizing base with
  | nil => rfl
  | cons overlay rest ih =>
      rw [List.foldl_cons, ih, signatures_merge, List.flatMap_cons, List.foldl_append]

/-! ### One signature for each id -/

theorem find?_distinct (hSome : k ≠ []) (seen : List Text) (hFresh : k ∉ seen) (ss : List Signature) :
    (distinct seen ss).find? (key · == k) = ss.find? (key · == k) := by
  induction ss generalizing seen with
  | nil => rfl
  | cons s rest ih =>
      rw [distinct]
      by_cases hKey : key s = k
      · have hKept : ((key s).isEmpty || seen.contains (key s)) = false := by
          simp [hKey, hSome, hFresh]
        rw [hKept]
        simp [hKey]
      · split
        · rw [ih seen hFresh, List.find?_cons_of_neg (by simpa using hKey)]
        · rw [List.find?_cons_of_neg (by simpa using hKey), List.find?_cons_of_neg (by simpa using hKey)]
          exact ih _ (by simp [hFresh, Ne.symm hKey])

theorem nodup_distinct (seen : List Text) (ss : List Signature) :
    ((distinct seen ss).map key).Nodup ∧ ∀ s ∈ distinct seen ss, key s ≠ [] ∧ key s ∉ seen := by
  induction ss generalizing seen with
  | nil => exact ⟨List.nodup_nil, nofun⟩
  | cons s rest ih =>
      rw [distinct]
      split
      · exact ih seen
      · next hKept =>
          obtain ⟨hNodup, hFresh⟩ := ih (key s :: seen)
          simp only [Bool.or_eq_true, not_or, List.isEmpty_iff, List.contains_iff_mem] at hKept
          refine ⟨List.nodup_cons.mpr ⟨?_, hNodup⟩, List.forall_mem_cons.mpr ⟨hKept, fun t hMem => ?_⟩⟩
          · intro hMem
            obtain ⟨t, hThere, hSame⟩ := List.mem_map.mp hMem
            exact (hFresh t hThere).2 (hSame ▸ List.mem_cons_self)
          · exact ⟨(hFresh t hMem).1, fun hSeen => (hFresh t hMem).2 (List.mem_cons_of_mem _ hSeen)⟩

/-- The signature that is kept of those with an id: the last one whose id is that of the first one in lower case,
blanks around it included. -/
def survivor (declared : List Signature) (k : Text) : Option Signature :=
  (declared.find? (key · == k)).bind fun first => declared.reverse.find? (·.folded == first.folded)

theorem Lays.find?_key (h : Lays declared merged) (k : Text) :
    merged.find? (key · == k) = survivor declared k := by
  have hFirst := h.first fun l => l.strip == k
  simp only [List.find?_map, Function.comp_def, ← key_eq] at hFirst
  unfold survivor
  cases hDeclared : declared.find? (key · == k) with
  | none =>
      rw [hDeclared] at hFirst
      exact Option.map_eq_none_iff.mp hFirst
  | some first =>
      rw [hDeclared] at hFirst
      obtain ⟨s, hFound, hSame⟩ := Option.map_eq_some_iff.mp hFirst
      have hMem := List.mem_of_find?_eq_some hFound
      rw [hFound, Option.bind_some, ← h.last, ← hSame, find?_of_mem h.distinct hMem]

/-- Whether the ids that are at last compared as equal to a given one differ in case at most. -/
def Alike (declared : List Signature) (k : Text) : Prop :=
  ∀ s ∈ declared, ∀ t ∈ declared, key s = k → key t = k → s.folded = t.folded

theorem survivor_eq_last (hAlike : Alike declared k) :
    survivor declared k = declared.reverse.find? (key · == k) := by
  unfold survivor
  cases hFirst : declared.find? (key · == k) with
  | none =>
      have hNone := List.find?_eq_none.mp hFirst
      exact (List.find?_eq_none.mpr fun s hMem => hNone s (List.mem_reverse.mp hMem)).symm
  | some first =>
      have hMem := List.mem_of_find?_eq_some hFirst
      have hKey : key first = k := by simpa using List.find?_some hFirst
      refine List.find?_congr fun t hThere => ?_
      rw [Bool.eq_iff_iff, beq_iff_eq, beq_iff_eq]
      constructor
      · intro hSame
        rw [key_eq, hSame, ← key_eq, hKey]
      · exact fun hSame => hAlike t (List.mem_reverse.mp hThere) first hMem hSame hKey

theorem survivor_append_of_none (hKeys : (base.map key).Nodup) (hNone : ∀ s ∈ upper, key s ≠ k) :
    survivor (base ++ upper) k = base.find? (key · == k) := by
  have hUpper : upper.reverse.find? (key · == k) = none :=
    List.find?_eq_none.mpr fun s hMem => by simpa using hNone s (List.mem_reverse.mp hMem)
  have hBase : ∀ s ∈ base ++ upper, key s = k → s ∈ base := fun s hMem hKey =>
    (List.mem_append.mp hMem).resolve_right fun hThere => hNone s hThere hKey
  have hAlike : Alike (base ++ upper) k := by
    intro s hS t hT hKeyS hKeyT
    exact congrArg _ (List.inj_on_of_nodup_map hKeys (hBase s hS hKeyS) (hBase t hT hKeyT) (hKeyS.trans hKeyT.symm))
  rw [survivor_eq_last hAlike, List.reverse_append, List.find?_append, hUpper, find?_reverse_of_nodup hKeys]
  rfl

theorem find?_normalize (hSome : k ≠ []) (m : Manifest) :
    m.normalize.signatures.find? (key · == k) = (m.signatures.find? (key · == k)).map normalSignature := by
  rw [normalize, List.find?_map]
  exact congrArg _ (find?_distinct hSome [] (List.not_mem_nil) m.signatures)

variable {p : Provider} {fs : Files} {home : Text} {b : Manifest} {overlays : List Manifest}

/-- The manifest in effect has one signature for each id that is not blank. Where all declarations of an id agree
but for case, it is the last of them, so that none of a user's signatures is lost; where they differ in the blanks
around the id, the first of them decides which of them count. An id that no user declares keeps its signature. -/
theorem effective_find? (hBase : embedded p = .ok b) (hUser : ofUser fs home = .ok overlays)
    (hKeys : (b.signatures.map key).Nodup) :
    ∃ m, effective p fs home = .ok m ∧ (m.signatures.map key).Nodup ∧ (∀ s ∈ m.signatures, key s ≠ []) ∧
      ∀ k ≠ [],
        m.signatures.find? (key · == k) = (survivor (declaredBy b overlays) k).map normalSignature ∧
        (Alike (declaredBy b overlays) k →
          survivor (declaredBy b overlays) k = (declaredBy b overlays).reverse.find? (key · == k)) ∧
        ((∀ s ∈ overlays.flatMap laid, key s ≠ k) →
          survivor (declaredBy b overlays) k = b.signatures.find? (key · == k)) := by
  have hFolded : (b.signatures.map Signature.folded).Nodup := by
    refine List.Nodup.of_map Text.strip ?_
    simpa [List.map_map, Function.comp_def, ← key_eq] using hKeys
  have hLays : Lays (declaredBy b overlays) (overlays.foldl merge b).signatures := by
    rw [signatures_foldl_merge]
    exact (lays_self hFolded).foldl _
  obtain ⟨hNodup, hNames⟩ := nodup_distinct [] (overlays.foldl merge b).signatures
  refine ⟨(overlays.foldl merge b).normalize, ?_, ?_, ?_, fun k hSome => ⟨?_, survivor_eq_last, ?_⟩⟩
  · unfold effective
    rw [hBase]
    exact (bind_of_ok rfl).trans (bind_of_ok hUser)
  · have hKept : ∀ ss : List Signature, (ss.map normalSignature).map key = ss.map key := fun ss => by
      rw [List.map_map]
      rfl
    exact (hKept _).symm ▸ hNodup
  · intro s hMem
    obtain ⟨t, hThere, rfl⟩ := List.mem_map.mp hMem
    exact (hNames t hThere).1
  · rw [find?_normalize hSome, hLays.find?_key]
  · exact survivor_append_of_none hKeys

/-- A provider of three signatures. -/
def shipped : Provider where
  get? path :=
    if path == embeddedPath then
      some (Text.utf8 "signatures: [\x7bid: a, description: old\x7d, \x7bid: b, description: old\x7d, \x7bid: c\x7d]")
    else none
  named := []

/-- A user who declares two of them again, one in upper case and the other with a blank in front of its id. -/
def redeclared : Files where
  root := .directory [("home", .directory [("config", .directory [("signatures.yaml", .file (Text.utf8
    "signatures: [\x7bid: A, description: new\x7d, \x7bid: ' b', description: new\x7d]"))])])]
  cwd := "/"

/-- What comes of the ids a and b, and what the user has declared last for b. -/
theorem exists_shipped : ∃ b overlays m, embedded shipped = .ok b ∧ ofUser redeclared "/home" = .ok overlays ∧
    effective shipped redeclared "/home" = .ok m ∧ b.signatures.map key = ["a", "b", "c"] ∧
    (m.signatures.find? (key · == "a")).map Signature.description = some "new" ∧
    (m.signatures.find? (key · == "b")).map Signature.description = some "old" ∧
    ((declaredBy b overlays).reverse.find? (key · == "b")).map Signature.description = some "new" := by
  have hRun : ((embedded shipped).toOption.any fun b => (ofUser redeclared "/home").toOption.any fun overlays =>
      (effective shipped redeclared "/home").toOption.any fun m =>
        decide (b.signatures.map key = [Text.ofString "a", Text.ofString "b", Text.ofString "c"] ∧
          (m.signatures.find? (key · == "a")).map Signature.description = some (Text.ofString "new") ∧
          (m.signatures.find? (key · == "b")).map Signature.description = some (Text.ofString "old") ∧
          ((declaredBy b overlays).reverse.find? (key · == "b")).map Signature.description =
            some (Text.ofString "new"))) = true := by
    decide +kernel
  obtain ⟨b, hBase, hRun⟩ := exists_of_any hRun
  obtain ⟨overlays, hUser, hRun⟩ := exists_of_any hRun
  obtain ⟨m, hEffective, hRun⟩ := exists_of_any hRun
  exact ⟨b, overlays, m, hBase, hUser, hEffective, of_decide_eq_true hRun⟩

theorem effective_find?_shipped : ∃ b overlays m, embedded shipped = .ok b ∧
    ofUser redeclared "/home" = .ok overlays ∧ (b.signatures.map key).Nodup ∧
    effective shipped redeclared "/home" = .ok m ∧
    m.signatures.find? (key · == "a") = (survivor (declaredBy b overlays) "a").map normalSignature ∧
    (m.signatures.find? (key · == "a")).map Signature.description = some "new" := by
  obtain ⟨b, overlays, m, hBase, hUser, hEffective, hNames, hNew, -⟩ := exists_shipped
  have hKeys : (b.signatures.map key).Nodup := hNames ▸ by decide
  obtain ⟨m', hEffective', -, -, hEach⟩ := effective_find? hBase hUser hKeys
  obtain rfl := Except.ok.inj (hEffective.symm.trans hEffective')
  exact ⟨b, overlays, m, hBase, hUser, hKeys, hEffective, (hEach "a" (by decide)).1, hNew⟩

/-- A signature whose id has a blank in front is dropped, although it is the last with this id. -/
theorem not_last_of_padded : ∃ b overlays m, embedded shipped = .ok b ∧ ofUser redeclared "/home" = .ok overlays ∧
    (b.signatures.map key).Nodup ∧ effective shipped redeclared "/home" = .ok m ∧
    m.signatures.find? (key · == "b") ≠
      ((declaredBy b overlays).reverse.find? (key · == "b")).map normalSignature := by
  obtain ⟨b, overlays, m, hBase, hUser, hEffective, hNames, -, hOld, hNew⟩ := exists_shipped
  refine ⟨b, overlays, m, hBase, hUser, hNames ▸ by decide, hEffective, fun hSame => ?_⟩
  rw [hSame, Option.map_map] at hOld
  cases hOld.symm.trans hNew

end Manifest
end Conform.Signatures

import Conform.Proofs.Document.Order
import Conform.Proofs.Schema.Entry
import Conform.Proofs.Schema.Scan

/-! The content of a schema, by which copies of it are told from other schemas. Schemas have one
canonical text exactly if they are equal up to order, and nothing of them is lost in an entry. -/
namespace Conform.Schema

open Document (EqUpToOrder IsJson WellFormed)

variable {p p' : Parsed} {e : Entry} {bs bs' : Bytes} {d : Document} {path path' : Text}

namespace Parsed

theorem visitContent_eq (hRead : read true bs = .ok p) (hNamed : p.id ≠ []) :
    Index.visitContent true path bs = .found ⟨p.id, path, p.normalized, p.declared⟩ := by
  have hSome : p.id.isEmpty = false := by simpa using hNamed
  simp [Index.visitContent, hRead, hSome]

/-- Two files with one name are in conflict exactly if their schemas differ in more than order. -/
theorem conflict_iff (hRead : read true bs = .ok p) (hRead' : read true bs' = .ok p') (hId : p.id = p'.id)
    (hNamed : p.id ≠ []) :
    [Index.visitContent true path bs, Index.visitContent true path' bs'].foldlM Index.accept Index.empty =
      .error (.referenceConflict p.id path' path) ↔ ¬ p.document.EqUpToOrder p'.document := by
  obtain ⟨_, _, _, _, _, hText⟩ := read_ok hRead
  obtain ⟨_, _, _, _, _, hText'⟩ := read_ok hRead'
  rw [visitContent_eq hRead hNamed, visitContent_eq hRead' (hId ▸ hNamed),
    ← Document.canonical_eq_iff (wellFormed_of_read hRead) (wellFormed_of_read hRead') hText hText']
  have hFold : ∀ e e' : Entry, [Visit.found e, Visit.found e'].foldlM Index.accept Index.empty =
      Index.add ⟨[e]⟩ e' := fun e e' => bind_pure (Index.add ⟨[e]⟩ e')
  have hOld : Index.get? ⟨[⟨p.id, path, p.normalized, p.declared⟩]⟩ p'.id =
      some ⟨p.id, path, p.normalized, p.declared⟩ := by simp [Index.get?, hId]
  rw [hFold, Index.add, hOld]
  by_cases hSame : p.normalized = p'.normalized
  · simp [hSame]
  · simp [hSame, hId]

end Parsed

namespace Entry

theorem perm_erase {ms : Members} {k : Text} {v : Document} (hNodup : (Members.names ms).Nodup)
    (hGet : Members.get? ms k = some v) : ms.Perm (Members.erase k ms ++ [(k, v)]) := by
  induction ms with
  | nil => cases hGet
  | cons m rest ih =>
      obtain ⟨hNew, hRest⟩ := List.nodup_cons.mp hNodup
      obtain ⟨name, value⟩ := m
      by_cases hHere : name = k
      · subst hHere
        have hAbsent : Members.erase name rest = rest := Parsed.erase_of_notMem hNew
        obtain rfl : value = v := by simpa [Members.get?] using hGet
        have hGone : Members.erase name ((name, value) :: rest) = rest := by
          rw [Members.erase, List.filter_cons_of_neg (by simp), ← Members.erase, hAbsent]
        rw [hGone]
        exact (List.perm_append_singleton _ _).symm
      · have hLater : Members.get? rest k = some v := by
          rwa [Members.get?, List.lookup_cons, beq_eq_false_iff_ne.mpr (Ne.symm hHere)] at hGet
        have hKept : Members.erase k ((name, value) :: rest) = (name, value) :: Members.erase k rest := by
          rw [Members.erase, List.filter_cons_of_pos (by simpa using hHere), ← Members.erase]
        rw [hKept]
        exact (ih hRest hLater).cons _

/-- The members of a schema are those that are left without the declaration, and the declaration. -/
theorem perm_declaration {ms : Members} (hNodup : (Members.names ms).Nodup)
    (hSays : (Document.object ms).get? "$schema" = none ∨
      ∃ t, t ≠ [] ∧ (Document.object ms).get? "$schema" = some (.text t)) :
    ms.Perm (Members.erase "$schema" ms ++ Members.ofText "$schema"
      ((((Document.object ms).get? "$schema").bind Document.text?).getD [])) := by
  rcases hSays with hNone | ⟨t, hSome, hGet⟩
  · have hKept : Members.erase "$schema" ms = ms := Parsed.erase_of_notMem fun hMem => by
      obtain ⟨m, hM, hName⟩ := List.mem_map.mp hMem
      exact bne_iff_ne.mp (List.lookup_eq_none_iff.mp hNone m hM) hName.symm
    simp [hNone, hKept, Members.ofText]
  · rw [hGet, Option.bind_some, Document.text?, Option.getD_some, Members.ofText, if_neg (by simpa using hSome)]
    exact perm_erase hNodup hGet

/-- Nothing of a schema is lost in an entry, if what it says of its dialect is a text that is not
empty. -/
theorem eqUpToOrder_document {format : Format} (hDocument : Document.read? bs = .ok (some (d, format)))
    (hRead : Parsed.read true bs = .ok p) (hText : e.normalized = p.normalized)
    (hDeclared : e.declared = p.declared)
    (hSays : d.get? "$schema" = none ∨ ∃ t, t ≠ [] ∧ d.get? "$schema" = some (.text t)) :
    e.document.EqUpToOrder d := by
  obtain ⟨d', format', hRead', hGiven, hStripped, _, _⟩ := Parsed.document_of_read hRead
  obtain rfl : d = d' := (Prod.mk.inj (Option.some.inj (Except.ok.inj (hDocument.symm.trans hRead')))).1
  have hWell := Document.read?_wellFormed hDocument
  have hBare := Parsed.wellFormed_of_read hRead
  rw [if_pos rfl] at hStripped
  cases d with
  | object ms =>
      rw [Parsed.withoutDeclaration] at hStripped
      obtain ⟨arranged, hSorted, _, hEntry⟩ := document_of_object hRead hText hStripped
      have hArranged : WellFormed (.object arranged) := hSorted ▸ Document.wellFormed_sorted hBare
      have hSame : EqUpToOrder (.object arranged) (.object (Members.erase "$schema" ms)) := by
        rw [← hSorted, ← hStripped]
        exact Document.eqUpToOrder_sorted hBare
      have hKept := (Document.eqUpToOrder_object hArranged (hStripped ▸ hBare)).mp hSame
      have hPerm : ((arranged ++ Members.ofText "$schema" (e.declared.getD [])).map fun m => (m.1, m.2.sorted)).Perm
          (ms.map fun m => (m.1, m.2.sorted)) := by
        have hBack := perm_declaration (hWell.nodup .refl) hSays
        rw [hDeclared, hGiven, List.map_append]
        refine (hKept.append_right _).trans ?_
        rw [← List.map_append]
        exact (hBack.map _).symm
      rw [hEntry]
      refine (Document.eqUpToOrder_object (Document.wellFormed_object.mpr ⟨?_, fun m hMem => ?_⟩) hWell).mpr hPerm
      · have hNames := hPerm.map Prod.fst
        rw [List.map_map, List.map_map] at hNames
        exact hNames.nodup_iff.mpr (hWell.nodup .refl)
      · rcases List.mem_append.mp hMem with hMem | hMem
        · exact (Document.wellFormed_object.mp hArranged).2 m hMem
        · unfold Members.ofText at hMem
          split at hMem
          · cases hMem
          · rw [List.mem_singleton.mp hMem]
            exact Document.wellFormed_leaf (by simp) (by simp) trivial
  | _ =>
      rw [document_of_other hRead hText (by rw [hStripped]; rfl), hStripped]
      exact Document.eqUpToOrder_sorted hWell

end Entry

/-- A JSON value reads back from its canonical text up to order, and the canonical texts of two values
are the same exactly if the values are equal up to order. So two files with one name are in conflict
exactly if their schemas differ in more than order, and a schema is found again in its entry. -/
theorem canonical_faithful :
    (∀ v, IsJson v → ∃ t, v.canonical = .ok t ∧ ∃ u, Json.read? t.utf8 = some u ∧ u.EqUpToOrder v) ∧
    (∀ v w, IsJson v → IsJson w → (v.canonical = w.canonical ↔ v.EqUpToOrder w)) ∧
    (∀ bs bs' p p' path path', Parsed.read true bs = .ok p → Parsed.read true bs' = .ok p' → p.id = p'.id →
      p.id ≠ [] →
      ([Index.visitContent true path bs, Index.visitContent true path' bs'].foldlM Index.accept Index.empty =
        .error (.referenceConflict p.id path' path) ↔ ¬ p.document.EqUpToOrder p'.document)) ∧
    ∀ bs d format p (e : Entry), Document.read? bs = .ok (some (d, format)) → Parsed.read true bs = .ok p →
      e.normalized = p.normalized → e.declared = p.declared →
      (d.get? "$schema" = none ∨ ∃ t, t ≠ [] ∧ d.get? "$schema" = some (.text t)) → e.document.EqUpToOrder d := by
  refine ⟨fun v hV => ?_, fun v w hV hW => ?_, ?_, ?_⟩
  · obtain ⟨t, hText⟩ := hV.canonical
    exact ⟨t, hText, v.sorted, Json.read?_canonical hV.wellFormed hText,
      Document.eqUpToOrder_sorted hV.wellFormed⟩
  · obtain ⟨t, hText⟩ := hV.canonical
    obtain ⟨u, hText'⟩ := hW.canonical
    rw [hText, hText', Except.ok.injEq]
    exact Document.canonical_eq_iff hV.wellFormed hW.wellFormed hText hText'
  · exact fun bs bs' p p' path path' hRead hRead' hId hNamed => Parsed.conflict_iff hRead hRead' hId hNamed
  · exact fun bs d format p e hDocument hRead hText hDeclared hSays =>
      Entry.eqUpToOrder_document hDocument hRead hText hDeclared hSays

/-- An object, and the same one with its members the other way round. -/
def oneOrder : Document := .object [("b", .int 1), ("a", .list [.bool true, .text "x"])]

def otherOrder : Document := .object [("a", .list [.bool true, .text "x"]), ("b", .int 1)]

/-- Two schemas that give themselves one name in two ways; one says in which dialect it is. -/
def namedNew : Bytes := Text.utf8 "\x7b\"$id\": \"https://x/a\"\x7d"

def namedOld : Bytes := Text.utf8 "$schema: http://json-schema.org/draft-07/schema#\nid: https://x/a"

theorem canonical_faithful_twoOrders : IsJson oneOrder ∧ IsJson otherOrder ∧ oneOrder.EqUpToOrder otherOrder ∧
    oneOrder.canonical = otherOrder.canonical ∧
    (∃ t, oneOrder.canonical = .ok t ∧ ∃ u, Json.read? t.utf8 = some u ∧ u.EqUpToOrder oneOrder) ∧
    ∃ p p' d format, Parsed.read true namedNew = .ok p ∧ Parsed.read true namedOld = .ok p' ∧
      p.id = p'.id ∧ p.id ≠ [] ∧ ¬ p.document.EqUpToOrder p'.document ∧
      [Index.visitContent true "a" namedNew, Index.visitContent true "b" namedOld].foldlM Index.accept
        Index.empty = .error (.referenceConflict p.id "b" "a") ∧
      Document.read? namedOld = .ok (some (d, format)) ∧ d.get? "$schema" ≠ none ∧
      p'.entry.document.EqUpToOrder d := by
  have hOne : IsJson oneOrder := Document.isJson_of_isSimple (by decide)
  have hOther : IsJson otherOrder := Document.isJson_of_isSimple (by decide)
  have hSame : oneOrder.EqUpToOrder otherOrder :=
    ⟨rfl, ⟨.int 1, by simp, rfl⟩, ⟨_, List.mem_cons_self, rfl, rfl, trivial⟩, trivial⟩
  obtain ⟨hReads, hTexts, hConflict, hEntry⟩ := canonical_faithful
  have hRun : ((Parsed.read true namedNew).toOption.any fun p => (Parsed.read true namedOld).toOption.any fun p' =>
      p.id == p'.id && !p.id.isEmpty && p.normalized != p'.normalized) = true := by decide +kernel
  have hDeclared : ((Document.read? namedOld).toOption.any fun read => read.any fun r =>
      ((r.1.get? "$schema").bind Document.text?).any (!·.isEmpty)) = true := by decide +kernel
  obtain ⟨p, hRead, hRun⟩ := exists_of_any hRun
  obtain ⟨p', hRead', hRun⟩ := exists_of_any hRun
  simp only [Bool.and_eq_true, beq_iff_eq, Bool.not_eq_true', List.isEmpty_eq_false_iff, bne_iff_ne] at hRun
  obtain ⟨⟨hId, hNamed⟩, hDiffer⟩ := hRun
  obtain ⟨read, hDocument, hDeclared⟩ := exists_of_any hDeclared
  obtain ⟨⟨d, format⟩, rfl, hTest⟩ := (Option.any_eq_true ..).mp hDeclared
  obtain ⟨t, hText, hSome⟩ := (Option.any_eq_true ..).mp hTest
  obtain ⟨v, hGet, hSays⟩ := Option.bind_eq_some_iff.mp hText
  cases v <;> cases hSays
  obtain ⟨_, _, _, _, _, hCanonical⟩ := Parsed.read_ok hRead
  obtain ⟨_, _, _, _, _, hCanonical'⟩ := Parsed.read_ok hRead'
  have hApart : ¬ p.document.EqUpToOrder p'.document := fun hEq =>
    hDiffer ((Document.canonical_eq_iff (Parsed.wellFormed_of_read hRead)
      (Parsed.wellFormed_of_read hRead') hCanonical hCanonical').mpr hEq)
  refine ⟨hOne, hOther, hSame, (hTexts _ _ hOne hOther).mpr hSame, hReads _ hOne, p, p', d, format, hRead,
    hRead', hId, hNamed, hApart,
    (hConflict _ _ _ _ "a" "b" hRead hRead' hId hNamed).mpr hApart, hDocument, by simp [hGet], ?_⟩
  exact hEntry _ _ _ _ p'.entry hDocument hRead' rfl rfl (Or.inr ⟨t, by simpa using hSome, hGet⟩)

/-- A whole number of too many digits has no canonical text, so it does not read back from one. -/
theorem no_canonical_longNumber : ¬ ∀ n : Int, ∃ t, (Document.int n).canonical = .ok t := by
  intro h
  obtain ⟨t, hText⟩ := h (10 ^ 4300)
  have hNone : (Document.int (10 ^ 4300)).canonical.isOk = false := by decide +kernel
  rw [hText] at hNone
  cases hNone

end Conform.Schema

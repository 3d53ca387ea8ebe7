import Conform.Proofs.Json.Canonical
import Conform.Proofs.Schema.Parsed
import Conform.Schema.Linked

/-! Schemas that were stored as entries. What is taken out of an entry has the content that was put in,
and declares what it declared before. -/
namespace Conform.Schema

open Document (WellFormed)

variable {p : Parsed} {e : Entry} {bs : Bytes} {d : Document} {ms : Members} {t : Text}

namespace Parsed

/-- What schemas are compared by: the canonical text without the declaration. -/
def content (d : Document) : Except Failure Text := (withoutDeclaration d).canonical

theorem erase_of_notMem {name : Text} (h : name ∉ Members.names ms) : Members.erase name ms = ms := by
  rw [Members.erase, List.filter_eq_self]
  intro m hMem
  exact bne_iff_ne.mpr fun hSame => h (hSame ▸ List.mem_map_of_mem hMem)

/-- A schema that was read without its declaration has none. -/
theorem notMem_of_read (h : read true bs = .ok p) (hDocument : p.document = .object ms) :
    ("$schema" : Text) ∉ Members.names ms := by
  obtain ⟨d, _, _, hStripped, _⟩ := read_ok h
  rw [if_pos rfl, hDocument] at hStripped
  cases d with
  | object given =>
      obtain rfl : ms = Members.erase "$schema" given := Document.object.inj hStripped
      rw [Members.names, List.mem_map]
      rintro ⟨m, hMem, hName⟩
      exact (Members.mem_erase.mp hMem).2 hName
  | _ => cases hStripped

theorem content_of_read (h : read true bs = .ok p) : content p.document = .ok p.normalized := by
  obtain ⟨d, _, _, hStripped, _, hCanonical⟩ := read_ok h
  have hBare : withoutDeclaration p.document = p.document := by
    cases hDocument : p.document with
    | object ms => exact congrArg _ (erase_of_notMem (notMem_of_read h hDocument))
    | _ => rfl
  rw [content, hBare, hCanonical]

end Parsed

namespace Entry

theorem read?_normalized (hRead : Parsed.read true bs = .ok p) (hText : e.normalized = p.normalized) :
    Json.read? e.normalized.utf8 = some p.document.sorted := by
  obtain ⟨_, _, _, _, _, hCanonical⟩ := Parsed.read_ok hRead
  rw [hText]
  exact Json.read?_canonical (Parsed.wellFormed_of_read hRead) hCanonical

/-- The schema in an entry is the one that was read, with its members in order and its declaration put
back at the end. -/
theorem document_of_object (hRead : Parsed.read true bs = .ok p) (hText : e.normalized = p.normalized)
    (hObject : p.document = .object ms) : ∃ arranged, p.document.sorted = .object arranged ∧
      ("$schema" : Text) ∉ Members.names arranged ∧
      e.document = .object (arranged ++ Members.ofText "$schema" (e.declared.getD [])) := by
  have hAbsent := Parsed.notMem_of_read hRead hObject
  have hSorted := congrArg Document.sorted hObject
  rw [Document.sorted_object] at hSorted
  have hNew : ("$schema" : Text) ∉ Members.names
      ((ms.mergeSort fun a b => Text.le a.1 b.1).map fun m => (m.1, m.2.sorted)) := by
    rw [Members.names, List.map_map]
    intro hMem
    obtain ⟨m, hM, hName⟩ := List.mem_map.mp hMem
    exact hAbsent (List.mem_map.mpr ⟨m, List.mem_mergeSort.mp hM, hName⟩)
  refine ⟨_, hSorted, hNew, ?_⟩
  rw [document, read?_normalized hRead hText, hSorted, Option.getD_some]
  have hHas : Members.has ((ms.mergeSort fun a b => Text.le a.1 b.1).map fun m => (m.1, m.2.sorted)) "$schema"
      = false := by
    rw [← Bool.not_eq_true, Members.has_iff]
    exact hNew
  cases e.declared with
  | none => exact congrArg Document.object (List.append_nil _).symm
  | some t =>
      dsimp only
      rw [hHas, Bool.or_false, Option.getD_some, Members.ofText]
      split
      · rw [List.append_nil]
      · rw [Members.set_of_notMem hNew]

theorem document_of_other (hRead : Parsed.read true bs = .ok p) (hText : e.normalized = p.normalized)
    (hOther : p.document.isObject = false) : e.document = p.document.sorted := by
  rw [document, read?_normalized hRead hText, Option.getD_some]
  cases hDocument : p.document with
  | object ms =>
      rw [hDocument] at hOther
      cases hOther
  | _ => rfl

/-- What is taken out of an entry has the content that was put in. -/
theorem content_document (hRead : Parsed.read true bs = .ok p) (hText : e.normalized = p.normalized) :
    Parsed.content e.document = .ok e.normalized := by
  obtain ⟨_, _, _, _, _, hCanonical⟩ := Parsed.read_ok hRead
  have hBare : Parsed.withoutDeclaration e.document = p.document.sorted := by
    cases hDocument : p.document with
    | object ms =>
        obtain ⟨arranged, hSorted, hNew, hEntry⟩ := document_of_object hRead hText hDocument
        have hLast : Members.erase "$schema" (Members.ofText "$schema" (e.declared.getD [])) = [] := by
          rw [Members.ofText]
          split
          · rfl
          · simp [Members.erase]
        rw [← hDocument, hSorted, hEntry, Parsed.withoutDeclaration, Members.erase, List.filter_append,
          ← Members.erase, ← Members.erase, hLast, Parsed.erase_of_notMem hNew, List.append_nil]
    | _ => 
        rw [document_of_other hRead hText (by rw [hDocument]; rfl), hDocument]
        rfl
  rw [Parsed.content, hBare, Document.canonical_sorted, hCanonical, hText]

/-- What is taken out of an entry declares what the schema declared. -/
theorem get?_document (hRead : Parsed.read true bs = .ok p) (hText : e.normalized = p.normalized)
    (hDeclared : e.declared = p.declared) (hSays : p.declared = some t) (hSome : t ≠ []) :
    e.document.get? "$schema" = some (.text t) := by
  obtain ⟨d, _, hGiven, hStripped, _⟩ := Parsed.read_ok hRead
  obtain ⟨given, rfl, _⟩ := Document.says_of_get? (hGiven.symm.trans hSays)
  obtain ⟨arranged, _, hNew, hEntry⟩ := document_of_object hRead hText hStripped
  rw [hEntry, hDeclared, hSays, Option.getD_some, Members.ofText, if_neg (by simpa using hSome)]
  have hNone : Members.get? arranged "$schema" = none := by
    rw [Members.get?, List.lookup_eq_none_iff]
    intro m hMem
    exact bne_iff_ne.mpr fun hSame => hNew (hSame ▸ List.mem_map_of_mem hMem)
  rw [Document.get?, Members.get?, List.lookup_append, ← Members.get?, hNone, Option.none_or,
    List.lookup_cons_self]

/-- Whether an entry was made of a schema that was read without its declaration. -/
def IsRead (e : Entry) : Prop := ∃ bs p, Parsed.read true bs = .ok p ∧ e.id = p.id ∧
  e.normalized = p.normalized ∧ e.declared = p.declared

theorem isRead_entry (hRead : Parsed.read true bs = .ok p) : p.entry.IsRead :=
  ⟨bs, p, hRead, rfl, rfl, rfl⟩

theorem isRead_of_visitContent {path : Text} (h : Index.visitContent true path bs = .found e) : e.IsRead := by
  unfold Index.visitContent at h
  split at h
  · next p hRead =>
      split at h
      · cases h
      · obtain rfl := Visit.found.inj h
        exact ⟨bs, p, hRead, rfl, rfl, rfl⟩
  · cases h
  · cases h

theorem isRead_of_mem_visits {fs : Files} {dirs : List Text} (h : .found e ∈ Index.visits fs dirs true) :
    e.IsRead := by
  obtain ⟨raw, _, hMem⟩ := List.mem_flatMap.mp h
  unfold Index.visitDirectory at hMem
  split at hMem
  · obtain ⟨path, _, hVisit⟩ := List.mem_map.mp hMem
    unfold Index.visitFile at hVisit
    split at hVisit
    · exact isRead_of_visitContent hVisit
    · cases hVisit
    · cases hVisit
  · cases List.mem_singleton.mp hMem

end Entry
end Conform.Schema

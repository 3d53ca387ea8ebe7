import Conform.Proofs.Document.Reading
import Conform.Proofs.Except
import Conform.Schema.Parsed
import Conform.Schema.Resource
import Mathlib.Data.List.TakeWhile

/-! What a schema is once it was read, and what dialect it declares. Whoever reads a declaration by the exact name of a
dialect reads the dialect that whoever looks for its marker finds. -/
namespace Conform

namespace Text

variable {part t a b : Text} {p : Point → Bool}

theorem isPrefixOf_append_eq (hFree : ∀ q ∈ b, q ∉ part) :
    part.isPrefixOf (a ++ b) = part.isPrefixOf a := by
  induction part generalizing a with
  | nil => simp
  | cons q rest ih =>
      cases a with
      | nil =>
          cases b with
          | nil => rfl
          | cons first others =>
              have hNe : q ≠ first := fun hSame => hFree first List.mem_cons_self (by simp [hSame])
              simp [List.isPrefixOf, hNe]
      | cons y a =>
          have hRest := ih (a := a) fun q hQ hIn => hFree q hQ (List.mem_cons_of_mem _ hIn)
          simp [List.isPrefixOf, hRest]

/-- What is added at the end does not matter for a part that has nothing of it. -/
theorem contains_append_eq (hFree : ∀ q ∈ b, q ∉ part) : contains part (a ++ b) = contains part a := by
  induction a with
  | nil =>
      induction b with
      | nil => rfl
      | cons q rest ih =>
          have hHead : part.isPrefixOf (q :: rest) = part.isPrefixOf [] := isPrefixOf_append_eq (a := []) hFree
          have hRest := ih fun q hQ => hFree q (List.mem_cons_of_mem _ hQ)
          simp only [List.nil_append, contains] at hRest ⊢
          rw [hHead, hRest]
          cases part <;> rfl
  | cons x a ih =>
      simp only [List.cons_append, contains]
      rw [ih, ← List.cons_append, isPrefixOf_append_eq hFree]

theorem contains_dropEndWhile (hFree : ∀ q ∈ part, p q = false) :
    contains part (dropEndWhile p t) = contains part t := by
  have hSplit : t = dropEndWhile p t ++ (t.reverse.takeWhile p).reverse := by
    rw [dropEndWhile, ← List.reverse_append, List.takeWhile_append_dropWhile, List.reverse_reverse]
  have hSame : contains part (dropEndWhile p t ++ (t.reverse.takeWhile p).reverse) =
      contains part (dropEndWhile p t) := by
    refine contains_append_eq fun q hQ hIn => ?_
    have hTaken := List.mem_takeWhile_imp (List.mem_reverse.mp hQ)
    rw [hFree q hIn] at hTaken
    cases hTaken
  rw [← hSame, ← hSplit]

end Text

namespace Schema

variable {d : Dialect} {t : Text}

namespace Dialect

theorem marker_free (d : Dialect) : ∀ q ∈ d.marker, (q.char == '#') = false := by
  have hNone : d.marker.any (·.char == '#') = false := by cases d <;> decide +kernel
  simpa using hNone

/-- The names of the dialects have their own markers only. -/
theorem contains_marker_uri (d e : Dialect) : Text.contains d.marker e.uri = decide (d = e) := by
  cases d <;> cases e <;> decide +kernel

theorem ofDeclaration_uri (d : Dialect) : ofDeclaration (some d.uri) = d := by
  cases d <;> simp [ofDeclaration, all, contains_marker_uri]

/-- A text that is the name of a dialect, empty fragments apart, also has the dialect's marker. -/
theorem ofDeclaration_of_ofUri? (h : ofUri? t = some d) : ofDeclaration (some t) = d := by
  have hUri : d.uri = Text.dropEndWhile (·.char == '#') t := by
    simpa using List.find?_some h
  have hMarkers : ∀ d : Dialect, Text.contains d.marker t = Text.contains d.marker (Text.dropEndWhile (·.char == '#') t) :=
    fun d => (Text.contains_dropEndWhile d.marker_free).symm
  have hSame : ofDeclaration (some t) = ofDeclaration (some d.uri) := by
    simp only [ofDeclaration, hMarkers, hUri]
  rw [hSame, ofDeclaration_uri]

/-- The ways in which a declaration names a dialect in the standard way. -/
def names (d : Dialect) : List Text := [d.uri, d.uri ++ "#"]

theorem ofDeclaration_of_mem_names (h : t ∈ d.names) : ofDeclaration (some t) = d := by
  have hUri : ∀ d : Dialect, ∀ t ∈ d.names, ofDeclaration (some t) = d := by
    intro d
    cases d <;> decide +kernel
  exact hUri d t h

theorem clean_of_mem_names (h : t ∈ d.names) : t.hasSurrogate = false := by
  have hClean : d.names.all (!·.hasSurrogate) = true := by cases d <;> decide +kernel
  simpa using List.all_eq_true.mp hClean t h

end Dialect

end Schema
end Conform

/-! ### Schemas that were read -/

namespace Conform.Schema.Parsed

open Document (Inside WellFormed)

variable {p : Parsed} {strip : Bool} {bs : Bytes} {d : Document}

theorem wellFormed_withoutDeclaration (h : WellFormed d) : WellFormed (withoutDeclaration d) := by
  cases d with
  | object ms =>
      obtain ⟨hNodup, hValues⟩ := Document.wellFormed_object.mp h
      exact Document.wellFormed_object.mpr
        ⟨Members.nodup_erase hNodup, fun m hMem => hValues m (Members.mem_erase.mp hMem).1⟩
  | _ => exact h

theorem get?_withoutDeclaration (d : Document) : (withoutDeclaration d).get? "$schema" = none := by
  cases d with
  | object ms => exact Members.get?_erase_self ms _
  | _ => rfl

/-- Where a schema that was read comes from. -/
theorem document_of_read (h : read strip bs = .ok p) :
    ∃ d format, Document.read? bs = .ok (some (d, format)) ∧
      p.declared = (d.get? "$schema").bind Document.text? ∧
      p.document = (if strip then withoutDeclaration d else d) ∧ p.id = idOf p.document ∧
      p.document.canonical = .ok p.normalized := by
  obtain ⟨found, hRead, h⟩ := exists_of_bind_ok h
  cases found with
  | none => cases h
  | some pair =>
      obtain ⟨d, format⟩ := pair
      obtain ⟨normalized, hCanonical, h⟩ := exists_of_bind_ok h
      obtain rfl := Except.ok.inj h
      exact ⟨d, format, hRead, rfl, rfl, rfl, hCanonical⟩

theorem read_ok (h : read strip bs = .ok p) : ∃ d, WellFormed d ∧
    p.declared = (d.get? "$schema").bind Document.text? ∧
    p.document = (if strip then withoutDeclaration d else d) ∧ p.id = idOf p.document ∧
    p.document.canonical = .ok p.normalized := by
  obtain ⟨d, format, hRead, hRest⟩ := document_of_read h
  exact ⟨d, Document.read?_wellFormed hRead, hRest⟩

theorem wellFormed_of_read (h : read strip bs = .ok p) : WellFormed p.document := by
  obtain ⟨d, hWell, _, hDocument, _⟩ := read_ok h
  rw [hDocument]
  cases strip
  · exact hWell
  · exact wellFormed_withoutDeclaration hWell

/-- A schema is the same resource whether its dialect is looked up by its declaration's marker or by
the exact name in it. -/
theorem ofDocument_eq (h : read strip bs = .ok p) :
    Resource.ofDocument (.ofDeclaration p.declared) p.document =
      ⟨.ofDeclaration p.declared, p.document⟩ := by
  obtain ⟨d, _, hDeclared, hDocument, _⟩ := read_ok h
  rw [Resource.ofDocument, Resource.mk.injEq]
  refine ⟨?_, rfl⟩
  cases strip with
  | true =>
      rw [hDocument, if_pos rfl, get?_withoutDeclaration]
      rfl
  | false =>
      rw [hDocument, if_neg (by decide), ← hDeclared]
      cases hText : p.declared with
      | none => rfl
      | some t =>
          cases hUri : Dialect.ofUri? t with
          | none => simp [hUri]
          | some dialect => simp [hUri, Dialect.ofDeclaration_of_ofUri? hUri]

end Conform.Schema.Parsed

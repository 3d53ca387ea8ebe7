import Conform.Proofs.Schema.Entry
import Conform.Proofs.Schema.Library
import Conform.Proofs.Schema.Reach

/-! In which dialect a schema is read that a reference leads to. A whole document from elsewhere declares
its dialect and is read in it, but the schema that was compiled has lost its declaration, so when a
reference comes back to it, it is read in the dialect of whatever refers to it. -/
namespace Conform.Schema

variable {p : Parsed} {es : List Entry} {s : Compiled} {bs : Bytes} {c : Context} {t : Target} {e : Entry}
  {d : Dialect} {sub x : Document} {ms : Members}

namespace Dialect

theorem inner_of_undeclared (h : sub.get? "$schema" = none) : d.inner sub = d := by
  rw [inner, h]
  rfl

/-- What other dialect than the present one a schema may have to be read in. -/
theorem inner_cases (d : Dialect) (sub : Document) :
    d.inner sub = d ∨ ((sub.get? "$schema").bind Document.text?).bind ofName? = some (d.inner sub) := by
  unfold inner
  cases ((sub.get? "$schema").bind Document.text?).bind ofName? with
  | none => exact Or.inl rfl
  | some d' => exact Or.inr rfl

/-- Two dialects list the same keywords of a schema if they agree on what a reference does to its
siblings, or if there is none. -/
theorem keywords_eq {d' : Dialect} (h : d.refAlone = d'.refAlone ∨ Members.get? ms "$ref" = none) :
    d.keywords ms = d'.keywords ms := by
  unfold keywords
  rcases h with hSame | hNone
  · rw [hSame]
  · simp [hNone]

end Dialect

/-- As long as no other dialect is declared on the way, everything is read in the dialect of the root. -/
theorem Reaches.dialect_eq {start : Context} {root : Document} (h : Reaches start root c sub)
    (hOwn : ∀ c' sub', Reaches start root c' sub' → ∀ d,
      ((sub'.get? "$schema").bind Document.text?).bind Dialect.ofName? = some d → d = start.dialect) :
    c.dialect = start.dialect := by
  have hInner : ∀ {c' : Context} {inner : Document} {c'' : Context}, Reaches start root c'' inner →
      c'.dialect = start.dialect → c'.dialect.inner inner = start.dialect := by
    intro c' inner c'' hReach hHere
    rcases Dialect.inner_cases c'.dialect inner with hSame | hOther
    · exact hSame.trans hHere
    · exact hOwn _ _ hReach _ hOther
  induction h with
  | root => rfl
  | entered hReach hApplies hEnter ih => exact hInner (.entered hReach hApplies hEnter) ih
  | inspected hReach hApplies ih => exact hInner (.inspected hReach hApplies) ih
  | surveyed _ _ ih => exact ih
  | referred hReach hKey hMem hLookup ih => exact hInner (.referred hReach hKey hMem hLookup) ih
  | recurred hReach hHas hLookup ih => exact hInner (.recurred hReach hHas hLookup) ih

namespace Entry

/-- The dialect that a document in an index declares by its name. -/
def dialect? (e : Entry) : Option Dialect := e.declared.bind Dialect.ofName?

theorem inner_document (hRead : e.IsRead) (hDialect : e.dialect? = some d) (d' : Dialect) :
    d'.inner e.document = d := by
  obtain ⟨bs, p, hParsed, _, hText, hDeclared⟩ := hRead
  obtain ⟨t, hSays, hName⟩ := Option.bind_eq_some_iff.mp hDialect
  have hSome : t ≠ [] := by
    rintro rfl
    cases hName
  have hGet := get?_document hParsed hText hDeclared (hDeclared ▸ hSays) hSome
  rw [Dialect.inner, hGet, Option.bind_some, Document.text?, Option.bind_some, hName, Option.getD_some]

end Entry

/-- The check of a value against a schema at the given level. -/
def checkFrom (n : Nat) (c : Context) (schema x : Document) : Findings :=
  checkSchema schema x fun ms => checkKeywords (Evaluator.ofLevels n) c.dialect c ms x

/-- Behind a reference there is a check in the dialect that the schema there is read in. What stands
beside a reference counts as it does in the dialect of the schema that refers to it. -/
theorem follow_eq_checkFrom (n : Nat) (c : Context) (t : Target) (x : Document)
    (hListing : c.dialect.refAlone = (c.at_ t).dialect.refAlone ∨ t.document.get? "$ref" = none) :
    (Evaluator.ofLevels (n + 1)).follow c t x = checkFrom n (c.at_ t) t.document x := by
  have hKeywords : ∀ ms, t.document = .object ms → c.dialect.keywords ms = (c.at_ t).dialect.keywords ms := by
    intro ms hObject
    rw [hObject] at hListing
    exact Dialect.keywords_eq hListing
  simp only [Evaluator.ofLevels, Evaluator.above, checkFrom]
  unfold checkSchema
  split
  · rfl
  · rfl
  · next ms hObject =>
      exact congrArg _ (hKeywords ms hObject)
  · rfl

namespace Compiled

variable {k ref : Text}

theorem get?_document_of_read (hRead : Parsed.read true bs = .ok p) : p.document.get? "$schema" = none := by
  obtain ⟨d, _, _, hStripped, _⟩ := Parsed.read_ok hRead
  rw [hStripped, if_pos rfl]
  exact Parsed.get?_withoutDeclaration d

/-- Wherever a validation follows a reference to a whole document from an index, it checks against that
document in the dialect that the document declares, unless what stands beside a reference in it counts
in one of the two dialects only. If the reference leads back to the schema itself, the check goes on in
the dialect of the schema that refers to it, which is its own as long as no other one was declared on
the way. -/
theorem follow_document (hRead : Parsed.read true bs = .ok p) (hOf : ofEntries p es = .ok s)
    (hEs : ∀ e ∈ es, e.IsRead) (hReach : Reaches s.context s.document c (.object ms))
    (hKey : k ∈ referenceKeywords) (hMem : (k, .text ref) ∈ ms) (hLookup : c.resolver.lookup ref = .ok (.ok t)) :
    (∀ e ∈ es, t.document = e.document → ∀ d, e.dialect? = some d →
      Reaches s.context s.document ⟨d, t.resolver, c.formats⟩ e.document ∧
      (c.dialect.refAlone = d.refAlone ∨ e.document.get? "$ref" = none → ∀ n x,
        (Evaluator.ofLevels (n + 1)).follow c t x = checkFrom n ⟨d, t.resolver, c.formats⟩ e.document x)) ∧
    (t.document = s.document → ∀ n x, (Evaluator.ofLevels (n + 1)).follow c t x =
      checkFrom n ⟨c.dialect, t.resolver, c.formats⟩ s.document x) ∧
    ((∀ c' sub, Reaches s.context s.document c' sub → ∀ d,
        ((sub.get? "$schema").bind Document.text?).bind Dialect.ofName? = some d → d = s.context.dialect) →
      c.dialect = .ofDeclaration p.declared) := by
  obtain ⟨hDocument, hDialect, _⟩ := ofParsed_ok hOf
  refine ⟨fun e hE hWhole d hDeclared => ?_, fun hBack n x => ?_, fun hOwn => ?_⟩
  · have hAt : c.at_ t = ⟨d, t.resolver, c.formats⟩ := by
      rw [Context.at_, Context.of, hWhole, Entry.inner_document (hEs e hE) hDeclared]
    refine ⟨?_, fun hListing n x => ?_⟩
    · rw [← hAt, ← hWhole]
      exact .referred hReach hKey hMem hLookup
    · rw [follow_eq_checkFrom n c t x (by rw [hAt, hWhole]; exact hListing), hAt, hWhole]
  · have hAt : c.at_ t = ⟨c.dialect, t.resolver, c.formats⟩ := by
      rw [Context.at_, Context.of, hBack, hDocument, Dialect.inner_of_undeclared (get?_document_of_read hRead)]
    rw [follow_eq_checkFrom n c t x (by rw [hAt]; exact Or.inl rfl), hAt, hBack]
  · exact (hReach.dialect_eq hOwn).trans hDialect

/-- Whether a schema is a reference to the given name and nothing else. -/
def isReferenceTo (ref : Text) : Document → Bool
  | .object [(k, .text t)] => k == ("$ref" : Text) && t == ref
  | _ => false

theorem eq_of_isReferenceTo (h : isReferenceTo ref x = true) : x = .object [("$ref", .text ref)] := by
  unfold isReferenceTo at h
  split at h
  · obtain ⟨hKey, hRef⟩ := Bool.and_eq_true_iff.mp h
    rw [eq_of_beq hKey, eq_of_beq hRef]
  · cases h

/-- A document in a new dialect, and a schema in an old one that refers to it. -/
def newDocument : Bytes :=
  Text.utf8 "$schema: https://json-schema.org/draft/2020-12/schema\n$id: b"

def oldSchema : Bytes := Text.utf8 "$schema: http://json-schema.org/draft-07/schema#\n$ref: b"

theorem follow_document_newDocument : ∃ p q s t ms, Parsed.read true oldSchema = .ok p ∧
    Parsed.read true newDocument = .ok q ∧ ofEntries p [q.entry] = .ok s ∧ s.document = .object ms ∧
    s.context.dialect = .draft7 ∧ q.entry.dialect? = some .draft2020 ∧
    s.context.resolver.lookup "b" = .ok (.ok t) ∧ t.document = q.entry.document ∧
    ∀ n x, (Evaluator.ofLevels (n + 1)).follow s.context t x =
      checkFrom n ⟨.draft2020, t.resolver, s.context.formats⟩ q.entry.document x := by
  have hRun : ((Parsed.read true oldSchema).toOption.any fun p => (Parsed.read true newDocument).toOption.any fun q =>
      p.id.isEmpty && q.id == ("b" : Text) &&
      Dialect.ofDeclaration p.declared == .draft7 && q.entry.dialect? == some .draft2020 &&
      isReferenceTo "b" p.document && (q.entry.document.get? "$ref").isNone &&
      (checkConforms .draft7 p.document).isOk) = true := by decide +kernel
  obtain ⟨p, hRead, hRun⟩ := exists_of_any hRun
  obtain ⟨q, hRead', hRun⟩ := exists_of_any hRun
  simp only [Bool.and_eq_true, beq_iff_eq, List.isEmpty_iff, Option.isNone_iff_eq_none] at hRun
  obtain ⟨⟨⟨⟨⟨⟨hUnnamed, hName⟩, hOld⟩, hNew⟩, hSchema⟩, hNone⟩, hConforms⟩ := hRun
  have hDocument := eq_of_isReferenceTo hSchema
  obtain ⟨_, hOk⟩ := exists_of_isOk hConforms
  have hOthers : documents ([q.entry].filter (·.id != p.id)) = [(("b" : Text), q.entry.document)] := by
    have hKept : [q.entry].filter (·.id != p.id) = [q.entry] := by
      refine List.filter_cons_of_pos ?_
      rw [hUnnamed, Parsed.entry, hName]
      rfl
    rw [hKept, documents, List.map_singleton, Parsed.entry, hName]
  have hLibrary : library p [(("b" : Text), q.entry.document)] = .ok [("b", q.entry.document)] := by
    unfold library
    rw [hUnnamed]
    rfl
  let r := Resolver.ofRoot (.ofLibrary .draft7 [("b", q.entry.document)]) ⟨.draft7, p.document⟩
  have hNameless : (⟨.draft7, p.document⟩ : Resource).id? = none := by
    rw [hDocument]
    rfl
  have hBase : r.base = [] := by
    simp only [r, Resolver.ofRoot, hNameless, Option.getD_none]
  have hHeld : r.store.entered.resource? "b" = some (.ofDocument .draft7 q.entry.document) := by
    refine (Store.resource?_entered Meta.shelf .draft7 _ _ _ "b").trans ?_
    have hOther : Meta.shelf.resource? "b" = none :=
      Option.eq_none_iff_forall_ne_some.mpr fun there hFound => by
        have hAbsolute := Meta.isAbsolute_of_mem (Meta.resource?_shelf.mp hFound)
        cases hAbsolute
    rw [hNameless, hOther]
    rfl
  have hLookup : r.lookup "b" = .ok (.ok ⟨q.entry.document, r.move "b"⟩) := by
    refine Resolver.lookup_of_entered ?_ rfl hHeld
    unfold Resolver.parts
    rw [hBase]
    rfl
  have hChecked : checkReferences r p.document = .ok () := by
    rw [hDocument]
    simp [checkReferences, references, memberReferences, Members.get?, Document.text?, hLookup,
      dataKeywords, bind, Except.bind, pure, Except.pure]
  have hOf : ofEntries p [q.entry] = .ok ⟨p.id, p.document, ⟨.draft7, r, false⟩⟩ := by
    simp only [ofEntries, hOthers, ofParsed, hOld, hOk, hLibrary, bind, Except.bind]
    rw [hChecked]
    rfl
  have hEs : ∀ e ∈ [q.entry], e.IsRead := fun e hE =>
    List.mem_singleton.mp hE ▸ Entry.isRead_entry hRead'
  have hReach : Reaches ⟨.draft7, r, false⟩ p.document ⟨.draft7, r, false⟩
      (.object [(("$ref" : Text), .text "b")]) := by
    rw [← hDocument]
    exact .root
  obtain ⟨hOther, _⟩ := follow_document hRead hOf hEs hReach
    (show ("$ref" : Text) ∈ referenceKeywords by simp [referenceKeywords])
    List.mem_cons_self hLookup
  exact ⟨p, q, _, _, _, hRead, hRead', hOf, hDocument, rfl, hNew, hLookup, rfl,
    (hOther q.entry List.mem_cons_self rfl _ hNew).2 (Or.inr hNone)⟩

end Compiled
end Conform.Schema

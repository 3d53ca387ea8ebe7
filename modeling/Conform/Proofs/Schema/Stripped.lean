import Conform.Proofs.Schema.Conformance
import Conform.Proofs.Schema.Keeping

/-! A schema that is compiled without the declaration of its dialect. It compiles if and only if it
compiles with it, and as long as a check keeps to that dialect it finds the same. -/
namespace Conform.Schema

variable {d : Dialect} {root : Document} {ms : Members}

namespace Compiled

variable {u : Text} {format : Format} {bs : Bytes}

theorem memberReferences_filter {keep : Text × Document → Bool}
    (h : ∀ m ∈ ms, keep m = false → references false m.2 = []) :
    memberReferences (ms.filter keep) = memberReferences ms := by
  induction ms with
  | nil => rfl
  | cons m rest ih =>
      have hRest := ih fun m hMem => h m (List.mem_cons_of_mem _ hMem)
      by_cases hKeep : keep m = true
      · rw [List.filter_cons_of_pos hKeep, memberReferences, memberReferences, hRest]
      · rw [List.filter_cons_of_neg hKeep, memberReferences, hRest,
          h m List.mem_cons_self (by simpa using hKeep), ite_self, List.nil_append]

/-- What a schema declares is no reference. -/
theorem references_erase (hOnly : ∀ v, (("$schema" : Text), v) ∈ ms → v = .text u) :
    references true (.object (Members.erase "$schema" ms)) = references true (.object ms) := by
  have hMembers : memberReferences (Members.erase "$schema" ms) = memberReferences ms := by
    refine memberReferences_filter fun m hMem hErased => ?_
    obtain ⟨k, v⟩ := m
    obtain rfl : k = "$schema" := by simpa using hErased
    rw [hOnly v hMem]
    rfl
  simp only [references, hMembers, Members.get?_erase_ne (show ("$ref" : Text) ≠ "$schema" by decide)]
  rfl

end Compiled

namespace Parsed

variable {p p' : Parsed} {u : Text} {format : Format} {bs : Bytes}

/-- Whether two readings of a schema differ only in that one has lost the declaration. -/
structure Stripped (d : Dialect) (root : Document) (p p' : Parsed) : Prop where
  document : p.document = root
  stripped : p'.document = withoutDeclaration root
  id : p'.id = p.id
  declared : p'.declared = p.declared
  dialect : Dialect.ofDeclaration p.declared = d

theorem idOf_erase (ms : Members) : idOf (.object (Members.erase "$schema" ms)) = idOf (.object ms) := by
  unfold idOf
  dsimp only
  rw [List.filterMap_cons, List.filterMap_cons, List.filterMap_cons, List.filterMap_cons]
  simp (disch := decide) only [Document.get?, Members.get?_erase_ne]
  rfl

/-- A schema can be read with its declaration if and only if it can be read without. -/
theorem read_stripped (hDocument : Document.read? bs = .ok (some (.object ms, format)))
    (hSays : Members.get? ms "$schema" = some (.text u)) (hStandard : u ∈ d.names) :
    Agree (fun _ _ => True) (Stripped d (.object ms)) (read false bs) (read true bs) := by
  have hNodup : (Members.names ms).Nodup := (Document.read?_wellFormed hDocument).nodup .refl
  have hCanonical : (∃ t, (Document.object ms).canonical = .ok t) ↔
      ∃ t, (Document.object (Members.erase "$schema" ms)).canonical = .ok t := by
    rw [Document.canonical_object, Document.canonical_object]
    refine ⟨fun h m hMem => h m (Members.mem_erase.mp hMem).1, fun h m hMem => ?_⟩
    obtain ⟨k, v⟩ := m
    by_cases hHere : k = "$schema"
    · subst hHere
      obtain rfl : v = .text u := Option.some.inj ((Members.get?_of_mem hNodup hMem).symm.trans hSays)
      exact ⟨rfl, Json.clean_printMember (by decide +kernel) (Dialect.clean_of_mem_names hStandard) 1⟩
    · exact h _ (Members.mem_erase.mpr ⟨hMem, hHere⟩)
  have hDeclared : Dialect.ofDeclaration (((Document.object ms).get? "$schema").bind Document.text?) = d := by
    rw [Document.get?, hSays]
    exact Dialect.ofDeclaration_of_mem_names hStandard
  unfold read
  rw [hDocument]
  show Agree _ _ (ofDocument false (.object ms)) (ofDocument true (.object ms))
  unfold ofDocument
  cases hText : (Document.object ms).canonical with
  | ok t =>
      obtain ⟨t', hText'⟩ := hCanonical.mp ⟨t, hText⟩
      simp only [Bool.false_eq_true, if_false, if_true, withoutDeclaration, hText, hText']
      exact ⟨rfl, rfl, idOf_erase ms, rfl, hDeclared⟩
  | error why =>
      cases hText' : (Document.object (Members.erase "$schema" ms)).canonical with
      | ok t' =>
          obtain ⟨t, hOk⟩ := hCanonical.mpr ⟨t', hText'⟩
          rw [hText] at hOk
          cases hOk
      | error why' =>
          simp only [Bool.false_eq_true, if_false, if_true, withoutDeclaration, hText, hText']
          exact trivial

end Parsed

namespace Compiled

variable {p p' : Parsed} {s s' : Compiled} {whole : Document} {u : Text} {format : Format} {bs : Bytes}

theorem library_stripped (h : Parsed.Stripped d root p p') : Agree (fun _ _ => True) (fun docs docs' => ∃ names : List Text,
    docs = names.map (·, p.document) ∧ docs' = names.map (·, p'.document)) (library p []) (library p' []) := by
  unfold library
  rw [h.id]
  by_cases hNamed : p.id.isEmpty = true
  · simp only [hNamed, if_true]
    exact .pure ⟨[], rfl, rfl⟩
  · simp only [hNamed, Bool.false_eq_true, if_false, Members.set]
    rw [List.mapM_cons, List.mapM_cons, List.mapM_nil]
    dsimp only
    cases hName : Uri.defragment? p.id with
    | none => exact .error trivial
    | some parts => exact .pure ⟨[_], rfl, rfl⟩

theorem lookup_alike_names {r r' : Resource} (h : r.Alike root r') (names : List Text) (u : Text) :
    Option.Rel (Resource.Alike root) ((names.map fun n => (n, r)).lookup u) ((names.map fun n => (n, r')).lookup u) := by
  induction names with
  | nil => exact .none
  | cons n rest ih =>
      rw [List.map_cons, List.map_cons, List.lookup_cons, List.lookup_cons]
      by_cases hHere : (u == n) = true
      · rw [hHere]
        exact .some h
      · rw [Bool.not_eq_true] at hHere
        rw [hHere]
        exact ih

/-- The stores that are made of a schema and of the same one without its declaration are alike. -/
theorem resolver_alike_stripped {r r' : Resource} (h : r.Alike root r') (names : List Text)
    (hSame : .ofDocument d r.document = r) (hSame' : .ofDocument d r'.document = r') :
    (Resolver.ofRoot (.ofLibrary d (names.map (·, r.document))) r).Alike root
      (Resolver.ofRoot (.ofLibrary d (names.map (·, r'.document))) r') := by
  have hEntries : ∀ r : Resource, .ofDocument d r.document = r →
      ((names.map (·, r.document)).map fun e => (e.1, Resource.ofDocument d e.2)).reverse =
        names.reverse.map fun n => (n, r) := by
    intro r hSame
    rw [List.map_map, ← List.map_reverse]
    exact List.map_congr_left fun n _ => congrArg _ hSame
  unfold Resolver.ofRoot
  rw [h.id?_eq]
  refine ⟨Store.ofShelf_alike ⟨fun u => ?_, fun u n => ?_⟩ ?_, rfl, rfl, rfl⟩
  · have hEntered := Store.resource?_entered Meta.shelf d (names.map (·, r.document)) r (r.id?.getD []) u
    have hEntered' := Store.resource?_entered Meta.shelf d (names.map (·, r'.document)) r' (r.id?.getD []) u
    rw [hEntries r hSame] at hEntered
    rw [hEntries r' hSame'] at hEntered'
    refine (Eq.to_iff (congrArg₂ _ hEntered hEntered')).mpr ?_
    split
    · exact .some h
    · cases Meta.shelf.resource? u with
      | none =>
          rw [Option.none_or, Option.none_or]
          exact lookup_alike_names h _ u
      | some there => exact .some (.refl there)
  · have hEntered := Store.anchor?_entered Meta.shelf d (names.map (·, r.document)) r (r.id?.getD []) u n
    have hEntered' := Store.anchor?_entered Meta.shelf d (names.map (·, r'.document)) r' (r.id?.getD []) u n
    exact rel_of_eq .refl (hEntered.trans hEntered'.symm)
  · refine congrArg Text.sorted ?_
    show ((names.map (·, r.document)).map (·.1)).filter _ ++ _ = ((names.map (·, r'.document)).map (·.1)).filter _ ++ _
    rw [List.map_map, List.map_map]
    rfl

/-- Whether no reference that is collected from a schema leads to its declaration. -/
def CollectsApart (p : Parsed) : Prop :=
  ∀ docs, library p [] = .ok docs → ∀ ref ∈ references true p.document,
    ¬ (Resolver.ofRoot (.ofLibrary (.ofDeclaration p.declared) docs)
      ⟨.ofDeclaration p.declared, p.document⟩).PointsAtDeclaration p.document ref

theorem checkReferences_alike {r r' : Resolver} {doc doc' : Document} (h : r.Alike root r')
    (hSame : references true doc' = references true doc)
    (hApart : ∀ ref ∈ references true doc, ¬ r.PointsAtDeclaration root ref) :
    Agree (fun _ _ => True) Eq (checkReferences r doc) (checkReferences r' doc') := by
  unfold checkReferences
  rw [hSame]
  refine .forM fun ref hMem => ?_
  refine (Resolver.lookup_alike (fun _ _ => trivial) h ref (hApart ref hMem)).bind fun outcome outcome' hOutcome => ?_
  cases outcome <;> cases outcome'
  · exact .error trivial
  · exact hOutcome.elim
  · exact hOutcome.elim
  · exact .pure rfl

/-- Whether two compiled schemas differ only in that one has lost the declaration. -/
structure Stripped (d : Dialect) (root : Document) (s s' : Compiled) : Prop where
  document : s.document = root
  stripped : s'.document = Parsed.withoutDeclaration root
  dialect : s.context.dialect = d
  context : s.context.Alike root s'.context

theorem ofParsed_stripped (hDialect : d = .draft7 ∨ d = .draft2020) (h : Parsed.Stripped d (.object ms) p p')
    (hRead : Parsed.read false bs = .ok p) (hRead' : Parsed.read true bs = .ok p')
    (hSays : Members.get? ms "$schema" = some (.text u)) (hOnly : ∀ v, (("$schema" : Text), v) ∈ ms → v = .text u)
    (hApart : CollectsApart p) :
    Agree (fun _ _ => True) (Stripped d (.object ms)) (ofParsed p []) (ofParsed p' []) := by
  obtain ⟨hDocument, hStripped, hId, hDeclared, hOwn⟩ := h
  have hConforms : checkConforms d p'.document = checkConforms d p.document := by
    unfold checkConforms
    rw [hStripped, hDocument]
    exact congrArg (fun f => Findings.first? f >>= _) (Dialect.metaFindings_erase hDialect hSays true)
  have hHere : Resource.ofDocument d p.document = ⟨d, p.document⟩ := hOwn ▸ Parsed.ofDocument_eq hRead
  have hThere : Resource.ofDocument d p'.document = ⟨d, p'.document⟩ :=
    (hDeclared ▸ hOwn : Dialect.ofDeclaration p'.declared = d) ▸ Parsed.ofDocument_eq hRead'
  have hSheds : Sheds (.object ms) p.document p'.document := Or.inr ⟨hDocument, hDocument ▸ hStripped⟩
  have hReferences : references true p'.document = references true p.document := by
    rw [hStripped, hDocument]
    exact references_erase hOnly
  have hLibrary := library_stripped ⟨hDocument, hStripped, hId, hDeclared, hOwn⟩
  unfold ofParsed
  dsimp only
  rw [hDeclared, hOwn, hConforms]
  refine (Agree.refl fun _ _ => trivial).bind fun _ _ _ => ?_
  cases hDocs : library p [] <;> cases hDocs' : library p' [] <;> rw [hDocs, hDocs'] at hLibrary
  · exact .error trivial
  · exact hLibrary.elim
  · exact hLibrary.elim
  · obtain ⟨names, rfl, rfl⟩ := hLibrary
    have hRoots : Resource.Alike (.object ms) ⟨d, p.document⟩ ⟨d, p'.document⟩ := ⟨rfl, hSheds⟩
    have hAlike := resolver_alike_stripped hRoots names hHere hThere
    have hCollected := hApart _ hDocs
    rw [hOwn, hDocument] at hCollected
    exact (checkReferences_alike hAlike hReferences (hDocument ▸ hCollected)).bind fun _ _ _ =>
      .pure ⟨hDocument, hStripped, rfl, rfl, rfl, hAlike⟩

theorem read_stripped {enforce : Bool} (hDialect : d = .draft7 ∨ d = .draft2020)
    (hDocument : Document.read? bs = .ok (some (.object ms, format)))
    (hSays : Members.get? ms "$schema" = some (.text u)) (hStandard : u ∈ d.names)
    (hApart : ∀ p, Parsed.read false bs = .ok p → CollectsApart p) :
    Agree (fun _ _ => True) (Stripped d (.object ms)) (read false enforce bs) (read true enforce bs) := by
  have hNodup : (Members.names ms).Nodup := (Document.read?_wellFormed hDocument).nodup .refl
  have hOnly : ∀ v, (("$schema" : Text), v) ∈ ms → v = .text u := fun v hMem =>
    Option.some.inj ((Members.get?_of_mem hNodup hMem).symm.trans hSays)
  have hParsed := Parsed.read_stripped hDocument hSays hStandard
  unfold read
  cases hRead : Parsed.read false bs <;> cases hRead' : Parsed.read true bs <;> rw [hRead, hRead'] at hParsed
  · exact .error trivial
  · exact hParsed.elim
  · exact hParsed.elim
  · next p p' =>
      have hOf := ofParsed_stripped hDialect hParsed hRead hRead' hSays hOnly (hApart p hRead)
      dsimp only [bind, Except.bind]
      rw [hParsed.declared]
      cases enforce with
      | false => exact hOf
      | true =>
          cases Parsed.checkDialect p.declared with
          | error why => exact .error trivial
          | ok _ => exact hOf

theorem counts_recursiveRef (hDialect : d = .draft7 ∨ d = .draft2020) : d.counts "$recursiveRef" = false := by
  rcases hDialect with rfl | rfl <;> decide +kernel

theorem collectsApart_of_refersWithin (h : refersWithin d p.document = true) : CollectsApart p := by
  intro docs _ ref hMem
  obtain ⟨ms, hInside, hSays⟩ := exists_of_mem_references hMem
  exact not_pointsAtDeclaration_of_staysWithin _
    (staysWithin_of_mem h hInside (by simp [referenceKeywords]) hSays)

theorem document_of_read_false (hDocument : Document.read? bs = .ok (some (whole, format)))
    (hRead : Parsed.read false bs = .ok p) : p.document = whole := by
  obtain ⟨d, format', hSame, _, hKept, _⟩ := Parsed.document_of_read hRead
  obtain ⟨rfl, _⟩ := Prod.mk.inj (Option.some.inj (Except.ok.inj (hDocument.symm.trans hSame)))
  exact hKept

/-- A schema without names in it is nameless once it is compiled. -/
theorem isNameless_of_read {offline : Bool} (hRead : Parsed.read offline bs = .ok p) (hOf : ofParsed p [] = .ok s)
    (h : p.document.every isUnnamed = true) : s.isNameless = true := by
  have hGet : ∀ k ∈ namingKeywords, p.document.get? k = none := by
    intro k hKey
    cases hDocument : p.document with
    | object ms =>
        have hObject : isUnnamed (.object ms) = true := Document.of_every_inside h (hDocument ▸ .refl)
        have hNone : Members.has ms k = false := by
          simp only [isUnnamed, Bool.not_eq_true', List.any_eq_false] at hObject
          simpa using hObject k hKey
        refine List.lookup_eq_none_iff.mpr fun m hMem => ?_
        have hOther : m.1 ≠ k := by simpa using List.any_eq_false.mp hNone m hMem
        exact bne_iff_ne.mpr hOther.symm
    | _ => rfl
  obtain ⟨hDocument, _, ⟨docs, hLibrary, hResolver⟩, _⟩ := ofParsed_ok hOf
  obtain ⟨_, _, _, _, hId, _⟩ := Parsed.read_ok hRead
  have hUnnamed : p.id = [] := by
    have hNone : p.document.get? "$id" = none ∧ p.document.get? "id" = none :=
      ⟨hGet _ (by simp [namingKeywords]), hGet _ (by simp [namingKeywords])⟩
    rw [hId, Parsed.idOf, List.filterMap_cons, List.filterMap_cons, hNone.1, hNone.2]
    rfl
  have hRoot : s.root.id? = none := by
    have hKeyword : s.context.dialect.idKeyword ∈ namingKeywords := by
      cases s.context.dialect <;> simp [namingKeywords, Dialect.idKeyword]
    have hNone : s.root.document.get? s.root.dialect.idKeyword = none := by
      show s.document.get? s.context.dialect.idKeyword = none
      rw [hDocument]
      exact hGet _ hKeyword
    rw [Resource.id?, hNone]
    rfl
  obtain rfl : docs = [] := by
    unfold library at hLibrary
    rw [hUnnamed] at hLibrary
    exact (Except.ok.inj hLibrary).symm
  have hNames : s.context.resolver.store.names = [[]] := by
    rw [hResolver, Resolver.ofRoot, hRoot]
    rfl
  have hBase : s.context.resolver.base = [] := by
    rw [hResolver, Resolver.ofRoot, hRoot]
    rfl
  rw [isNameless, hBase, ownNames, hNames, hRoot, hDocument, h]
  rfl

/-- That a schema is compiled without its declaration makes no difference: it compiles if and only if it
does with it, and as long as a check keeps to the declared dialect it finds the same, or runs into a dead
end in both cases. -/
theorem validate_stripped (enforce : Bool) (hDialect : d = .draft7 ∨ d = .draft2020)
    (hDocument : Document.read? bs = .ok (some (.object ms, format)))
    (hSays : Members.get? ms "$schema" = some (.text u)) (hStandard : u ∈ d.names)
    (hApart : ∀ p, Parsed.read false bs = .ok p → CollectsApart p) :
    ((∃ s, read false enforce bs = .ok s) ↔ ∃ s', read true enforce bs = .ok s') ∧
    ∀ s s', read false enforce bs = .ok s → read true enforce bs = .ok s' → KeepsTo d s.context s.document →
      ∀ x, s.validate x = s'.validate x ∨ ∃ named why why', s.validate x = .error (.deadEnd named why) ∧
        s'.validate x = .error (.deadEnd named why') := by
  have hBoth : Agree (fun _ _ => True) (Stripped d (.object ms)) (read false enforce bs) (read true enforce bs) :=
    read_stripped hDialect hDocument hSays hStandard hApart
  refine ⟨hBoth.ok_iff, fun s s' hS hS' hKeeps x => ?_⟩
  rw [hS, hS'] at hBoth
  obtain ⟨hWhole, hBare, hOwn, hContext⟩ := hBoth
  have hSheds : Sheds s.document s.document s'.document := Or.inr ⟨rfl, hWhole ▸ hBare⟩
  have hAgree : (check s.context s.document x).Agree (AlikeFailures s.document) (check s'.context s'.document x) :=
    (hKeeps.simulation (counts_recursiveRef hDialect)).check_agree (fun f _ => .same f) hSheds
      ⟨hWhole ▸ hContext, hOwn, .root⟩ x
  have hFound := hAgree.all
  unfold validate
  cases hAll : (check s.context s.document x).all <;> cases hAll' : (check s'.context s'.document x).all <;>
    rw [hAll, hAll'] at hFound
  · cases hFound with
    | same f => exact Or.inl rfl
    | deadEnd named h => exact Or.inr ⟨named, _, _, rfl, rfl⟩
  · exact hFound.elim
  · exact hFound.elim
  · obtain rfl : _ = _ := hFound
    exact Or.inl rfl

/-- A schema of trees, whose items are trees again. -/
def trees : Bytes :=
  Text.utf8 "\x7b\"$schema\": \"http://json-schema.org/draft-07/schema#\", \"items\": \x7b\"$ref\": \"#\"\x7d\x7d"

theorem validate_stripped_trees : ∃ ms format u s s', Document.read? trees = .ok (some (.object ms, format)) ∧
    Members.get? ms "$schema" = some (.text u) ∧ u ∈ Dialect.draft7.names ∧
    read false true trees = .ok s ∧ read true true trees = .ok s' ∧ s.document ≠ s'.document ∧
    KeepsTo .draft7 s.context s.document ∧
    ∀ x, s.validate x = s'.validate x ∨ ∃ named why why', s.validate x = .error (.deadEnd named why) ∧
      s'.validate x = .error (.deadEnd named why') := by
  have hText : ((Document.read? trees).toOption.any fun found => found.any fun r => refersWithin .draft7 r.1 &&
      r.1.every isUnnamed &&
      ((r.1.get? "$schema").bind Document.text?).any Dialect.draft7.names.contains) = true := by decide +kernel
  have hRun : (read true true trees).isOk = true := by decide +kernel
  obtain ⟨found, hDocument, hTest⟩ := exists_of_any hText
  obtain ⟨⟨whole, format⟩, rfl, hTests⟩ := (Option.any_eq_true ..).mp hTest
  obtain ⟨hBoth, hDeclares⟩ := Bool.and_eq_true_iff.mp hTests
  obtain ⟨hWithin, hUnnamed⟩ := Bool.and_eq_true_iff.mp hBoth
  obtain ⟨u, hSays, hStandard⟩ := (Option.any_eq_true ..).mp hDeclares
  obtain ⟨v, hGet, hIs⟩ := Option.bind_eq_some_iff.mp hSays
  cases v <;> cases hIs
  obtain ⟨s', hS'⟩ := exists_of_isOk hRun
  obtain ⟨ms, rfl, _⟩ := Document.says_of_get? hSays
  have hApart : ∀ p, Parsed.read false trees = .ok p → CollectsApart p := fun p hRead =>
    collectsApart_of_refersWithin ((document_of_read_false hDocument hRead).symm ▸ hWithin)
  obtain ⟨hCompiles, hSame⟩ := validate_stripped true (Or.inl rfl) hDocument hGet
    (List.contains_iff_mem.mp hStandard) hApart
  obtain ⟨s, hS⟩ := hCompiles.mpr ⟨s', hS'⟩
  obtain ⟨p, hRead, hOf⟩ := ofParsed_of_read hS
  obtain ⟨p', hRead', hOf'⟩ := ofParsed_of_read hS'
  have hParsed : p.document = .object ms := document_of_read_false hDocument hRead
  have hWhole : s.document = .object ms := (ofParsed_ok hOf).1.trans hParsed
  have hKeeps := keepsTo_of_refersWithin (isNameless_of_read hRead hOf (hParsed ▸ hUnnamed))
    (hWhole.symm ▸ hWithin) hRead hOf
  refine ⟨ms, format, u, s, s', hDocument, hGet, List.contains_iff_mem.mp hStandard, hS, hS', fun hEq => ?_, hKeeps,
    hSame s s' hS hS' hKeeps⟩
  have hNone : s.document.get? "$schema" = none :=
    hEq ▸ (ofParsed_ok hOf').1 ▸ get?_document_of_read hRead'
  rw [hWhole] at hNone
  cases hNone.symm.trans hGet

end Compiled

end Conform.Schema

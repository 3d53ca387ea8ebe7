import Conform.Proofs.Document.Order
import Conform.Proofs.Schema.Entry
import Conform.Proofs.Schema.Library
import Conform.Proofs.Schema.Reach
import Conform.Proofs.Schema.Scan
import Conform.Schema.Linked

/-! Schemas that are compiled with the same documents. The order in which the documents come does not
matter as long as no two of them are held under one name, so directories lead to the same findings as an
index that was made of them. -/
namespace Conform.Schema

variable {bearable : Failure → Failure → Prop}

namespace Agree

theorem trans {α β γ : Type} {R : α → β → Prop} {S : β → γ → Prop} {T : α → γ → Prop}
    {x : Except Failure α} {y : Except Failure β} {z : Except Failure γ} (h : Agree Eq R x y)
    (h' : Agree Eq S y z) (hBoth : ∀ a b c, R a b → S b c → T a c) : Agree Eq T x z := by
  cases x <;> cases y <;> cases z
  · exact Eq.trans h h'
  · exact h'.elim
  · exact h.elim
  · exact h.elim
  · exact h.elim
  · exact h.elim
  · exact h'.elim
  · exact hBoth _ _ _ h h'

/-- If there is only one way to fail, the order of the items matters only for that of the results. -/
theorem mapM_perm {α β : Type} {f : α → Except Failure β} (why : Failure)
    (hOnly : ∀ a g, f a = .error g → g = why) {items items' : List α} (h : items.Perm items') :
    Agree Eq List.Perm (items.mapM f) (items'.mapM f) := by
  induction h with
  | nil => exact .pure .nil
  | cons a _ ih =>
      rw [List.mapM_cons, List.mapM_cons]
      refine (Agree.refl fun _ _ => rfl).bind fun b c hSame => ?_
      subst hSame
      exact ih.bind fun bs cs hPerm => .pure (hPerm.cons b)
  | swap a b rest =>
      simp only [List.mapM_cons]
      cases hA : f a <;> cases hB : f b
      · exact (hOnly b _ hB).trans (hOnly a _ hA).symm
      · exact rfl
      · exact rfl
      · cases rest.mapM f with
        | error g => exact rfl
        | ok cs => exact List.Perm.swap ..
  | trans _ _ ih ih' => exact ih.trans ih' fun _ _ _ => List.Perm.trans

end Agree

namespace Index

variable {fs : Files} {dirs : List Text} {seed ix ix' : Index} {id : Text} {strip : Bool}

theorem nodup_entries (h : ix.Distinct) : ix.entries.Nodup := List.Nodup.of_map Entry.id h

theorem mem_entries_iff (h : ix.Distinct) {e : Entry} : e ∈ ix.entries ↔ ix.get? e.id = some e :=
  ⟨get?_eq_some_of_mem h, fun hGet => (mem_of_get? hGet).1⟩

theorem id_ne_nil_of_mem_visits {e : Entry} (h : .found e ∈ visits fs dirs strip) : e.id ≠ [] := by
  obtain ⟨raw, _, hMem⟩ := List.mem_flatMap.mp h
  unfold visitDirectory at hMem
  split at hMem
  · obtain ⟨path, _, hVisit⟩ := List.mem_map.mp hMem
    unfold visitFile at hVisit
    split at hVisit
    · unfold visitContent at hVisit
      split at hVisit
      · split at hVisit
        · cases hVisit
        · next hNamed => exact Visit.found.inj hVisit ▸ by simpa using hNamed
      · cases hVisit
      · cases hVisit
    · cases hVisit
    · cases hVisit
  · cases List.mem_singleton.mp hMem

/-- What a scan finds under other names does not depend on what it starts with. -/
theorem perm_scan (hScan : scan fs dirs = .ok ix) (hSeed : seed.Distinct)
    (hOnly : ∀ e ∈ seed.entries, e.id = id) (hScan' : scan fs dirs seed = .ok ix') :
    (ix'.entries.filter (·.id != id)).Perm (ix.sorted.filter (·.id != id)) := by
  have hRead := readable_of_scan hScan
  have hDistinct : ix.Distinct := (show empty.Distinct from List.nodup_nil).foldlM hRead hScan
  have hDistinct' : ix'.Distinct := hSeed.foldlM hRead hScan'
  have hSame : ∀ i, i ≠ id → ix'.get? i = ix.get? i := by
    intro i hOther
    rw [get?_scan hRead hScan', get?_scan hRead hScan, participants, participants, List.find?_append]
    have hNone : seed.entries.find? (·.id == i) = none :=
      List.find?_eq_none.mpr fun e hMem hId => hOther ((eq_of_beq hId).symm.trans (hOnly e hMem))
    rw [hNone, Option.none_or]
    rfl
  refine List.Perm.trans ?_ ((List.mergeSort_perm _ _).filter _).symm
  refine (List.perm_ext_iff_of_nodup ((nodup_entries hDistinct').filter _)
    ((nodup_entries hDistinct).filter _)).mpr fun e => ?_
  rw [List.mem_filter, List.mem_filter, mem_entries_iff hDistinct', mem_entries_iff hDistinct]
  refine and_congr_left fun hOther => ?_
  rw [hSame e.id (bne_iff_ne.mp hOther)]

end Index

namespace Context

variable {c c' : Context} {schema : Document}

/-- Whether two contexts are the same but for the order in which their stores were filled. -/
structure Alike (root : Document) (c c' : Context) : Prop where
  dialect : c.dialect = c'.dialect
  formats : c.formats = c'.formats
  resolver : c.resolver.Alike root c'.resolver

theorem eq_of_alikeReasons {why why' : Unresolved} (h : AlikeReasons .null why why') : why = why' := by
  cases h with
  | same why => rfl
  | pointer pointer hSheds => rw [hSheds.eq_of_undeclared rfl]
  | anchor name hSheds => rw [hSheds.eq_of_undeclared rfl]

/-- Checks in stores that hold the same go the same way. -/
theorem simulation_alike : Simulation Eq (fun _ => True) .null fun c c' _ => Alike .null c c' where
  dialect := Alike.dialect
  formats := Alike.formats
  lives _ _ := trivial
  entered {c c' ms sub} hAt _ := by
    rw [← hAt.dialect]
    refine (Resolver.enter_alike (fun _ _ => rfl) hAt.resolver (.refl _)).mono fun r r' hR => ?_
    exact ⟨congrArg (Dialect.inner · sub) hAt.dialect, hAt.formats, hR⟩
  inspected {c c' ms sub} hAt _ := ⟨congrArg (Dialect.inner · sub) hAt.dialect, hAt.formats, hAt.resolver⟩
  surveyed hAt _ := hAt
  referred {c c' ms k ref} hAt _ _ _ :=
    landing hAt (Resolver.lookup_alike (fun _ _ => rfl) hAt.resolver ref (Resolver.not_pointsAtDeclaration rfl))
  recurred {c c' ms} hAt _ _ :=
    landing hAt (Resolver.lookupRecursive_alike (fun _ _ => rfl) hAt.resolver
      fun _ _ => Resolver.not_pointsAtDeclaration rfl)
where
  landing {c c' : Context} {found found'} (hAt : Alike .null c c')
      (h : Agree Eq (AlikeOutcomes .null (Target.Alike .null)) found found') :
      Agree Eq (Landing Eq fun t t' => Sheds .null t.document t'.document ∧ Alike .null (c.at_ t) (c'.at_ t'))
        found found' := by
    refine h.mono fun outcome outcome' hOutcome => ?_
    cases outcome <;> cases outcome'
    · exact fun named => congrArg _ (eq_of_alikeReasons hOutcome)
    · exact hOutcome.elim
    · exact hOutcome.elim
    · next t t' =>
        have hDocument : t'.document = t.document := hOutcome.document.eq_of_undeclared rfl
        refine ⟨hOutcome.document, ?_, hAt.formats, hOutcome.resolver⟩
        simp only [Context.at_, Context.of, hDocument, hAt.dialect]

/-- Checks in stores that hold the same find the same. -/
theorem check_eq_of_alike (h : Alike .null c c') (x : Document) : check c schema x = check c' schema x :=
  (simulation_alike.check_agree (fun _ _ => rfl) (.refl schema) h x).eq fun _ _ => id

end Context

namespace Compiled

open Context (Alike)

variable {p : Parsed} {others others' docs docs' : List (Text × Document)} {s s' : Compiled}

/-- Whether two compiled schemas are the same but for the order in which their stores were filled. -/
structure Twins (s s' : Compiled) : Prop where
  id : s.id = s'.id
  document : s.document = s'.document
  context : Alike .null s.context s'.context

theorem validate_eq_of_twins (h : Twins s s') (x : Document) : s.validate x = s'.validate x := by
  unfold validate
  rw [h.document, Context.check_eq_of_alike h.context]

theorem library_perm (h : (members p others).Perm (members p others')) :
    Agree Eq List.Perm (library p others) (library p others') := by
  refine Agree.mapM_perm .unreadableReference (fun e g hError => ?_) h
  dsimp only at hError
  split at hError
  · cases hError
  · exact (Except.error.inj hError).symm

/-- Stores that were made of the same documents in whatever order hold the same, if the documents have
different names. -/
theorem resolver_alike (dialect : Dialect) (root : Resource) (h : docs.Perm docs')
    (hNodup : (docs.map (·.1)).Nodup) : (Resolver.ofRoot (.ofLibrary dialect docs) root).Alike .null
      (Resolver.ofRoot (.ofLibrary dialect docs') root) := by
  unfold Resolver.ofRoot
  refine ⟨Store.ofShelf_alike ⟨fun u => ?_, fun u n => ?_⟩ ?_, rfl, rfl, rfl⟩
  · have hSame : ((docs.map fun d => (d.1, Resource.ofDocument dialect d.2)).reverse.lookup u) =
        (docs'.map fun d => (d.1, Resource.ofDocument dialect d.2)).reverse.lookup u := by
      refine lookup_eq_of_perm ?_ ?_ u
      · exact (List.reverse_perm _).trans ((h.map _).trans (List.reverse_perm _).symm)
      · rw [List.map_reverse, List.nodup_reverse, List.map_map]
        exact hNodup
    have hEntered := Store.resource?_entered Meta.shelf dialect docs root (root.id?.getD []) u
    have hEntered' := Store.resource?_entered Meta.shelf dialect docs' root (root.id?.getD []) u
    exact rel_of_eq .refl (hEntered.trans (hSame ▸ hEntered'.symm))
  · have hEntered := Store.anchor?_entered Meta.shelf dialect docs root (root.id?.getD []) u n
    have hEntered' := Store.anchor?_entered Meta.shelf dialect docs' root (root.id?.getD []) u n
    exact rel_of_eq .refl (hEntered.trans hEntered'.symm)
  · exact Text.sorted_eq_of_perm (((h.map _).filter _).append_right _)

theorem checkReferences_eq {r r' : Resolver} (h : r.Alike .null r') (d : Document) :
    checkReferences r d = checkReferences r' d := by
  unfold checkReferences
  refine congrArg _ (funext fun ref => ?_)
  refine Agree.eq (fun f g (hSame : f = g) => hSame) ?_
  refine (Resolver.lookup_alike (fun _ _ => rfl) h ref (Resolver.not_pointsAtDeclaration rfl)).bind
    fun outcome outcome' hOutcome => ?_
  cases outcome <;> cases outcome'
  · rw [Context.eq_of_alikeReasons hOutcome]
    exact .error rfl
  · exact hOutcome.elim
  · exact hOutcome.elim
  · exact .pure rfl

/-- A schema that is compiled with the same documents in another order is the same. -/
theorem ofParsed_twins (h : (members p others).Perm (members p others'))
    (hNames : ((members p others).map (·.1)).Nodup)
    (hApart : ∀ a ∈ (members p others).map (·.1), ∀ b ∈ (members p others).map (·.1), ∀ name,
      shelfName? a = some name → shelfName? b = some name → a = b) :
    Agree Eq Twins (ofParsed p others) (ofParsed p others') := by
  have hNodup : ∀ docs, library p others = .ok docs → (docs.map (·.1)).Nodup := by
    intro docs hDocs
    have hHeld : ((members p others).map (·.1)).map shelfName? = docs.map fun d => some d.1 := by
      simpa only [List.map_map, Function.comp_def] using congrArg (List.map Prod.fst) (map_library hDocs)
    have hSome : ∀ a ∈ (members p others).map (·.1), ∃ name, shelfName? a = some name := by
      intro a hMem
      obtain ⟨d, _, hName⟩ := List.mem_map.mp (hHeld ▸ List.mem_map_of_mem hMem)
      exact ⟨d.1, hName.symm⟩
    refine List.Nodup.of_map some ?_
    rw [List.map_map, Function.comp_def, ← hHeld]
    refine hNames.map_on fun a hA b hB hSame => ?_
    obtain ⟨name, hName⟩ := hSome a hA
    exact hApart a hA b hB name hName (hSame ▸ hName)
  refine (Agree.refl fun _ _ => rfl).bind fun _ _ _ => ?_
  have hLibrary := library_perm h
  cases hDocs : library p others <;> cases hDocs' : library p others' <;> rw [hDocs, hDocs'] at hLibrary
  · exact hLibrary
  · exact hLibrary.elim
  · exact hLibrary.elim
  · next docs docs' =>
      have hAlike := resolver_alike (.ofDeclaration p.declared) ⟨.ofDeclaration p.declared, p.document⟩
        hLibrary (hNodup docs hDocs)
      dsimp only [bind, Except.bind]
      rw [checkReferences_eq hAlike]
      cases checkReferences (.ofRoot (.ofLibrary (.ofDeclaration p.declared) docs')
          ⟨.ofDeclaration p.declared, p.document⟩) p.document with
      | error why => exact .error rfl
      | ok _ => exact .pure ⟨rfl, rfl, rfl, rfl, hAlike⟩

/-- Whether documents with different names are held under different names: those differ in more than
their fragments. -/
def HeldApart (es : List Entry) : Prop :=
  ∀ a ∈ es, ∀ b ∈ es, ∀ name, shelfName? a.id = some name → shelfName? b.id = some name → a.id = b.id

section Directories

variable {fs : Files} {dirs : List Text} {seed ix ix' : Index} {bs : Bytes}

theorem readSeed_ok (h : readSeed bs = .ok (p, seed)) : Parsed.read true bs = .ok p ∧
    Parsed.checkDialect p.declared = .ok () ∧
    seed.entries = if p.id.isEmpty then [] else [p.entry] := by
  obtain ⟨q, hRead, h⟩ := exists_of_bind_ok h
  obtain ⟨_, hDialect, h⟩ := exists_of_bind_ok h
  obtain ⟨rfl, rfl⟩ := Prod.mk.inj (Except.ok.inj h)
  refine ⟨hRead, hDialect, ?_⟩
  split
  · rfl
  · rfl

theorem distinct_seed (h : readSeed bs = .ok (p, seed)) : seed.Distinct := by
  rw [Index.Distinct, (readSeed_ok h).2.2]
  split
  · exact List.nodup_nil
  · exact List.nodup_singleton _

theorem id_of_mem_seed (h : readSeed bs = .ok (p, seed)) {e : Entry} (hMem : e ∈ seed.entries) :
    e.id = p.id := by
  rw [(readSeed_ok h).2.2] at hMem
  split at hMem
  · cases hMem
  · exact congrArg Entry.id (List.mem_singleton.mp hMem)

/-- The entries under other names than that of the schema. -/
def otherEntries (p : Parsed) (es : List Entry) : List Entry := es.filter (·.id != p.id)

theorem id_ne_of_mem_otherEntries {es : List Entry} {e : Entry} (h : e ∈ otherEntries p es) : e.id ≠ p.id :=
  bne_iff_ne.mp (List.mem_filter.mp h).2

/-- The documents that a schema is compiled with are those of the other entries, and its own. -/
theorem members_otherEntries (es : List Entry) : members p (documents (otherEntries p es)) =
    documents (otherEntries p es) ++ if p.id.isEmpty then [] else [(p.id, p.document)] := by
  unfold members
  split
  · rw [List.append_nil]
  · refine Members.set_of_notMem fun hMem => ?_
    rw [documents, Members.names, List.map_map] at hMem
    obtain ⟨e, hE, hId⟩ := List.mem_map.mp hMem
    exact id_ne_of_mem_otherEntries hE hId

theorem names_otherEntries (es : List Entry) : (members p (documents (otherEntries p es))).map (·.1) =
    (otherEntries p es).map Entry.id ++ if p.id.isEmpty then [] else [p.id] := by
  rw [members_otherEntries, List.map_append, documents, List.map_map]
  congr 1
  split
  · rfl
  · rfl

theorem nodup_otherEntries (h : ix.Distinct) : ((members p (documents (otherEntries p ix.entries))).map (·.1)).Nodup := by
  rw [names_otherEntries]
  refine List.nodup_append.mpr ⟨h.sublist (List.filter_sublist.map _), ?_, ?_⟩
  · split
    · exact List.nodup_nil
    · exact List.nodup_singleton _
  · intro id hId other hMem hSame
    obtain ⟨e, hE, rfl⟩ := List.mem_map.mp hId
    split at hMem
    · cases hMem
    · exact id_ne_of_mem_otherEntries hE (hSame.trans (List.mem_singleton.mp hMem))

/-- Each document that a schema is compiled with is that of a schema that takes part in the scan. -/
theorem participant_of_mem (hSeed : readSeed bs = .ok (p, seed)) (hScan : Index.scan fs dirs seed = .ok ix)
    {id : Text} (hMem : id ∈ (members p (documents (otherEntries p ix.entries))).map (·.1)) :
    ∃ e ∈ Index.participants fs dirs seed true, e.id = id := by
  rw [names_otherEntries] at hMem
  rcases List.mem_append.mp hMem with hMem | hMem
  · obtain ⟨e, hE, rfl⟩ := List.mem_map.mp hMem
    exact ⟨e, Index.mem_participants_of_scan (distinct_seed hSeed) (Index.readable_of_scan hScan) hScan
      (List.mem_filter.mp hE).1, rfl⟩
  · split at hMem
    · cases hMem
    · next hNamed =>
        obtain rfl := List.mem_singleton.mp hMem
        refine ⟨p.entry, List.mem_append_left _ ?_, rfl⟩
        rw [(readSeed_ok hSeed).2.2, if_neg hNamed]
        exact List.mem_singleton.mpr rfl

/-- What is found in directories and what is found with an index of them is the same. -/
theorem ofEntries_twins (hScan : Index.scan fs dirs = .ok ix) (hSeed : readSeed bs = .ok (p, seed))
    (hScan' : Index.scan fs dirs seed = .ok ix') (hApart : HeldApart (Index.participants fs dirs seed true)) :
    Agree Eq Twins (ofEntries p ix'.entries) (ofEntries p ix.sorted) := by
  have hPerm : (otherEntries p ix'.entries).Perm (otherEntries p ix.sorted) :=
    Index.perm_scan hScan (distinct_seed hSeed) (fun _ hMem => id_of_mem_seed hSeed hMem) hScan'
  have hDistinct : ix'.Distinct :=
    (distinct_seed hSeed).foldlM (Index.readable_of_scan hScan') hScan'
  refine ofParsed_twins ?_ (nodup_otherEntries hDistinct) fun a hA b hB name hHere hThere => ?_
  · change (members p (documents (otherEntries p ix'.entries))).Perm
      (members p (documents (otherEntries p ix.sorted)))
    rw [members_otherEntries, members_otherEntries]
    exact (hPerm.map _).append_right _
  · obtain ⟨e, hE, rfl⟩ := participant_of_mem hSeed hScan' hA
    obtain ⟨e', hE', rfl⟩ := participant_of_mem hSeed hScan' hB
    exact hApart e hE e' hE' name hHere hThere

/-- A validation with directories comes to the same as one with an index that was made of them, if the
directories can be scanned both for the index and for the schema, and if no two of the documents that
take part are held under one name. -/
theorem validate_withDirectories_eq_withIndex {offline : Bool} {x : Document} (hDirs : dirs ≠ [])
    (hScan : Index.scan fs dirs = .ok ix)
    (hSeed : ∀ p seed, readSeed bs = .ok (p, seed) → ∃ ix', Index.scan fs dirs seed = .ok ix')
    (hApart : ∀ p seed, readSeed bs = .ok (p, seed) → HeldApart (Index.participants fs dirs seed true)) :
    (readWithDirectories fs offline dirs bs >>= fun s => s.validate x) =
      (readWithIndex ix none bs >>= fun s => s.validate x) := by
  have hSome : dirs.isEmpty = false := by simpa using hDirs
  unfold readWithDirectories readWithIndex
  rw [hSome, if_neg (by decide)]
  cases hRead : Parsed.read true bs with
  | error why => simp [readSeed, hRead, bind, Except.bind]
  | ok p =>
      cases hDialect : Parsed.checkDialect p.declared with
      | error why => simp [readSeed, hRead, hDialect, bind, Except.bind]
      | ok _ =>
          obtain ⟨seed, hReadSeed⟩ : ∃ seed, readSeed bs = .ok (p, seed) := by
            simp [readSeed, hRead, hDialect, bind, Except.bind, pure, Except.pure]
          obtain ⟨ix', hScan'⟩ := hSeed p seed hReadSeed
          have hTwins := ofEntries_twins hScan hReadSeed hScan' (hApart p seed hReadSeed)
          have hSame : Agree Eq Eq (ofEntries p ix'.entries >>= fun s => s.validate x)
              (ofEntries p ix.sorted >>= fun s => s.validate x) :=
            hTwins.bind fun s s' hBoth => validate_eq_of_twins hBoth x ▸ .refl fun _ _ => rfl
          simpa [hReadSeed, hScan', hDialect, bind, Except.bind] using hSame.eq fun _ _ hEq => hEq

/-- Two directories with one schema each. -/
def twoSchemas : Files where
  root := .directory [
    ("one", .directory [("a.json", .file (Text.utf8 "\x7b\"$id\": \"https://x/a\"\x7d"))]),
    ("two", .directory [("b.yaml", .file (Text.utf8 "$id: b"))])]
  cwd := "/"

/-- A schema that refers to one of them. -/
def referring : Bytes := Text.utf8 "\x7b\"$ref\": \"https://x/a\"\x7d"

theorem validate_withDirectories_eq_withIndex_twoSchemas :
    ∃ ix, Index.scan twoSchemas ["one", "two"] = .ok ix ∧ ix.entries.length = 2 ∧
      (∃ p seed ix', readSeed referring = .ok (p, seed) ∧
        Index.scan twoSchemas ["one", "two"] seed = .ok ix' ∧
        HeldApart (Index.participants twoSchemas ["one", "two"] seed true)) ∧
      (readWithDirectories twoSchemas true ["one", "two"] referring >>= fun s => s.validate .null) =
        (readWithIndex ix none referring >>= fun s => s.validate .null) := by
  have hRun : ((Index.scan twoSchemas ["one", "two"]).toOption.any fun ix => (readSeed referring).toOption.any fun r =>
      ix.entries.length == 2 && (Index.scan twoSchemas ["one", "two"] r.2).isOk &&
      (Index.participants twoSchemas ["one", "two"] r.2 true).all fun a =>
        (Index.participants twoSchemas ["one", "two"] r.2 true).all fun b =>
          shelfName? a.id != shelfName? b.id || a.id == b.id) = true := by decide +kernel
  obtain ⟨ix, hScan, hRun⟩ := exists_of_any hRun
  obtain ⟨⟨p, seed⟩, hReadSeed, hRun⟩ := exists_of_any hRun
  simp only [Bool.and_eq_true, beq_iff_eq] at hRun
  obtain ⟨⟨hTwo, hOk⟩, hAll⟩ := hRun
  obtain ⟨ix', hScan'⟩ := exists_of_isOk hOk
  have hApart : HeldApart (Index.participants twoSchemas ["one", "two"] seed true) := by
    intro a hA b hB name hHere hThere
    have hPair := List.all_eq_true.mp (List.all_eq_true.mp hAll a hA) b hB
    simpa [hHere, hThere] using hPair
  have hOnly : ∀ {q seed'}, readSeed referring = .ok (q, seed') → seed' = seed := fun hAgain =>
    (Prod.mk.inj (Except.ok.inj (hAgain.symm.trans hReadSeed))).2
  exact ⟨ix, hScan, hTwo, ⟨p, seed, ix', hReadSeed, hScan', hApart⟩,
    validate_withDirectories_eq_withIndex (by simp) hScan
      (fun _ _ hAgain => hOnly hAgain ▸ ⟨ix', hScan'⟩) fun _ _ hAgain => hOnly hAgain ▸ hApart⟩

variable {e : Entry} {name u : Text} {d : Document}

/-- A document is held under its name if no other one would be. -/
theorem mem_docs_iff (hLibrary : library p others = .ok docs) (hMem : (name, d) ∈ members p others)
    (hNames : ((members p others).map (·.1)).Nodup) (hName : shelfName? name = some u)
    (hApart : ∀ id ∈ (members p others).map (·.1), shelfName? id = some u → id = name) (d' : Document) :
    (u, d') ∈ docs ↔ d' = d := by
  constructor
  · intro hHeld
    obtain ⟨id, hId, hIn⟩ := mem_library hLibrary hHeld
    obtain rfl := hApart id (List.mem_map_of_mem hIn) hId
    exact (Prod.mk.inj (List.inj_on_of_nodup_map hNames hIn hMem rfl)).2
  · rintro rfl
    have hMapped : (some u, d') ∈ docs.map fun e => (some e.1, e.2) := by
      rw [← map_library hLibrary, ← hName]
      exact List.mem_map_of_mem hMem
    obtain ⟨e, hE, hSame⟩ := List.mem_map.mp hMapped
    obtain ⟨hHere, rfl⟩ := Prod.mk.inj hSame
    exact Option.some.inj hHere ▸ hE

/-- What a store of documents has under a name that is not one of a schema of schemas. -/
theorem resource?_ofLibrary (dialect : Dialect) (hOther : ∀ r, (u, r) ∉ Meta.resources)
    (hHeld : ∀ d', (u, d') ∈ docs ↔ d' = d) :
    (Store.ofLibrary dialect docs).entered.resource? u = some (.ofDocument dialect d) := by
  have hNone : Meta.shelf.resource? u = none :=
    Option.eq_none_iff_forall_ne_some.mpr fun r hFound => hOther r (Meta.resource?_shelf.mp hFound)
  refine (Shelf.resource?_laidOver _ _ u).trans ?_
  rw [hNone, Option.none_or, Store.entered_ofDocuments, Shelf.resource?_foldl_insert]
  refine (congrArg (Option.or · _) (lookup_eq_of_unique ?_ fun r hMem => ?_)).trans Option.some_or
  · exact List.mem_reverse.mpr (List.mem_map.mpr ⟨(u, d), (hHeld d).mpr rfl, rfl⟩)
  · obtain ⟨e, hE, hSame⟩ := List.mem_map.mp (List.mem_reverse.mp hMem)
    obtain ⟨rfl, rfl⟩ := Prod.mk.inj hSame
    rw [(hHeld e.2).mp hE]

/-- A schema that a scan met is found under its name without the fragment, with its own content, if no
other schema that takes part has this name, nor a schema of schemas. -/
theorem resource_of_scanned (hSeed : readSeed bs = .ok (p, seed)) (hScan : Index.scan fs dirs seed = .ok ix)
    (hLibrary : library p (documents (otherEntries p ix.entries)) = .ok docs)
    (hFound : .found e ∈ Index.visits fs dirs) (hName : shelfName? e.id = some name)
    (hApart : ∀ b ∈ Index.participants fs dirs seed true, shelfName? b.id = some name → b.id = e.id)
    (hOther : ∀ r, (name, r) ∉ Meta.resources) :
    ∃ r, (Store.ofLibrary (.ofDeclaration p.declared) docs).entered.resource? name = some r ∧
      Parsed.content r.document = .ok e.normalized := by
  have hRead := Index.readable_of_scan hScan
  have hDistinct := distinct_seed hSeed
  have hPart : e ∈ Index.participants fs dirs seed true :=
    List.mem_append_right _ (Index.mem_entriesOf.mpr hFound)
  obtain ⟨c, hCopy, hSame⟩ := Index.copy_of_scan hDistinct hRead hScan hPart
  obtain ⟨hMem, hId⟩ := Index.mem_of_get? hCopy
  -- The document under this name is the schema itself, or else the first copy that the scan found.
  obtain ⟨d, hMember, hContent⟩ : ∃ d, (e.id, d) ∈ members p (documents (otherEntries p ix.entries)) ∧
      Parsed.content d = .ok e.normalized := by
    rw [members_otherEntries]
    by_cases hOwn : e.id = p.id
    · have hNamed : p.id.isEmpty = false := by simpa [← hOwn] using Index.id_ne_nil_of_mem_visits hFound
      have hRoot : p.entry ∈ Index.participants fs dirs seed true := by
        refine List.mem_append_left _ ?_
        rw [(readSeed_ok hSeed).2.2, hNamed]
        exact List.mem_singleton.mpr rfl
      have hText : p.normalized = e.normalized := Classical.byContradiction fun hDiffer =>
        Index.not_conflicting_of_scan hDistinct hRead hScan ⟨_, hRoot, _, hPart, hOwn.symm, hDiffer⟩
      refine ⟨p.document, List.mem_append_right _ ?_, hText ▸ Parsed.content_of_read (readSeed_ok hSeed).1⟩
      rw [hNamed, hOwn]
      exact List.mem_singleton.mpr rfl
    · have hMet : .found c ∈ Index.visits fs dirs := by
        rcases List.mem_append.mp (Index.mem_participants_of_scan hDistinct hRead hScan hMem) with hHere | hMet
        · exact absurd (hId.symm.trans (id_of_mem_seed hSeed hHere)) hOwn
        · exact Index.mem_entriesOf.mp hMet
      obtain ⟨bs', q, hCopyRead, _, hText, _⟩ := Entry.isRead_of_mem_visits hMet
      refine ⟨c.document, List.mem_append_left _ ?_, hSame ▸ Entry.content_document hCopyRead hText⟩
      refine List.mem_map.mpr ⟨c, List.mem_filter.mpr ⟨hMem, bne_iff_ne.mpr (hId ▸ hOwn)⟩, ?_⟩
      rw [hId]
  refine ⟨_, resource?_ofLibrary _ hOther (mem_docs_iff hLibrary hMember ?_ hName ?_), hContent⟩
  · exact nodup_otherEntries (hDistinct.foldlM hRead hScan)
  · intro id hIn hHere
    obtain ⟨b, hB, rfl⟩ := participant_of_mem hSeed hScan hIn
    exact hApart b hB hHere

theorem resource_of_scanned_twoSchemas : ∃ p seed ix docs e, readSeed referring = .ok (p, seed) ∧
    Index.scan twoSchemas ["one", "two"] seed = .ok ix ∧
    library p (documents (otherEntries p ix.entries)) = .ok docs ∧
    .found e ∈ Index.visits twoSchemas ["one", "two"] ∧ shelfName? e.id = some ("b" : Text) ∧
    (∀ b ∈ Index.participants twoSchemas ["one", "two"] seed true, shelfName? b.id = some ("b" : Text) → b.id = e.id) ∧
    (∀ r, (("b" : Text), r) ∉ Meta.resources) ∧
    ∃ r, (Store.ofLibrary (.ofDeclaration p.declared) docs).entered.resource? "b" = some r ∧
      Parsed.content r.document = .ok e.normalized := by
  have hRun : ((readSeed referring).toOption.any fun r =>
      (Index.scan twoSchemas ["one", "two"] r.2).toOption.any fun ix =>
        (library r.1 (documents (otherEntries r.1 ix.entries))).isOk &&
        (Index.visits twoSchemas ["one", "two"]).any fun v => v.entry?.any fun e =>
          shelfName? e.id == some ("b" : Text) &&
          (Index.participants twoSchemas ["one", "two"] r.2 true).all fun b =>
            shelfName? b.id != some ("b" : Text) || b.id == e.id) = true := by decide +kernel
  have hOther : ∀ r, (("b" : Text), r) ∉ Meta.resources := fun r hMem => by
    have hAbsolute := Meta.isAbsolute_of_mem hMem
    cases hAbsolute
  obtain ⟨⟨p, seed⟩, hSeed, hRun⟩ := exists_of_any hRun
  obtain ⟨ix, hScan, hRun⟩ := exists_of_any hRun
  obtain ⟨hOk, hAny⟩ := Bool.and_eq_true_iff.mp hRun
  obtain ⟨docs, hLibrary⟩ := exists_of_isOk hOk
  obtain ⟨v, hVisit, hHere⟩ := List.any_eq_true.mp hAny
  obtain ⟨e, hEntry, hHere⟩ := (Option.any_eq_true ..).mp hHere
  have hFound : .found e ∈ Index.visits twoSchemas ["one", "two"] := by
    cases v <;> cases hEntry
    exact hVisit
  obtain ⟨hName, hAll⟩ := Bool.and_eq_true_iff.mp hHere
  have hApart : ∀ b ∈ Index.participants twoSchemas ["one", "two"] seed true,
      shelfName? b.id = some ("b" : Text) → b.id = e.id := by
    intro b hB hSame
    simpa [hSame] using List.all_eq_true.mp hAll b hB
  exact ⟨p, seed, ix, docs, e, hSeed, hScan, hLibrary, hFound, eq_of_beq hName, hApart, hOther,
    resource_of_scanned hSeed hScan hLibrary hFound (eq_of_beq hName) hApart hOther⟩

end Directories

end Compiled
end Conform.Schema

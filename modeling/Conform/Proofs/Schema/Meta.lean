import Conform.Proofs.Schema.Lookup
import Conform.Proofs.Schema.Rules
import Conform.Proofs.Schema.Spelling
import Conform.Proofs.Uri
import Mathlib.Data.List.DropRight
import Mathlib.Data.List.Nodup

/-! The schemas of schemas refer only to each other. What is to be known of their texts is one test
of the whole table. -/
namespace Conform.Schema.Meta

open Document (Inside Nested Part)

variable {u v ref name : Text} {r there : Resource} {ms : Members} {sub : Document} {d : Dialect}

section Table

/-- Whether a fragment leads somewhere in a resource. -/
def leadsWithin (there : Resource) (fragment : Text) : Bool :=
  if fragment.startsWith "/" then
    match Resolver.walk there.document (Text.splitOn '/' (Uri.unescape (fragment.drop 1))) with
    | .ok none => false
    | _ => true
  else fragment.isEmpty || there.anchors.any (·.1 == fragment)

/-- Whether a reference in a schema of the table leads to a schema of the same dialect in it. -/
def leads (home : Text × Resource) (ref : Text) : Bool :=
  match ref.dropStart? "#" with
  | some fragment => leadsWithin home.2 fragment
  | none =>
    match (Uri.join? home.1 ref).bind Uri.defragment? with
    | some (uri, fragment) => resources.any fun there =>
        there.2.dialect == home.2.dialect && there.1 == uri && leadsWithin there.2 fragment
    | none => true

/-- Whether all references of an object lead somewhere. -/
def isLinked (home : Text × Resource) : Document → Bool
  | .object ms => ms.all fun m => match m with
    | (k, .text ref) => !referenceKeywords.contains k || leads home ref
    | _ => true
  | _ => true

/-- The members by which a schema says something about itself as a whole. -/
def wholeKeywords : List Text := ["$dynamicAnchor", "$id", "$schema", "id"]

/-- Whether an object has no name, no declaration and no dynamic anchor. -/
def isPart : Document → Bool
  | .object ms => ms.all fun m => match m with
    | (k, .text _) => !wholeKeywords.contains k
    | _ => true
  | _ => true

/-- Whether an entry of the table is a schema under its own full name, whose declaration counts for
all that is inside it, and whose references lead to such schemas. Only those of one dialect pass
references to the root on. -/
def isSound (home : Text × Resource) : Bool :=
  Uri.isAbsolute home.1
    && ((home.2.document.get? "$schema").bind Document.text?).bind Dialect.ofName?
      == some home.2.dialect
    && ((home.2.document.get? "$dynamicAnchor").bind Document.text?).all (· == ("meta" : Text))
    && (!Resolver.isRecursive home.2.document || home.2.dialect == .draft2019)
    && home.2.document.every (isLinked home) && home.2.document.everyNested isPart

-- One evaluation for everything that the texts are asked for: reading the literals is what costs.
theorem resources_sound :
    (resources.all isSound && decide (resources.map (·.1.reverse)).Nodup) = true := by
  delta isSound isLinked leads
  rw [resources_spelled]
  decide +kernel

/-- Whether an object has no anchor with a name of its own. -/
def isAnchorless : Document → Bool
  | .object ms => ms.all fun m => match m with
    | (k, .text _) => k != ("$anchor" : Text)
    | _ => true
  | _ => true

theorem resources_anchorless : (resources.all fun e => e.2.document.everyNested isAnchorless) = true := by
  rw [resources_spelled]
  decide +kernel

end Table
variable (hMem : (u, r) ∈ resources)

include hMem

section Entries

theorem isSound_of_mem : isSound (u, r) = true := by
  have hAll := (Bool.and_eq_true_iff.mp resources_sound).1
  exact List.all_eq_true.mp hAll (u, r) hMem

theorem id?_of_mem : r.id? = some u := by
  obtain ⟨d, _, hFound⟩ := List.mem_filterMap.mp hMem
  obtain ⟨id, hId, hSame⟩ := Option.map_eq_some_iff.mp hFound
  obtain ⟨rfl, rfl⟩ := Prod.mk.inj hSame
  exact hId

theorem isAbsolute_of_mem : Uri.isAbsolute u = true := by
  have hSound := isSound_of_mem hMem
  simp only [isSound, Bool.and_eq_true] at hSound
  exact hSound.1.1.1.1.1

/-- A schema of schemas is read in its own dialect wherever it is referred to. -/
theorem inner_of_mem (d : Dialect) : d.inner r.document = r.dialect := by
  have hSound := isSound_of_mem hMem
  simp only [isSound, Bool.and_eq_true, beq_iff_eq] at hSound
  rw [Dialect.inner, hSound.1.1.1.1.2, Option.getD_some]

theorem name_of_dynamicAnchor (h : r.document.get? "$dynamicAnchor" = some (.text name)) :
    name = ("meta" : Text) := by
  have hSound := isSound_of_mem hMem
  simp only [isSound, Bool.and_eq_true, h, Option.bind_some, Document.text?, Option.all_some,
    beq_iff_eq] at hSound
  exact hSound.1.1.1.2

theorem dialect_of_isRecursive (h : Resolver.isRecursive r.document = true) :
    r.dialect = .draft2019 := by
  have hSound := isSound_of_mem hMem
  simp only [isSound, Bool.and_eq_true, h, Bool.not_true, Bool.false_or, beq_iff_eq] at hSound
  exact hSound.1.1.2

theorem leads_of_mem (hInside : Inside r.document (.object ms)) {k : Text}
    (hKey : k ∈ referenceKeywords) (hRef : (k, .text ref) ∈ ms) : leads (u, r) ref = true := by
  have hSound := isSound_of_mem hMem
  simp only [isSound, Bool.and_eq_true] at hSound
  have hLinked := Document.of_every_inside hSound.1.2 hInside
  simpa [hKey] using List.all_eq_true.mp hLinked _ hRef

theorem not_mem_of_nested (hNested : Nested r.document (.object ms)) {k t : Text}
    (hKey : k ∈ wholeKeywords) : (k, .text t) ∉ ms := by
  have hSound := isSound_of_mem hMem
  simp only [isSound, Bool.and_eq_true] at hSound
  have hPart := Document.of_everyNested hSound.2 hNested
  intro hText
  simpa [hKey] using List.all_eq_true.mp hPart _ hText

/-- Nothing inside a schema of schemas says anything about itself as a whole. -/
theorem get?_of_nested (hNested : Nested r.document sub) {k : Text} (hKey : k ∈ wholeKeywords) :
    (sub.get? k).bind Document.text? = none := by
  rw [Option.eq_none_iff_forall_ne_some]
  intro t hText
  obtain ⟨ms, rfl, hSays⟩ := Document.says_of_get? hText
  exact not_mem_of_nested hMem hNested hKey hSays

theorem anchors_of_nested (hNested : Nested r.document sub) (d : Dialect) : (⟨d, sub⟩ : Resource).anchors = [] := by
  have hAnchor : (sub.get? "$anchor").bind Document.text? = none := by
    rw [Option.eq_none_iff_forall_ne_some]
    intro t hText
    obtain ⟨ms, rfl, hSays⟩ := Document.says_of_get? hText
    have hAll := Document.of_everyNested (List.all_eq_true.mp resources_anchorless _ hMem) hNested
    simpa using List.all_eq_true.mp hAll _ hSays
  have hDynamic := get?_of_nested hMem hNested (k := "$dynamicAnchor") (by simp [wholeKeywords])
  have hName := get?_of_nested hMem hNested (k := "$id") (by simp [wholeKeywords])
  have hOldName := get?_of_nested hMem hNested (k := "id") (by simp [wholeKeywords])
  unfold Resource.anchors
  cases d <;> simp [Resource.named, Dialect.idKeyword, hAnchor, hDynamic, hName, hOldName]

theorem inner_of_nested (hNested : Nested r.document sub) (d : Dialect) : d.inner sub = d := by
  rw [Dialect.inner, get?_of_nested hMem hNested (by simp [wholeKeywords])]
  rfl

theorem plain_of_mem : r.Plain fun _ => True where
  dialect := trivial
  declared _ _ := trivial
  unnamed {d sub} _ hNested := by
    have hKey : d.idKeyword ∈ wholeKeywords := by cases d <;> simp [Dialect.idKeyword, wholeKeywords]
    have hNone := get?_of_nested hMem hNested hKey
    simp only [Resource.id?, hNone]
    rfl

/-- From wherever a schema of schemas is seen, its name is the same. -/
theorem nameFrom?_of_mem (hFrom : v = [] ∨ (Uri.parse? v).isSome) : r.nameFrom? v = some u := by
  rw [Resource.nameFrom?, id?_of_mem hMem]
  exact Uri.join?_of_isAbsolute (isAbsolute_of_mem hMem) hFrom

/-- A dynamic anchor in a schema of schemas is declared by the whole. -/
theorem eq_of_belongs (hBelongs : r.Belongs there)
    (hName : there.document.get? "$dynamicAnchor" = some (.text name)) :
    there = r ∧ name = ("meta" : Text) := by
  rcases hBelongs with rfl | ⟨hNested, _⟩
  · exact ⟨rfl, name_of_dynamicAnchor hMem hName⟩
  · have hNone := get?_of_nested hMem hNested (k := "$dynamicAnchor") (by simp [wholeKeywords])
    rw [hName] at hNone
    cases hNone

theorem dropEndWhile_of_mem : Text.dropEndWhile (·.char == '#') u = u := by
  have hId := id?_of_mem hMem
  unfold Resource.id? at hId
  obtain ⟨t, _, hId⟩ := Option.bind_eq_some_iff.mp hId
  split at hId
  · cases hId
  · rw [← Option.some.inj hId]
    exact List.rdropWhile_idempotent _ _

theorem unique_of_mem (hMem' : (u, there) ∈ resources) : there = r := by
  have hNodup : (resources.map (·.1.reverse)).Nodup := by
    simpa using (Bool.and_eq_true_iff.mp resources_sound).2
  exact (Prod.mk.inj (List.inj_on_of_nodup_map hNodup hMem' hMem rfl)).2

end Entries

omit hMem

section OnShelf

theorem resource?_entered : entered.resource? u = some r ↔ (u, r) ∈ resources := by
  rw [entered, Shelf.resource?_foldl_insert]
  have hEmpty : Shelf.empty.resource? u = none := rfl
  rw [hEmpty, Option.or_none]
  constructor
  · intro h
    obtain ⟨before, after, hSplit, _⟩ := List.lookup_eq_some_iff.mp h
    exact List.mem_reverse.mp (by simp [hSplit])
  · intro h
    cases hFound : resources.reverse.lookup u with
    | none =>
        have hNone := List.lookup_eq_none_iff.mp hFound (u, r) (List.mem_reverse.mpr h)
        simp at hNone
    | some there =>
        obtain ⟨before, after, hSplit, _⟩ := List.lookup_eq_some_iff.mp hFound
        have hThere : (u, there) ∈ resources := List.mem_reverse.mp (by simp [hSplit])
        rw [unique_of_mem h hThere]

/-- The shelf of the schemas of schemas holds them under their names, and their anchors. -/
theorem shelf_over : Shelf.Over (fun u r => (u, r) ∈ resources) entered shelf ∧
    ∀ u r, (u, r) ∈ resources → ∀ n a, (n, a) ∈ r.anchors → (shelf.anchor? u n).isSome := by
  have hNames : ∀ n ∈ resources.map (·.1), ∀ r, entered.resource? n = some r →
      (∃ allowed, r.Plain allowed) ∧ ∃ uri, r.nameFrom? n = some uri ∧ (uri, r) ∈ resources := by
    intro n _ r hFound
    have hMem := resource?_entered.mp hFound
    exact ⟨⟨_, plain_of_mem hMem⟩, n,
      nameFrom?_of_mem hMem (Or.inr (Uri.isSome_of_isAbsolute (isAbsolute_of_mem hMem))), hMem⟩
  obtain ⟨s', hRun, hOver, hAnchors⟩ := Shelf.exploreAll_isSome hNames
  rw [shelf, hRun, Option.getD_some]
  refine ⟨hOver, fun u r hMem n a hAnchor => ?_⟩
  exact hAnchors u (List.mem_map_of_mem hMem) r (resource?_entered.mpr hMem) u
    (nameFrom?_of_mem hMem (Or.inr (Uri.isSome_of_isAbsolute (isAbsolute_of_mem hMem)))) n a hAnchor

theorem resource?_shelf : shelf.resource? u = some r ↔ (u, r) ∈ resources := by
  rcases shelf_over.1.resource u with ⟨there, hMem, hFound⟩ | hSame
  · rw [hFound]
    refine ⟨fun h => Option.some.inj h ▸ hMem, fun h => ?_⟩
    rw [unique_of_mem h hMem]
  · rw [hSame, resource?_entered]

/-- Resources under their names, with the anchors that each of them declares as a whole. -/
def laid (entries : List (Text × Resource)) : Shelf :=
  entries.foldl (fun s e => (s.insert e.1 e.2).insertAnchors e.1 e.2)
    (entries.foldl (fun s e => s.insert e.1 e.2) Shelf.empty)

/-- Nothing more is found by looking through the schemas of schemas. -/
theorem shelf_eq_laid : shelf = laid resources := by
  have hRun : ∀ entries ⊆ resources, ∀ s, (entries.map (·.1)).foldlM entered.exploreNamed s =
      some (entries.foldl (fun s e => (s.insert e.1 e.2).insertAnchors e.1 e.2) s) := by
    intro entries hSub
    induction entries with
    | nil => exact fun _ => rfl
    | cons e rest ih =>
        intro s
        obtain ⟨hMem, hRest⟩ := List.cons_subset.mp hSub
        obtain ⟨u, r⟩ := e
        have hName := nameFrom?_of_mem hMem (Or.inr (Uri.isSome_of_isAbsolute (isAbsolute_of_mem hMem)))
        have hNamed : r.id?.isSome := Option.isSome_of_mem (id?_of_mem hMem)
        have hStep := Shelf.explore_bare (plain_of_mem hMem) (fun hNested => anchors_of_nested hMem hNested _) hNamed
          hName r.document.depth s
        rw [List.map_cons, List.foldlM_cons, Shelf.exploreNamed, resource?_entered.mpr hMem]
        dsimp only
        rw [hStep]
        exact ih hRest _
  rw [shelf, Shelf.exploreAll, hRun resources (List.Subset.refl _), Option.getD_some, laid, entered]

theorem shelf_spelled : shelf = laid (resourcesOf spelled.1) := shelf_eq_laid.trans (congrArg laid resources_spelled)

theorem in_of_anchor?_shelf {a : Anchor} (h : shelf.anchor? u name = some a) :
    ∃ r, (u, r) ∈ resources ∧ a.In r name := by
  rcases shelf_over.1.anchor u name with ⟨r, b, hMem, hIn, hFound⟩ | hSame
  · obtain rfl : b = a := Option.some.inj (hFound.symm.trans h)
    exact ⟨r, hMem, hIn⟩
  · rw [hSame, entered, Shelf.anchor?, Shelf.anchors_foldl_insert] at h
    cases h

/-- The root of a dialect's schema of schemas, by characters. -/
theorem metaRoot_spelled (d : Dialect) : d.metaRoot = Resolver.ofRoot
    ((Store.ofDocuments d []).withShelf (laid (resourcesOf spelled.1))) ⟨d, d.metaAmong spelled.1⟩ := by
  rw [← Dialect.meta_spelled, ← shelf_spelled]
  exact metaRoot_eq d

end OnShelf

section Looking

variable {Root : Text → Resource → Prop} {resolver : Resolver} {uri fragment : Text} {why : Unresolved}

/-- Whether a store holds the schemas of schemas among its resources. -/
structure Stocked (Root : Text → Resource → Prop) (st : Store) : Prop extends st.Holds Root where
  root : ∀ {u r}, (u, r) ∈ resources → Root u r
  hasResource : ∀ {u r}, (u, r) ∈ resources → (st.entered.resource? u).isSome
  hasAnchor : ∀ {u r n a}, (u, r) ∈ resources → (n, a) ∈ r.anchors → (st.entered.anchor? u n).isSome

/-- The name and the fragment of a reference that leads somewhere in the table. -/
theorem there_of_leads (hMem : (u, r) ∈ resources) (hLeads : leads (u, r) ref = true)
    (hBase : resolver.base = u) (hParts : resolver.parts ref = .ok (uri, fragment)) :
    ∃ there, (uri, there) ∈ resources ∧ there.dialect = r.dialect ∧
      leadsWithin there fragment = true := by
  unfold Resolver.parts at hParts
  unfold leads at hLeads
  split at hParts
  · next rest hHash =>
      obtain ⟨rfl, rfl⟩ := Prod.mk.inj (Except.ok.inj hParts)
      rw [hHash] at hLeads
      exact ⟨r, hBase ▸ hMem, rfl, hLeads⟩
  · next hNone =>
      rw [hNone] at hLeads
      rw [hBase] at hParts
      split at hParts
      · next parts hJoin =>
          obtain rfl := Except.ok.inj hParts
          simp only [hJoin, List.any_eq_true, Bool.and_eq_true, beq_iff_eq] at hLeads
          obtain ⟨⟨_, there⟩, hThere, ⟨hDialect, rfl⟩, hWithin⟩ := hLeads
          exact ⟨there, hThere, hDialect, hWithin⟩
      · cases hParts

/-- The full names of the schemas of schemas are the same from wherever they are read. -/
theorem parts_of_mem (hHome : (resolver.base, there) ∈ resources) (hMem : (u, r) ∈ resources) :
    resolver.parts u = .ok (u, []) := by
  have hAbsolute := isAbsolute_of_mem hMem
  rw [Resolver.parts, Uri.dropStart?_of_isAbsolute hAbsolute,
    Uri.join?_of_isAbsolute hAbsolute (Or.inr (Uri.isSome_of_isAbsolute (isAbsolute_of_mem hHome))),
    Option.bind_some, Uri.defragment?_of_isAbsolute hAbsolute]

/-- The references of the schemas of schemas are never dead. -/
theorem lookup_ne_error (hHolds : Stocked Root resolver.store) (hMem : (u, r) ∈ resources)
    (hLeads : leads (u, r) ref = true) (hBase : resolver.base = u) :
    resolver.lookup ref ≠ .ok (.error why) := by
  intro hError
  obtain ⟨uri, fragment, hParts, hWay⟩ := Resolver.lookup_error hError
  obtain ⟨there, hThere, _, hWithin⟩ := there_of_leads hMem hLeads hBase hParts
  rcases hWay with hNone | ⟨res, r', hRes, hWay⟩
  · obtain ⟨far, hFar, hGone⟩ := Resolver.resource?_none hNone
    have hKept := hHolds.keepsResource hFar (hHolds.hasResource hThere)
    rw [hGone] at hKept
    cases hKept
  · obtain rfl : res = there :=
      hHolds.unique (Resolver.root_of_resource? hHolds.toHolds hRes) (hHolds.root hThere)
    unfold leadsWithin at hWithin
    rcases hWay with ⟨hSlash, hFollow⟩ | ⟨hSlash, hSome, hAnchor⟩
    · rw [Resolver.follow_eq_walk
        (fun _ hNested => (plain_of_mem hThere).unnamed trivial hNested) _ _ (Or.inl .refl)] at hFollow
      obtain ⟨last, hWalk, hStep⟩ := exists_of_map_ok hFollow
      simp only [hSlash, if_true, hWalk] at hWithin
      cases last with
      | none => cases hWithin
      | some last => cases hStep
    · simp only [hSlash, Bool.false_eq_true, if_false, Bool.or_eq_true, List.isEmpty_iff, hSome,
        false_or, List.any_eq_true, beq_iff_eq] at hWithin
      obtain ⟨⟨_, a⟩, hIn, rfl⟩ := hWithin
      obtain ⟨_, far, _, hFar, hGone, _⟩ := Resolver.anchor_error hAnchor
      rw [(Resolver.resource?_some hRes).1.store] at hFar
      have hKept := hHolds.keepsAnchor hFar (hHolds.hasAnchor hThere hIn)
      rw [hGone] at hKept
      cases hKept

end Looking
end Conform.Schema.Meta

import Conform.Proofs.Schema.Library
import Conform.Proofs.Schema.Parsed
import Conform.Proofs.Schema.Reach

/-! The references that are looked up when a schema is compiled, and those that a validation follows.
In a schema that is one resource the latter are among the former, except for those that stand below a
keyword whose value is data, which a pointer or a property of that name can lead to all the same. -/
namespace Conform.Schema

open Document (Inside Nested Part WellFormed)

namespace Compiled

section Walk

variable {whole d sub : Document} {items : List Document} {ms : Members} {k ref : Text}

/-- What the collection of references goes through: all that is not below a keyword whose value is
data. -/
inductive Walked (whole : Document) : Document → Prop where
  | whole : Walked whole whole
  | item {items : List Document} {d : Document} (h : Walked whole (.list items)) (hMem : d ∈ items) :
      Walked whole d
  | member {ms : Members} {k : Text} {d : Document} (h : Walked whole (.object ms))
      (hMem : (k, d) ∈ ms) (hKey : k ∉ dataKeywords) : Walked whole d

/-- Whether something stands below a keyword whose value is data. -/
def Hidden (whole sub : Document) : Prop :=
  ∃ ms k d, Inside whole (.object ms) ∧ k ∈ dataKeywords ∧ (k, d) ∈ ms ∧ Inside d sub

theorem Walked.inside (h : Walked whole sub) : Inside whole sub := by
  induction h with
  | whole => exact .refl
  | item _ hMem ih => exact ih.part (.item hMem)
  | member _ hMem _ ih => exact ih.part (.member hMem)

theorem walked_or_hidden (h : Inside whole sub) : Walked whole sub ∨ Hidden whole sub := by
  induction h with
  | refl => exact Or.inl .whole
  | tail _ hPart ih =>
      rcases ih with hWalked | ⟨ms, k, d, hInside, hKey, hMem, hBelow⟩
      · cases hPart with
        | item hMem => exact Or.inl (hWalked.item hMem)
        | @member ms k _ hMem =>
            by_cases hKey : k ∈ dataKeywords
            · exact Or.inr ⟨ms, k, _, hWalked.inside, hKey, hMem, .refl⟩
            · exact Or.inl (hWalked.member hMem hKey)
      · exact Or.inr ⟨ms, k, d, hInside, hKey, hMem, hBelow.part hPart⟩

theorem mem_itemReferences : ref ∈ itemReferences items ↔ ∃ d ∈ items, ref ∈ references false d := by
  induction items with
  | nil => simp [itemReferences]
  | cons d rest ih => simp [itemReferences, ih]

theorem mem_memberReferences :
    ref ∈ memberReferences ms ↔ ∃ m ∈ ms, m.1 ∉ dataKeywords ∧ ref ∈ references false m.2 := by
  induction ms with
  | nil => simp [memberReferences]
  | cons m rest ih =>
      obtain ⟨k, d⟩ := m
      by_cases hKey : k ∈ dataKeywords
      · simp [memberReferences, ih, hKey]
      · simp [memberReferences, ih, hKey]

/-- If nothing inside has a name of its own, the references of all that is gone through are
collected. -/
theorem references_subset
    (hUnnamed : ∀ ms, Nested whole (.object ms) → ∀ t, ¬ Members.Says ms "$id" t)
    (h : Walked whole sub) : references true sub ⊆ references true whole := by
  have hPart : ∀ {d}, Nested whole d → references true d = references false d := by
    intro d hNested
    cases d with
    | object ms =>
        have hNone : (Members.get? ms "$id").bind Document.text? = none := by
          rw [Option.bind_eq_none_iff]
          intro v hGet
          cases v with
          | text t => exact absurd (Members.mem_of_get? hGet) (hUnnamed ms hNested t)
          | _ => rfl
        simp [references, hNone]
    | _ => rfl
  induction h with
  | whole => exact List.Subset.refl _
  | item hWalked hMem ih =>
      intro ref hRef
      rw [hPart (hWalked.inside.nested (.item hMem))] at hRef
      exact ih (mem_itemReferences.mpr ⟨_, hMem, hRef⟩)
  | member hWalked hMem hKey ih =>
      intro ref hRef
      rw [hPart (hWalked.inside.nested (.member hMem))] at hRef
      refine ih ?_
      simp only [references, Bool.not_true, Bool.false_and, Bool.false_eq_true, if_false]
      exact List.mem_append_right _ (mem_memberReferences.mpr ⟨_, hMem, hKey, hRef⟩)

theorem mem_references (hWell : WellFormed whole)
    (hUnnamed : ∀ ms, Nested whole (.object ms) → ∀ t, ¬ Members.Says ms "$id" t)
    (h : Walked whole (.object ms)) (hMem : Members.Says ms "$ref" ref) :
    ref ∈ references true whole := by
  refine references_subset hUnnamed h ?_
  have hGet := Members.get?_of_mem (hWell.nodup h.inside) hMem
  simp [references, hGet, Document.text?]

end Walk

section Apart

variable {s : Compiled} {p : Parsed} {offline enforce : Bool} {bs : Bytes} {u : Text} {r : Resource}

/-- The dialects that come into play in a schema: its own, and those that are declared inside. -/
inductive InPlay (s : Compiled) : Dialect → Prop where
  | own : InPlay s s.context.dialect
  | declared {ms : Members} {t : Text} {d : Dialect} (hInside : Inside s.document (.object ms))
      (hSays : Members.Says ms "$schema" t)
      (hNamed : Dialect.ofUri? t = some d ∨ Dialect.ofName? t = some d) : InPlay s d

/-- The names of a schema: those under which it was put into its store, and what the name that it
gives itself makes of each of them. -/
def ownNames (s : Compiled) : List Text :=
  let names := s.context.resolver.store.names
  names ++ names.filterMap fun n => s.root.id?.bind (Uri.join? n)

/-- Whether a schema has only the name against which its references are read. -/
def HasOneName (s : Compiled) : Prop := ∀ u ∈ s.ownNames, u = s.context.resolver.base

/-- Whether a schema is one resource, in which no schema has a name of its own, and no reference
depends on the way that was taken to it. -/
structure IsOneResource (s : Compiled) : Prop where
  unnamed : ∀ ms, Nested s.document (.object ms) → ∀ t, ¬ Members.Says ms "$id" t
  /-- In the oldest dialect a name has another keyword. -/
  unnamedOld : s.InPlay .draft4 → ∀ ms, Nested s.document (.object ms) → ∀ t, ¬ Members.Says ms "id" t
  static : ∀ ms, Inside s.document (.object ms) →
    (∀ t, ¬ Members.Says ms "$dynamicRef" t) ∧ Members.has ms "$recursiveRef" = false

/-- Whether a schema keeps out of the way of the schemas of schemas: it takes none of their names,
it does not offer itself in place of one, and where one of them asks for the schemas that were passed
on the way, it is found by its name. -/
structure StandsApart (s : Compiled) : Prop where
  names : ∀ u ∈ s.ownNames, ∀ r, (Text.dropEndWhile (·.char == '#') u, r) ∉ Meta.resources
  anchors : ∀ ms, Inside s.document (.object ms) → ¬ Members.Says ms "$dynamicAnchor" "meta"
  around : (∀ c d, Reaches s.context s.document c d → ∀ r, (c.resolver.base, r) ∈ Meta.resources →
      r.dialect ≠ .draft2019) ∨
    (s.HasOneName ∧ (s.context.resolver.base = [] ∨ ∀ (resolver : Resolver) r,
      (resolver.base, r) ∈ Meta.resources → r.dialect = .draft2019 →
        resolver.parts s.context.resolver.base = .ok (s.context.resolver.base, [])))

/-- What a schema's store holds under a name: the schema itself, or a schema of schemas. -/
def Owns (s : Compiled) (u : Text) (r : Resource) : Prop :=
  (u ∈ s.ownNames ∧ r = s.root) ∨ (u, r) ∈ Meta.resources

theorem not_meta (hNames : ∀ u ∈ s.ownNames, ∀ r, (Text.dropEndWhile (·.char == '#') u, r) ∉ Meta.resources)
    (hOwn : u ∈ s.ownNames) : (u, r) ∉ Meta.resources := fun hMem =>
  hNames u hOwn r (by rwa [Meta.dropEndWhile_of_mem hMem])

theorem plain_root (hOne : s.IsOneResource) :
    s.root.Plain fun d => d = .draft4 → s.InPlay .draft4 where
  dialect hOld := hOld ▸ InPlay.own
  declared {d sub} hAllowed hNested hOld := by
    cases hDeclared : ((sub.get? "$schema").bind Document.text?).bind Dialect.ofUri? with
    | none =>
        simp only [Resource.ofDocument, hDeclared, Option.getD_none] at hOld
        exact hAllowed hOld
    | some d' =>
        simp only [Resource.ofDocument, hDeclared, Option.getD_some] at hOld
        obtain ⟨t, hText, hUri⟩ := Option.bind_eq_some_iff.mp hDeclared
        obtain ⟨ms, rfl, hSays⟩ := Document.says_of_get? hText
        exact .declared hNested.inside hSays (Or.inl (hOld ▸ hUri))
  unnamed {d sub} hAllowed hNested := by
    refine Resource.id?_eq_none fun ms t hDocument hSays => ?_
    obtain rfl : sub = .object ms := hDocument
    cases d with
    | draft4 => exact hOne.unnamedOld (hAllowed rfl) ms hNested t hSays
    | _ => exact hOne.unnamed ms hNested t hSays

/-- How the store of a schema without other documents was made. -/
theorem store_eq (hOf : ofParsed p [] = .ok s) : ∃ docs : List (Text × Document),
    (∀ e ∈ docs, e.2 = s.document) ∧ s.context.resolver.base = s.root.id?.getD [] ∧
    s.context.resolver.store = ((Store.ofDocuments s.context.dialect docs).withShelf Meta.shelf).insert
      (s.root.id?.getD []) s.root := by
  obtain ⟨hDocument, _, ⟨docs, hLibrary, hResolver⟩, _⟩ := ofParsed_ok hOf
  refine ⟨docs, fun ⟨name, d⟩ hE => ?_, by rw [hResolver]; rfl, by rw [hResolver]; rfl⟩
  obtain ⟨id, _, hMem⟩ := mem_library hLibrary hE
  unfold members at hMem
  split at hMem
  · cases hMem
  · rw [hDocument]
    exact (Prod.mk.inj (List.mem_singleton.mp hMem)).2

section Stock

variable (hRead : Parsed.read offline bs = .ok p) (hOf : ofParsed p [] = .ok s)

include hOf in
theorem base_mem_names : s.context.resolver.base ∈ s.context.resolver.store.names := by
  obtain ⟨docs, _, hBase, hStore⟩ := store_eq hOf
  rw [hBase, hStore, Store.names_insert]
  exact List.mem_append_right _ (List.mem_singleton.mpr rfl)

include hRead hOf in
theorem ofDocument_root : Resource.ofDocument s.context.dialect s.document = s.root := by
  obtain ⟨hDocument, hDialect, _⟩ := ofParsed_ok hOf
  rw [root, hDocument, hDialect]
  exact Parsed.ofDocument_eq hRead

include hRead hOf in
theorem owns_of_entered (hFound : s.context.resolver.store.entered.resource? u = some r) :
    s.Owns u r := by
  obtain ⟨docs, hDocs, _, hStore⟩ := store_eq hOf
  have hName : ∀ n ∈ (docs.map (·.1)).filter (· != s.root.id?.getD []) ++ [s.root.id?.getD []],
      n ∈ s.ownNames := by
    intro n hN
    rw [← Store.names_insert Meta.shelf s.context.dialect docs s.root, ← hStore] at hN
    exact List.mem_append_left _ hN
  rw [hStore, Store.resource?_entered] at hFound
  split at hFound
  · next hHere =>
      obtain rfl := Option.some.inj hFound
      exact Or.inl ⟨hName u (List.mem_append_right _ (List.mem_singleton.mpr hHere)), rfl⟩
  · next hOther =>
      rcases Option.or_eq_some_iff.mp hFound with hMeta | ⟨_, hLookup⟩
      · exact Or.inr (Meta.resource?_shelf.mp hMeta)
      · obtain ⟨before, after, hSplit, _⟩ := List.lookup_eq_some_iff.mp hLookup
        have hIn : (u, r) ∈ docs.map fun d => (d.1, Resource.ofDocument s.context.dialect d.2) :=
          List.mem_reverse.mp (by simp [hSplit])
        obtain ⟨e, hE, hSame⟩ := List.mem_map.mp hIn
        obtain ⟨rfl, rfl⟩ := Prod.mk.inj hSame
        refine Or.inl ⟨hName _ (List.mem_append_left _ ?_), ?_⟩
        · exact List.mem_filter.mpr ⟨List.mem_map_of_mem hE, bne_iff_ne.mpr hOther⟩
        · rw [hDocs e hE, ofDocument_root hRead hOf]

variable (hOne : s.IsOneResource)
  (hNames : ∀ u ∈ s.ownNames, ∀ r, (Text.dropEndWhile (·.char == '#') u, r) ∉ Meta.resources)

include hNames in
theorem owns_unique {r' : Resource} (h : s.Owns u r) (h' : s.Owns u r') : r = r' := by
  rcases h with ⟨hOwn, rfl⟩ | hMem
  · rcases h' with ⟨_, rfl⟩ | hMem'
    · rfl
    · exact absurd hMem' (not_meta hNames hOwn)
  · rcases h' with ⟨hOwn, rfl⟩ | hMem'
    · exact absurd hMem (not_meta hNames hOwn)
    · exact Meta.unique_of_mem hMem' hMem

include hOne in
theorem owns_plain (h : s.Owns u r) : ∃ allowed, r.Plain allowed := by
  rcases h with ⟨_, rfl⟩ | hMem
  · exact ⟨_, plain_root hOne⟩
  · exact ⟨_, Meta.plain_of_mem hMem⟩

include hRead hOf hOne hNames in
/-- All that is found on looking inside the resources of the store belongs to the schema itself. -/
theorem found_over {far : Shelf} (hFar : s.context.resolver.store.found = some far) :
    Shelf.Over s.Owns s.context.resolver.store.entered far := by
  obtain ⟨docs, _, _, hStore⟩ := store_eq hOf
  have hRun : s.context.resolver.store.entered.exploreAll (Text.sorted s.context.resolver.store.names) =
      some far := by
    rw [← hFar, hStore, Store.found_insert]
  refine Shelf.exploreAll_over (fun n hSorted r hFound => ?_) hRun
  have hN : n ∈ s.context.resolver.store.names := List.mem_mergeSort.mp hSorted
  have hOwns := owns_of_entered hRead hOf hFound
  refine ⟨owns_plain hOne hOwns, fun uri hUri => ?_⟩
  obtain rfl : r = s.root := owns_unique hNames hOwns (Or.inl ⟨List.mem_append_left _ hN, rfl⟩)
  refine Or.inl ⟨?_, rfl⟩
  unfold Resource.nameFrom? at hUri
  split at hUri
  · next id hId =>
      refine List.mem_append_right _ (List.mem_filterMap.mpr ⟨n, hN, ?_⟩)
      rw [hId, Option.bind_some, hUri]
  · exact Option.some.inj hUri ▸ List.mem_append_left _ hN

include hRead hOf hOne hNames in
/-- The store of a schema without other documents holds the schema itself and the schemas of
schemas. -/
theorem stocked : Meta.Stocked s.Owns s.context.resolver.store where
  resource {sh u r} hHas hFound := by
    rcases hHas with rfl | hFar
    · exact owns_of_entered hRead hOf hFound
    · rcases (found_over hRead hOf hOne hNames hFar).resource u with ⟨r', hOwns, hFound'⟩ | hSame
      · exact Option.some.inj (hFound'.symm.trans hFound) ▸ hOwns
      · exact owns_of_entered hRead hOf (hSame ▸ hFound)
  anchor {sh u n a} hHas hFound := by
    obtain ⟨docs, _, _, hStore⟩ := store_eq hOf
    have hEntered : ∀ {a}, s.context.resolver.store.entered.anchor? u n = some a →
        ∃ r, s.Owns u r ∧ a.In r n := by
      intro a hFound
      rw [hStore, Store.anchor?_entered] at hFound
      obtain ⟨r, hMem, hIn⟩ := Meta.in_of_anchor?_shelf hFound
      exact ⟨r, Or.inr hMem, hIn⟩
    rcases hHas with rfl | hFar
    · exact hEntered hFound
    · rcases (found_over hRead hOf hOne hNames hFar).anchor u n with ⟨r, b, hOwns, hIn, hFound'⟩ | hSame
      · obtain rfl : b = a := Option.some.inj (hFound'.symm.trans hFound)
        exact ⟨r, hOwns, hIn⟩
      · exact hEntered (hSame ▸ hFound)
  keepsResource hFar := (found_over hRead hOf hOne hNames hFar).resource_isSome
  keepsAnchor hFar := (found_over hRead hOf hOne hNames hFar).anchor_isSome
  unique := owns_unique hNames
  plain := owns_plain hOne
  own {u r id} hOwns hId := by
    rcases hOwns with ⟨_, rfl⟩ | hMem
    · obtain ⟨_, _, hBase, _⟩ := store_eq hOf
      rw [hId, Option.getD_some] at hBase
      exact Or.inl ⟨hBase ▸ List.mem_append_left _ (base_mem_names hOf), rfl⟩
    · obtain rfl : u = id := Option.some.inj ((Meta.id?_of_mem hMem).symm.trans hId)
      exact Or.inr hMem
  root hMem := Or.inr hMem
  hasResource {u r} hMem := by
    obtain ⟨docs, _, _, hStore⟩ := store_eq hOf
    rw [hStore, Store.resource?_entered, Meta.resource?_shelf.mpr hMem]
    split <;> rfl
  hasAnchor {u r n a} hMem hIn := by
    obtain ⟨docs, _, _, hStore⟩ := store_eq hOf
    rw [hStore, Store.anchor?_entered]
    exact Meta.shelf_over.2 u r hMem n a hIn

end Stock

section Positions

/-- Where a validation can be: in the schema itself, read against one of its names, or in a schema of
schemas, read against the name of that. -/
inductive Place (s : Compiled) (c : Context) (d : Document) : Prop where
  | own (hInside : Inside s.document d ∨ ∃ t, d = .text t)
      (hBase : s.HasOneName → c.resolver.base = s.context.resolver.base)
      (hDialect : c.dialect = .draft4 → s.InPlay .draft4)
  | away {r : Resource} (hMem : (c.resolver.base, r) ∈ Meta.resources)
      (hInside : Inside r.document d ∨ ∃ t, d = .text t)
      (hDialect : c.dialect = .draft4 → s.InPlay .draft4 ∨ r.dialect = .draft4)

/-- What holds of every position that a validation can come to. The names that were passed are the
schema's own and those of schemas of schemas. -/
structure Position (s : Compiled) (c : Context) (d : Document) : Prop where
  store : c.resolver.store = s.context.resolver.store
  scope : ∀ u ∈ c.resolver.scope, (∃ r, (u, r) ∈ Meta.resources) ∨
    (u ≠ [] ∧ (s.HasOneName → u = s.context.resolver.base))
  place : s.Place c d

theorem nested_of_applies {ms : Members} {sub : Document} (h : Applies ms sub) :
    Nested (.object ms) sub := by
  cases h with
  | whole _ hMem => exact .single (.member hMem)
  | @item _ v _ _ hMem hItem =>
      cases v with
      | list items => exact .tail (.single (.member hMem)) (.item hItem)
      | _ => cases hItem
  | @member _ v _ _ hMem hValue =>
      cases v with
      | object inner =>
          obtain ⟨m, hM, rfl⟩ := List.mem_map.mp hValue
          exact .tail (.single (.member hMem)) (.member hM)
      | _ => cases hValue

/-- A dialect that a schema inside declares is in play. -/
theorem inPlay_of_inner {d : Dialect} {sub : Document}
    (hInside : Inside s.document sub ∨ ∃ t, sub = .text t) (hBefore : d = .draft4 → s.InPlay .draft4)
    (hOld : d.inner sub = .draft4) : s.InPlay .draft4 := by
  unfold Dialect.inner at hOld
  cases hDeclared : ((sub.get? "$schema").bind Document.text?).bind Dialect.ofName? with
  | none =>
      rw [hDeclared, Option.getD_none] at hOld
      exact hBefore hOld
  | some d' =>
      rw [hDeclared, Option.getD_some] at hOld
      obtain ⟨t, hText, hName⟩ := Option.bind_eq_some_iff.mp hDeclared
      obtain ⟨ms, rfl, hSays⟩ := Document.says_of_get? hText
      rcases hInside with hInside | ⟨t, hOther⟩
      · exact .declared hInside hSays (Or.inr (hOld ▸ hName))
      · cases hOther

/-- In a schema of schemas the dialect is that of the whole or the one before. -/
theorem dialect_of_inside {d : Dialect} {sub : Document} {P : Prop} (hMem : (u, r) ∈ Meta.resources)
    (hInside : Inside r.document sub ∨ ∃ t, sub = .text t)
    (hBefore : d = .draft4 → P ∨ r.dialect = .draft4) (hOld : d.inner sub = .draft4) :
    P ∨ r.dialect = .draft4 := by
  rcases hInside with hInside | ⟨t, rfl⟩
  · rcases Document.inside_iff.mp hInside with rfl | hNested
    · exact Or.inr (Meta.inner_of_mem hMem d ▸ hOld)
    · exact hBefore (Meta.inner_of_nested hMem hNested d ▸ hOld)
  · exact hBefore hOld

variable {c : Context} {ms : Members} {d sub : Document} {t : Target} {ref uri fragment : Text}

section Step

variable (hOne : s.IsOneResource) (hApart : s.StandsApart)

theorem position_start (hOf : ofParsed p [] = .ok s) : s.Position s.context s.document where
  store := rfl
  scope u hMem := by
    obtain ⟨_, _, ⟨docs, _, hResolver⟩, _⟩ := ofParsed_ok hOf
    rw [hResolver] at hMem
    cases hMem
  place := .own (Or.inl .refl) (fun _ => rfl) fun hOld => hOld ▸ .own

include hOne in
/-- A schema inside the present one is read against the same name. -/
theorem place_of_applies (h : s.Place c (.object ms)) (hApplies : Applies ms sub) :
    (⟨c.dialect, sub⟩ : Resource).id? = none ∧ s.Place (c.of sub) sub ∧ s.Place c sub := by
  have hBelow := nested_of_applies hApplies
  cases h with
  | own hInside hBase hDialect =>
      obtain hInside | ⟨_, hText⟩ := hInside
      · have hNested := hInside.nested_trans hBelow
        exact ⟨(plain_root hOne).unnamed hDialect hNested,
          .own (Or.inl hNested.inside) hBase (inPlay_of_inner (Or.inl hNested.inside) hDialect),
          .own (Or.inl hNested.inside) hBase hDialect⟩
      · cases hText
  | away hMem hInside hDialect =>
      obtain hInside | ⟨_, hText⟩ := hInside
      · have hNested := hInside.nested_trans hBelow
        exact ⟨(Meta.plain_of_mem hMem).unnamed trivial hNested,
          .away hMem (Or.inl hNested.inside) (dialect_of_inside hMem (Or.inl hNested.inside) hDialect),
          .away hMem (Or.inl hNested.inside) hDialect⟩
      · cases hText

include hApart in
theorem eq_root_of_owns (hOwn : uri ∈ s.ownNames)
    (hName : u = uri ∨ u = Text.dropEndWhile (·.char == '#') uri) (h : s.Owns u r) : r = s.root := by
  rcases h with ⟨_, hRoot⟩ | hMem
  · exact hRoot
  · rcases hName with rfl | rfl
    · exact absurd hMem (not_meta hApart.names hOwn)
    · exact absurd hMem (hApart.names uri hOwn r)

theorem says_of_belongs {name : Text} (hBelongs : s.root.Belongs r)
    (hName : r.document.get? "$dynamicAnchor" = some (.text name)) :
    Inside s.document r.document ∧ ∃ ms, r.document = .object ms ∧ Members.Says ms "$dynamicAnchor" name := by
  refine ⟨?_, Document.says_of_get? (by rw [hName]; rfl)⟩
  rcases hBelongs with rfl | ⟨hNested, _⟩
  · exact .refl
  · exact hNested.inside

variable (hDialect : c.dialect = .draft4 → s.InPlay .draft4 ∨ r.dialect = .draft4)

include hApart hDialect in
theorem place_of_ends_own (hBaseName : s.context.resolver.base ∈ s.context.resolver.store.names)
    (hOwn : uri ∈ s.ownNames) (hRoot : r = s.root) (h : Resolver.Ends s.Owns uri fragment t) :
    s.Place (c.at_ t) t.document := by
  have hInPlay : c.dialect = .draft4 → s.InPlay .draft4 := fun hOld =>
    (hDialect hOld).elim (fun hOld => hOld) fun hRootOld => by
      rw [hRoot] at hRootOld
      exact (show s.context.dialect = .draft4 from hRootOld) ▸ InPlay.own
  cases h with
  | inside hName hOwns hInside hBase =>
      obtain rfl := eq_root_of_owns hApart hOwn hName hOwns
      exact .own hInside (fun hOneName => hBase.trans (hOneName uri hOwn)) (inPlay_of_inner hInside hInPlay)
  | @outward near last hNear hLast hDocument hBase =>
      obtain ⟨u, whole, hName, hOwns, hBelongs, hDynamic⟩ := hNear
      obtain rfl := eq_root_of_owns hApart hOwn hName hOwns
      obtain ⟨hNearInside, ms, hNearObject, hSays⟩ := says_of_belongs hBelongs hDynamic
      have hFragment : fragment ≠ ("meta" : Text) := by
        rintro rfl
        exact hApart.anchors ms (hNearObject ▸ hNearInside) hSays
      obtain ⟨u', whole', _, hOwns', hBelongs', hDynamic'⟩ := hLast
      rcases hOwns' with ⟨_, rfl⟩ | hMem
      · obtain ⟨hInside, _⟩ := says_of_belongs hBelongs' hDynamic'
        rw [hDocument]
        refine .own (Or.inl hInside) (fun hOneName => ?_)
          (inPlay_of_inner (Or.inl (hDocument.symm ▸ hInside)) hInPlay)
        obtain rfl := hOneName uri hOwn
        -- The name that is left is one that the schema's own name makes of another of its names.
        rcases hBelongs' with rfl | ⟨_, hUnnamed⟩
        · refine hOneName _ ?_
          unfold Resource.nameFrom? at hBase
          split at hBase
          · next id hId =>
              refine List.mem_append_right _ (List.mem_filterMap.mpr ⟨_, hBaseName, ?_⟩)
              rw [hId, Option.bind_some, hBase]
              rfl
          · obtain hSame := Option.some.inj hBase
            exact hSame ▸ hOwn
        · rw [Resource.nameFrom?, hUnnamed] at hBase
          exact (Option.some.inj hBase).symm
      · exact absurd (Meta.eq_of_belongs hMem hBelongs' hDynamic').2 hFragment

include hApart hDialect in
theorem place_of_ends_away (hMem : (uri, r) ∈ Meta.resources)
    (h : Resolver.Ends s.Owns uri fragment t) : s.Place (c.at_ t) t.document := by
  have hSame : ∀ {u whole}, (u = uri ∨ u = Text.dropEndWhile (·.char == '#') uri) → s.Owns u whole →
      whole = r := by
    intro u whole hName hOwns
    rw [Meta.dropEndWhile_of_mem hMem, or_self] at hName
    exact owns_unique hApart.names hOwns (hName.symm ▸ Or.inr hMem)
  cases h with
  | inside hName hOwns hInside hBase =>
      obtain rfl := hSame hName hOwns
      exact .away (show (t.resolver.base, _) ∈ _ from hBase.symm ▸ hMem) hInside
        (dialect_of_inside hMem hInside hDialect)
  | @outward near last hNear hLast hDocument hBase =>
      obtain ⟨u, whole, hName, hOwns, hBelongs, hDynamic⟩ := hNear
      obtain rfl := hSame hName hOwns
      obtain ⟨_, rfl⟩ := Meta.eq_of_belongs hMem hBelongs hDynamic
      obtain ⟨u', whole', _, hOwns', hBelongs', hDynamic'⟩ := hLast
      rcases hOwns' with ⟨_, rfl⟩ | hMem'
      · obtain ⟨hInside, ms, hObject, hSays⟩ := says_of_belongs hBelongs' hDynamic'
        exact absurd hSays (hApart.anchors ms (hObject ▸ hInside))
      · obtain ⟨rfl, _⟩ := Meta.eq_of_belongs hMem' hBelongs' hDynamic'
        rw [Resource.nameFrom?, Meta.id?_of_mem hMem'] at hBase
        obtain hBase := Uri.eq_of_join? (Meta.isAbsolute_of_mem hMem') hBase
        refine .away (show (t.resolver.base, _) ∈ _ from hBase.symm ▸ hMem') (Or.inl (hDocument ▸ .refl)) ?_
        intro hOld
        exact Or.inr (Meta.inner_of_mem hMem' c.dialect ▸ hDocument ▸ hOld)

theorem position_of_ends (h : s.Position c d) (hStore : t.resolver.store = c.resolver.store)
    (hScope : ∀ u ∈ t.resolver.scope, u ∈ c.resolver.scope ∨ (u = c.resolver.base ∧ c.resolver.base ≠ []))
    (hPlace : s.Place (c.at_ t) t.document) : s.Position (c.at_ t) t.document where
  store := hStore.trans h.store
  scope u hMem := by
    rcases hScope u hMem with hBefore | ⟨rfl, hSome⟩
    · exact h.scope u hBefore
    · cases h.place with
      | own _ hBase _ => exact Or.inr ⟨hSome, hBase⟩
      | away hMem _ _ => exact Or.inl ⟨_, hMem⟩
  place := hPlace

end Step

section Run

variable (hOne : s.IsOneResource) (hApart : s.StandsApart) (hRead : Parsed.read offline bs = .ok p)
  (hOf : ofParsed p [] = .ok s)

include hOne hApart hRead hOf

theorem stocked_of_position (h : s.Position c d) : Meta.Stocked s.Owns c.resolver.store := by
  rw [h.store]
  exact stocked hRead hOf hOne hApart.names

/-- A reference leads to such a position again. -/
theorem position_of_lookup {k : Text} (h : s.Position c (.object ms)) (hKey : k ∈ referenceKeywords)
    (hMem : (k, .text ref) ∈ ms) (hLookup : c.resolver.lookup ref = .ok (.ok t)) :
    s.Position (c.at_ t) t.document := by
  have hStocked := stocked_of_position hOne hApart hRead hOf h
  obtain ⟨uri, fragment, res, hParts, hOwns, hStore, hScope, hEnds⟩ :=
    Resolver.lookup_ends hStocked.toHolds hLookup
  refine position_of_ends h hStore hScope ?_
  cases h.place with
  | own _ _ hDialect =>
      rcases hOwns with ⟨hOwn, hRoot⟩ | hMeta
      · exact place_of_ends_own hApart (fun hOld => Or.inl (hDialect hOld)) (base_mem_names hOf) hOwn
          hRoot hEnds
      · exact place_of_ends_away hApart (fun hOld => Or.inl (hDialect hOld)) hMeta hEnds
  | @away home hHome hInside hDialect =>
      obtain hInside | ⟨_, hText⟩ := hInside
      · obtain ⟨there, hThere, hSame, _⟩ :=
          Meta.there_of_leads hHome (Meta.leads_of_mem hHome hInside hKey hMem) rfl hParts
        exact place_of_ends_away hApart (hSame ▸ hDialect) hThere hEnds
      · cases hText

/-- Where a reference to the root leads from a schema of schemas, and that it is not dead. The names
that were passed are looked up only from schemas of the dialect that has such references. -/
theorem position_of_recursive (hReach : Reaches s.context s.document c (.object ms))
    (h : s.Position c (.object ms)) (hHas : Members.has ms "$recursiveRef" = true) :
    (∀ t, c.resolver.lookupRecursive = .ok (.ok t) → s.Position (c.at_ t) t.document) ∧
      ∀ why, c.resolver.lookupRecursive ≠ .ok (.error why) := by
  have hStocked := stocked_of_position hOne hApart hRead hOf h
  cases h.place with
  | own hInside _ _ =>
      obtain hInside | ⟨_, hText⟩ := hInside
      · rw [(hOne.static ms hInside).2] at hHas
        cases hHas
      · cases hText
  | @away home hHome _ hDialect =>
      have hHere : ∀ {ref uri t res}, c.resolver.parts ref = .ok (uri, []) → (uri, res) ∈ Meta.resources →
          (c.dialect = .draft4 → s.InPlay .draft4 ∨ res.dialect = .draft4) →
          c.resolver.lookup ref = .ok (.ok t) → s.Position (c.at_ t) t.document := by
        intro ref uri t res hParts hMem hOld hLookup
        obtain ⟨uri', fragment, _, hParts', _, hStore, hScope, hEnds⟩ :=
          Resolver.lookup_ends hStocked.toHolds hLookup
        obtain ⟨rfl, rfl⟩ := Prod.mk.inj (Except.ok.inj (hParts.symm.trans hParts'))
        exact position_of_ends h hStore hScope (place_of_ends_away hApart hOld hMem hEnds)
      -- What is known of the names that were passed, once they are looked up.
      have hPassed : ∀ near, c.resolver.lookup "#" = .ok (.ok near) →
          Resolver.isRecursive near.document = true → ∀ uri ∈ c.resolver.scope,
          (c.resolver.store.entered.resource? uri).isSome ∧ c.resolver.parts uri = .ok (uri, []) ∧
          ∀ t, c.resolver.lookup uri = .ok (.ok t) → s.Position (c.at_ t) t.document := by
        intro near hNear hPasses uri hUri
        obtain ⟨res, hOwns, hDocument, _⟩ :=
          Resolver.lookup_whole hStocked.toHolds hNear (Resolver.parts_root c.resolver)
        obtain rfl := owns_unique hApart.names hOwns (Or.inr hHome)
        have hNew : res.dialect = .draft2019 := Meta.dialect_of_isRecursive hHome (hDocument ▸ hPasses)
        have hInPlay : c.dialect = .draft4 → s.InPlay .draft4 := fun hOld =>
          (hDialect hOld).elim (fun hOld => hOld) fun hOther => by rw [hNew] at hOther; cases hOther
        rcases h.scope uri hUri with ⟨r, hMem⟩ | ⟨hSome, hOwnName⟩
        · have hParts := Meta.parts_of_mem hHome hMem
          exact ⟨hStocked.hasResource hMem, hParts, fun t => hHere hParts hMem fun hOld => Or.inl (hInPlay hOld)⟩
        · rcases hApart.around with hNever | ⟨hOneName, hEmpty | hFound⟩
          · exact absurd hNew (hNever c _ hReach res hHome)
          · exact absurd ((hOwnName hOneName).trans hEmpty) hSome
          · obtain rfl := hOwnName hOneName
            have hParts := hFound c.resolver res hHome hNew
            refine ⟨?_, hParts, fun t hLookup => ?_⟩
            · obtain ⟨docs, _, hBase, hStore⟩ := store_eq hOf
              rw [h.store, hStore, Store.resource?_entered, if_pos hBase]
              rfl
            · obtain ⟨uri', fragment, _, hParts', _, hStore, hScope, hEnds⟩ :=
                Resolver.lookup_ends hStocked.toHolds hLookup
              obtain ⟨rfl, rfl⟩ := Prod.mk.inj (Except.ok.inj (hParts.symm.trans hParts'))
              exact position_of_ends h hStore hScope (place_of_ends_own hApart
                (fun hOld => Or.inl (hInPlay hOld)) (base_mem_names hOf)
                (List.mem_append_left _ (base_mem_names hOf)) rfl hEnds)
      refine ⟨fun t hLookup => ?_, fun why hError => ?_⟩
      · exact Resolver.lookupRecursive_ok (P := fun t => s.Position (c.at_ t) t.document) hLookup
          fun near hNear => ⟨hHere (Resolver.parts_root _) hHome hDialect hNear,
            fun hPasses uri hUri => (hPassed near hNear hPasses uri hUri).2.2⟩
      · rcases Resolver.lookupRecursive_error hError with hDead | ⟨near, hNear, hPasses, uri, hUri, hDead⟩
        · exact Resolver.lookup_whole_ne_error hStocked.toHolds (Resolver.parts_root _)
            (hStocked.hasResource hHome) hDead
        · obtain ⟨hIn, hParts, _⟩ := hPassed near hNear hPasses uri hUri
          exact Resolver.lookup_whole_ne_error hStocked.toHolds hParts hIn hDead

/-- Every position that a validation comes to is in the schema itself or in a schema of schemas. -/
theorem position_of_reaches (h : Reaches s.context s.document c d) : s.Position c d := by
  induction h with
  | root => exact position_start hOf
  | @entered c ms sub resolver _ hApplies hEnter ih =>
      obtain ⟨hUnnamed, hPlace, _⟩ := place_of_applies hOne ih.place hApplies
      obtain rfl : c.resolver = resolver := by
        rw [Resolver.enter, hUnnamed] at hEnter
        exact Except.ok.inj hEnter
      exact ⟨ih.store, ih.scope, hPlace⟩
  | inspected _ hApplies ih => exact ⟨ih.store, ih.scope, (place_of_applies hOne ih.place hApplies).2.1⟩
  | surveyed _ hApplies ih => exact ⟨ih.store, ih.scope, (place_of_applies hOne ih.place hApplies).2.2⟩
  | referred _ hKey hMem hLookup ih => exact position_of_lookup hOne hApart hRead hOf ih hKey hMem hLookup
  | recurred hReach hHas hLookup ih =>
      exact (position_of_recursive hOne hApart hRead hOf hReach ih hHas).1 _ hLookup

end Run

end Positions

end Apart

/-- If a validation runs into a reference that leads nowhere although the schema was compiled, that
reference stands in the schema itself, below a keyword whose value is data, where the references that
are looked up on compilation are not collected; or else it is read against another name than that. -/
theorem hidden_of_deadEnd {s : Compiled} {offline enforce named : Bool} {bs : Bytes} {x : Document}
    {why : Unresolved} (hRead : read offline enforce bs = .ok s) (hOne : s.IsOneResource)
    (hApart : s.StandsApart) (hDead : s.validate x = .error (.deadEnd named why)) :
    ∃ c ms ref, Reaches s.context s.document c (.object ms) ∧ Inside s.document (.object ms) ∧
      Members.Says ms "$ref" ref ∧ c.resolver.lookup ref = .ok (.error why) ∧
      (s.HasOneName ∨ c.resolver.base = s.context.resolver.base → Hidden s.document (.object ms)) := by
  obtain ⟨p, hParsed, hOf⟩ := ofParsed_of_read hRead
  obtain ⟨hDocument, _, _, hChecked⟩ := ofParsed_ok hOf
  have hWell : WellFormed s.document := hDocument ▸ Parsed.wellFormed_of_read hParsed
  have hStop : (check s.context s.document x).all = .error (.deadEnd named why) := by
    unfold validate at hDead
    cases hAll : (check s.context s.document x).all with
    | error f => rw [hAll] at hDead; exact congrArg _ (Except.error.inj hDead)
    | ok found => rw [hAll] at hDead; cases hDead
  obtain ⟨c, ms, hReach, hMeets⟩ := Reaches.meetsDeadReference hStop
  have hPosition := position_of_reaches hOne hApart hParsed hOf hReach
  have hStocked := stocked_of_position hOne hApart hParsed hOf hPosition
  rcases hMeets with ⟨k, hKey, ref, hMem, hLookup⟩ | ⟨hHas, hLookup⟩
  · cases hPosition.place with
    | own hInside hBase _ =>
        obtain hInside | ⟨_, hText⟩ := hInside
        · obtain rfl : k = "$ref" := by
            rcases List.mem_cons.mp hKey with rfl | hKey
            · exact absurd hMem ((hOne.static ms hInside).1 ref)
            · exact List.mem_singleton.mp hKey
          refine ⟨c, ms, ref, hReach, hInside, hMem, hLookup, fun hSameName => ?_⟩
          have hBase : s.context.resolver.base = c.resolver.base :=
            (hSameName.elim hBase fun hSame => hSame).symm
          refine (walked_or_hidden hInside).resolve_left fun hWalked => ?_
          obtain ⟨t, hOk⟩ := hChecked ref (mem_references hWell hOne.unnamed hWalked hMem)
          exact Resolver.lookup_ne_error hStocked.toHolds hPosition.store.symm hBase hOk hLookup
        · cases hText
    | away hHome hInside _ =>
        obtain hInside | ⟨_, hText⟩ := hInside
        · exact absurd hLookup
            (Meta.lookup_ne_error hStocked hHome (Meta.leads_of_mem hHome hInside hKey hMem) rfl)
        · cases hText
  · exact absurd hLookup ((position_of_recursive hOne hApart hParsed hOf hReach hPosition hHas).2 why)

section Unnamed

/-- The keywords by which a schema is more than one nameless resource. -/
def namingKeywords : List Text := ["$dynamicAnchor", "$dynamicRef", "$id", "$recursiveRef", "id"]

/-- Whether a document has none of them as a member. -/
def isUnnamed : Document → Bool
  | .object ms => !namingKeywords.any (Members.has ms)
  | _ => true

/-- A test that excludes all names and all references that depend on the way to them. -/
def isNameless (s : Compiled) : Bool :=
  s.ownNames.all List.isEmpty && s.context.resolver.base.isEmpty && s.document.every isUnnamed

theorem not_says_of_isNameless {s : Compiled} {ms : Members} {k : Text} (h : s.isNameless = true)
    (hInside : Inside s.document (.object ms)) (hKey : k ∈ namingKeywords) :
    Members.has ms k = false ∧ ∀ t, ¬ Members.Says ms k t := by
  obtain ⟨_, hKeywords⟩ := Bool.and_eq_true_iff.mp h
  have hObject := Document.of_every_inside hKeywords hInside
  simp only [isUnnamed, Bool.not_eq_true', List.any_eq_false] at hObject
  have hNone : Members.has ms k = false := by simpa using hObject k hKey
  refine ⟨hNone, fun t hSays => ?_⟩
  have hHas : Members.has ms k = true := Members.has_iff.mpr (List.mem_map_of_mem hSays)
  rw [hNone] at hHas
  cases hHas

theorem conditions_of_isNameless {s : Compiled} (h : s.isNameless = true) :
    s.IsOneResource ∧ s.StandsApart ∧ s.HasOneName := by
  have hNone : ∀ ms, Inside s.document (.object ms) → ∀ k ∈ namingKeywords, Members.has ms k = false :=
    fun ms hInside k hKey => (not_says_of_isNameless h hInside hKey).1
  have hSilent : ∀ ms, Inside s.document (.object ms) → ∀ k ∈ namingKeywords, ∀ t, ¬ Members.Says ms k t :=
    fun ms hInside k hKey => (not_says_of_isNameless h hInside hKey).2
  simp only [isNameless, Bool.and_eq_true, List.all_eq_true, List.isEmpty_iff] at h
  obtain ⟨⟨hNames, hBase⟩, _⟩ := h
  have hOneName : s.HasOneName := fun u hU => (hNames u hU).trans hBase.symm
  refine ⟨⟨fun ms hNested => hSilent ms hNested.inside _ (by simp [namingKeywords]),
      fun _ ms hNested => hSilent ms hNested.inside _ (by simp [namingKeywords]),
      fun ms hInside => ⟨hSilent ms hInside _ (by simp [namingKeywords]),
        hNone ms hInside _ (by simp [namingKeywords])⟩⟩,
    ⟨fun u hU r hMem => ?_, fun ms hInside => hSilent ms hInside _ (by simp [namingKeywords]) _,
      Or.inr ⟨hOneName, Or.inl hBase⟩⟩, hOneName⟩
  rw [hNames u hU] at hMem
  have hAbsolute := Meta.isAbsolute_of_mem hMem
  cases hAbsolute

/-- A schema with a dead reference for a property whose name is a keyword for data. -/
def misleading : Bytes :=
  Text.utf8 "\x7b\"$schema\": \"http://json-schema.org/draft-07/schema#\", \"properties\":
    \x7b\"default\": \x7b\"$ref\": \"#/definitions/missing\"\x7d\x7d\x7d"

theorem hidden_of_deadEnd_default : ∃ s why ms ref, read true true misleading = .ok s ∧
    s.IsOneResource ∧ s.StandsApart ∧
    s.validate (.record [("default", .int 1)]) = .error (.deadEnd true why) ∧
    Members.Says ms "$ref" ref ∧ Hidden s.document (.object ms) := by
  have hRun : ((read true true misleading).toOption.any fun s => s.isNameless &&
      ((fault? (s.validate (.record [("default", .int 1)]))).bind Failure.deadEnd?).any (·.1)) = true := by
    decide +kernel
  obtain ⟨s, hRead, hRun⟩ := exists_of_any hRun
  obtain ⟨hNameless, hRun⟩ := Bool.and_eq_true_iff.mp hRun
  obtain ⟨⟨named, why⟩, hDeadEnd, rfl⟩ := (Option.any_eq_true ..).mp hRun
  obtain ⟨f, hFault, hIs⟩ := Option.bind_eq_some_iff.mp hDeadEnd
  obtain rfl := Failure.eq_deadEnd hIs
  have hDead := eq_error_of_fault? hFault
  obtain ⟨hOne, hApart, hOneName⟩ := conditions_of_isNameless hNameless
  obtain ⟨c, ms, ref, _, _, hSays, _, hHidden⟩ := hidden_of_deadEnd hRead hOne hApart hDead
  exact ⟨s, why, ms, ref, hRead, hOne, hApart, hDead, hSays, hHidden (Or.inl hOneName)⟩

end Unnamed

end Compiled
end Conform.Schema

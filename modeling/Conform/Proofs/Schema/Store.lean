import Conform.Proofs.Document
import Conform.Schema.Store

/-! What looking inside resources adds to a shelf. As long as nothing inside a resource has a name
of its own, only the resource itself is entered again, under the name that it gives itself, and with
it the anchors inside. -/
namespace Conform.Schema

open Document (Inside Nested Part)

namespace Shelf

variable {s : Shelf} {r : Resource} {uri v name : Text}

theorem resource?_insert_self (s : Shelf) (uri : Text) (r : Resource) :
    (s.insert uri r).resource? uri = some r := by
  simp [insert, resource?]

theorem resource?_insert_ne (h : v ≠ uri) : (s.insert uri r).resource? v = s.resource? v := by
  rw [resource?, insert, List.lookup_cons, beq_eq_false_iff_ne.mpr h]
  exact lookup_filter_ne h _

/-- Of several resources that are put under one name the last one stays. -/
theorem resource?_foldl_insert (entries : List (Text × Resource)) (s : Shelf) (uri : Text) :
    (entries.foldl (fun s e => s.insert e.1 e.2) s).resource? uri =
      (entries.reverse.lookup uri).or (s.resource? uri) := by
  induction entries generalizing s with
  | nil => rfl
  | cons e rest ih =>
      rw [List.foldl_cons, ih, List.reverse_cons, List.lookup_append, Option.or_assoc]
      by_cases hHere : uri = e.1
      · subst hHere
        rw [resource?_insert_self, List.lookup_cons_self, Option.some_or]
      · rw [resource?_insert_ne hHere, List.lookup_cons, beq_eq_false_iff_ne.mpr hHere]
        rfl

theorem anchors_foldl_insert (entries : List (Text × Resource)) (s : Shelf) :
    (entries.foldl (fun s e => s.insert e.1 e.2) s).anchors = s.anchors := by
  induction entries generalizing s with
  | nil => rfl
  | cons e rest ih => exact ih _

theorem anchor?_insert (s : Shelf) (uri : Text) (r : Resource) :
    (s.insert uri r).anchor? v name = s.anchor? v name := rfl

theorem resource?_insertAnchors (s : Shelf) (uri : Text) (r : Resource) :
    (s.insertAnchors uri r).resource? v = s.resource? v := rfl

/-- The anchors of a resource take the place of those that were under its name, and leave the rest. -/
theorem anchor?_insertAnchors (s : Shelf) (uri : Text) (r : Resource) (v name : Text) :
    (v = uri ∧ ∃ a, (name, a) ∈ r.anchors ∧ (s.insertAnchors uri r).anchor? v name = some a) ∨
    ((v = uri → ∀ a, (name, a) ∉ r.anchors) ∧
      (s.insertAnchors uri r).anchor? v name = s.anchor? v name) := by
  simp only [insertAnchors, anchor?]
  suffices hFold : ∀ (items : List (Text × Anchor)) (as : List ((Text × Text) × Anchor)),
      (v = uri ∧ ∃ a, (name, a) ∈ items ∧ (items.foldl (fun as a =>
        ((uri, a.1), a.2) :: as.filter (·.1 != (uri, a.1))) as).lookup (v, name) = some a) ∨
      ((v = uri → ∀ a, (name, a) ∉ items) ∧ (items.foldl (fun as a =>
        ((uri, a.1), a.2) :: as.filter (·.1 != (uri, a.1))) as).lookup (v, name) =
          as.lookup (v, name)) from hFold r.anchors s.anchors
  intro items
  induction items with
  | nil => exact fun as => Or.inr ⟨fun _ a => List.not_mem_nil, rfl⟩
  | cons first rest ih =>
      intro as
      rw [List.foldl_cons]
      rcases ih (((uri, first.1), first.2) :: as.filter (·.1 != (uri, first.1))) with
        ⟨hHere, a, hMem, hFound⟩ | ⟨hOther, hSame⟩
      · exact Or.inl ⟨hHere, a, List.mem_cons_of_mem _ hMem, hFound⟩
      · by_cases hKey : (v, name) = (uri, first.1)
        · obtain ⟨rfl, rfl⟩ := Prod.mk.inj hKey
          refine Or.inl ⟨rfl, first.2, List.mem_cons_self, ?_⟩
          rw [hSame, List.lookup_cons_self]
        · refine Or.inr ⟨fun hHere a hMem => ?_, ?_⟩
          · rcases List.mem_cons.mp hMem with rfl | hMem
            · exact hKey (by rw [hHere])
            · exact hOther hHere a hMem
          · rw [hSame, List.lookup_cons, beq_eq_false_iff_ne.mpr hKey]
            exact lookup_filter_ne hKey _

end Shelf

namespace Resource

variable {r inner whole : Resource} {name : Text} {a : Anchor}

theorem mem_named {isDynamic : Bool} {name? : Option Text} :
    (name, a) ∈ r.named isDynamic name? ↔ name? = some name ∧ a = ⟨isDynamic, r⟩ := by
  simp only [named, List.mem_map, Option.mem_toList, Prod.mk.injEq]
  constructor
  · rintro ⟨_, hName, rfl, rfl⟩
    exact ⟨hName, rfl⟩
  · rintro ⟨hName, rfl⟩
    exact ⟨name, hName, rfl, rfl⟩

theorem resource_of_mem_anchors (h : (name, a) ∈ r.anchors) : a.resource = r := by
  unfold anchors at h
  grind [mem_named]

theorem dynamic_of_mem_anchors (h : (name, a) ∈ r.anchors) (hDynamic : a.isDynamic = true) :
    r.document.get? "$dynamicAnchor" = some (.text name) := by
  unfold anchors at h
  dsimp only at h
  split at h
  · rcases List.mem_append.mp h with hPlain | hOther
    · obtain ⟨_, rfl⟩ := mem_named.mp hPlain
      cases hDynamic
    · obtain ⟨hName, _⟩ := mem_named.mp hOther
      obtain ⟨d, hGet, hText⟩ := Option.bind_eq_some_iff.mp hName
      cases d <;> cases hText
      exact hGet
  · obtain ⟨_, rfl⟩ := mem_named.mp h
    cases hDynamic
  · obtain ⟨_, rfl⟩ := mem_named.mp h
    cases hDynamic

/-- The schemas directly inside a schema are parts of it, or parts of its parts. -/
theorem nested_of_mem_insideOf {d : Dialect} {ms : Members} {sub : Document}
    (h : sub ∈ insideOf d ms) : Nested (.object ms) sub := by
  have hAt : ∀ {k v}, v ∈ (Members.get? ms k).toList → Part (.object ms) v := fun hMem =>
    .member (Members.mem_of_get? (Option.mem_toList.mp hMem))
  have hItem : ∀ {v}, Part (.object ms) v → ∀ {sub}, sub ∈ itemsOf v → Nested (.object ms) sub := by
    intro v hPart sub hSub
    cases v with
    | list items => exact .tail (.single hPart) (.item hSub)
    | _ => cases hSub
  have hValue : ∀ {v}, Part (.object ms) v → ∀ {sub}, sub ∈ valuesOf v → Nested (.object ms) sub := by
    intro v hPart sub hSub
    cases v with
    | object inner =>
        obtain ⟨m, hMem, rfl⟩ := List.mem_map.mp hSub
        exact .tail (.single hPart) (.member hMem)
    | _ => cases hSub
  simp only [insideOf, List.mem_append] at h
  rcases h with ((((h | h) | h) | h) | h) | h
  · obtain ⟨k, _, hSub⟩ := List.mem_flatMap.mp h
    exact .single (hAt hSub)
  · obtain ⟨v, hV, hSub⟩ := List.mem_flatMap.mp h
    obtain ⟨k, _, hV⟩ := List.mem_flatMap.mp hV
    exact hItem (hAt hV) hSub
  · obtain ⟨v, hV, hSub⟩ := List.mem_flatMap.mp h
    obtain ⟨k, _, hV⟩ := List.mem_flatMap.mp hV
    exact hValue (hAt hV) hSub
  · split at h
    · obtain ⟨v, hV, hSub⟩ := List.mem_flatMap.mp h
      split at hSub
      · cases hSub
      · exact hItem (hAt hV) hSub
      · obtain rfl := List.mem_singleton.mp hSub
        exact .single (hAt hV)
    · cases h
  · split at h
    · obtain ⟨v, hV, hSub⟩ := List.mem_flatMap.mp h
      split at hSub
      · next ms' rest hValues => exact hValue (hAt hV) (hValues ▸ hSub)
      · cases hSub
    · cases h
  · split at h
    · obtain ⟨k, _, hSub⟩ := List.mem_flatMap.mp (List.mem_filter.mp h).1
      exact .single (hAt hSub)
    · cases h

theorem mem_inside (h : inner ∈ r.inside) :
    ∃ sub, Nested r.document sub ∧ inner = ofDocument r.dialect sub := by
  unfold inside at h
  split at h
  · next ms hDocument =>
      obtain ⟨sub, hSub, rfl⟩ := List.mem_map.mp h
      exact ⟨sub, hDocument ▸ nested_of_mem_insideOf hSub, rfl⟩
  · cases h

/-- A schema that says nothing at the keyword for names has none. -/
theorem id?_eq_none (h : ∀ ms t, r.document = .object ms → ¬ Members.Says ms r.dialect.idKeyword t) :
    r.id? = none := by
  have hNone : (r.document.get? r.dialect.idKeyword).bind Document.text? = none := by
    rw [Option.eq_none_iff_forall_ne_some]
    intro t hText
    obtain ⟨ms, hDocument, hSays⟩ := Document.says_of_get? hText
    exact h ms t hDocument hSays
  rw [id?, hNone]
  rfl

/-- Whether no schema inside a resource has a name of its own, in whichever of the dialects that can
come into play there. -/
structure Plain (allowed : Dialect → Prop) (whole : Resource) : Prop where
  dialect : allowed whole.dialect
  declared : ∀ {d sub}, allowed d → Nested whole.document sub → allowed (ofDocument d sub).dialect
  unnamed : ∀ {d sub}, allowed d → Nested whole.document sub → (⟨d, sub⟩ : Resource).id? = none

/-- The name of a resource that is seen from the given name. -/
def nameFrom? (r : Resource) (start : Text) : Option Text :=
  match r.id? with
  | some id => Uri.join? start id
  | none => some start

/-- Whether a resource is a whole, or a schema without a name inside it. -/
def Belongs (whole r : Resource) : Prop :=
  r = whole ∨ (Nested whole.document r.document ∧ r.id? = none)

end Resource

/-- Whether an anchor of the given name is declared in a resource. -/
def Anchor.In (whole : Resource) (name : Text) (a : Anchor) : Prop :=
  whole.Belongs a.resource ∧
    (a.isDynamic = true → a.resource.document.get? "$dynamicAnchor" = some (.text name))

namespace Shelf

variable {Root : Text → Resource → Prop} {allowed : Dialect → Prop} {base s s' : Shelf}
  {whole r : Resource} {uri name : Text}

/-- Whether a shelf differs from another one at most by whole resources under their names, and by
the anchors in them. -/
structure Over (Root : Text → Resource → Prop) (base s : Shelf) : Prop where
  resource : ∀ u, (∃ r, Root u r ∧ s.resource? u = some r) ∨ s.resource? u = base.resource? u
  anchor : ∀ u n, (∃ r a, Root u r ∧ a.In r n ∧ s.anchor? u n = some a) ∨
    s.anchor? u n = base.anchor? u n

namespace Over

theorem refl (s : Shelf) : Over Root s s := ⟨fun _ => Or.inr rfl, fun _ _ => Or.inr rfl⟩

theorem trans {middle : Shelf} (h : Over Root base middle) (h' : Over Root middle s) :
    Over Root base s where
  resource u := (h'.resource u).elim Or.inl fun hSame =>
    (h.resource u).imp (fun ⟨r, hRoot, hFound⟩ => ⟨r, hRoot, hSame.trans hFound⟩) hSame.trans
  anchor u n := (h'.anchor u n).elim Or.inl fun hSame =>
    (h.anchor u n).imp (fun ⟨r, a, hRoot, hIn, hFound⟩ => ⟨r, a, hRoot, hIn, hSame.trans hFound⟩)
      hSame.trans

/-- What was found before is found still, or something in its place. -/
theorem resource_isSome (h : Over Root base s) {u : Text} (hBefore : (base.resource? u).isSome) :
    (s.resource? u).isSome := by
  rcases h.resource u with ⟨r, _, hFound⟩ | hSame
  · rw [hFound]
    rfl
  · rwa [hSame]

theorem anchor_isSome (h : Over Root base s) {u n : Text} (hBefore : (base.anchor? u n).isSome) :
    (s.anchor? u n).isSome := by
  rcases h.anchor u n with ⟨r, a, _, _, hFound⟩ | hSame
  · rw [hFound]
    rfl
  · rwa [hSame]

theorem insert (hRoot : Root uri whole) : Over Root s (s.insert uri whole) where
  resource u := by
    by_cases hHere : u = uri
    · subst hHere
      exact Or.inl ⟨whole, hRoot, resource?_insert_self s u whole⟩
    · exact Or.inr (resource?_insert_ne hHere)
  anchor u n := Or.inr (anchor?_insert s uri whole)

theorem insertAnchors (hRoot : Root uri whole) (hIn : whole.Belongs r) :
    Over Root s (s.insertAnchors uri r) where
  resource u := Or.inr (resource?_insertAnchors s uri r)
  anchor u n := by
    rcases anchor?_insertAnchors s uri r u n with ⟨rfl, a, hMem, hFound⟩ | ⟨_, hSame⟩
    · refine Or.inl ⟨whole, a, hRoot, ⟨?_, fun hDynamic => ?_⟩, hFound⟩
      · rwa [Resource.resource_of_mem_anchors hMem]
      · rw [Resource.resource_of_mem_anchors hMem]
        exact Resource.dynamic_of_mem_anchors hMem hDynamic
    · exact Or.inr hSame

end Over

/-- A run over the schemas inside, each of which adds only what belongs to the whole. -/
theorem foldlM_over {items : List Resource} {step : Shelf → Resource → Option Shelf}
    (hStep : ∀ inner ∈ items, ∀ s, ∃ s', step s inner = some s' ∧ Over Root s s') (s : Shelf) :
    ∃ s', items.foldlM step s = some s' ∧ Over Root s s' := by
  induction items generalizing s with
  | nil => exact ⟨s, rfl, .refl s⟩
  | cons first rest ih =>
      obtain ⟨middle, hFirst, hOver⟩ := hStep first List.mem_cons_self s
      obtain ⟨last, hRest, hOver'⟩ := ih (fun inner hMem => hStep inner (List.mem_cons_of_mem _ hMem)) middle
      exact ⟨last, by rw [List.foldlM_cons, hFirst]; exact hRest, hOver.trans hOver'⟩

theorem foldlM_stays {items : List Resource} {step : Shelf → Resource → Option Shelf}
    (hStep : ∀ inner ∈ items, step s inner = some s) : items.foldlM step s = some s := by
  induction items with
  | nil => rfl
  | cons first rest ih =>
      obtain ⟨hFirst, hRest⟩ := List.forall_mem_cons.mp hStep
      rw [List.foldlM_cons, hFirst]
      exact ih hRest

/-- To look into a schema inside enters only anchors. -/
theorem explore_nested (hPlain : whole.Plain allowed) (hRoot : Root uri whole) (depth : Nat)
    {r : Resource} (hNested : Nested whole.document r.document) (hDialect : allowed r.dialect)
    (s : Shelf) : ∃ s', explore depth uri r s = some s' ∧ Over Root s s' := by
  induction depth generalizing r s with
  | zero => exact ⟨s, rfl, .refl s⟩
  | succ depth ih =>
      have hUnnamed : r.id? = none := hPlain.unnamed hDialect hNested
      have hInside : ∀ inner ∈ r.inside.reverse, ∀ s, ∃ s',
          explore depth uri inner s = some s' ∧ Over Root s s' := by
        intro inner hMem s
        obtain ⟨sub, hSub, rfl⟩ := Resource.mem_inside (List.mem_reverse.mp hMem)
        have hDeep : Nested whole.document sub := hNested.trans hSub
        exact ih hDeep (hPlain.declared hDialect hDeep) s
      obtain ⟨s', hRun, hOver⟩ := foldlM_over hInside (s.insertAnchors uri r)
      refine ⟨s', ?_, .trans (.insertAnchors hRoot (Or.inr ⟨hNested, hUnnamed⟩)) hOver⟩
      simp only [explore, hUnnamed]
      exact hRun

/-- To look into a whole resource enters it under the name that it has from where it stands, with
its anchors. -/
theorem explore_whole (hPlain : whole.Plain allowed) {start : Text}
    (hName : whole.nameFrom? start = some uri) (hRoot : Root uri whole) (depth : Nat) (s : Shelf) :
    ∃ s', explore (depth + 1) start whole s = some s' ∧ Over Root s s' ∧
      ∀ n a, (n, a) ∈ whole.anchors → (s'.anchor? uri n).isSome := by
  have hInside : ∀ inner ∈ whole.inside.reverse, ∀ s, ∃ s',
      explore depth uri inner s = some s' ∧ Over Root s s' := by
    intro inner hMem s
    obtain ⟨sub, hSub, rfl⟩ := Resource.mem_inside (List.mem_reverse.mp hMem)
    exact explore_nested hPlain hRoot depth hSub (hPlain.declared hPlain.dialect hSub) s
  have hBegin : ∀ middle, Over Root s middle →
      ∃ s', whole.inside.reverse.foldlM (fun s inner => explore depth uri inner s)
          (middle.insertAnchors uri whole) = some s' ∧ Over Root s s' ∧
        ∀ n a, (n, a) ∈ whole.anchors → (s'.anchor? uri n).isSome := by
    intro middle hMiddle
    obtain ⟨s', hRun, hOver⟩ := foldlM_over hInside (middle.insertAnchors uri whole)
    have hAnchors : Over Root middle (middle.insertAnchors uri whole) :=
      .insertAnchors hRoot (Or.inl rfl)
    refine ⟨s', hRun, hMiddle.trans (hAnchors.trans hOver), fun n a hMem => ?_⟩
    refine hOver.anchor_isSome ?_
    rcases anchor?_insertAnchors middle uri whole uri n with ⟨_, b, _, hFound⟩ | ⟨hNone, _⟩
    · rw [hFound]
      rfl
    · exact absurd hMem (hNone rfl a)
  unfold Resource.nameFrom? at hName
  cases hId : whole.id? with
  | none =>
      obtain rfl : start = uri := by simpa [hId] using hName
      simpa [explore, hId] using hBegin s (.refl s)
  | some id =>
      have hJoin : Uri.join? start id = some uri := by simpa [hId] using hName
      simpa [explore, hId, hJoin] using hBegin (s.insert uri whole) (.insert hRoot)

section Bare

variable (hPlain : whole.Plain allowed)
  (hBare : ∀ {d sub}, Nested whole.document sub → (⟨d, sub⟩ : Resource).anchors = [])

include hPlain hBare

/-- To look into a schema inside enters nothing if there are no anchors inside. -/
theorem explore_bare_nested (depth : Nat) {r : Resource} (hNested : Nested whole.document r.document)
    (hDialect : allowed r.dialect) (s : Shelf) : explore depth uri r s = some s := by
  induction depth generalizing r with
  | zero => rfl
  | succ depth ih =>
      have hUnnamed : r.id? = none := hPlain.unnamed hDialect hNested
      have hInside : ∀ inner ∈ r.inside.reverse, explore depth uri inner s = some s := by
        intro inner hMem
        obtain ⟨sub, hSub, rfl⟩ := Resource.mem_inside (List.mem_reverse.mp hMem)
        exact ih (hNested.trans hSub) (hPlain.declared hDialect (hNested.trans hSub))
      have hAnchors : s.insertAnchors uri r = s := by
        rw [insertAnchors, hBare hNested]
        rfl
      simp only [explore, hUnnamed]
      exact (congrArg (r.inside.reverse.foldlM _) hAnchors).trans (foldlM_stays hInside)

/-- Such a resource with a name is entered with its own anchors, and nothing else is. -/
theorem explore_bare {start : Text} (hNamed : whole.id?.isSome) (hName : whole.nameFrom? start = some uri) (depth : Nat)
    (s : Shelf) : explore (depth + 1) start whole s = some ((s.insert uri whole).insertAnchors uri whole) := by
  obtain ⟨id, hId⟩ := Option.isSome_iff_exists.mp hNamed
  have hJoin : Uri.join? start id = some uri := by simpa [Resource.nameFrom?, hId] using hName
  have hInside : ∀ inner ∈ whole.inside.reverse, ∀ s, explore depth uri inner s = some s := by
    intro inner hMem s
    obtain ⟨sub, hSub, rfl⟩ := Resource.mem_inside (List.mem_reverse.mp hMem)
    exact explore_bare_nested hPlain hBare depth hSub (hPlain.declared hPlain.dialect hSub) s
  simp only [explore, hId, hJoin]
  exact foldlM_stays fun inner hMem => hInside inner hMem _

end Bare

theorem explore_unnameable {start : Text} (hName : whole.nameFrom? start = none) (depth : Nat)
    (s : Shelf) : explore (depth + 1) start whole s = none := by
  unfold Resource.nameFrom? at hName
  cases hId : whole.id? with
  | none => simp [hId] at hName
  | some id =>
      have hJoin : Uri.join? start id = none := by simpa [hId] using hName
      simp [explore, hId, hJoin]

section All

variable {names : List Text}

/-- To look into all resources of a shelf adds only what is in those under the given names. -/
theorem exploreAll_over (hNames : ∀ n ∈ names, ∀ r, base.resource? n = some r →
      (∃ allowed, r.Plain allowed) ∧ ∀ uri, r.nameFrom? n = some uri → Root uri r)
    (hRun : base.exploreAll names = some s') : Over Root base s' := by
  unfold exploreAll at hRun
  suffices hFold : ∀ items ⊆ names, ∀ s, Over Root base s →
      items.foldlM base.exploreNamed s = some s' → Over Root base s' from
    hFold names (List.Subset.refl _) base (.refl base) hRun
  intro items hItems
  induction items with
  | nil =>
      intro s hOver hEnd
      obtain rfl : s = s' := Option.some.inj hEnd
      exact hOver
  | cons n rest ih =>
      intro s hOver hRun
      obtain ⟨hMem, hRest⟩ := List.cons_subset.mp hItems
      rw [List.foldlM_cons] at hRun
      obtain ⟨middle, hStep, hLater⟩ := Option.bind_eq_some_iff.mp hRun
      refine ih hRest middle ?_ hLater
      unfold exploreNamed at hStep
      cases hFound : base.resource? n with
      | none =>
          simp only [hFound, Option.some.injEq] at hStep
          exact hStep ▸ hOver
      | some r =>
          obtain ⟨⟨allowed, hPlain⟩, hRoot⟩ := hNames n hMem r hFound
          simp only [hFound] at hStep
          cases hName : r.nameFrom? n with
          | none =>
              rw [explore_unnameable hName] at hStep
              cases hStep
          | some uri =>
              obtain ⟨after, hExplore, hAfter, _⟩ :=
                explore_whole hPlain hName (hRoot uri hName) r.document.depth s
              obtain rfl : after = middle := Option.some.inj (hExplore.symm.trans hStep)
              exact hOver.trans hAfter

/-- If every resource can be named, the search succeeds and finds the anchors of each. -/
theorem exploreAll_isSome (hNames : ∀ n ∈ names, ∀ r, base.resource? n = some r →
      (∃ allowed, r.Plain allowed) ∧ ∃ uri, r.nameFrom? n = some uri ∧ Root uri r) :
    ∃ s', base.exploreAll names = some s' ∧ Over Root base s' ∧
      ∀ n ∈ names, ∀ r, base.resource? n = some r → ∀ uri, r.nameFrom? n = some uri →
        ∀ m a, (m, a) ∈ r.anchors → (s'.anchor? uri m).isSome := by
  unfold exploreAll
  suffices hFold : ∀ items ⊆ names, ∀ s, ∃ s',
      items.foldlM base.exploreNamed s = some s' ∧ Over Root s s' ∧
      ∀ n ∈ items, ∀ r, base.resource? n = some r → ∀ uri, r.nameFrom? n = some uri →
        ∀ m a, (m, a) ∈ r.anchors → (s'.anchor? uri m).isSome from
    hFold names (List.Subset.refl _) base
  intro items hItems
  induction items with
  | nil => exact fun s => ⟨s, rfl, .refl s, nofun⟩
  | cons n rest ih =>
      intro s
      obtain ⟨hMem, hRest⟩ := List.cons_subset.mp hItems
      cases hFound : base.resource? n with
      | none =>
          obtain ⟨s', hRun, hOver, hAnchors⟩ := ih hRest s
          refine ⟨s', by simpa [List.foldlM_cons, exploreNamed, hFound] using hRun, hOver, fun k hK r hR => ?_⟩
          rcases List.mem_cons.mp hK with rfl | hK
          · rw [hFound] at hR
            cases hR
          · exact hAnchors k hK r hR
      | some r =>
          obtain ⟨⟨allowed, hPlain⟩, uri, hName, hRoot⟩ := hNames n hMem r hFound
          obtain ⟨middle, hExplore, hMiddle, hHere⟩ :=
            explore_whole hPlain hName hRoot r.document.depth s
          obtain ⟨s', hRun, hOver, hAnchors⟩ := ih hRest middle
          refine ⟨s', by simpa [List.foldlM_cons, exploreNamed, hFound, hExplore] using hRun, hMiddle.trans hOver,
            fun k hK r' hR uri' hUri m a hA => ?_⟩
          rcases List.mem_cons.mp hK with rfl | hK
          · obtain rfl : r = r' := Option.some.inj (hFound.symm.trans hR)
            obtain rfl : uri = uri' := Option.some.inj (hName.symm.trans hUri)
            exact hOver.anchor_isSome (hHere m a hA)
          · exact hAnchors k hK r' hR uri' hUri m a hA

end All

end Shelf
end Conform.Schema

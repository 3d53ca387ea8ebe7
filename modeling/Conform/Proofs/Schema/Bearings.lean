import Conform.Proofs.Schema.Expressions

/-! Where references inside the schemas of schemas lead. A resolver that came through schemas of one dialect finds the
same place for a reference from wherever it came, dynamic anchors included: all of these give way to the root. -/
namespace Conform.Schema.Meta

open Resolver (lookup_of_entered lookup_of_pointer follow_eq_walk inside_of_walk move_base move_store move_explored)

variable {d : Dialect} {r : Resolver} {u v w ref fragment : Text} {home sub : Document}

/-- Whether a resolver stands in a schema of schemas, and came there from that of a dialect, through schemas of this
dialect only. -/
structure Bearing (d : Dialect) (r : Resolver) (u : Text) : Prop where
  store : r.store = d.metaRoot.store
  near : r.explored = false
  base : r.base = u
  known : ∀ v ∈ u :: r.scope, ∃ home, (v, ⟨d, home⟩) ∈ resources
  outermost : (u :: r.scope).getLast? = some d.uri

section Bearing

variable (hDialect : d = .draft7 ∨ d = .draft2020)

include hDialect

theorem mem_root : (d.uri, ⟨d, d.meta⟩) ∈ resources := (standsIn_root hDialect false).member

theorem home?_root : home? documents d.uri = some d.meta := by
  have hMem := mem_root hDialect
  rw [home?, resourcesOf_documents]
  cases hFound : resources.lookup d.uri with
  | none =>
      have hOther := List.lookup_eq_none_iff.mp hFound _ hMem
      simp at hOther
  | some r =>
      rw [unique_of_mem hMem (mem_of_lookup hFound)]
      rfl

theorem bearing_root : Bearing d d.metaRoot d.uri where
  store := rfl
  near := (standsIn_root hDialect false).near
  base := (standsIn_root hDialect false).base
  known v hMem := by
    have hScope : d.metaRoot.scope = [] := by
      rw [metaRoot_eq]
      rfl
    rw [hScope, List.mem_singleton] at hMem
    exact hMem ▸ ⟨_, mem_root hDialect⟩
  outermost := by
    rw [metaRoot_eq]
    rfl

/-- A resolver that stands there has all schemas of the dialect in view. -/
theorem Bearing.held (h : Bearing d r u) (hMem : (v, ⟨d, home⟩) ∈ resources) :
    r.store.entered.resource? v = some ⟨d, home⟩ := by
  rw [h.store, held_root hDialect]
  split
  · next hRoot =>
      rw [unique_of_mem (hRoot ▸ hMem) (mem_root hDialect)]
  · exact resource?_shelf.mpr hMem

end Bearing

namespace Bearing

variable (h : Bearing d r u) (hMem : (v, ⟨d, home⟩) ∈ resources)

include h

theorem mem_scope_move (hMem : w ∈ (r.move v).scope) : w ∈ u :: r.scope := by
  rcases Resolver.mem_scope_move hMem with hScope | ⟨rfl, -⟩
  · exact List.mem_cons_of_mem _ hScope
  · exact h.base ▸ List.mem_cons_self

/-- A resolver that goes on remembers from which root it came. -/
theorem outermost_move (v : Text) : (r.move v).scope.getLast? = some d.uri := by
  obtain ⟨home, hHere⟩ := h.known u List.mem_cons_self
  have hSome : r.base.isEmpty = false := by
    rw [h.base]
    have hAbsolute := isAbsolute_of_mem hHere
    cases u with
    | nil => cases hAbsolute
    | cons p rest => rfl
  unfold Resolver.move
  rw [hSome]
  split
  · show (r.base :: r.scope).getLast? = _
    exact h.base ▸ h.outermost
  · next hStays =>
      have hLast := h.outermost
      cases hScope : r.scope with
      | nil => simp [hScope] at hStays
      | cons name rest => simpa [hScope] using hLast

include hMem

theorem move : Bearing d (r.move v) v where
  store := (move_store r v).trans h.store
  near := (move_explored r v).trans h.near
  base := move_base r v
  known w hOne := by
    rcases List.mem_cons.mp hOne with rfl | hScope
    · exact ⟨home, hMem⟩
    · exact h.known w (h.mem_scope_move hScope)
  outermost := by
    rw [List.getLast?_cons, h.outermost_move v]
    rfl

end Bearing

section Dynamic

/-- The anchor stands for the whole schema, and gives way to that of a schema further out. -/
theorem anchor?_of_mem (hMem : (v, ⟨.draft2020, home⟩) ∈ resources) :
    shelf.anchor? v anchorName = some ⟨true, ⟨.draft2020, home⟩⟩ := by
  have hAll := List.all_eq_true.mp hasAnchors _ hMem
  simp only [bne_self_eq_false, Bool.false_or] at hAll
  obtain ⟨a, hFound, hDynamic⟩ := (Option.any_eq_true _ _).mp hAll
  obtain ⟨whole, hWhole, hBelongs, hName⟩ := in_of_anchor?_shelf hFound
  obtain ⟨hSame, -⟩ := eq_of_belongs hWhole hBelongs (hName hDynamic)
  rw [unique_of_mem hMem hWhole] at hSame
  rw [hFound, ← hSame, ← hDynamic]

variable (h : Bearing .draft2020 r u)

include h

theorem anchor_eq (hMem : (v, ⟨.draft2020, home⟩) ∈ resources) :
    r.anchor v anchorName = .ok (.ok (⟨true, ⟨.draft2020, home⟩⟩, r)) := by
  have hNear : r.shelf = .ok r.store.entered := by
    rw [Resolver.shelf, h.near]
    rfl
  have hFound : r.store.entered.anchor? v anchorName = some ⟨true, ⟨.draft2020, home⟩⟩ := by
    rw [h.store, metaRoot_eq]
    exact (Store.anchor?_entered shelf .draft2020 [] _ _ v anchorName).trans (anchor?_of_mem hMem)
  rw [Resolver.anchor, hNear]
  simp only [bind, Except.bind, hFound]
  rfl

/-- Of the schemas that a resolver came through the outermost one has the anchor. -/
theorem foldlM_anchor (scope : List Text) (hKnown : ∀ v ∈ scope, ∃ home, (v, ⟨.draft2020, home⟩) ∈ resources)
    (first : Resource) : ∃ last, scope.foldlM (fun last uri => do
      match ← r.anchor uri anchorName with
      | .ok (other, _) => return if other.isDynamic then other.resource else last
      | .error _ => return last) first = .ok last ∧
        ∀ w home, scope.getLast? = some w → (w, ⟨.draft2020, home⟩) ∈ resources → last = ⟨.draft2020, home⟩ := by
  induction scope generalizing first with
  | nil => exact ⟨first, rfl, nofun⟩
  | cons name rest ih =>
      obtain ⟨here, hHere⟩ := hKnown name List.mem_cons_self
      obtain ⟨last, hRun, hLast⟩ := ih (fun v hv => hKnown v (List.mem_cons_of_mem _ hv)) ⟨.draft2020, here⟩
      refine ⟨last, ?_, fun w home hSome hMem => ?_⟩
      · rw [List.foldlM_cons, anchor_eq h hHere]
        exact hRun
      · cases rest with
        | nil =>
            obtain rfl : name = w := Option.some.inj hSome
            obtain rfl := Except.ok.inj hRun
            exact (unique_of_mem hHere hMem).symm
        | cons next rest => exact hLast w home (by rwa [List.getLast?_cons_cons] at hSome) hMem

/-- The dynamic anchor leads from everywhere to the root. -/
theorem lookup_anchor (hParts : r.parts ref = .ok (v, anchorName)) (hMem : (v, ⟨.draft2020, home⟩) ∈ resources) :
    ∃ r', r.lookup ref = .ok (.ok ⟨Dialect.draft2020.meta, r'⟩) ∧ Bearing .draft2020 r' Dialect.draft2020.uri := by
  have hRoot := mem_root (d := .draft2020) (Or.inr rfl)
  have hMove := h.move hMem
  obtain ⟨last, hRun, hLast⟩ := foldlM_anchor hMove (r.move v).scope
    (fun w hw => hMove.known w (List.mem_cons_of_mem _ hw)) ⟨.draft2020, home⟩
  obtain rfl := hLast _ _ (h.outermost_move v) hRoot
  have hEnter : (r.move v).enter ⟨.draft2020, Dialect.draft2020.meta⟩ =
      .ok { r.move v with base := Dialect.draft2020.uri } := by
    have hJoin : Uri.join? (r.move v).base Dialect.draft2020.uri = some Dialect.draft2020.uri :=
      Uri.join?_of_isAbsolute (isAbsolute_of_mem hRoot)
        (Or.inr (by rw [hMove.base]; exact Uri.isSome_of_isAbsolute (isAbsolute_of_mem hMem)))
    rw [Resolver.enter, id?_of_mem hRoot]
    simp only [hJoin]
  have hAt : (r.move v).atAnchor anchorName ⟨true, ⟨.draft2020, home⟩⟩ =
      .ok ⟨Dialect.draft2020.meta, { r.move v with base := Dialect.draft2020.uri }⟩ := by
    refine (congrArg (· >>= _) hRun).trans ?_
    simp only [bind, Except.bind, hEnter]
    rfl
  have hFragment : anchorName.startsWith "/" = false ∧ anchorName.isEmpty = false := by decide
  refine ⟨{ r.move v with base := Dialect.draft2020.uri }, ?_, ?_⟩
  · simp only [Resolver.lookup, hParts, Resolver.resource?_of_entered h.near (h.held (Or.inr rfl) hMem), hFragment,
      anchor_eq h hMem, hAt, bind, Except.bind, pure, Except.pure, Bool.false_eq_true, if_false]
  · refine ⟨hMove.store, hMove.near, rfl, fun w hOne => ?_, ?_⟩
    · rcases List.mem_cons.mp hOne with rfl | hScope
      · exact ⟨_, hRoot⟩
      · exact hMove.known w (List.mem_cons_of_mem _ hScope)
    · show (Dialect.draft2020.uri :: (r.move v).scope).getLast? = _
      rw [List.getLast?_cons, h.outermost_move v]
      rfl

end Dynamic

section Landing

theorem parts_of_address? (hBase : r.base = u) (h : address? u ref = some (v, fragment)) :
    r.parts ref = .ok (v, fragment) := by
  rw [address?] at h
  rw [Resolver.parts, hBase]
  cases hHash : ref.dropStart? "#" with
  | some rest =>
      rw [hHash] at h
      obtain ⟨rfl, rfl⟩ := Prod.mk.inj (Option.some.inj h)
      rfl
  | none =>
      rw [hHash] at h
      dsimp only at h ⊢
      rw [h]

/-- A reference leads to what its fragment stands for, from wherever a resolver came. -/
theorem lookup_of_landing? (hDialect : d = .draft7 ∨ d = .draft2020) (h : Bearing d r u)
    (hParts : address? u ref = some (v, fragment)) (hMem : (v, ⟨d, home⟩) ∈ resources)
    (hLands : landing? documents d v home fragment = some (w, sub)) :
    ∃ r', r.lookup ref = .ok (.ok ⟨sub, r'⟩) ∧ Bearing d r' w ∧ d.inner sub = d := by
  have hParts := parts_of_address? h.base hParts
  have hHeld := h.held hDialect hMem
  unfold landing? at hLands
  split at hLands
  · next hWhole =>
      obtain rfl := List.isEmpty_iff.mp hWhole
      obtain ⟨rfl, rfl⟩ := Prod.mk.inj (Option.some.inj hLands)
      exact ⟨_, lookup_of_entered hParts h.near hHeld, h.move hMem, inner_of_mem hMem d⟩
  · split at hLands
    · next hSlash =>
        split at hLands
        · next sub hWalk =>
            obtain ⟨rfl, rfl⟩ := Prod.mk.inj (Option.some.inj hLands)
            refine ⟨r.move v, ?_, h.move hMem, ?_⟩
            · rw [lookup_of_pointer hParts hSlash h.near hHeld, follow_eq_walk
                (fun _ hNested => (plain_of_mem hMem).unnamed trivial hNested) _ _ (Or.inl .refl), hWalk]
              rfl
            · rcases @inside_of_walk ⟨d, home⟩ _ _ _ (Or.inl .refl) hWalk with hInside | ⟨t, rfl⟩
              · rcases Document.inside_iff.mp hInside with rfl | hNested
                · exact inner_of_mem hMem d
                · exact inner_of_nested hMem hNested d
              · rfl
        · cases hLands
    · split at hLands
      · next hAnchor =>
          simp only [Bool.and_eq_true, beq_iff_eq] at hAnchor
          obtain ⟨rfl, rfl⟩ := hAnchor
          rw [home?_root (Or.inr rfl)] at hLands
          obtain ⟨rfl, rfl⟩ := Prod.mk.inj (Option.some.inj hLands)
          obtain ⟨r', hLookup, hThere⟩ := lookup_anchor h hParts hMem
          exact ⟨r', hLookup, hThere, inner_of_mem (mem_root (Or.inr rfl)) _⟩
      · cases hLands

theorem exists_of_mem_landmarks {l : Landmark} (h : l ∈ landmarks documents d) :
    ∃ home, (l.name, ⟨d, home⟩) ∈ resources ∧
      landing? documents d l.name home l.fragment = some (l.base, .object l.schema) := by
  obtain ⟨⟨u, ⟨dialect, home⟩⟩, hMem, h⟩ := List.mem_flatMap.mp h
  dsimp only at h
  split at h
  · next hDialect =>
      obtain rfl := eq_of_beq hDialect
      obtain ⟨⟨fragment, role⟩, -, hLands⟩ := List.mem_filterMap.mp h
      dsimp only at hLands
      split at hLands
      · next base schema hLanding =>
          obtain rfl := Option.some.inj hLands
          exact ⟨home, hMem, hLanding⟩
      · cases hLands
  · cases h

theorem lookup_of_mem_aims {l : Landmark} (hDialect : d = .draft7 ∨ d = .draft2020) (h : Bearing d r u)
    (hAim : l ∈ aims documents d u ref) : l ∈ landmarks documents d ∧
      ∃ r', r.lookup ref = .ok (.ok ⟨.object l.schema, r'⟩) ∧
        Bearing d r' l.base ∧ d.inner (.object l.schema) = d := by
  unfold aims at hAim
  split at hAim
  · next v fragment hParts =>
      obtain ⟨hMem, hSame⟩ := List.mem_filter.mp hAim
      simp only [Bool.and_eq_true, beq_iff_eq] at hSame
      obtain ⟨rfl, rfl⟩ := hSame
      obtain ⟨home, hHome, hLands⟩ := exists_of_mem_landmarks hMem
      exact ⟨hMem, lookup_of_landing? hDialect h hParts hHome hLands⟩
  · cases hAim

theorem eq_root_of_isRoot {l : Landmark} (hDialect : d = .draft7 ∨ d = .draft2020) (hMem : l ∈ landmarks documents d)
    (hRoot : l.isRoot d = true) : l.base = d.uri ∧ d.meta = .object l.schema := by
  obtain ⟨home, hHome, hLands⟩ := exists_of_mem_landmarks hMem
  unfold Landmark.isRoot at hRoot
  unfold landing? at hLands
  rcases Bool.or_eq_true_iff.mp hRoot with hWhole | hAnchor
  · obtain ⟨hEmpty, hName⟩ := Bool.and_eq_true_iff.mp hWhole
    rw [if_pos hEmpty] at hLands
    obtain ⟨hBase, hSame⟩ := Prod.mk.inj (Option.some.inj hLands)
    have hName := eq_of_beq hName
    rw [hName] at hHome
    have hHere := unique_of_mem hHome (mem_root hDialect)
    exact ⟨hBase ▸ hName, hSame ▸ congrArg Resource.document hHere⟩
  · have hAnchor := eq_of_beq hAnchor
    rw [hAnchor] at hLands
    have hFragment : anchorName.isEmpty = false ∧ anchorName.startsWith "/" = false := by decide
    simp only [hFragment, Bool.false_eq_true, if_false] at hLands
    split at hLands
    · rw [home?_root hDialect] at hLands
      obtain ⟨hBase, hSame⟩ := Prod.mk.inj (Option.some.inj hLands)
      exact ⟨hBase.symm, hSame⟩
    · cases hLands

end Landing

end Conform.Schema.Meta

import Conform.Proofs.Except
import Conform.Proofs.Schema.Store
import Conform.Schema.Resolver

/-! Where references lead. In a store of whole resources without names inside, a reference that
leads somewhere leads into one of them, and whether it leads anywhere is a matter of the name against
which it is read. -/
namespace Conform.Schema

open Document (Inside Nested Part)

/-- Whether a shelf is one of the two that a store is searched by. -/
def Store.Has (st : Store) (sh : Shelf) : Prop := sh = st.entered ∨ st.found = some sh

/-- Whether a store holds whole resources under their names, and nothing else: what is found inside
are only anchors, and the resources again. -/
structure Store.Holds (Root : Text → Resource → Prop) (st : Store) : Prop where
  resource : ∀ {sh u r}, st.Has sh → sh.resource? u = some r → Root u r
  anchor : ∀ {sh u n a}, st.Has sh → sh.anchor? u n = some a → ∃ r, Root u r ∧ a.In r n
  keepsResource : ∀ {f u}, st.found = some f → (st.entered.resource? u).isSome → (f.resource? u).isSome
  keepsAnchor : ∀ {f u n}, st.found = some f → (st.entered.anchor? u n).isSome → (f.anchor? u n).isSome
  unique : ∀ {u r r'}, Root u r → Root u r' → r = r'
  plain : ∀ {u r}, Root u r → ∃ allowed, r.Plain allowed
  /-- What a resource calls itself is one of its names. -/
  own : ∀ {u r id}, Root u r → r.id? = some id → Root id r

namespace Resolver

variable {Root : Text → Resource → Prop} {r r' r₀ : Resolver} {uri name ref fragment : Text}
  {whole res : Resource} {t : Target}

/-- Whether two resolvers stand at the same place, whatever is in view of them. -/
structure Same (r r' : Resolver) : Prop where
  store : r'.store = r.store
  base : r'.base = r.base
  scope : r'.scope = r.scope

section Walk

/-- What the steps of a pointer lead to if no names are met on the way. -/
def walk : Document → List Text → Except Failure (Option Document)
  | d, [] => .ok (some d)
  | d, segment :: rest => do
    match ← child d segment with
    | (none, _) => return none
    | (some next, _) => walk next rest

theorem inside_of_child {d next : Document} {segment : Text} {step : Segment}
    (h : child d segment = .ok (some next, step)) :
    Part d next ∨ ∃ t, next = .text t := by
  have hItems : ∀ items, child.at_ items segment = .ok (some next, step) → next ∈ items := by
    intro items hStep
    unfold child.at_ at hStep
    split at hStep
    · cases hStep
    · next n _ =>
        obtain ⟨hNext, _⟩ := Prod.mk.inj (Except.ok.inj hStep)
        generalize (if n < 0 then n + (items.length : Int) else n) = place at hNext
        split at hNext
        · cases hNext
        · exact List.mem_of_getElem? hNext
  cases d with
  | object ms =>
      obtain ⟨hGet, _⟩ := Prod.mk.inj (Except.ok.inj h)
      exact Or.inl (.member (Members.mem_of_get? hGet))
  | list items => exact Or.inl (.item (hItems items h))
  | text t =>
      obtain ⟨p, _, rfl⟩ := List.mem_map.mp (hItems _ h)
      exact Or.inr ⟨_, rfl⟩
  | _ => cases h

/-- The way of a pointer through a resource without names inside ends in it, and does not depend on
who goes it. -/
theorem follow_eq_walk (hUnnamed : ∀ sub, Nested whole.document sub → (⟨whole.dialect, sub⟩ : Resource).id? = none)
    (pointer : Text) (r : Resolver) {d : Document}
    (hInside : Inside whole.document d ∨ ∃ t, d = .text t) (passed : List Segment)
    (segments : List Text) :
    follow whole pointer r d passed segments = (walk d segments).map fun
      | some d => .ok ⟨d, r⟩
      | none => .error (.pointer pointer whole.document) := by
  induction segments generalizing d passed with
  | nil => rfl
  | cons segment rest ih =>
      cases hChild : child d segment with
      | error f => simp [follow, walk, hChild, bind, Except.bind, Except.map]
      | ok step =>
          obtain ⟨next, passing⟩ := step
          cases next with
          | none => simp [follow, walk, hChild, bind, Except.bind, Except.map, pure, Except.pure]
          | some next =>
              have hNext : (Inside whole.document next ∨ ∃ t, next = .text t) ∧
                  (⟨whole.dialect, next⟩ : Resource).id? = none := by
                rcases inside_of_child hChild with hPart | ⟨t, rfl⟩
                · rcases hInside with hInside | ⟨t, rfl⟩
                  · exact ⟨Or.inl (hInside.part hPart), hUnnamed next (hInside.nested hPart)⟩
                  · cases hPart
                · exact ⟨Or.inr ⟨t, rfl⟩, rfl⟩
              simp only [follow, walk, hChild, bind, Except.bind, hNext.2, Option.isSome_none,
                Bool.and_false]
              exact ih hNext.1 _

theorem inside_of_walk {d last : Document} {segments : List Text}
    (hInside : Inside whole.document d ∨ ∃ t, d = .text t)
    (h : walk d segments = .ok (some last)) :
    Inside whole.document last ∨ ∃ t, last = .text t := by
  induction segments generalizing d with
  | nil =>
      obtain rfl : d = last := Option.some.inj (Except.ok.inj h)
      exact hInside
  | cons segment rest ih =>
      obtain ⟨⟨next, passing⟩, hChild, hRest⟩ := exists_of_bind_ok h
      cases next with
      | none => cases hRest
      | some next =>
          refine ih ?_ hRest
          rcases inside_of_child hChild with hPart | hText
          · rcases hInside with hInside | ⟨t, rfl⟩
            · exact Or.inl (hInside.part hPart)
            · cases hPart
          · exact Or.inr hText

end Walk

section Views

theorem Same.refl (r : Resolver) : r.Same r := ⟨rfl, rfl, rfl⟩

theorem Same.trans {middle : Resolver} (h : r.Same middle) (h' : middle.Same r') : r.Same r' :=
  ⟨h'.store.trans h.store, h'.base.trans h.base, h'.scope.trans h.scope⟩

theorem found_of_foundShelf {sh : Shelf} (h : r.foundShelf = .ok sh) : r.store.found = some sh := by
  unfold foundShelf at h
  split at h
  · next found hFound => rw [hFound, Except.ok.inj h]
  · cases h

theorem has_of_shelf {sh : Shelf} (h : r.shelf = .ok sh) : r.store.Has sh := by
  unfold shelf at h
  split at h
  · exact Or.inr (found_of_foundShelf h)
  · exact Or.inl (Except.ok.inj h).symm

/-- A resource that is found by name is in one of the two shelves. -/
theorem resource?_some (h : r.resource? uri = .ok (some (res, r'))) :
    r.Same r' ∧ ∃ sh, r.store.Has sh ∧ sh.resource? uri = some res := by
  obtain ⟨near, hNear, h⟩ := exists_of_bind_ok h
  split at h
  · next found hFound =>
      obtain ⟨rfl, rfl⟩ := Prod.mk.inj (Option.some.inj (Except.ok.inj h))
      exact ⟨.refl _, near, has_of_shelf hNear, hFound⟩
  · obtain ⟨far, hFar, h⟩ := exists_of_bind_ok h
    obtain ⟨found, hFound, hSame⟩ := Option.map_eq_some_iff.mp (Except.ok.inj h)
    obtain ⟨rfl, rfl⟩ := Prod.mk.inj hSame
    exact ⟨⟨rfl, rfl, rfl⟩, far, Or.inr (found_of_foundShelf hFar), hFound⟩

/-- A resource that is not found by name is not in the shelf of all that was found. -/
theorem resource?_none (h : r.resource? uri = .ok none) :
    ∃ far, r.store.found = some far ∧ far.resource? uri = none := by
  obtain ⟨near, _, h⟩ := exists_of_bind_ok h
  split at h
  · cases h
  · obtain ⟨far, hFar, h⟩ := exists_of_bind_ok h
    exact ⟨far, found_of_foundShelf hFar, Option.map_eq_none_iff.mp (Except.ok.inj h)⟩

/-- The two ways in which an anchor is found: under the name that was asked for, or under the name
that the resource gives itself. -/
theorem anchor_ok {a : Anchor} (h : r.anchor uri name = .ok (.ok (a, r'))) :
    r.Same r' ∧ ((∃ sh, r.store.Has sh ∧ sh.anchor? uri name = some a) ∨
      ∃ sh far id, r.store.Has sh ∧ r.store.found = some far ∧ ∃ res,
        sh.resource? (Text.dropEndWhile (·.char == '#') uri) = some res ∧ res.id? = some id ∧
        far.anchor? id name = some a) := by
  obtain ⟨near, hNear, h⟩ := exists_of_bind_ok h
  dsimp only at h
  split at h
  · next found hFound =>
      obtain ⟨rfl, rfl⟩ := Prod.mk.inj (Except.ok.inj (Except.ok.inj h))
      exact ⟨.refl _, Or.inl ⟨near, has_of_shelf hNear, hFound⟩⟩
  · obtain ⟨far, hFar, h⟩ := exists_of_bind_ok h
    have hFar := found_of_foundShelf hFar
    split at h
    · next found hFound =>
        obtain ⟨rfl, rfl⟩ := Prod.mk.inj (Except.ok.inj (Except.ok.inj h))
        exact ⟨⟨rfl, rfl, rfl⟩, Or.inl ⟨far, Or.inr hFar, hFound⟩⟩
    · split at h
      · cases h
      · next res hRes =>
          split at h
          · next found hFound =>
              obtain ⟨rfl, rfl⟩ := Prod.mk.inj (Except.ok.inj (Except.ok.inj h))
              obtain ⟨id, hId, hFound⟩ := Option.bind_eq_some_iff.mp hFound
              exact ⟨⟨rfl, rfl, rfl⟩,
                Or.inr ⟨near, far, id, has_of_shelf hNear, hFar, res, hRes, hId, hFound⟩⟩
          · split at h
            · cases h
            · cases h

theorem anchor_error {why : Unresolved} (h : r.anchor uri name = .ok (.error why)) :
    ∃ near far, r.store.Has near ∧ r.store.found = some far ∧ far.anchor? uri name = none ∧ ∃ res,
      near.resource? (Text.dropEndWhile (·.char == '#') uri) = some res ∧
      ∀ id, res.id? = some id → far.anchor? id name = none := by
  obtain ⟨near, hNear, h⟩ := exists_of_bind_ok h
  dsimp only at h
  split at h
  · cases h
  · obtain ⟨far, hFar, h⟩ := exists_of_bind_ok h
    split at h
    · cases h
    · next hNone =>
        split at h
        · cases h
        · next res hRes =>
            split at h
            · cases h
            · next hGone =>
                refine ⟨near, far, has_of_shelf hNear, found_of_foundShelf hFar,
                  Option.eq_none_iff_forall_ne_some.mpr hNone, res, hRes, fun id hId => ?_⟩
                exact Option.eq_none_iff_forall_ne_some.mpr (by simpa [hId] using hGone)

end Views

section Lookup

/-- The ways in which a reference leads somewhere: a pointer, nothing or an anchor may stand behind
the name. -/
theorem lookup_ok (h : r.lookup ref = .ok (.ok t)) :
    ∃ uri fragment res r', r.parts ref = .ok (uri, fragment) ∧
      r.resource? uri = .ok (some (res, r')) ∧
      ((fragment.startsWith "/" = true ∧ follow res fragment (r'.move uri) res.document []
          (Text.splitOn '/' (Uri.unescape (fragment.drop 1))) = .ok (.ok t)) ∨
        (fragment = [] ∧ t = ⟨res.document, r'.move uri⟩) ∨
        (fragment.startsWith "/" = false ∧ fragment ≠ [] ∧ ∃ a r'',
          r'.anchor uri fragment = .ok (.ok (a, r'')) ∧
            (r''.move uri).atAnchor fragment a = .ok t)) := by
  obtain ⟨⟨uri, fragment⟩, hParts, h⟩ := exists_of_bind_ok h
  obtain ⟨found, hFound, h⟩ := exists_of_bind_ok h
  cases found with
  | none => cases h
  | some pair =>
      obtain ⟨res, r'⟩ := pair
      refine ⟨uri, fragment, res, r', hParts, hFound, ?_⟩
      dsimp only at h
      split at h
      · next hSlash => exact Or.inl ⟨hSlash, h⟩
      · next hSlash =>
          split at h
          · next hEmpty =>
              exact Or.inr (Or.inl ⟨List.isEmpty_iff.mp hEmpty, (Except.ok.inj (Except.ok.inj h)).symm⟩)
          · next hSome =>
              obtain ⟨found, hAnchor, h⟩ := exists_of_bind_ok h
              cases found with
              | error why => cases h
              | ok pair =>
                  obtain ⟨a, r''⟩ := pair
                  obtain ⟨t', hTarget, h⟩ := exists_of_bind_ok h
                  obtain rfl : t' = t := Except.ok.inj (Except.ok.inj h)
                  exact Or.inr (Or.inr
                    ⟨eq_false_of_ne_true hSlash, by simpa using hSome, a, r'', hAnchor, hTarget⟩)

/-- The ways in which a reference leads nowhere. -/
theorem lookup_error {why : Unresolved} (h : r.lookup ref = .ok (.error why)) :
    ∃ uri fragment, r.parts ref = .ok (uri, fragment) ∧ (r.resource? uri = .ok none ∨
      ∃ res r', r.resource? uri = .ok (some (res, r')) ∧
        ((fragment.startsWith "/" = true ∧ follow res fragment (r'.move uri) res.document []
            (Text.splitOn '/' (Uri.unescape (fragment.drop 1))) = .ok (.error why)) ∨
          (fragment.startsWith "/" = false ∧ fragment ≠ [] ∧
            r'.anchor uri fragment = .ok (.error why)))) := by
  obtain ⟨⟨uri, fragment⟩, hParts, h⟩ := exists_of_bind_ok h
  obtain ⟨found, hFound, h⟩ := exists_of_bind_ok h
  refine ⟨uri, fragment, hParts, ?_⟩
  cases found with
  | none => exact Or.inl hFound
  | some pair =>
      obtain ⟨res, r'⟩ := pair
      refine Or.inr ⟨res, r', hFound, ?_⟩
      dsimp only at h
      split at h
      · next hSlash => exact Or.inl ⟨hSlash, h⟩
      · next hSlash =>
          split at h
          · cases h
          · next hSome =>
              obtain ⟨found, hAnchor, h⟩ := exists_of_bind_ok h
              cases found with
              | ok pair =>
                  obtain ⟨_, _, h⟩ := exists_of_bind_ok h
                  cases h
              | error why' =>
                  obtain rfl : why' = why := Except.error.inj (Except.ok.inj h)
                  exact Or.inr ⟨eq_false_of_ne_true hSlash, by simpa using hSome, hAnchor⟩

theorem parts_congr (h : r₀.base = r.base) (ref : Text) : r₀.parts ref = r.parts ref := by
  simp only [parts, h]

theorem parts_root (r : Resolver) : r.parts "#" = .ok (r.base, []) := by
  simp [parts, Text.dropStart?]

variable (hHolds : r.store.Holds Root)

include hHolds

theorem root_of_resource? (h : r.resource? uri = .ok (some (res, r'))) : Root uri res := by
  obtain ⟨_, sh, hHas, hFound⟩ := resource?_some h
  exact hHolds.resource hHas hFound

/-- What one resolver finds by name is not missing for another one. -/
theorem resource?_ne_none (hStore : r₀.store = r.store)
    (h : r₀.resource? uri = .ok (some (res, r'))) : r.resource? uri ≠ .ok none := by
  intro hNone
  obtain ⟨far, hFar, hGone⟩ := resource?_none hNone
  obtain ⟨_, sh, hHas, hFound⟩ := resource?_some h
  rw [hStore] at hHas
  rcases hHas with rfl | hSome
  · have hKept := hHolds.keepsResource hFar (u := uri) (by rw [hFound]; rfl)
    rw [hGone] at hKept
    cases hKept
  · obtain rfl : far = sh := Option.some.inj (hFar.symm.trans hSome)
    rw [hGone] at hFound
    cases hFound

theorem anchor_ne_error {a : Anchor} {why : Unresolved} (hStore : r₀.store = r.store)
    (h : r₀.anchor uri name = .ok (.ok (a, r'))) : r.anchor uri name ≠ .ok (.error why) := by
  intro hError
  obtain ⟨near, far, hNear, hFar, hNone, res, hRes, hGone⟩ := anchor_error hError
  rcases (anchor_ok h).2 with ⟨sh, hHas, hFound⟩ | ⟨sh, far', id, hHas, hFar', res', hRes', hId, hFound⟩
  · rw [hStore] at hHas
    rcases hHas with rfl | hSome
    · have hKept := hHolds.keepsAnchor hFar (u := uri) (n := name) (by rw [hFound]; rfl)
      rw [hNone] at hKept
      cases hKept
    · obtain rfl : far = sh := Option.some.inj (hFar.symm.trans hSome)
      rw [hNone] at hFound
      cases hFound
  · rw [hStore] at hHas hFar'
    obtain rfl : far = far' := Option.some.inj (hFar.symm.trans hFar')
    obtain rfl : res = res' := hHolds.unique (hHolds.resource hNear hRes) (hHolds.resource hHas hRes')
    rw [hGone id hId] at hFound
    cases hFound

/-- Whether a reference leads anywhere is a matter of the name against which it is read, not of the
way that was taken to it. -/
theorem lookup_ne_error {why : Unresolved} (hStore : r₀.store = r.store) (hBase : r₀.base = r.base)
    (h : r₀.lookup ref = .ok (.ok t)) : r.lookup ref ≠ .ok (.error why) := by
  intro hError
  obtain ⟨uri, fragment, res, r₁, hParts, hRes, hWay⟩ := lookup_ok h
  obtain ⟨uri', fragment', hParts', hWay'⟩ := lookup_error hError
  rw [parts_congr hBase, hParts'] at hParts
  obtain ⟨rfl, rfl⟩ := Prod.mk.inj (Except.ok.inj hParts)
  rcases hWay' with hNone | ⟨res', r₂, hRes', hWay'⟩
  · exact resource?_ne_none hHolds hStore hRes hNone
  · have hRoot := root_of_resource? hHolds hRes'
    obtain rfl : res = res' := hHolds.unique (root_of_resource? (hStore ▸ hHolds) hRes) hRoot
    obtain ⟨allowed, hPlain⟩ := hHolds.plain hRoot
    have hUnnamed : ∀ sub, Nested res.document sub → (⟨res.dialect, sub⟩ : Resource).id? = none :=
      fun _ hNested => hPlain.unnamed hPlain.dialect hNested
    rcases hWay' with ⟨hSlash, hFollow'⟩ | ⟨hSlash, hSome, hAnchor'⟩
    · rcases hWay with ⟨_, hFollow⟩ | ⟨rfl, _⟩ | ⟨hOther, _⟩
      · rw [follow_eq_walk hUnnamed _ _ (Or.inl .refl)] at hFollow hFollow'
        obtain ⟨_, hWalk, hStep⟩ := exists_of_map_ok hFollow
        obtain ⟨_, hWalk', hStep'⟩ := exists_of_map_ok hFollow'
        obtain rfl := Except.ok.inj (hWalk.symm.trans hWalk')
        split at hStep
        · cases hStep'
        · cases hStep
      · cases hSlash
      · rw [hOther] at hSlash
        cases hSlash
    · rcases hWay with ⟨hOther, _⟩ | ⟨rfl, _⟩ | ⟨_, _, a, r₃, hAnchor, _⟩
      · rw [hOther] at hSlash
        cases hSlash
      · exact hSome rfl
      · obtain ⟨hSame, _⟩ := resource?_some hRes
        obtain ⟨hSame', _⟩ := resource?_some hRes'
        exact anchor_ne_error (hSame'.store ▸ hHolds)
          (by rw [hSame.store, hSame'.store, hStore]) hAnchor hAnchor'

end Lookup

section Entered

/-- A name under which something was put leads there at once. -/
theorem resource?_of_entered (hNear : r.explored = false) (hHeld : r.store.entered.resource? uri = some res) :
    r.resource? uri = .ok (some (res, r)) := by
  simp [resource?, shelf, hNear, hHeld, bind, Except.bind, pure, Except.pure]

/-- A reference that is the name of a whole document leads to it. -/
theorem lookup_of_entered (hParts : r.parts ref = .ok (uri, [])) (hNear : r.explored = false)
    (hHeld : r.store.entered.resource? uri = some res) :
    r.lookup ref = .ok (.ok ⟨res.document, r.move uri⟩) := by
  have hWhole : Text.startsWith [] "/" = false := rfl
  simp [lookup, hParts, resource?_of_entered hNear hHeld, hWhole, bind, Except.bind, pure, Except.pure]

/-- A pointer into a document under such a name is followed from its root. -/
theorem lookup_of_pointer {fragment : Text} (hParts : r.parts ref = .ok (uri, fragment))
    (hSlash : fragment.startsWith "/" = true) (hNear : r.explored = false)
    (hHeld : r.store.entered.resource? uri = some res) :
    r.lookup ref = follow res fragment (r.move uri) res.document []
      (Text.splitOn '/' (Uri.unescape (fragment.drop 1))) := by
  simp [lookup, hParts, resource?_of_entered hNear hHeld, hSlash, bind, Except.bind]

end Entered

section Landing

theorem move_base (r : Resolver) (base : Text) : (r.move base).base = base := by
  unfold move
  split <;> rfl

theorem move_store (r : Resolver) (base : Text) : (r.move base).store = r.store := by
  unfold move
  split <;> rfl

theorem move_explored (r : Resolver) (base : Text) : (r.move base).explored = r.explored := by
  unfold move
  split <;> rfl

theorem mem_scope_move (h : name ∈ (r.move uri).scope) : name ∈ r.scope ∨ (name = r.base ∧ r.base ≠ []) := by
  unfold move at h
  split at h
  · next hMoves =>
      rcases List.mem_cons.mp h with rfl | hMem
      · exact Or.inr ⟨rfl, by simpa using (Bool.and_eq_true_iff.mp hMoves).1⟩
      · exact Or.inl hMem
  · exact Or.inl h

theorem enter_ok (h : r.enter res = .ok r') : r'.store = r.store ∧ r'.scope = r.scope ∧
    res.nameFrom? r.base = some r'.base := by
  unfold enter at h
  unfold Resource.nameFrom?
  split at h
  · next hNone => obtain rfl := Except.ok.inj h; simp [hNone]
  · next id hId =>
      split at h
      · next base hJoin => obtain rfl := Except.ok.inj h; simp [hId, hJoin]
      · cases h

/-- Whether a resource declares a dynamic anchor of the given name and belongs to a whole that has
one of the names `At`. -/
def Declares (Root : Text → Resource → Prop) (At : Text → Prop) (name : Text) (res : Resource) : Prop :=
  ∃ u whole, At u ∧ Root u whole ∧ whole.Belongs res ∧
    res.document.get? "$dynamicAnchor" = some (.text name)

/-- What the end of a reference can be: a place in a whole resource, or an outer declaration of the
dynamic anchor that the reference names. -/
inductive Ends (Root : Text → Resource → Prop) (uri fragment : Text) (t : Target) : Prop where
  | inside {u : Text} {whole : Resource}
      (hName : u = uri ∨ u = Text.dropEndWhile (·.char == '#') uri) (hRoot : Root u whole)
      (hInside : Inside whole.document t.document ∨ ∃ text, t.document = .text text)
      (hBase : t.resolver.base = uri)
  | outward {near last : Resource}
      (hNear : Declares Root (fun u => u = uri ∨ u = Text.dropEndWhile (·.char == '#') uri) fragment near)
      (hLast : Declares Root (fun _ => True) fragment last)
      (hDocument : t.document = last.document) (hBase : last.nameFrom? uri = some t.resolver.base)

variable (hHolds : r.store.Holds Root)

include hHolds

/-- An anchor that was found is declared in the resource of the name that was asked for. -/
theorem anchor_in {a : Anchor} (h : r.anchor uri name = .ok (.ok (a, r'))) :
    ∃ u whole, (u = uri ∨ u = Text.dropEndWhile (·.char == '#') uri) ∧ Root u whole ∧
      a.In whole name := by
  rcases (anchor_ok h).2 with ⟨sh, hHas, hFound⟩ | ⟨sh, far, id, hHas, hFar, res, hRes, hId, hFound⟩
  · obtain ⟨whole, hRoot, hIn⟩ := hHolds.anchor hHas hFound
    exact ⟨uri, whole, Or.inl rfl, hRoot, hIn⟩
  · obtain ⟨whole, hRoot, hIn⟩ := hHolds.anchor (Or.inr hFar) hFound
    have hRes := hHolds.resource hHas hRes
    obtain rfl : whole = res := hHolds.unique hRoot (hHolds.own hRes hId)
    exact ⟨_, whole, Or.inr rfl, hRes, hIn⟩

/-- The outermost of the dynamic anchors of one name is declared somewhere under that name. -/
theorem declares_of_foldlM {scope : List Text} {first last : Resource}
    (hFirst : Declares Root (fun _ => True) name first)
    (h : scope.foldlM (fun last uri => do
      match ← r.anchor uri name with
      | .ok (other, _) => return if other.isDynamic then other.resource else last
      | .error _ => return last) first = .ok last) : Declares Root (fun _ => True) name last := by
  induction scope generalizing first with
  | nil =>
      obtain rfl : first = last := Except.ok.inj h
      exact hFirst
  | cons uri rest ih =>
      rw [List.foldlM_cons] at h
      obtain ⟨middle, hStep, h⟩ := exists_of_bind_ok h
      refine ih ?_ h
      obtain ⟨found, hAnchor, hStep⟩ := exists_of_bind_ok hStep
      cases found with
      | error why =>
          obtain rfl : first = middle := Except.ok.inj hStep
          exact hFirst
      | ok pair =>
          obtain ⟨other, r'⟩ := pair
          obtain rfl := Except.ok.inj hStep
          split
          · next hDynamic =>
              obtain ⟨u, whole, _, hRoot, hBelongs, hName⟩ := anchor_in hHolds hAnchor
              exact ⟨u, whole, trivial, hRoot, hBelongs, hName hDynamic⟩
          · exact hFirst

/-- Where a reference leads that leads somewhere: the store stays, the names that were passed are
among those before and the last one, and the end is in a resource that the store holds. -/
theorem lookup_ends (h : r.lookup ref = .ok (.ok t)) :
    ∃ uri fragment res, r.parts ref = .ok (uri, fragment) ∧ Root uri res ∧
      t.resolver.store = r.store ∧
      (∀ u ∈ t.resolver.scope, u ∈ r.scope ∨ (u = r.base ∧ r.base ≠ [])) ∧
      Ends Root uri fragment t := by
  obtain ⟨uri, fragment, res, r₁, hParts, hRes, hWay⟩ := lookup_ok h
  have hRoot := root_of_resource? hHolds hRes
  obtain ⟨hSame, _⟩ := resource?_some hRes
  refine ⟨uri, fragment, res, hParts, hRoot, ?_⟩
  have hMoved : ∀ {r₂ : Resolver}, r.Same r₂ → (r₂.move uri).store = r.store ∧
      ∀ u ∈ (r₂.move uri).scope, u ∈ r.scope ∨ (u = r.base ∧ r.base ≠ []) := by
    intro r₂ hSame
    refine ⟨(move_store r₂ uri).trans hSame.store, fun u hMem => ?_⟩
    rw [← hSame.scope, ← hSame.base]
    exact mem_scope_move hMem
  rcases hWay with ⟨_, hFollow⟩ | ⟨_, rfl⟩ | ⟨_, _, a, r₂, hAnchor, hTarget⟩
  · obtain ⟨allowed, hPlain⟩ := hHolds.plain hRoot
    rw [follow_eq_walk (fun _ hNested => hPlain.unnamed hPlain.dialect hNested) _ _ (Or.inl .refl)]
      at hFollow
    obtain ⟨last, hWalk, hStep⟩ := exists_of_map_ok hFollow
    cases last with
    | none => cases hStep
    | some last =>
        obtain rfl : (⟨last, r₁.move uri⟩ : Target) = t := Except.ok.inj hStep
        exact ⟨(hMoved hSame).1, (hMoved hSame).2,
          .inside (Or.inl rfl) hRoot (inside_of_walk (Or.inl .refl) hWalk) (move_base r₁ uri)⟩
  · exact ⟨(hMoved hSame).1, (hMoved hSame).2,
      .inside (Or.inl rfl) hRoot (Or.inl .refl) (move_base r₁ uri)⟩
  · have hSame₂ := hSame.trans (anchor_ok hAnchor).1
    obtain ⟨u, whole, hName, hWhole, hIn⟩ := anchor_in (hSame.store ▸ hHolds) hAnchor
    obtain ⟨hStore, hScope⟩ := hMoved hSame₂
    unfold atAnchor at hTarget
    split at hTarget
    · obtain rfl := Except.ok.inj hTarget
      refine ⟨hStore, hScope, .inside hName hWhole (Or.inl ?_) (move_base r₂ uri)⟩
      rcases hIn.1 with hWholeItself | ⟨hNested, _⟩
      · rw [hWholeItself]
        exact .refl
      · exact hNested.inside
    · next hDynamic =>
        have hNear : whole.Belongs a.resource ∧ _ := ⟨hIn.1, hIn.2 (by simpa using hDynamic)⟩
        obtain ⟨last, hLast, hTarget⟩ := exists_of_bind_ok hTarget
        obtain ⟨resolver, hEnter, hTarget⟩ := exists_of_bind_ok hTarget
        obtain rfl := Except.ok.inj hTarget
        obtain ⟨hStore', hScope', hBase⟩ := enter_ok hEnter
        rw [move_base] at hBase
        refine ⟨hStore'.trans hStore, fun v hMem => hScope v (hScope' ▸ hMem), ?_⟩
        exact .outward ⟨u, whole, hName, hWhole, hNear⟩
          (declares_of_foldlM (hStore.symm ▸ hHolds) ⟨u, whole, trivial, hWhole, hNear⟩ hLast) rfl hBase

/-- A reference without a fragment leads to a whole resource. -/
theorem lookup_whole (h : r.lookup ref = .ok (.ok t)) (hParts : r.parts ref = .ok (uri, [])) :
    ∃ res, Root uri res ∧ t.document = res.document ∧ t.resolver.base = uri := by
  obtain ⟨uri', fragment, res, r', hParts', hRes, hWay⟩ := lookup_ok h
  obtain ⟨rfl, rfl⟩ := Prod.mk.inj (Except.ok.inj (hParts.symm.trans hParts'))
  refine ⟨res, root_of_resource? hHolds hRes, ?_⟩
  rcases hWay with ⟨hSlash, _⟩ | ⟨_, rfl⟩ | ⟨_, hSome, _⟩
  · cases hSlash
  · exact ⟨rfl, move_base r' uri⟩
  · exact absurd rfl hSome

/-- A reference to a whole resource is not dead if the resource was put into the store. -/
theorem lookup_whole_ne_error {why : Unresolved} (hParts : r.parts ref = .ok (uri, []))
    (hIn : (r.store.entered.resource? uri).isSome) : r.lookup ref ≠ .ok (.error why) := by
  intro hError
  obtain ⟨uri', fragment, hParts', hWay⟩ := lookup_error hError
  obtain ⟨rfl, rfl⟩ := Prod.mk.inj (Except.ok.inj (hParts.symm.trans hParts'))
  rcases hWay with hNone | ⟨res, r', _, ⟨hSlash, _⟩ | ⟨_, hSome, _⟩⟩
  · obtain ⟨far, hFar, hGone⟩ := resource?_none hNone
    have hKept := hHolds.keepsResource hFar hIn
    rw [hGone] at hKept
    cases hKept
  · cases hSlash
  · exact hSome rfl

end Landing

section Recursive

theorem outward_induction {P : Target → Prop} {last : Target} {scope : List Text} (hLast : P last)
    (hScope : ∀ uri ∈ scope, ∀ t, r.lookup uri = .ok (.ok t) → P t)
    (h : lookupRecursive.outward r last scope = .ok (.ok t)) : P t := by
  induction scope generalizing last with
  | nil =>
      obtain rfl : last = t := Except.ok.inj (Except.ok.inj h)
      exact hLast
  | cons uri rest ih =>
      obtain ⟨found, hFound, h⟩ := exists_of_bind_ok h
      cases found with
      | error why => cases h
      | ok next =>
          dsimp only at h
          split at h
          · exact ih (hScope uri List.mem_cons_self next hFound)
              (fun u hMem => hScope u (List.mem_cons_of_mem _ hMem)) h
          · obtain rfl : last = t := Except.ok.inj (Except.ok.inj h)
            exact hLast

theorem outward_error {last : Target} {scope : List Text} {why : Unresolved}
    (h : lookupRecursive.outward r last scope = .ok (.error why)) :
    ∃ uri ∈ scope, r.lookup uri = .ok (.error why) := by
  induction scope generalizing last with
  | nil => cases h
  | cons uri rest ih =>
      obtain ⟨found, hFound, h⟩ := exists_of_bind_ok h
      cases found with
      | error why' =>
          obtain rfl : why' = why := Except.error.inj (Except.ok.inj h)
          exact ⟨uri, List.mem_cons_self, hFound⟩
      | ok next =>
          dsimp only at h
          split at h
          · obtain ⟨u, hMem, hError⟩ := ih h
            exact ⟨u, List.mem_cons_of_mem _ hMem, hError⟩
          · cases h

/-- A reference to the root leads to the root of the present resource, or, if that passes it on, to
what the names that were passed lead to. -/
theorem lookupRecursive_ok {P : Target → Prop} (h : r.lookupRecursive = .ok (.ok t))
    (hNear : ∀ near, r.lookup "#" = .ok (.ok near) → P near ∧ (isRecursive near.document = true →
      ∀ uri ∈ r.scope, ∀ t, r.lookup uri = .ok (.ok t) → P t)) : P t := by
  obtain ⟨found, hFound, h⟩ := exists_of_bind_ok h
  cases found with
  | error why => cases h
  | ok near =>
      obtain ⟨hHere, hScope⟩ := hNear near hFound
      dsimp only at h
      split at h
      · next hPasses => exact outward_induction hHere (hScope hPasses) h
      · obtain rfl : near = t := Except.ok.inj (Except.ok.inj h)
        exact hHere

theorem lookupRecursive_error {why : Unresolved} (h : r.lookupRecursive = .ok (.error why)) :
    r.lookup "#" = .ok (.error why) ∨ ∃ near, r.lookup "#" = .ok (.ok near) ∧
      isRecursive near.document = true ∧ ∃ uri ∈ r.scope, r.lookup uri = .ok (.error why) := by
  obtain ⟨found, hFound, h⟩ := exists_of_bind_ok h
  cases found with
  | error why' =>
      obtain rfl : why' = why := Except.error.inj (Except.ok.inj h)
      exact Or.inl hFound
  | ok near =>
      dsimp only at h
      split at h
      · next hPasses => exact Or.inr ⟨near, hFound, hPasses, outward_error h⟩
      · cases h

end Recursive

end Resolver
end Conform.Schema

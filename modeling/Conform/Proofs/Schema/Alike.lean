import Conform.Proofs.Schema.Agreement
import Conform.Proofs.Schema.Parsed
import Conform.Proofs.Schema.Store
import Conform.Schema.Resolver

/-! Stores that hold the same under every name. What a reference leads to depends on nothing else, so
it leads to the same from two resolvers that differ only in such stores. Of one document, the root, the
declaration may have been taken away in the second store, as long as no pointer leads to it. -/
namespace Conform.Schema

variable {root d d' : Document}

/-- Whether a document is another one, which may have lost its declaration if it is the root. -/
def Sheds (root d d' : Document) : Prop := d' = d ∨ (d = root ∧ d' = Parsed.withoutDeclaration d)

namespace Sheds

theorem refl (d : Document) : Sheds root d d := Or.inl rfl

theorem get? (h : Sheds root d d') {k : Text} (hKey : k ≠ "$schema") : d'.get? k = d.get? k := by
  rcases h with rfl | ⟨_, rfl⟩
  · rfl
  · cases d with
    | object ms => exact lookup_filter_ne hKey ms
    | _ => rfl

/-- A document that declares nothing has nothing to lose. -/
theorem eq_of_undeclared (h : Sheds root d d') (hNone : root.get? "$schema" = none) : d' = d := by
  rcases h with rfl | ⟨rfl, rfl⟩
  · rfl
  · cases d with
    | object ms =>
        refine congrArg _ (List.filter_eq_self.mpr fun m hMem => ?_)
        have hOther := List.lookup_eq_none_iff.mp hNone m hMem
        exact bne_iff_ne.mpr fun hSame => bne_iff_ne.mp hOther hSame.symm
    | _ => rfl

end Sheds

namespace Resource

variable {r r' : Resource}

/-- Whether two resources are read in one dialect and have one document, up to the declaration of the
root. -/
structure Alike (root : Document) (r r' : Resource) : Prop where
  dialect : r.dialect = r'.dialect
  document : Sheds root r.document r'.document

theorem Alike.refl (r : Resource) : r.Alike root r := ⟨rfl, .refl _⟩

theorem idKeyword_ne (d : Dialect) : d.idKeyword ≠ "$schema" := by cases d <;> decide

theorem Alike.id?_eq (h : r.Alike root r') : r'.id? = r.id? := by
  have hRef : r'.document.get? "$ref" = r.document.get? "$ref" := h.document.get? (by decide)
  have hName := h.document.get? (idKeyword_ne r.dialect)
  simp only [id?, ← h.dialect, hRef, hName]

theorem insideOf_withoutDeclaration (d : Dialect) (ms : Members) :
    insideOf d (Members.erase "$schema" ms) = insideOf d ms := by
  have hGet : ∀ k : Text, k ≠ "$schema" →
      Members.get? (Members.erase "$schema" ms) k = Members.get? ms k :=
    fun k hKey => lookup_filter_ne hKey ms
  have hKeys : ∀ keywords : List Text, ("$schema" : Text) ∉ keywords →
      keywords.flatMap (fun k => (Members.get? (Members.erase "$schema" ms) k).toList) =
        keywords.flatMap fun k => (Members.get? ms k).toList := by
    intro keywords hFree
    refine List.flatMap_congr fun k hMem => ?_
    rw [hGet k fun hSame => hFree (hSame ▸ hMem)]
  simp only [insideOf]
  rw [hKeys _ (by cases d <;> decide), hKeys _ (by cases d <;> decide), hKeys _ (by cases d <;> decide),
    hKeys _ (by decide), hGet "items" (by decide), hGet "dependencies" (by decide)]

theorem Alike.inside_eq (h : r.Alike root r') : r'.inside = r.inside := by
  unfold inside
  rw [← h.dialect]
  rcases h.document with hSame | ⟨_, hShed⟩
  · rw [hSame]
  · rw [hShed]
    cases r.document with
    | object ms => exact congrArg _ (insideOf_withoutDeclaration _ ms)
    | _ => rfl

theorem named_eq {isDynamic : Bool} {name? : Option Text} :
    r'.named isDynamic name? = (r.named isDynamic name?).map fun a => (a.1, ⟨a.2.isDynamic, r'⟩) := by
  cases name? <;> rfl

theorem Alike.anchors_eq (h : r.Alike root r') :
    r'.anchors = r.anchors.map fun a => (a.1, ⟨a.2.isDynamic, r'⟩) := by
  have hName := h.document.get? (idKeyword_ne r.dialect)
  have hPlain : r'.document.get? "$anchor" = r.document.get? "$anchor" := h.document.get? (by decide)
  have hDynamic : r'.document.get? "$dynamicAnchor" = r.document.get? "$dynamicAnchor" :=
    h.document.get? (by decide)
  unfold anchors
  rw [← h.dialect]
  dsimp only
  rw [hPlain, hDynamic]
  cases hDialect : r.dialect with
  | draft2020 => exact (congrArg₂ _ named_eq named_eq).trans List.map_append.symm
  | draft2019 => exact named_eq
  | _ =>
      rw [hDialect] at hName
      dsimp only
      rw [hName]
      exact named_eq

end Resource

/-- Whether two anchors name alike resources. -/
structure Anchor.Alike (root : Document) (a a' : Anchor) : Prop where
  isDynamic : a.isDynamic = a'.isDynamic
  resource : a.resource.Alike root a'.resource

theorem Anchor.Alike.refl (a : Anchor) : a.Alike root a := ⟨rfl, .refl _⟩

theorem rel_refl {α : Type} {R : α → α → Prop} (h : ∀ a, R a a) (x : Option α) : Option.Rel R x x := by
  cases x with
  | none => exact .none
  | some a => exact .some (h a)

theorem rel_of_eq {α : Type} {R : α → α → Prop} (h : ∀ a, R a a) {x y : Option α} (hSame : x = y) :
    Option.Rel R x y := hSame ▸ rel_refl h x

theorem rel_bind {α β γ δ : Type} {R : α → β → Prop} {S : γ → δ → Prop} {x : Option α} {y : Option β}
    {f : α → Option γ} {g : β → Option δ} (h : Option.Rel R x y)
    (hNext : ∀ a b, R a b → Option.Rel S (f a) (g b)) : Option.Rel S (x.bind f) (y.bind g) := by
  cases h with
  | none => exact .none
  | some h => exact hNext _ _ h

theorem rel_foldlM {α β γ : Type} {R : β → γ → Prop} {f : β → α → Option β} {g : γ → α → Option γ}
    (hStep : ∀ b c a, R b c → Option.Rel R (f b a) (g c a)) (items : List α) {b : β} {c : γ}
    (h : R b c) : Option.Rel R (items.foldlM f b) (items.foldlM g c) := by
  induction items generalizing b c with
  | nil => exact .some h
  | cons a rest ih =>
      rw [List.foldlM_cons, List.foldlM_cons]
      exact rel_bind (hStep b c a h) fun _ _ => ih

namespace Shelf

open Resource (ofDocument)

variable {s s' : Shelf} {r r' : Resource} {uri u name : Text}

/-- Whether two shelves have alike resources under the same names, and alike anchors. -/
structure Alike (root : Document) (s s' : Shelf) : Prop where
  resource : ∀ u, Option.Rel (Resource.Alike root) (s.resource? u) (s'.resource? u)
  anchor : ∀ u n, Option.Rel (Anchor.Alike root) (s.anchor? u n) (s'.anchor? u n)

namespace Alike

theorem refl (s : Shelf) : s.Alike root s :=
  ⟨fun _ => rel_refl .refl _, fun _ _ => rel_refl .refl _⟩

theorem insert (h : s.Alike root s') (hHere : r.Alike root r') :
    (s.insert uri r).Alike root (s'.insert uri r') where
  resource u := by
    by_cases hSame : u = uri
    · subst hSame
      rw [resource?_insert_self, resource?_insert_self]
      exact .some hHere
    · rw [resource?_insert_ne hSame, resource?_insert_ne hSame]
      exact h.resource u
  anchor := h.anchor

theorem insertAnchors (h : s.Alike root s') (hHere : r.Alike root r') :
    (s.insertAnchors uri r).Alike root (s'.insertAnchors uri r') where
  resource := h.resource
  anchor u n := by
    have hFold : ∀ {items items' : List (Text × Anchor)},
        List.Forall₂ (fun a a' => a.1 = a'.1 ∧ a.2.Alike root a'.2) items items' →
        ∀ as as' : List ((Text × Text) × Anchor),
        (∀ k, Option.Rel (Anchor.Alike root) (as.lookup k) (as'.lookup k)) → ∀ k,
        Option.Rel (Anchor.Alike root)
          ((items.foldl (fun as a => ((uri, a.1), a.2) :: as.filter (·.1 != (uri, a.1))) as).lookup k)
          ((items'.foldl (fun as a => ((uri, a.1), a.2) :: as.filter (·.1 != (uri, a.1))) as').lookup k) := by
      intro items items' hAnchors
      induction hAnchors with
      | nil => exact fun as as' hBefore => hBefore
      | @cons a a' _ _ hFirst _ ih =>
          intro as as' hBefore
          obtain ⟨hName, hAlike⟩ := hFirst
          refine ih _ _ fun k => ?_
          dsimp only
          rw [← hName]
          by_cases hKey : k = (uri, a.1)
          · subst hKey
            rw [List.lookup_cons_self, List.lookup_cons_self]
            exact .some hAlike
          · rw [List.lookup_cons, List.lookup_cons, beq_eq_false_iff_ne.mpr hKey]
            dsimp only
            rw [lookup_filter_ne hKey, lookup_filter_ne hKey]
            exact hBefore k
    refine hFold ?_ s.anchors s'.anchors (fun k => h.anchor k.1 k.2) (u, n)
    rw [hHere.anchors_eq, List.forall₂_map_right_iff, List.forall₂_same]
    intro a hMem
    exact ⟨rfl, rfl, (Resource.resource_of_mem_anchors hMem).symm ▸ hHere⟩

end Alike

/-- To look into alike resources keeps shelves alike. -/
theorem explore_alike (depth : Nat) (uri : Text) (hHere : r.Alike root r') (h : s.Alike root s') :
    Option.Rel (Alike root) (explore depth uri r s) (explore depth uri r' s') := by
  induction depth generalizing uri r r' s s' with
  | zero => exact .some h
  | succ depth ih =>
      have hFrom : ∀ uri {t t' : Shelf}, t.Alike root t' → Option.Rel (Alike root)
          (r.inside.reverse.foldlM (fun s inner => explore depth uri inner s) (t.insertAnchors uri r))
          (r.inside.reverse.foldlM (fun s inner => explore depth uri inner s) (t'.insertAnchors uri r')) :=
        fun uri _ _ hAlike =>
          rel_foldlM (fun _ _ inner => ih uri (.refl inner)) _ (hAlike.insertAnchors hHere)
      simp only [explore, hHere.id?_eq, hHere.inside_eq]
      cases r.id? with
      | none => exact hFrom uri h
      | some id =>
          dsimp only
          cases Uri.join? uri id with
          | none => exact .none
          | some name => exact hFrom name (h.insert hHere)

/-- More levels than a document has make no difference. -/
theorem explore_enough {n m : Nat} (uri : Text) (hN : r.document.depth ≤ n) (hM : r.document.depth ≤ m)
    (s : Shelf) : explore n uri r s = explore m uri r s := by
  induction n generalizing m uri r s with
  | zero => exact absurd (Document.depth_pos r.document) (by omega)
  | succ n ih =>
      obtain ⟨m, rfl⟩ := Nat.exists_eq_add_one_of_ne_zero
        (by have := Document.depth_pos r.document; omega : m ≠ 0)
      have hInner : ∀ uri (t : Shelf), ∀ items ⊆ r.inside,
          items.foldlM (fun s inner => explore n uri inner s) t =
            items.foldlM (fun s inner => explore m uri inner s) t := by
        intro uri t items hItems
        induction items generalizing t with
        | nil => rfl
        | cons inner rest ihRest =>
            obtain ⟨hMem, hRest⟩ := List.cons_subset.mp hItems
            obtain ⟨sub, hNested, rfl⟩ := Resource.mem_inside hMem
            have hLess : (ofDocument r.dialect sub).document.depth < r.document.depth := hNested.depth_lt
            have hFirst := fun t => ih uri (show (ofDocument r.dialect sub).document.depth ≤ n by omega)
              (show _ ≤ m by omega) t
            rw [List.foldlM_cons, List.foldlM_cons, hFirst]
            exact congrArg _ (funext fun t => ihRest t hRest)
      simp only [explore, hInner _ _ _ (List.reverse_subset.mpr (List.Subset.refl _))]

theorem exploreAll_alike (names : List Text) (h : s.Alike root s') :
    Option.Rel (Alike root) (s.exploreAll names) (s'.exploreAll names) := by
  refine rel_foldlM (fun near far u hNear => ?_) names h
  unfold exploreNamed
  have hHere := h.resource u
  revert hHere
  cases s.resource? u <;> cases s'.resource? u <;> rintro (hHere | _)
  · exact .some hNear
  · next here here' =>
      have hEnough : ∀ s, explore (here.document.depth + 1) u here s =
          explore (here.document.depth + here'.document.depth + 1) u here s :=
        explore_enough u (by omega) (by omega)
      have hEnough' : ∀ s, explore (here'.document.depth + 1) u here' s =
          explore (here.document.depth + here'.document.depth + 1) u here' s :=
        explore_enough u (by omega) (by omega)
      dsimp only
      rw [hEnough, hEnough']
      exact explore_alike _ u hHere hNear

end Shelf

/-- Whether two stores hold the same under every name. -/
structure Store.Alike (root : Document) (s s' : Store) : Prop where
  entered : s.entered.Alike root s'.entered
  found : Option.Rel (Shelf.Alike root) s.found s'.found

theorem Store.Alike.refl (s : Store) : s.Alike root s := ⟨.refl _, rel_refl .refl _⟩

/-- Two stores are alike if what was put into them is, in whatever order it was put. -/
theorem Store.ofShelf_alike {near near' : Shelf} {names names' : List Text} (h : near.Alike root near')
    (hNames : Text.sorted names = Text.sorted names') :
    (ofShelf near names).Alike root (ofShelf near' names') where
  entered := h
  found := by
    simp only [ofShelf, ← hNames]
    exact Shelf.exploreAll_alike _ h

/-- Whether two resolvers stand in the same place of alike stores. -/
structure Resolver.Alike (root : Document) (r r' : Resolver) : Prop where
  store : r.store.Alike root r'.store
  explored : r.explored = r'.explored
  base : r.base = r'.base
  scope : r.scope = r'.scope

theorem Resolver.Alike.refl (r : Resolver) : r.Alike root r := ⟨.refl _, rfl, rfl, rfl⟩

structure Target.Alike (root : Document) (t t' : Target) : Prop where
  document : Sheds root t.document t'.document
  resolver : t.resolver.Alike root t'.resolver

/-- Whether two references lead nowhere in the same way, in alike resources. -/
inductive AlikeReasons (root : Document) : Unresolved → Unresolved → Prop where
  | same (why : Unresolved) : AlikeReasons root why why
  | pointer (pointer : Text) {d d' : Document} (h : Sheds root d d') :
      AlikeReasons root (.pointer pointer d) (.pointer pointer d')
  | anchor (name : Text) {d d' : Document} (h : Sheds root d d') :
      AlikeReasons root (.anchor name d) (.anchor name d')

/-- Whether two references lead to related places, or nowhere in the same way. -/
def AlikeOutcomes {α β : Type} (root : Document) (related : α → β → Prop) :
    Except Unresolved α → Except Unresolved β → Prop
  | .ok a, .ok b => related a b
  | .error why, .error why' => AlikeReasons root why why'
  | _, _ => False

namespace Resolver

variable {bearable : Failure → Failure → Prop} {r r' : Resolver} {whole whole' inner inner' : Resource}

/-- Whether a reference is a pointer into the root, and the first step of it leads to what the root
declares. -/
def PointsAtDeclaration (root : Document) (r : Resolver) (ref : Text) : Prop :=
  root.get? "$schema" ≠ none ∧ ∃ uri fragment whole near segment rest,
    r.parts ref = .ok (uri, fragment) ∧ r.resource? uri = .ok (some (whole, near)) ∧ whole.document = root ∧
    fragment.startsWith "/" = true ∧
    Text.splitOn '/' (Uri.unescape (fragment.drop 1)) = segment :: rest ∧
    child root segment = .ok (root.get? "$schema", .name "$schema")

theorem not_pointsAtDeclaration {r : Resolver} {ref : Text} (hNone : root.get? "$schema" = none) :
    ¬ r.PointsAtDeclaration root ref := fun h => h.1 hNone

theorem Alike.move (h : r.Alike root r') (base : Text) : (r.move base).Alike root (r'.move base) := by
  unfold Resolver.move
  rw [← h.base, ← h.scope]
  split
  · exact ⟨h.store, h.explored, rfl, rfl⟩
  · exact ⟨h.store, h.explored, rfl, rfl⟩

theorem isRecursive_eq {d d' : Document} (h : Sheds root d d') : isRecursive d' = isRecursive d := by
  have hGet : d'.get? "$recursiveAnchor" = d.get? "$recursiveAnchor" := h.get? (by decide)
  rw [isRecursive, isRecursive, hGet]

variable (hLocal : ∀ f : Failure, f.isLocal = true → bearable f f)

include hLocal

theorem enter_alike (h : r.Alike root r') (hInner : inner.Alike root inner') :
    Agree bearable (Alike root) (r.enter inner) (r'.enter inner') := by
  unfold enter
  rw [hInner.id?_eq, ← h.base]
  split
  · exact .pure h
  · split
    · exact .pure ⟨h.store, h.explored, rfl, h.scope⟩
    · exact .error (hLocal _ rfl)

theorem foundShelf_alike (h : r.Alike root r') :
    Agree bearable (Shelf.Alike root) r.foundShelf r'.foundShelf := by
  have hFound := h.store.found
  unfold foundShelf
  revert hFound
  cases r.store.found <;> cases r'.store.found <;> rintro (hFound | _)
  · exact .error (hLocal _ rfl)
  · exact .pure hFound

theorem shelf_alike (h : r.Alike root r') : Agree bearable (Shelf.Alike root) r.shelf r'.shelf := by
  unfold shelf
  rw [← h.explored]
  split
  · exact foundShelf_alike hLocal h
  · exact .pure h.store.entered

theorem resource?_alike (h : r.Alike root r') (uri : Text) :
    Agree bearable (Option.Rel fun p p' => p.1.Alike root p'.1 ∧ p.2.Alike root p'.2)
      (r.resource? uri) (r'.resource? uri) := by
  refine (shelf_alike hLocal h).bind fun near near' hNear => ?_
  have hHere := hNear.resource uri
  revert hHere
  cases near.resource? uri <;> cases near'.resource? uri <;> rintro (hHere | _)
  · refine (foundShelf_alike hLocal h).bind fun far far' hFar => ?_
    have hThere := hFar.resource uri
    revert hThere
    cases far.resource? uri <;> cases far'.resource? uri <;> rintro (hThere | _)
    · exact .pure .none
    · exact .pure (.some ⟨hThere, h.store, rfl, h.base, h.scope⟩)
  · exact .pure (.some ⟨hHere, h⟩)

theorem anchor_alike (h : r.Alike root r') (uri name : Text) :
    Agree bearable (AlikeOutcomes root fun p p' => p.1.Alike root p'.1 ∧ p.2.Alike root p'.2)
      (r.anchor uri name) (r'.anchor uri name) := by
  refine (shelf_alike hLocal h).bind fun near near' hNear => ?_
  have hHere := hNear.anchor uri name
  revert hHere
  cases near.anchor? uri name <;> cases near'.anchor? uri name <;> rintro (hHere | _)
  · refine (foundShelf_alike hLocal h).bind fun far far' hFar => ?_
    have hWhole : Alike root { r with explored := true } { r' with explored := true } :=
      ⟨h.store, rfl, h.base, h.scope⟩
    have hFound : ∀ v, Option.Rel (Anchor.Alike root) (far.anchor? v name) (far'.anchor? v name) :=
      fun v => hFar.anchor v name
    have hThere := hFound uri
    revert hThere
    cases far.anchor? uri name <;> cases far'.anchor? uri name <;> rintro (hThere | _)
    · have hResource := hNear.resource (Text.dropEndWhile (·.char == '#') uri)
      revert hResource
      dsimp only
      cases near.resource? (Text.dropEndWhile (·.char == '#') uri) <;>
        cases near'.resource? (Text.dropEndWhile (·.char == '#') uri) <;> rintro (hResource | _)
      · exact .error (hLocal _ rfl)
      · next resource resource' =>
          dsimp only
          rw [hResource.id?_eq]
          have hNamed : Option.Rel (Anchor.Alike root) (resource.id?.bind (far.anchor? · name))
              (resource.id?.bind (far'.anchor? · name)) := by
            cases resource.id? with
            | none => exact .none
            | some id => exact hFound id
          revert hNamed
          cases resource.id?.bind (far.anchor? · name) <;> cases resource.id?.bind (far'.anchor? · name) <;>
            rintro (hNamed | _)
          · dsimp only
            split
            · exact .pure (.same _)
            · exact .pure (.anchor _ hResource.document)
          · exact .pure ⟨hNamed, hWhole⟩
    · exact .pure ⟨hThere, hWhole⟩
  · exact .pure ⟨hHere, h⟩

theorem atAnchor_alike (h : r.Alike root r') (name : Text) {a a' : Anchor} (hAnchor : a.Alike root a') :
    Agree bearable (Target.Alike root) (r.atAnchor name a) (r'.atAnchor name a') := by
  unfold atAnchor
  rw [← hAnchor.isDynamic, ← h.scope]
  split
  · exact .pure ⟨hAnchor.resource.document, h⟩
  · refine (Agree.foldlM (T := Resource.Alike root) (fun last last' hLast uri _ => ?_)
      hAnchor.resource).bind fun last last' hLast => ?_
    · refine (anchor_alike hLocal h uri name).bind fun other other' hOther => ?_
      cases other <;> cases other'
      · exact .pure hLast
      · exact hOther.elim
      · exact hOther.elim
      · next found found' =>
          dsimp only
          rw [← hOther.1.isDynamic]
          split
          · exact .pure hOther.1.resource
          · exact .pure hLast
    · exact (enter_alike hLocal h hLast).bind fun resolver resolver' hResolver =>
        .pure ⟨hLast.document, hResolver⟩

theorem child_agree (d : Document) (segment : Text) :
    Agree bearable Eq (child d segment) (child d segment) := by
  have hItems : ∀ items, Agree bearable Eq (child.at_ items segment) (child.at_ items segment) := by
    intro items
    unfold child.at_
    split
    · exact .error (hLocal _ rfl)
    · exact .pure rfl
  cases d with
  | object ms => exact .pure rfl
  | list items => exact hItems items
  | text t => exact hItems _
  | _ => exact .error (hLocal _ rfl)

theorem follow_alike (hWhole : whole.Alike root whole') (pointer : Text) (h : r.Alike root r') (d : Document)
    (passed : List Segment) (segments : List Text) :
    Agree bearable (AlikeOutcomes root (Target.Alike root)) (follow whole pointer r d passed segments)
      (follow whole' pointer r' d passed segments) := by
  induction segments generalizing r r' d passed with
  | nil => exact .pure ⟨.refl d, h⟩
  | cons segment rest ih =>
      refine (child_agree hLocal d segment).bind fun step _ hStep => ?_
      subst hStep
      obtain ⟨next, passing⟩ := step
      cases next with
      | none => exact .pure (.pointer pointer hWhole.document)
      | some next =>
          dsimp only
          rw [← hWhole.dialect]
          split
          · exact (enter_alike hLocal h (.refl _)).bind fun resolver resolver' hResolver => ih hResolver ..
          · exact ih h ..

/-- A pointer that does not lead to the declaration of the root leads to the same from the root without
it. -/
theorem followFromRoot_alike (hWhole : whole.Alike root whole') (pointer : Text) (h : r.Alike root r')
    (segments : List Text)
    (hApart : ∀ segment rest, segments = segment :: rest → whole.document = root →
      root.get? "$schema" ≠ none → child root segment ≠ .ok (root.get? "$schema", .name "$schema")) :
    Agree bearable (AlikeOutcomes root (Target.Alike root))
      (follow whole pointer r whole.document [] segments)
      (follow whole' pointer r' whole'.document [] segments) := by
  cases segments with
  | nil => exact .pure ⟨hWhole.document, h⟩
  | cons segment rest =>
      have hChild : child whole'.document segment = child whole.document segment := by
        rcases hWhole.document with hSame | ⟨hRoot, hShed⟩
        · rw [hSame]
        · rw [hShed]
          cases hObject : whole.document with
          | object ms =>
              by_cases hNone : root.get? "$schema" = none
              · have hAgain : Sheds root whole.document (Parsed.withoutDeclaration whole.document) :=
                  Or.inr ⟨hRoot, rfl⟩
                rw [← hObject, hAgain.eq_of_undeclared hNone]
              · have hOther := hApart segment rest rfl hRoot hNone
                rw [← hRoot, hObject] at hOther
                simp only [child, Parsed.withoutDeclaration, Document.get?] at hOther ⊢
                generalize Text.replacePair '~' '0' "~" (Text.replacePair '~' '1' "/" segment) = name at *
                have hName : name ≠ "$schema" := by
                  rintro rfl
                  exact hOther rfl
                rw [Members.get?, Members.erase, lookup_filter_ne hName]
                rfl
          | _ => rfl
      have hSame : follow whole' pointer r' whole'.document [] (segment :: rest) =
          follow whole' pointer r' whole.document [] (segment :: rest) := by
        simp only [follow, hChild]
      rw [hSame]
      exact follow_alike hLocal hWhole pointer h _ _ _

theorem parts_alike (h : r.Alike root r') (ref : Text) :
    Agree bearable Eq (r.parts ref) (r'.parts ref) := by
  unfold parts
  rw [← h.base]
  split
  · exact .pure rfl
  · split
    · exact .pure rfl
    · exact .error (hLocal _ rfl)

theorem lookup_alike (h : r.Alike root r') (ref : Text) (hApart : ¬ r.PointsAtDeclaration root ref) :
    Agree bearable (AlikeOutcomes root (Target.Alike root)) (r.lookup ref) (r'.lookup ref) := by
  have hParts := parts_alike hLocal h ref
  unfold lookup
  cases hRef : r.parts ref <;> cases hRef' : r'.parts ref <;> rw [hRef, hRef'] at hParts
  · exact hParts
  · exact hParts.elim
  · exact hParts.elim
  · next parts parts' =>
      obtain rfl : parts = parts' := hParts
      obtain ⟨uri, fragment⟩ := parts
      have hResource := resource?_alike hLocal h uri
      dsimp only [bind, Except.bind]
      cases hFound : r.resource? uri <;> cases hFound' : r'.resource? uri <;> rw [hFound, hFound'] at hResource
      · exact hResource
      · exact hResource.elim
      · exact hResource.elim
      · next found found' =>
          replace hResource : Option.Rel _ found found' := hResource
          cases hResource with
          | none => exact .pure (.same _)
          | @some here here' hHere =>
              obtain ⟨hWhole, hNear⟩ := hHere
              dsimp only
              split
              · next hPointer =>
                  refine followFromRoot_alike hLocal hWhole fragment (hNear.move uri) _ ?_
                  intro segment rest hSegments hRoot hSome hChild
                  exact hApart ⟨hSome, uri, fragment, here.1, here.2, segment, rest, hRef, hFound, hRoot, hPointer,
                    hSegments, hChild⟩
              · split
                · exact .pure ⟨hWhole.document, hNear.move uri⟩
                · refine (anchor_alike hLocal hNear uri fragment).bind fun outcome outcome' hOutcome => ?_
                  cases outcome <;> cases outcome'
                  · exact .pure hOutcome
                  · exact hOutcome.elim
                  · exact hOutcome.elim
                  · exact (atAnchor_alike hLocal (hOutcome.2.move uri) fragment hOutcome.1).bind
                      fun t t' hTarget => .pure hTarget

theorem lookupRecursive_alike (h : r.Alike root r')
    (hApart : ∀ uri ∈ r.scope, ¬ r.PointsAtDeclaration root uri) :
    Agree bearable (AlikeOutcomes root (Target.Alike root)) r.lookupRecursive r'.lookupRecursive := by
  have hOutward : ∀ scope ⊆ r.scope, ∀ last last', Target.Alike root last last' →
      Agree bearable (AlikeOutcomes root (Target.Alike root))
        (lookupRecursive.outward r last scope) (lookupRecursive.outward r' last' scope) := by
    intro scope hScope
    induction scope with
    | nil => exact fun last last' hLast => .pure hLast
    | cons uri rest ih =>
        intro last last' hLast
        obtain ⟨hMem, hRest⟩ := List.cons_subset.mp hScope
        refine (lookup_alike hLocal h uri (hApart uri hMem)).bind fun found found' hFound => ?_
        cases found <;> cases found'
        · exact .pure hFound
        · exact hFound.elim
        · exact hFound.elim
        · next t t' =>
            dsimp only
            rw [isRecursive_eq hFound.document]
            split
            · exact ih hRest t t' hFound
            · exact .pure hLast
  have hHash : ¬ r.PointsAtDeclaration root "#" := by
    rintro ⟨_, _, _, _, _, _, _, hParts, _, _, hPointer, _⟩
    obtain ⟨_, rfl⟩ := Prod.mk.inj (Except.ok.inj hParts)
    cases hPointer
  refine (lookup_alike hLocal h _ hHash).bind fun found found' hFound => ?_
  cases found <;> cases found'
  · exact .pure hFound
  · exact hFound.elim
  · exact hFound.elim
  · next t t' =>
      dsimp only
      rw [isRecursive_eq hFound.document, ← h.scope]
      split
      · exact hOutward _ (List.Subset.refl _) t t' hFound
      · exact .pure hFound

end Resolver
end Conform.Schema

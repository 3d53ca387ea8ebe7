import Conform.Proofs.Schema.Landing
import Conform.Proofs.Schema.Linked
import Conform.Proofs.Schema.References

/-! Checks that keep to one dialect. Such a check goes the same way if the schema loses its declaration,
because what is read in the dialect of whatever refers to it is then read in the declared one all the same.
A nameless schema whose references stay in it keeps to its dialect. -/
namespace Conform.Schema

open Document (Inside)

variable {d : Dialect} {c c' start : Context} {root sub : Document} {live : Text → Prop} {ms : Members}

/-- The positions that a check can come to by keywords of the given kind. -/
inductive ReachesBy (live : Text → Prop) (start : Context) (root : Document) : Context → Document → Prop where
  | root : ReachesBy live start root start root
  | entered {c : Context} {ms : Members} {sub : Document} {resolver : Resolver}
      (h : ReachesBy live start root c (.object ms)) (hApplies : AppliesBy live ms sub)
      (hEnter : c.resolver.enter ⟨c.dialect, sub⟩ = .ok resolver) :
      ReachesBy live start root { c.of sub with resolver } sub
  | inspected {c : Context} {ms : Members} {sub : Document}
      (h : ReachesBy live start root c (.object ms)) (hApplies : AppliesBy live ms sub) :
      ReachesBy live start root (c.of sub) sub
  | surveyed {c : Context} {ms : Members} {sub : Document}
      (h : ReachesBy live start root c (.object ms)) (hApplies : AppliesBy live ms sub) :
      ReachesBy live start root c sub
  | referred {c : Context} {ms : Members} {k ref : Text} {t : Target}
      (h : ReachesBy live start root c (.object ms)) (hLive : live k) (hKey : k ∈ referenceKeywords)
      (hMem : (k, .text ref) ∈ ms) (hLookup : c.resolver.lookup ref = .ok (.ok t)) :
      ReachesBy live start root (c.at_ t) t.document
  | recurred {c : Context} {ms : Members} {t : Target} (h : ReachesBy live start root c (.object ms))
      (hLive : live "$recursiveRef") (hHas : Members.has ms "$recursiveRef" = true)
      (hLookup : c.resolver.lookupRecursive = .ok (.ok t)) : ReachesBy live start root (c.at_ t) t.document

/-- Whether a check keeps to a dialect: nothing that it comes to by the keywords of that dialect declares
another one, and no reference on the way leads to the declaration of the root. -/
structure KeepsTo (d : Dialect) (start : Context) (root : Document) : Prop where
  declared : ∀ {c sub d'}, ReachesBy (d.counts · = true) start root c sub →
    ((sub.get? "$schema").bind Document.text?).bind Dialect.ofName? = some d' → d' = d
  apart : ∀ {c ms k ref}, ReachesBy (d.counts · = true) start root c (.object ms) → d.counts k = true →
    k ∈ referenceKeywords → (k, .text ref) ∈ ms → ¬ c.resolver.PointsAtDeclaration root ref

/-- Whether two failures are one, or dead ends for alike reasons. -/
inductive AlikeFailures (root : Document) : Failure → Failure → Prop where
  | same (f : Failure) : AlikeFailures root f f
  | deadEnd (named : Bool) {why why' : Unresolved} (h : AlikeReasons root why why') :
      AlikeFailures root (.deadEnd named why) (.deadEnd named why')

namespace KeepsTo

theorem inner_eq (h : KeepsTo d start root) (hReach : ReachesBy (d.counts · = true) start root c sub) :
    d.inner sub = d :=
  (Dialect.inner_cases d sub).elim id fun hOther => h.declared hReach hOther

/-- Where a check keeps to a dialect, the same check of the root without its declaration goes the same
way. -/
theorem simulation (h : KeepsTo d start root) (hStatic : d.counts "$recursiveRef" = false) :
    Simulation (AlikeFailures root) (d.counts · = true) root fun c c' sub =>
      c.Alike root c' ∧ c.dialect = d ∧ ReachesBy (d.counts · = true) start root c sub where
  dialect hAt := hAt.1.dialect
  formats hAt := hAt.1.formats
  lives {c c' schema k} hAt hCounts := hAt.2.1 ▸ hCounts
  entered {c c' ms sub} hAt hApplies := by
    obtain ⟨hAlike, hDialect, hReach⟩ := hAt
    have hEnter : Agree (AlikeFailures root) (Resolver.Alike root) (c.resolver.enter ⟨c.dialect, sub⟩)
        (c'.resolver.enter ⟨c'.dialect, sub⟩) := by
      rw [← hAlike.dialect]
      exact Resolver.enter_alike (fun f _ => .same f) hAlike.resolver (.refl _)
    cases hHere : c.resolver.enter ⟨c.dialect, sub⟩ <;> cases hThere : c'.resolver.enter ⟨c'.dialect, sub⟩ <;>
      rw [hHere, hThere] at hEnter
    · exact hEnter
    · exact hEnter.elim
    · exact hEnter.elim
    · next r r' =>
        have hNext : ReachesBy (d.counts · = true) start root { c.of sub with resolver := r } sub :=
          .entered hReach hApplies hHere
        exact ⟨⟨congrArg (Dialect.inner · sub) hAlike.dialect, hAlike.formats, hEnter⟩,
          (congrArg (Dialect.inner · sub) hDialect).trans (h.inner_eq hNext), hNext⟩
  inspected {c c' ms sub} hAt hApplies := by
    obtain ⟨hAlike, hDialect, hReach⟩ := hAt
    have hThere : ReachesBy (d.counts · = true) start root (c.of sub) sub := .inspected hReach hApplies
    exact ⟨⟨congrArg (Dialect.inner · sub) hAlike.dialect, hAlike.formats, hAlike.resolver⟩,
      (congrArg (Dialect.inner · sub) hDialect).trans (h.inner_eq hThere), hThere⟩
  surveyed hAt hApplies := ⟨hAt.1, hAt.2.1, .surveyed hAt.2.2 hApplies⟩
  referred {c c' ms k ref} hAt hLive hKey hMem := by
    obtain ⟨hAlike, hDialect, hReach⟩ := hAt
    have hLookup : Agree (AlikeFailures root) (AlikeOutcomes root (Target.Alike root)) (c.resolver.lookup ref)
        (c'.resolver.lookup ref) :=
      Resolver.lookup_alike (fun f _ => .same f) hAlike.resolver ref (h.apart hReach hLive hKey hMem)
    cases hFound : c.resolver.lookup ref <;> cases hFound' : c'.resolver.lookup ref <;>
      rw [hFound, hFound'] at hLookup
    · exact hLookup
    · exact hLookup.elim
    · exact hLookup.elim
    · next outcome outcome' =>
        cases outcome <;> cases outcome'
        · exact fun named => .deadEnd named hLookup
        · exact hLookup.elim
        · exact hLookup.elim
        · next t t' =>
            have hLanding : Target.Alike root t t' := hLookup
            have hThere : ReachesBy (d.counts · = true) start root (c.at_ t) t.document :=
              .referred hReach hLive hKey hMem hFound
            have hHere : (c.at_ t).dialect = d :=
              (congrArg (Dialect.inner · t.document) hDialect).trans (h.inner_eq hThere)
            have hDialect' : c'.dialect = d := hAlike.dialect.symm.trans hDialect
            have hOther : (c'.at_ t').dialect = d := by
              show c'.dialect.inner t'.document = d
              rcases hLanding.document with hSame | ⟨_, hShed⟩
              · rw [hSame, hDialect']
                exact h.inner_eq hThere
              · rw [hShed, Dialect.inner_of_undeclared (Parsed.get?_withoutDeclaration _), hDialect']
            exact ⟨hLanding.document, ⟨hHere.trans hOther.symm, hAlike.formats, hLanding.resolver⟩, hHere, hThere⟩
  recurred _ hLive _ := by
    rw [hStatic] at hLive
    cases hLive

end KeepsTo

namespace Compiled

variable {s : Compiled} {p : Parsed} {bs : Bytes}

section Within

/-- The name of the member that the first step of a pointer leads to. -/
def firstName? (ref : Text) : Option Text :=
  (Text.splitOn '/' (Uri.unescape ((ref.drop 1).drop 1))).head?.map fun segment =>
    Text.replacePair '~' '0' "~" (Text.replacePair '~' '1' "/" segment)

/-- Whether a reference stays in the present document and is no pointer to its declaration. -/
def staysWithin (ref : Text) : Bool := ref.startsWith "#" && firstName? ref != some "$schema"

/-- A test that the references in a document stay there, and that no dialect but the given one is declared
in it. -/
def refersWithin (d : Dialect) (whole : Document) : Bool := whole.every fun sub =>
  match sub with
  | .object ms => ms.all fun m =>
    (!referenceKeywords.contains m.1 || m.2.text?.all staysWithin) &&
      (m.1 != ("$schema" : Text) || (m.2.text?.bind Dialect.ofName?).all (· == d))
  | _ => true

variable {whole : Document} {k ref : Text}

theorem staysWithin_of_mem (h : refersWithin d whole = true) (hInside : Inside whole (.object ms))
    (hKey : k ∈ referenceKeywords) (hMem : (k, .text ref) ∈ ms) : staysWithin ref = true := by
  have hMembers := List.all_eq_true.mp (Document.of_every_inside h hInside) _ hMem
  obtain ⟨hRefers, _⟩ := Bool.and_eq_true_iff.mp hMembers
  simpa [hKey, Document.text?] using hRefers

theorem declared_of_mem (h : refersWithin d whole = true) (hInside : Inside whole sub) {d' : Dialect}
    (hDeclared : ((sub.get? "$schema").bind Document.text?).bind Dialect.ofName? = some d') : d' = d := by
  obtain ⟨t, hText, hName⟩ := Option.bind_eq_some_iff.mp hDeclared
  obtain ⟨ms, rfl, hSays⟩ := Document.says_of_get? hText
  have hMembers := List.all_eq_true.mp (Document.of_every_inside h hInside) _ hSays
  obtain ⟨_, hOwn⟩ := Bool.and_eq_true_iff.mp hMembers
  simpa [Document.text?, hName] using hOwn

theorem name_of_child {segment name : Text} {next : Option Document}
    (h : Resolver.child whole segment = .ok (next, .name name)) :
    name = Text.replacePair '~' '0' "~" (Text.replacePair '~' '1' "/" segment) := by
  have hItems : ∀ items, Resolver.child.at_ items segment ≠ .ok (next, .name name) := by
    intro items hItem
    unfold Resolver.child.at_ at hItem
    split at hItem
    · cases hItem
    · cases hItem
  cases whole with
  | object ms =>
      obtain ⟨_, hName⟩ := Prod.mk.inj (Except.ok.inj h)
      exact (Segment.name.inj hName).symm
  | list items => exact absurd h (hItems items)
  | text t => exact absurd h (hItems _)
  | _ => cases h

theorem not_pointsAtDeclaration_of_staysWithin (r : Resolver) (h : staysWithin ref = true) :
    ¬ r.PointsAtDeclaration whole ref := by
  rintro ⟨_, uri, fragment, _, _, segment, rest, hParts, _, _, _, hSegments, hChild⟩
  obtain ⟨hLocal, hOther⟩ := Bool.and_eq_true_iff.mp h
  have hDrop : ref.dropStart? "#" = some (ref.drop 1) := if_pos hLocal
  have hFragment : fragment = ref.drop 1 := by
    rw [Resolver.parts, hDrop] at hParts
    exact (Prod.mk.inj (Except.ok.inj hParts)).2.symm
  refine bne_iff_ne.mp hOther ?_
  rw [firstName?, ← hFragment, hSegments]
  exact congrArg some (name_of_child hChild).symm

theorem exists_of_mem_references {top : Bool} (h : ref ∈ references top whole) :
    ∃ ms, Inside whole (.object ms) ∧ Members.Says ms "$ref" ref := by
  induction whole using Document.induction_on generalizing top with
  | hStep whole ih =>
      have hPart : ∀ part, Document.Part whole part → ref ∈ references false part →
          ∃ ms, Inside whole (.object ms) ∧ Members.Says ms "$ref" ref := by
        intro part hPart hMem
        obtain ⟨ms, hInside, hSays⟩ := ih part hPart hMem
        exact ⟨ms, .head hPart hInside, hSays⟩
      cases whole with
      | object ms =>
          unfold references at h
          split at h
          · cases h
          · rcases List.mem_append.mp h with hHere | hBelow
            · obtain ⟨v, hGet, hText⟩ := Option.bind_eq_some_iff.mp (Option.mem_toList.mp hHere)
              cases v <;> cases hText
              exact ⟨ms, .refl, Members.mem_of_get? hGet⟩
            · obtain ⟨m, hMem, _, hRef⟩ := mem_memberReferences.mp hBelow
              exact hPart m.2 (.member (k := m.1) hMem) hRef
      | list items =>
          obtain ⟨d, hMem, hRef⟩ := mem_itemReferences.mp h
          exact hPart d (.item hMem) hRef
      | _ => cases h

/-- Where a check of a nameless schema can come to if the references in it stay there. -/
structure StaysWithin (s : Compiled) (c : Context) (sub : Document) : Prop where
  store : c.resolver.store = s.context.resolver.store
  base : c.resolver.base = []
  inside : Inside s.document sub ∨ ∃ t, sub = .text t

section Run

variable {offline : Bool} (hNameless : s.isNameless = true) (h : refersWithin d s.document = true)
  (hRead : Parsed.read offline bs = .ok p) (hOf : ofParsed p [] = .ok s)

include hNameless h hRead hOf

theorem staysWithin_of_lookup {t : Target} (hHere : s.StaysWithin c (.object ms)) (hKey : k ∈ referenceKeywords)
    (hMem : (k, .text ref) ∈ ms) (hLookup : c.resolver.lookup ref = .ok (.ok t)) :
    s.StaysWithin (c.at_ t) t.document := by
  obtain ⟨hOne, hApart, _⟩ := conditions_of_isNameless hNameless
  obtain ⟨hStore, hBase, hInside | ⟨_, hText⟩⟩ := hHere
  · have hStocked : Meta.Stocked s.Owns c.resolver.store := hStore ▸ stocked hRead hOf hOne hApart.names
    obtain ⟨uri, fragment, res, hParts, _, hSame, _, hEnds⟩ := Resolver.lookup_ends hStocked.toHolds hLookup
    obtain ⟨hLocal, _⟩ := Bool.and_eq_true_iff.mp (staysWithin_of_mem h hInside hKey hMem)
    have hDrop : ref.dropStart? "#" = some (ref.drop 1) := if_pos hLocal
    obtain rfl : [] = uri := by
      rw [Resolver.parts, hDrop, hBase] at hParts
      exact (Prod.mk.inj (Except.ok.inj hParts)).1
    have hOwn : ∀ {u whole}, u = [] ∨ u = Text.dropEndWhile (·.char == '#') [] → s.Owns u whole → whole = s.root := by
      rintro u whole hName (⟨_, hRoot⟩ | hMeta)
      · exact hRoot
      · have hEmpty : u = [] := hName.elim (fun hSame => hSame) fun hSame => hSame
        have hAbsolute := Meta.isAbsolute_of_mem (hEmpty ▸ hMeta)
        cases hAbsolute
    cases hEnds with
    | inside hName hOwns hThere hNext =>
        obtain rfl := hOwn hName hOwns
        exact ⟨hSame.trans hStore, hNext, hThere⟩
    | outward hNear _ _ _ =>
        obtain ⟨u, whole, hName, hOwns, hBelongs, hDynamic⟩ := hNear
        obtain rfl := hOwn hName hOwns
        obtain ⟨hNearInside, ms', hObject, hSays⟩ := says_of_belongs hBelongs hDynamic
        exact absurd hSays ((not_says_of_isNameless hNameless (hObject ▸ hNearInside) (by simp [namingKeywords])).2 _)
  · cases hText

theorem staysWithin_of_reachesBy (hReach : ReachesBy live s.context s.document c sub) : s.StaysWithin c sub := by
  obtain ⟨hOne, _⟩ := conditions_of_isNameless hNameless
  have hBase : s.context.resolver.base = [] := by
    simp only [isNameless, Bool.and_eq_true, List.isEmpty_iff] at hNameless
    exact hNameless.1.2
  have hBelow : ∀ {c : Context} {ms sub}, s.StaysWithin c (.object ms) → AppliesBy live ms sub →
      Document.Nested s.document sub := by
    intro c ms sub hHere hApplies
    obtain hInside | ⟨_, hText⟩ := hHere.inside
    · exact hInside.nested_trans (nested_of_applies hApplies.applies)
    · cases hText
  induction hReach with
  | root => exact ⟨rfl, hBase, Or.inl .refl⟩
  | @entered c ms sub resolver _ hApplies hEnter ih =>
      have hNested := hBelow ih hApplies
      have hUnnamed : (⟨c.dialect, sub⟩ : Resource).id? = none := Resource.id?_eq_none fun ms t hObject =>
        (not_says_of_isNameless hNameless (hObject ▸ hNested.inside)
          (by cases c.dialect <;> simp [namingKeywords, Dialect.idKeyword])).2 t
      obtain rfl : c.resolver = resolver := by
        rw [Resolver.enter, hUnnamed] at hEnter
        exact Except.ok.inj hEnter
      exact ⟨ih.store, ih.base, Or.inl hNested.inside⟩
  | inspected _ hApplies ih => exact ⟨ih.store, ih.base, Or.inl (hBelow ih hApplies).inside⟩
  | surveyed _ hApplies ih => exact ⟨ih.store, ih.base, Or.inl (hBelow ih hApplies).inside⟩
  | referred _ _ hKey hMem hLookup ih => exact staysWithin_of_lookup hNameless h hRead hOf ih hKey hMem hLookup
  | recurred _ _ hHas _ ih =>
      obtain hInside | ⟨_, hText⟩ := ih.inside
      · rw [(hOne.static _ hInside).2] at hHas
        cases hHas
      · cases hText

/-- A nameless schema that refers only to itself and declares no other dialect keeps to its own. -/
theorem keepsTo_of_refersWithin : KeepsTo d s.context s.document where
  declared hReach hDeclared := by
    obtain hInside | ⟨_, rfl⟩ := (staysWithin_of_reachesBy hNameless h hRead hOf hReach).inside
    · exact declared_of_mem h hInside hDeclared
    · cases hDeclared
  apart hReach _ hKey hMem := by
    obtain hInside | ⟨_, hText⟩ := (staysWithin_of_reachesBy hNameless h hRead hOf hReach).inside
    · exact not_pointsAtDeclaration_of_staysWithin _ (staysWithin_of_mem h hInside hKey hMem)
    · cases hText

end Run

end Within

end Compiled

end Conform.Schema

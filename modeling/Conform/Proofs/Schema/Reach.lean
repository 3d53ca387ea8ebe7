import Conform.Proofs.Schema.Alike
import Conform.Proofs.Schema.Rules
import Conform.Proofs.Schema.Undeclared

/-! Where a check can come to. Two checks whose positions correspond step by step find the same, so
a check depends on nothing but the positions that it can come to, and a dead end that it runs into
is a dead reference at one of them. -/
namespace Conform.Schema

/-- A relation between the positions of two checks, each a context and the schema read in it, that
every step of the two preserves. Only keywords of the given kind are ever followed, and in the second
check the root may have lost its declaration. -/
structure Simulation (bearable : Failure → Failure → Prop) (live : Text → Prop) (root : Document)
    (At : Context → Context → Document → Prop) : Prop where
  dialect : ∀ {c c' schema}, At c c' schema → c.dialect = c'.dialect
  formats : ∀ {c c' schema}, At c c' schema → c.formats = c'.formats
  lives : ∀ {c c' schema k}, At c c' schema → c.dialect.counts k = true → live k
  entered : ∀ {c c' ms sub}, At c c' (.object ms) → AppliesBy live ms sub →
    Agree bearable (fun r r' => At { c.of sub with resolver := r } { c'.of sub with resolver := r' } sub)
      (c.resolver.enter ⟨c.dialect, sub⟩) (c'.resolver.enter ⟨c'.dialect, sub⟩)
  inspected : ∀ {c c' ms sub}, At c c' (.object ms) → AppliesBy live ms sub → At (c.of sub) (c'.of sub) sub
  surveyed : ∀ {c c' ms sub}, At c c' (.object ms) → AppliesBy live ms sub → At c c' sub
  referred : ∀ {c c' ms k ref}, At c c' (.object ms) → live k → k ∈ referenceKeywords → (k, .text ref) ∈ ms →
    Agree bearable
      (Landing bearable fun t t' => Sheds root t.document t'.document ∧ At (c.at_ t) (c'.at_ t') t.document)
      (c.resolver.lookup ref) (c'.resolver.lookup ref)
  recurred : ∀ {c c' ms}, At c c' (.object ms) → live "$recursiveRef" → Members.has ms "$recursiveRef" = true →
    Agree bearable
      (Landing bearable fun t t' => Sheds root t.document t'.document ∧ At (c.at_ t) (c'.at_ t') t.document)
      c.resolver.lookupRecursive c'.resolver.lookupRecursive

theorem Landing.mono {bearable : Failure → Failure → Prop} {R R' : Target → Target → Prop}
    {r r' : Except Unresolved Target} (h : Landing bearable R r r') (hImp : ∀ t t', R t t' → R' t t') :
    Landing bearable R' r r' := by
  cases r <;> cases r'
  · exact h
  · exact h
  · exact h
  · exact hImp _ _ h

/-- Whether two evaluators agree on whatever brings the two checks to corresponding positions. -/
structure Evaluator.AgreeAlong (bearable : Failure → Failure → Prop) (live : Text → Prop) (root : Document)
    (At : Context → Context → Document → Prop) (e e' : Evaluator) : Prop where
  descend : ∀ {c c' sub}, (∀ ms, sub = .object ms → c.dialect = c'.dialect ∧
      Agree bearable (fun r r' => At { c.of sub with resolver := r } { c'.of sub with resolver := r' } sub)
        (c.resolver.enter ⟨c.dialect, sub⟩) (c'.resolver.enter ⟨c'.dialect, sub⟩)) →
    ∀ x, (e.descend c sub x).Agree bearable (e'.descend c' sub x)
  follow : ∀ {c c' t t'}, c.dialect = c'.dialect → Sheds root t.document t'.document →
    At (c.at_ t) (c'.at_ t') t.document → ∀ x, (e.follow c t x).Agree bearable (e'.follow c' t' x)
  inspect : ∀ {c c' sub}, (∀ ms, sub = .object ms → At (c.of sub) (c'.of sub) sub) →
    ∀ x, (e.inspect c sub x).Agree bearable (e'.inspect c' sub x)
  names : ∀ {c c' sub sub'}, Sheds root sub sub' → (∀ ms, sub = .object ms → At c c' sub) →
    ∀ early, Surveys live early → ∀ ms, Agree bearable Eq (e.names c early sub ms) (e'.names c' early sub' ms)
  places : ∀ {c c' sub sub'}, Sheds root sub sub' → (∀ ms, sub = .object ms → At c c' sub) →
    ∀ early, Surveys live early → ∀ items,
      Agree bearable Eq (e.places c early sub items) (e'.places c' early sub' items)

namespace Simulation

variable {bearable : Failure → Failure → Prop} {live : Text → Prop} {root : Document}
  {At : Context → Context → Document → Prop} {e e' : Evaluator} {c c' : Context} {schema schema' x : Document}
  {ms : Members}

theorem agreeBeyond (h : e.AgreeAlong bearable live root At e') (hDialect : c.dialect = c'.dialect)
    {t t' : Target} (hSheds : Sheds root t.document t'.document)
    (hThere : At (c.at_ t) (c'.at_ t') t.document) : e.AgreeBeyond bearable live e' c c' t t' where
  follow := h.follow hDialect hSheds hThere
  names := h.names hSheds fun _ _ => hThere
  places := h.places hSheds fun _ _ => hThere

/-- At corresponding positions the evaluators agree on all that the keywords lead to. -/
theorem agreeAt (hSim : Simulation bearable live root At) (h : e.AgreeAlong bearable live root At e')
    (hAt : At c c' (.object ms)) : e.AgreeAt bearable live e' c c' ms where
  dialect := hSim.dialect hAt
  formats := hSim.formats hAt
  lives _ := hSim.lives hAt
  applied sub hApplied :=
    have hObject : ∀ {inner}, sub = .object inner → AppliesBy live ms sub := fun hSub => hApplied (hSub ▸ rfl)
    { descend := h.descend fun _ hSub => ⟨hSim.dialect hAt, hSim.entered hAt (hObject hSub)⟩
      inspect := h.inspect fun _ hSub => hSim.inspected hAt (hObject hSub)
      names := h.names (.refl _) fun _ hSub => hSim.surveyed hAt (hObject hSub)
      places := h.places (.refl _) fun _ hSub => hSim.surveyed hAt (hObject hSub) }
  reference _ _ hLive hKey hMem := (hSim.referred hAt hLive hKey hMem).mono fun _ _ hLanding =>
    hLanding.mono fun _ _ hBoth => agreeBeyond h (hSim.dialect hAt) hBoth.1 hBoth.2
  recursive hLive hHas := (hSim.recurred hAt hLive hHas).mono fun _ _ hLanding =>
    hLanding.mono fun _ _ hBoth => agreeBeyond h (hSim.dialect hAt) hBoth.1 hBoth.2

theorem checkSchema_agree (hUnsuitable : bearable .unsuitable .unsuitable)
    {keywords keywords' : Members → Findings}
    (h : ∀ ms, schema = .object ms → (keywords ms).Agree bearable (keywords' ms)) :
    (checkSchema schema x keywords).Agree bearable (checkSchema schema x keywords') := by
  cases schema with
  | bool b =>
      cases b
      · exact .one _
      · exact .done
  | object ms => exact h ms rfl
  | _ => exact .stopped hUnsuitable

/-- That a schema has lost its declaration does not show in a check against its keywords. -/
theorem checkSchema_sheds (hSheds : Sheds root schema schema') (listing : Dialect) :
    (checkSchema schema' x fun ms => checkKeywords e listing c ms x) =
      checkSchema schema x fun ms => checkKeywords e listing c ms x := by
  rcases hSheds with rfl | ⟨_, rfl⟩
  · rfl
  · cases schema with
    | object ms => exact checkKeywords_erase listing x
    | _ => rfl

variable (hLocal : ∀ f : Failure, f.isLocal = true → bearable f f)

include hLocal in
theorem agreeAlong_bottom : Evaluator.bottom.AgreeAlong bearable live root At Evaluator.bottom where
  descend _ _ := .stopped (hLocal _ rfl)
  follow _ _ _ _ := .stopped (hLocal _ rfl)
  inspect _ _ := .stopped (hLocal _ rfl)
  names _ _ _ _ _ := .error (hLocal _ rfl)
  places _ _ _ _ _ := .error (hLocal _ rfl)

include hLocal in
/-- One level more keeps the agreement. -/
theorem agreeAlong_above (hSim : Simulation bearable live root At) (h : e.AgreeAlong bearable live root At e') :
    e.above.AgreeAlong bearable live root At e'.above where
  descend {c c' sub} hStep x := by
    refine checkSchema_agree (hLocal _ rfl) fun ms hSub => ?_
    obtain ⟨hDialect, hEnter⟩ := hStep ms hSub
    subst hSub
    revert hEnter
    cases c.resolver.enter ⟨c.dialect, .object ms⟩ <;>
      cases c'.resolver.enter ⟨c'.dialect, .object ms⟩ <;> intro hEnter
    · exact .stopped hEnter
    · exact hEnter.elim
    · exact hEnter.elim
    · rw [← hDialect]
      exact checkKeywords_agree hLocal (hSim.agreeAt h hEnter) _ x
  follow {c c' t t'} hDialect hSheds hAt x := by
    simp only [Evaluator.above]
    rw [checkSchema_sheds hSheds, ← hDialect]
    exact checkSchema_agree (hLocal _ rfl) fun ms hDoc =>
      checkKeywords_agree hLocal (hSim.agreeAt h (hDoc ▸ hAt)) _ x
  inspect {c c' sub} hStep x := by
    refine checkSchema_agree (hLocal _ rfl) fun ms hSub => ?_
    have hAt := hStep ms hSub
    dsimp only
    rw [← hSim.dialect hAt]
    exact checkKeywords_agree hLocal (hSim.agreeAt h (hSub ▸ hAt)) _ x
  names {c c' sub sub'} hSheds hStep early hLive ms := by
    have hShed : e'.above.names c' early sub' ms = e'.above.names c' early sub ms := by
      rcases hSheds with rfl | ⟨_, rfl⟩
      · rfl
      · cases sub with
        | object inner => exact Rules.evaluatedNames_erase early ms
        | _ => rfl
    rw [hShed]
    cases sub with
    | object inner => exact Rules.evaluatedNames_agree hLocal hLive (hSim.agreeAt h (hStep inner rfl)) ms
    | _ => exact .pure rfl
  places {c c' sub sub'} hSheds hStep early hLive items := by
    have hShed : e'.above.places c' early sub' items = e'.above.places c' early sub items := by
      rcases hSheds with rfl | ⟨_, rfl⟩
      · rfl
      · cases sub with
        | object inner => exact Rules.evaluatedPlaces_erase early items
        | _ => rfl
    rw [hShed]
    cases sub with
    | object inner => exact Rules.evaluatedPlaces_agree hLocal hLive (hSim.agreeAt h (hStep inner rfl)) items
    | _ => exact .pure rfl

include hLocal in
theorem agreeAlong_ofLevels (hSim : Simulation bearable live root At) (n : Nat) :
    (Evaluator.ofLevels n).AgreeAlong bearable live root At (Evaluator.ofLevels n) := by
  induction n with
  | zero => exact agreeAlong_bottom hLocal
  | succ n ih => exact agreeAlong_above hLocal hSim ih

include hLocal in
/-- Two checks that start at corresponding positions find the same. -/
theorem check_agree (hSim : Simulation bearable live root At) (hSheds : Sheds root schema schema')
    (hStart : At c c' schema) (x : Document) : (check c schema x).Agree bearable (check c' schema' x) := by
  unfold check
  rw [checkSchema_sheds hSheds]
  refine checkSchema_agree (hLocal _ rfl) fun ms hSchema => ?_
  subst hSchema
  rw [← hSim.dialect hStart]
  exact checkKeywords_agree hLocal (hSim.agreeAt (agreeAlong_ofLevels hLocal hSim _) hStart) _ x

end Simulation

namespace Resolver

variable {bearable : Failure → Failure → Prop} (hLocal : ∀ f : Failure, f.isLocal = true → bearable f f)

include hLocal

/-- What goes wrong on the way of a reference is never a dead end itself: that a reference leads
nowhere is an answer, not a failure. -/
theorem lookup_agree (r : Resolver) (ref : Text) :
    Agree bearable Eq (r.lookup ref) (r.lookup ref) := by
  have hSelf : Agree bearable (AlikeOutcomes .null (Target.Alike .null)) (r.lookup ref) (r.lookup ref) :=
    lookup_alike hLocal (.refl r) ref (not_pointsAtDeclaration rfl)
  exact .refl fun f hError => hSelf.bearable_of_error hError

theorem lookupRecursive_agree (r : Resolver) :
    Agree bearable Eq r.lookupRecursive r.lookupRecursive := by
  have hSelf : Agree bearable (AlikeOutcomes .null (Target.Alike .null)) r.lookupRecursive r.lookupRecursive :=
    lookupRecursive_alike hLocal (.refl r) fun _ _ => not_pointsAtDeclaration rfl
  exact .refl fun f hError => hSelf.bearable_of_error hError

theorem enter_agree (r : Resolver) (inner : Resource) :
    Agree bearable Eq (r.enter inner) (r.enter inner) := by
  have hSelf : Agree bearable (Alike .null) (r.enter inner) (r.enter inner) :=
    enter_alike hLocal (.refl r) (.refl inner)
  exact .refl fun f hError => hSelf.bearable_of_error hError

end Resolver

/-- The positions that a check of a schema can come to: a schema with the context in which it is
read. -/
inductive Reaches (start : Context) (root : Document) : Context → Document → Prop where
  | root : Reaches start root start root
  /-- A schema inside is entered. -/
  | entered {c : Context} {ms : Members} {sub : Document} {resolver : Resolver}
      (h : Reaches start root c (.object ms)) (hApplies : Applies ms sub)
      (hEnter : c.resolver.enter ⟨c.dialect, sub⟩ = .ok resolver) :
      Reaches start root { c.of sub with resolver } sub
  /-- A schema inside is only asked whether it allows a value. -/
  | inspected {c : Context} {ms : Members} {sub : Document}
      (h : Reaches start root c (.object ms)) (hApplies : Applies ms sub) :
      Reaches start root (c.of sub) sub
  /-- A schema inside is only asked what it takes care of. -/
  | surveyed {c : Context} {ms : Members} {sub : Document}
      (h : Reaches start root c (.object ms)) (hApplies : Applies ms sub) : Reaches start root c sub
  | referred {c : Context} {ms : Members} {k ref : Text} {t : Target}
      (h : Reaches start root c (.object ms)) (hKey : k ∈ referenceKeywords)
      (hMem : (k, .text ref) ∈ ms) (hLookup : c.resolver.lookup ref = .ok (.ok t)) :
      Reaches start root (c.at_ t) t.document
  | recurred {c : Context} {ms : Members} {t : Target} (h : Reaches start root c (.object ms))
      (hHas : Members.has ms "$recursiveRef" = true)
      (hLookup : c.resolver.lookupRecursive = .ok (.ok t)) : Reaches start root (c.at_ t) t.document

/-- Whether at some position that a check can come to a reference leads nowhere, for the given
reason. -/
def MeetsDeadReference (start : Context) (root : Document) (why : Unresolved) : Prop :=
  ∃ c ms, Reaches start root c (.object ms) ∧
    ((∃ k ∈ referenceKeywords, ∃ ref, (k, .text ref) ∈ ms ∧
        c.resolver.lookup ref = .ok (.error why)) ∨
      (Members.has ms "$recursiveRef" = true ∧ c.resolver.lookupRecursive = .ok (.error why)))

namespace Reaches

variable {bearable : Failure → Failure → Prop} (start : Context) (root : Document)

/-- A check corresponds to itself along the positions that it can come to. -/
theorem simulation (hLocal : ∀ f : Failure, f.isLocal = true → bearable f f)
    (hDead : ∀ named why, MeetsDeadReference start root why →
      bearable (.deadEnd named why) (.deadEnd named why)) :
    Simulation bearable (fun _ => True) .null fun c c' schema => c = c' ∧ Reaches start root c schema where
  dialect := fun ⟨hSame, _⟩ => hSame ▸ rfl
  formats := fun ⟨hSame, _⟩ => hSame ▸ rfl
  lives := fun _ _ => trivial
  entered {c c' ms sub} hAt hApplies := by
    obtain ⟨rfl, hReach⟩ := hAt
    have hEnter := Resolver.enter_agree hLocal c.resolver ⟨c.dialect, sub⟩
    cases hResolver : c.resolver.enter ⟨c.dialect, sub⟩ with
    | error f => exact .error (hEnter.bearable_of_error hResolver)
    | ok resolver => exact ⟨rfl, .entered hReach hApplies.applies hResolver⟩
  inspected := fun ⟨hSame, hReach⟩ hApplies => ⟨hSame ▸ rfl, .inspected hReach hApplies.applies⟩
  surveyed := fun ⟨hSame, hReach⟩ hApplies => ⟨hSame, .surveyed hReach hApplies.applies⟩
  referred {c c' ms k ref} hAt _ hKey hMem := by
    obtain ⟨rfl, hReach⟩ := hAt
    have hLookup := Resolver.lookup_agree hLocal c.resolver ref
    cases hFound : c.resolver.lookup ref with
    | error f => exact .error (hLookup.bearable_of_error hFound)
    | ok found =>
        cases found with
        | ok t => exact ⟨.refl _, rfl, .referred hReach hKey hMem hFound⟩
        | error why =>
            exact fun named => hDead named why ⟨c, ms, hReach, Or.inl ⟨k, hKey, ref, hMem, hFound⟩⟩
  recurred {c c' ms} hAt _ hHas := by
    obtain ⟨rfl, hReach⟩ := hAt
    have hLookup := Resolver.lookupRecursive_agree hLocal c.resolver
    cases hFound : c.resolver.lookupRecursive with
    | error f => exact .error (hLookup.bearable_of_error hFound)
    | ok found =>
        cases found with
        | ok t => exact ⟨.refl _, rfl, .recurred hReach hHas hFound⟩
        | error why =>
            exact fun named => hDead named why ⟨c, ms, hReach, Or.inr ⟨hHas, hFound⟩⟩

variable {start root}

/-- A check that runs into a dead end met a dead reference on its way. -/
theorem meetsDeadReference {x : Document} {named : Bool} {why : Unresolved}
    (hStop : (check start root x).all = .error (.deadEnd named why)) :
    MeetsDeadReference start root why := by
  let bearable : Failure → Failure → Prop :=
    fun f _ => ∀ named why, f = .deadEnd named why → MeetsDeadReference start root why
  have hLocal : ∀ f : Failure, f.isLocal = true → bearable f f := by
    intro f hMet named why hDead
    subst hDead
    cases hMet
  have hSim : Simulation bearable (fun _ => True) .null
      fun c c' schema => c = c' ∧ Reaches start root c schema :=
    simulation start root hLocal fun named why hMeets _ _ hSame => by
      cases hSame
      exact hMeets
  have hAgree := hSim.check_agree hLocal (.refl root) ⟨rfl, .root⟩ x
  exact hAgree.all.bearable_of_error hStop named why rfl

end Reaches

namespace Evaluator

open Classical in
/-- The evaluator that gives up wherever it would come to a position outside `P`. -/
noncomputable def confined (P : Context → Document → Prop) (e : Evaluator) : Evaluator where
  descend c sub x :=
    if ∀ resolver, sub.isObject = true → c.resolver.enter ⟨c.dialect, sub⟩ = .ok resolver →
        P { c.of sub with resolver } sub then e.descend c sub x
    else .stopped .endless
  follow c t x := if P (c.at_ t) t.document then e.follow c t x else .stopped .endless
  inspect c sub x :=
    if sub.isObject = true → P (c.of sub) sub then e.inspect c sub x else .stopped .endless
  names c early sub ms :=
    if sub.isObject = true → P c sub then e.names c early sub ms else .error .endless
  places c early sub items :=
    if sub.isObject = true → P c sub then e.places c early sub items else .error .endless

/-- The evaluator with a number of levels, confined on each of them. -/
noncomputable def ofLevelsWithin (P : Context → Document → Prop) : Nat → Evaluator
  | 0 => bottom
  | n + 1 => confined P (above (ofLevelsWithin P n))

variable {bearable : Failure → Failure → Prop} {live : Text → Prop} {At : Context → Context → Document → Prop}
  {e e' : Evaluator} {P : Context → Document → Prop}

/-- Confinement to where the checks go anyhow changes nothing. -/
theorem AgreeAlong.confined (h : e.AgreeAlong bearable live .null At e')
    (hWithin : ∀ {c c' schema}, At c c' schema → P c' schema) :
    e.AgreeAlong bearable live .null At (e'.confined P) where
  descend {c c' sub} hStep x := by
    have hInside : ∀ resolver, sub.isObject = true →
        c'.resolver.enter ⟨c'.dialect, sub⟩ = .ok resolver →
        P { c'.of sub with resolver } sub := by
      intro resolver hObject hEnter
      cases sub with
      | object ms =>
          obtain ⟨_, hAgree⟩ := hStep ms rfl
          rw [hEnter] at hAgree
          cases hOther : c.resolver.enter ⟨c.dialect, .object ms⟩ with
          | error f =>
              rw [hOther] at hAgree
              exact hAgree.elim
          | ok other =>
              rw [hOther] at hAgree
              exact hWithin hAgree
      | _ => cases hObject
    simpa only [Evaluator.confined, if_pos hInside] using h.descend hStep x
  follow {c c' t t'} hDialect hSheds hAt x := by
    have hInside : P (c'.at_ t') t'.document := hSheds.eq_of_undeclared rfl ▸ hWithin hAt
    simpa only [Evaluator.confined, if_pos hInside] using h.follow hDialect hSheds hAt x
  inspect {c c' sub} hStep x := by
    have hInside : sub.isObject = true → P (c'.of sub) sub := by
      intro hObject
      cases sub with
      | object ms => exact hWithin (hStep ms rfl)
      | _ => cases hObject
    simpa only [Evaluator.confined, if_pos hInside] using h.inspect hStep x
  names {c c' sub sub'} hSheds hStep early hLive ms := by
    obtain rfl := hSheds.eq_of_undeclared rfl
    have hInside : sub'.isObject = true → P c' sub' := by
      intro hObject
      cases sub' with
      | object ms => exact hWithin (hStep ms rfl)
      | _ => cases hObject
    simpa only [Evaluator.confined, if_pos hInside] using h.names hSheds hStep early hLive ms
  places {c c' sub sub'} hSheds hStep early hLive items := by
    obtain rfl := hSheds.eq_of_undeclared rfl
    have hInside : sub'.isObject = true → P c' sub' := by
      intro hObject
      cases sub' with
      | object ms => exact hWithin (hStep ms rfl)
      | _ => cases hObject
    simpa only [Evaluator.confined, if_pos hInside] using h.places hSheds hStep early hLive items

end Evaluator

/-- A check that gives up wherever it would come to a position outside `P`. -/
noncomputable def checkWithin (P : Context → Document → Prop) (c : Context) (schema x : Document) :
    Findings :=
  checkSchema schema x fun ms =>
    checkKeywords (Evaluator.ofLevelsWithin P Evaluator.maxLevels) c.dialect c ms x

/-- A check depends on nothing but the positions that it can come to: if it gives up outside of
them, it finds the same. -/
theorem Reaches.check_eq_checkWithin (start : Context) (root x : Document) :
    check start root x = checkWithin (Reaches start root) start root x := by
  have hLocal : ∀ f : Failure, f.isLocal = true → f = f := fun _ _ => rfl
  have hSim : Simulation Eq (fun _ => True) .null fun c c' schema => c = c' ∧ Reaches start root c schema :=
    simulation start root hLocal fun _ _ _ => rfl
  have hLevels : ∀ n, (Evaluator.ofLevels n).AgreeAlong Eq (fun _ => True) .null
      (fun c c' schema => c = c' ∧ Reaches start root c schema)
      (Evaluator.ofLevelsWithin (Reaches start root) n) := by
    intro n
    induction n with
    | zero => exact Simulation.agreeAlong_bottom hLocal
    | succ n ih =>
        exact (Simulation.agreeAlong_above hLocal hSim ih).confined fun ⟨hSame, hReach⟩ =>
          hSame ▸ hReach
  have hAgree : (check start root x).Agree Eq (checkWithin (Reaches start root) start root x) := by
    refine Simulation.checkSchema_agree rfl fun ms hRoot => ?_
    subst hRoot
    exact checkKeywords_agree hLocal (hSim.agreeAt (hLevels _) ⟨rfl, .root⟩) _ x
  exact hAgree.eq fun _ _ => id

end Conform.Schema

import Conform.Proofs.Schema.Bearings

/-! The forms that the schemas of schemas ask for. A check of a schema finds the same with and without them where all
regular expressions in the schema can be read, and with them it finds nothing only there. -/
namespace Conform.Schema

variable {d : Dialect} {r : Resolver} {u k t : Text} {x y v sub : Document} {role : Role} {e : Evaluator}
  {c c' : Context} {schema ms : Members} {ds items : List Document} {m : Text × Document}

namespace Legible

theorem keyword (h : Legible d .schema (.object ms)) (hGet : Members.get? ms k = some v) : Legible d (d.role k) v :=
  fun t hIn => h t (.keyword hGet hIn)

theorem value (h : Legible d role (.object ms)) (hMem : (k, v) ∈ ms) : Legible d role.ofValues v :=
  fun t hIn => h t (.value hMem hIn)

theorem name (h : Legible d role (.object ms)) (hMem : (k, v) ∈ ms) : Legible d role.ofNames (.text k) :=
  fun t hIn => h t (.name hMem hIn)

theorem item (h : Legible d role (.list items)) (hMem : v ∈ items) : Legible d role.ofItems v :=
  fun t hIn => h t (.item hMem hIn)

theorem choice {one : Role} (h : Legible d role x) (hMem : one ∈ role.choices) : Legible d one x :=
  fun t hIn => h t (.choice hMem hIn)

end Legible

section Congruence

theorem Rule.check_of_isSelfContained {rule : Rule} (h : rule.isSelfContained = true) (hDialect : c.dialect = c'.dialect)
    (e e' : Evaluator) (keyword : Text) (value : Document) (schema : Members) (x : Document) :
    rule.check e c keyword value schema x = rule.check e' c' keyword value schema x := by
  cases rule with
  | type => simp only [check, Rules.type, hDialect]
  | enum | const | limit | switchedLimit | multipleOf | size | pattern | uniqueItems | required | dependentRequired => rfl
  | _ => cases h

theorem below_congr (h : e.descend c sub y = e.descend c' sub y) (step : Text) :
    e.below c step sub y = e.below c' step sub y := by
  unfold Evaluator.below
  split <;> rw [h]

theorem Rules.firstFit_congr (h : ∀ sub ∈ ds, e.descend c sub x = e.descend c' sub x) :
    firstFit e c x ds = firstFit e c' x ds := by
  induction ds with
  | nil => rfl
  | cons sub rest ih =>
      rw [firstFit, firstFit, h sub List.mem_cons_self, ih fun s hs => h s (List.mem_cons_of_mem _ hs)]

theorem Rules.mem_of_mem_placed {start i : Nat} (h : (i, y) ∈ placed start ds) : y ∈ ds := by
  induction ds generalizing start with
  | nil => cases h
  | cons d rest ih =>
      rw [placed] at h
      rcases List.mem_cons.mp h with hHere | hRest
      · exact (Prod.mk.inj hHere).2 ▸ List.mem_cons_self
      · exact List.mem_cons_of_mem _ (ih hRest)

theorem Rules.checkAll_congr (h : ∀ y ∈ ds, e.descend c sub y = e.descend c' sub y) (start : Nat) :
    checkAll e c sub (placed start ds) = checkAll e c' sub (placed start ds) :=
  Findings.forEach_congr fun _ hMem => below_congr (h _ (mem_of_mem_placed hMem)) _

theorem Rules.mem_of_extraMembers {extras : Members} (h : extraMembers schema ms = .ok extras) (hMem : m ∈ extras) :
    m ∈ ms := by
  unfold extraMembers at h
  obtain ⟨known, -, h⟩ := exists_of_bind_ok h
  obtain ⟨patterns, -, h⟩ := exists_of_bind_ok h
  dsimp only at h
  split at h
  · obtain rfl := Except.ok.inj h
    exact (List.mem_filter.mp hMem).1
  · obtain ⟨compiled, -, h⟩ := exists_of_bind_ok h
    obtain rfl := Except.ok.inj h
    exact (List.mem_filter.mp (List.mem_filter.mp hMem).1).1

end Congruence

namespace Meta

/-- Whether an evaluator finds the same in a part of a schema with and without the forms, if all regular expressions in
it can be read. -/
def SameOn (e : Evaluator) (d : Dialect) (r : Resolver) (s : Role × Document) : Prop :=
  ∀ y, Legible d s.1 y → e.descend ⟨d, r, true⟩ s.2 y = e.descend ⟨d, r, false⟩ s.2 y

/-- Whether it does so beyond the references to what has a role. -/
def SameBeyond (e : Evaluator) (d : Dialect) (r : Resolver) (role : Role) : Prop :=
  ∀ l ∈ landmarks documents d, l.role = role → ∀ r', Bearing d r' l.base → d.inner (.object l.schema) = d → ∀ y,
    Legible d role y → e.follow ⟨d, r, true⟩ ⟨.object l.schema, r'⟩ y = e.follow ⟨d, r, false⟩ ⟨.object l.schema, r'⟩ y

section Keyword

variable (hDialect : d = .draft7 ∨ d = .draft2020) (h : Bearing d r u)

theorem format_eq {form : Text} (hAsked : form = "regex" → role = .expression) (hLegible : Legible d role x) :
    Rules.format ⟨d, r, true⟩ k (.text form) x = Rules.format ⟨d, r, false⟩ k (.text form) x := by
  cases x with
  | text t =>
      simp only [Rules.format]
      split
      · next hForm =>
          obtain rfl := hAsked (eq_of_beq hForm)
          obtain ⟨compiled, hCompiled⟩ := exists_of_isOk (hLegible t (.here t))
          rw [hCompiled]
      · rfl
  | _ => rfl

theorem properties_eq {subs : Members} (hSubs : ∀ s ∈ subs, SameOn e d r (d.role s.1, s.2))
    (hLegible : Legible d .schema x) :
    Rules.properties e ⟨d, r, true⟩ (.object subs) x = Rules.properties e ⟨d, r, false⟩ (.object subs) x := by
  cases x with
  | object ms =>
      refine Findings.forEach_congr fun ⟨name, sub⟩ hMem => ?_
      dsimp only
      cases hGet : Members.get? ms name with
      | none => rfl
      | some v => exact below_congr (hSubs _ hMem v (hLegible.keyword hGet)) name
  | _ => rfl

theorem additionalProperties_eq (hSub : SameOn e d r (role.ofValues, sub)) (hLegible : Legible d role x) :
    Rules.additionalProperties e ⟨d, r, true⟩ k sub schema x =
      Rules.additionalProperties e ⟨d, r, false⟩ k sub schema x := by
  cases x with
  | object ms =>
      simp only [Rules.additionalProperties]
      cases hExtras : Rules.extraMembers schema ms with
      | error f => rfl
      | ok extras =>
          simp only [bind, Except.bind]
          split
          · refine congrArg (fun f => Findings.ofExcept (.ok f)) (Findings.forEach_congr fun m hMem => ?_)
            exact below_congr (hSub m.2 (hLegible.value (Rules.mem_of_extraMembers hExtras hMem))) m.1
          · rfl
  | _ => rfl

theorem propertyNames_eq (hSub : SameOn e d r (role.ofNames, sub)) (hLegible : Legible d role x) :
    Rules.propertyNames e ⟨d, r, true⟩ sub x = Rules.propertyNames e ⟨d, r, false⟩ sub x := by
  cases x with
  | object ms => exact Findings.forEach_congr fun m hMem => hSub _ (hLegible.name hMem)
  | _ => rfl

theorem items_eq (hSub : SameOn e d r (role.ofItems, sub)) (hLegible : Legible d role x) :
    Rules.items e ⟨d, r, true⟩ k sub schema x = Rules.items e ⟨d, r, false⟩ k sub schema x := by
  cases x with
  | list items =>
      simp only [Rules.items]
      cases Rules.listedCount schema "prefixItems" with
      | error f => rfl
      | ok listed =>
          have hAll := Rules.checkAll_congr (fun y hMem =>
            hSub y (hLegible.item (List.mem_of_mem_drop (i := listed) hMem))) listed
          simp only [bind, Except.bind]
          cases hRest : items.drop listed with
          | nil => cases sub <;> rfl
          | cons y rest =>
              rw [hRest] at hAll
              cases sub with
              | bool b =>
                  cases b with
                  | false => rfl
                  | true => exact congrArg (fun f => Findings.ofExcept (.ok f)) hAll
              | _ => exact congrArg (fun f => Findings.ofExcept (.ok f)) hAll
  | _ => rfl

theorem eitherItems_eq (hSub : SameOn e d r (role.ofItems, sub)) (hLegible : Legible d role x)
    (hNoList : ∀ subs, sub ≠ .list subs) :
    Rules.eitherItems e ⟨d, r, true⟩ sub x = Rules.eitherItems e ⟨d, r, false⟩ sub x := by
  cases x with
  | list items =>
      have hAll := Rules.checkAll_congr (fun y hMem => hSub y (hLegible.item hMem)) 0
      cases sub with
      | list subs => exact absurd rfl (hNoList subs)
      | _ => exact hAll
  | _ => rfl

theorem allOf_eq (hSubs : ∀ sub ∈ ds, SameOn e d r (role, sub)) (hLegible : Legible d role x) :
    Rules.allOf e ⟨d, r, true⟩ (.list ds) x = Rules.allOf e ⟨d, r, false⟩ (.list ds) x :=
  Findings.forEach_congr fun sub hMem => hSubs sub hMem x hLegible

theorem anyOf_eq (hSubs : ∀ sub ∈ ds, e.descend ⟨d, r, true⟩ sub x = e.descend ⟨d, r, false⟩ sub x) :
    Rules.anyOf e ⟨d, r, true⟩ k (.list ds) x = Rules.anyOf e ⟨d, r, false⟩ k (.list ds) x := by
  simp only [Rules.anyOf, overParts, parts?, Rules.firstFit_congr hSubs]

/-- Each of several alternatives stands beside one of the kinds that a part may be of. -/
theorem mem_zip_choices (hLength : role.choices.length = ds.length) (hMem : sub ∈ ds) :
    ∃ one ∈ role.choices, (one, sub) ∈ role.choices.zip ds := by
  obtain ⟨i, hBound, rfl⟩ := List.getElem_of_mem hMem
  have hHere : i < (role.choices.zip ds).length := by simp [hLength, hBound]
  refine ⟨role.choices[i], List.getElem_mem _, ?_⟩
  rw [← List.getElem_zip (h := hHere)]
  exact List.getElem_mem _

include hDialect h

theorem reference_eq {ref : Text} (hAim : (aims documents d u ref).any (·.role == role) = true)
    (hBeyond : SameBeyond e d r role) (hLegible : Legible d role x) :
    Rules.reference e ⟨d, r, true⟩ (.text ref) x = Rules.reference e ⟨d, r, false⟩ (.text ref) x := by
  obtain ⟨l, hMem, hRole⟩ := List.any_eq_true.mp hAim
  obtain ⟨hMark, r', hLookup, hThere, hInner⟩ := lookup_of_mem_aims hDialect h hMem
  simp only [Rules.reference, Rules.target, hLookup, bind, Except.bind]
  exact congrArg (fun f => Findings.ofExcept (.ok f)) (hBeyond l hMark (eq_of_beq hRole) r' hThere hInner x hLegible)

/-- A keyword of a schema of schemas finds the same with and without the forms, if the schemas that it applies do. -/
theorem checkKeyword_eq {subs : List (Role × Document)} (hApplied : applied documents d u role m = some subs)
    (hSubs : ∀ s ∈ subs, SameOn e d r s) (hBeyond : SameBeyond e d r role) (hLegible : Legible d role x) :
    checkKeyword e ⟨d, r, true⟩ schema x m = checkKeyword e ⟨d, r, false⟩ schema x m := by
  obtain ⟨k, v⟩ := m
  unfold checkKeyword
  unfold applied at hApplied
  dsimp only at hApplied ⊢
  split at hApplied
  · next hRule => rw [hRule]
  · next form hRule =>
      rw [hRule]
      split at hApplied
      · next hAsked =>
          refine format_eq (fun hForm => ?_) hLegible
          simpa [hForm] using hAsked
      · cases hApplied
  · next ref hRule =>
      rw [hRule]
      split at hApplied
      · next hAim => exact reference_eq hDialect h hAim hBeyond hLegible
      · cases hApplied
  · next inner hRule =>
      rw [hRule]
      split at hApplied
      · next hRole =>
          obtain rfl := eq_of_beq hRole
          obtain rfl := Option.some.inj hApplied
          exact properties_eq (fun s hMem => hSubs _ (List.mem_map_of_mem hMem)) hLegible
      · cases hApplied
  · next hRule =>
      rw [hRule]
      obtain rfl := Option.some.inj hApplied
      exact additionalProperties_eq (hSubs _ List.mem_cons_self) hLegible
  · next hRule =>
      rw [hRule]
      obtain rfl := Option.some.inj hApplied
      exact propertyNames_eq (hSubs _ List.mem_cons_self) hLegible
  · next hRule =>
      rw [hRule]
      obtain rfl := Option.some.inj hApplied
      exact items_eq (hSubs _ List.mem_cons_self) hLegible
  · next hRule =>
      rw [hRule]
      obtain rfl := Option.some.inj hApplied
      exact eitherItems_eq (hSubs _ List.mem_cons_self) hLegible nofun
  · next hRule =>
      rw [hRule]
      obtain rfl := Option.some.inj hApplied
      exact eitherItems_eq (hSubs _ List.mem_cons_self) hLegible nofun
  · next parts hRule =>
      rw [hRule]
      obtain rfl := Option.some.inj hApplied
      exact allOf_eq (fun sub hMem => hSubs _ (List.mem_map_of_mem hMem)) hLegible
  · next parts hRule =>
      rw [hRule]
      refine anyOf_eq fun sub hMem => ?_
      split at hApplied
      · obtain rfl := Option.some.inj hApplied
        exact hSubs _ (List.mem_map_of_mem hMem) x hLegible
      · split at hApplied
        · next hLength =>
            obtain rfl := Option.some.inj hApplied
            obtain ⟨one, hOne, hZip⟩ := mem_zip_choices (eq_of_beq hLength) hMem
            exact hSubs _ hZip x (hLegible.choice hOne)
        · cases hApplied
  · rw [‹d.rule? k = some _›]
    split at hApplied
    · next hSelf => exact Rule.check_of_isSelfContained hSelf (by rfl) ..
    · cases hApplied

end Keyword

section Levels

variable {depth : Nat} (hDialect : d = .draft7 ∨ d = .draft2020)

include hDialect

theorem enter_of_isUnnamed (h : isUnnamed ms = true) (r : Resolver) : r.enter ⟨d, .object ms⟩ = .ok r := by
  obtain ⟨hId, -⟩ := Bool.and_eq_true_iff.mp h
  have hNone : (⟨d, .object ms⟩ : Resource).id? = none := by
    have hKey : d.idKeyword = "$id" := by rcases hDialect with rfl | rfl <;> rfl
    have hGet : (Document.object ms).get? "$id" = none := Option.isNone_iff_eq_none.mp hId
    simp only [Resource.id?, hKey, hGet]
    rfl
  rw [Resolver.enter, hNone]

omit hDialect in
theorem inner_of_isUnnamed (h : isUnnamed ms = true) : d.inner (.object ms) = d := by
  obtain ⟨-, hDeclared⟩ := Bool.and_eq_true_iff.mp h
  have hGet : (Document.object ms).get? "$schema" = none := Option.isNone_iff_eq_none.mp hDeclared
  rw [Dialect.inner, hGet]
  rfl

/-- A check of a schema of schemas without a name of its own goes on with its keywords. -/
theorem descend_of_isUnnamed (h : isUnnamed ms = true) (e : Evaluator) (r : Resolver) (formats : Bool) (x : Document) :
    e.above.descend ⟨d, r, formats⟩ (.object ms) x = checkKeywords e d ⟨d, r, formats⟩ ms x := by
  simp only [Evaluator.above, checkSchema, enter_of_isUnnamed hDialect h, Context.of, inner_of_isUnnamed h]

/-- If an evaluator finds the same with and without the forms in the schemas that a schema of schemas applies, that one
does so. -/
theorem checkKeywords_step (h : Bearing d r u) (hAsks : asksOnly documents d u (depth + 1) role ms = true)
    (hInner : ∀ role inner, isUnnamed inner = true → asksOnly documents d u depth role inner = true →
      SameOn e d r (role, .object inner))
    (hLeaf : ∀ role sub, sub.isObject = false → SameOn e d r (role, sub)) (hBeyond : SameBeyond e d r role)
    (hLegible : Legible d role x) :
    checkKeywords e d ⟨d, r, true⟩ ms x = checkKeywords e d ⟨d, r, false⟩ ms x := by
  refine Findings.forEach_congr fun m hMem => ?_
  have hTest := List.all_eq_true.mp hAsks m (Dialect.keywords_subset d ms hMem)
  split at hTest
  · next subs hApplied =>
      refine checkKeyword_eq hDialect h hApplied (fun s hSub => ?_) hBeyond hLegible
      obtain ⟨one, sub⟩ := s
      have hOne := List.all_eq_true.mp hTest _ hSub
      cases sub with
      | object inner =>
          obtain ⟨hUnnamed, hAsks'⟩ := Bool.and_eq_true_iff.mp hOne
          exact hInner one inner hUnnamed hAsks'
      | _ => exact hLeaf _ _ rfl
  · cases hTest

/-- The keywords of a schema of schemas find the same with and without the forms, however far the check may go. -/
theorem checkKeywords_eq (n : Nat) (h : Bearing d r u) (hAsks : asksOnly documents d u depth role ms = true)
    (hLegible : Legible d role x) : checkKeywords (Evaluator.ofLevels n) d ⟨d, r, true⟩ ms x =
      checkKeywords (Evaluator.ofLevels n) d ⟨d, r, false⟩ ms x := by
  induction n generalizing r u depth role ms x with
  | zero =>
      cases depth with
      | zero => cases hAsks
      | succ depth =>
          exact checkKeywords_step hDialect h hAsks (fun _ _ _ _ _ _ => rfl) (fun _ _ _ _ _ => rfl)
            (fun _ _ _ _ _ _ _ _ => rfl) hLegible
  | succ n ih =>
      cases depth with
      | zero => cases hAsks
      | succ depth =>
          refine checkKeywords_step hDialect h hAsks ?_ ?_ ?_ hLegible
          · intro one inner hUnnamed hAsks' y hLegible'
            have hDescend := descend_of_isUnnamed hDialect hUnnamed (Evaluator.ofLevels n) r
            exact (hDescend true y).trans ((ih h hAsks' hLegible').trans (hDescend false y).symm)
          · intro one sub hLeaf y _
            cases sub with
            | object inner => cases hLeaf
            | bool b => cases b <;> rfl
            | _ => rfl
          · intro l hMem hRole r' hThere hInner y hLegible'
            have hGoesOn : ∀ formats, (Evaluator.ofLevels (n + 1)).follow ⟨d, r, formats⟩ ⟨.object l.schema, r'⟩ y =
                checkKeywords (Evaluator.ofLevels n) d ⟨d, r', formats⟩ l.schema y := by
              intro formats
              simp only [Evaluator.ofLevels, Evaluator.above, checkSchema, Context.at_, Context.of, hInner]
            rw [hGoesOn, hGoesOn]
            exact ih hThere (asksOnly_of_mem hDialect hMem) (hRole ▸ hLegible')

end Levels

end Meta
end Conform.Schema

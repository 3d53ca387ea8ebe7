import Conform.Document.Reading
import Conform.Proofs.Document
import Conform.Proofs.Except
import Mathlib.Data.List.Induction

/-! Whatever language a document is read from, what comes out of it is well formed. -/
namespace Conform

namespace Yaml

namespace Scalar

theorem readFloat_normal {t : Text} {x : Double} (h : readFloat t = .ok x) : x.Normal := by
  have hSign : ∀ (negative : Bool) {y : Double}, y.Normal →
      (if negative then y.neg else y).Normal := by
    intro negative y hy
    split
    · exact Double.neg_normal hy
    · exact hy
  have hIn : ∀ {t : Text} {y : Double}, floatIn t = .ok y → y.Normal := by
    intro t y hRead
    unfold floatIn at hRead
    split at hRead
    · next z hSome =>
        cases hRead
        exact Double.read?_normal hSome
    · cases hRead
  unfold readFloat at h
  dsimp only at h
  split at h
  · cases h
  · split at h
    · cases h
      exact hSign _ trivial
    · split at h
      · cases h
        trivial
      · split at h
        · obtain ⟨parts, _, hTotal⟩ := exists_of_bind_ok h
          cases hTotal
          refine hSign _ ?_
          -- The sum starts at zero, and each step ends with an addition.
          suffices hFold : ∀ (items : List Double) (acc : Double × Int), acc.1.Normal →
              (items.foldl (fun acc x =>
                (acc.1.add (x.mul (Double.ofQuotient acc.2 1)), acc.2 * 60)) acc).1.Normal from
            hFold _ _ (Double.zero_normal _)
          intro items
          induction items with
          | nil => exact fun acc h => h
          | cons first rest ih => exact fun acc _ => ih _ (Double.add_normal _ _)
        · obtain ⟨y, hRead, hResult⟩ := exists_of_bind_ok h
          cases hResult
          exact hSign _ (hIn hRead)

end Scalar

namespace Value

variable {v : Value} {vs : List Value} {es : List (Value × Value)}

theorem toDocuments_eq (vs : List Value) : toDocuments vs = vs.map toDocument := by
  induction vs with
  | nil => rfl
  | cons v rest ih => simp [toDocuments, ih]

theorem toMembers_eq (es : List (Value × Value)) :
    toMembers es = es.map fun e => (e.1.plain, e.2.toDocument) := by
  induction es with
  | nil => rfl
  | cons e rest ih => simp [toMembers, ih]

theorem both_ok {α β : Type} {a : Built α} {b : Built β} {x : α} {y : β}
    (h : both a b = .ok (x, y)) : a = .ok x ∧ b = .ok y := by
  cases a <;> cases b
  · cases h
  · cases h
  · cases h
  · obtain ⟨rfl, rfl⟩ := Prod.mk.inj (Except.ok.inj h)
    exact ⟨rfl, rfl⟩

/-- What holds of the entries still holds when a key is entered, for its spelling is an old one or the new one. -/
theorem forall_mem_enter {P Q : Value → Prop} {k v : Value} (hKey : P k) (hValue : Q v)
    (h : ∀ e ∈ es, P e.1 ∧ Q e.2) : ∀ e ∈ enter k v es, P e.1 ∧ Q e.2 := by
  induction es with
  | nil => exact List.forall_mem_singleton.mpr ⟨hKey, hValue⟩
  | cons first rest ih =>
      obtain ⟨hFirst, hRest⟩ := List.forall_mem_cons.mp h
      rw [enter]
      split
      · exact List.forall_mem_cons.mpr ⟨⟨hFirst.1, hValue⟩, hRest⟩
      · exact List.forall_mem_cons.mpr ⟨hFirst, ih hRest⟩

theorem enterAll_append (es : List (Value × Value)) (e : Value × Value) :
    enterAll (es ++ [e]) = enter e.1 e.2 (enterAll es) := by
  rw [enterAll, List.foldl_append]
  rfl

theorem forall_mem_enterAll {P Q : Value → Prop} (h : ∀ e ∈ es, P e.1 ∧ Q e.2) : ∀ e ∈ enterAll es, P e.1 ∧ Q e.2 := by
  induction es using List.reverseRecOn with
  | nil => exact List.forall_mem_nil _
  | append_singleton es e ih =>
      obtain ⟨hEs, hE⟩ := List.forall_mem_append.mp h
      obtain ⟨hKey, hValue⟩ := hE e List.mem_cons_self
      rw [enterAll_append]
      exact forall_mem_enter hKey hValue (ih hEs)

/-! ### What holds of all values that are built -/

/-- Whether both sides of all entries have a property, and all keys are scalars. -/
def AllEntries (P : Value → Prop) (es : List (Value × Value)) : Prop :=
  ∀ e ∈ es, (e.1.isScalar = true ∧ P e.1) ∧ P e.2

/-- Whether a property is one of scalars, and of what is built of values that have it. -/
structure Kept (P : Value → Prop) : Prop where
  scalar {depth : Nat} {tag : Tag} {t : Except Fault Text} {v : Value} (h : scalarNode depth tag t = .ok v) : P v
  list {vs : List Value} (h : ∀ v ∈ vs, P v) : P (list vs)
  tuple {a b : Value} (hA : P a) (hB : P b) : P (tuple [a, b])
  set {es : List (Value × Value)} (h : AllEntries P (enterAll es)) : P (set ((enterAll es).map (·.1)))
  mapping {es : List (Value × Value)} (h : AllEntries P (enterAll es)) : P (mapping (enterAll es))

variable {P : Value → Prop}

theorem AllEntries.enterAll (h : AllEntries P es) : AllEntries P (enterAll es) :=
  forall_mem_enterAll (P := fun k => k.isScalar = true ∧ P k) h

theorem AllEntries.append {es' : List (Value × Value)} (h : AllEntries P es) (h' : AllEntries P es') :
    AllEntries P (es ++ es') := fun e hMem => (List.mem_append.mp hMem).elim (h e) (h' e)

theorem allPairs_kept {merged own : Built (List (Value × Value))} (es : List (Value × Value))
    (hMerged : ∀ es, merged = .ok es → AllEntries P es) (hOwn : ∀ es, own = .ok es → AllEntries P es)
    (h : allPairs merged own = .ok es) : AllEntries P es := by
  obtain ⟨⟨a, b⟩, hBoth, rfl⟩ := exists_of_map_ok h
  obtain ⟨hA, hB⟩ := both_ok hBoth
  exact (hMerged a hA).append (hOwn b hB)

mutual

theorem ofNode_kept (hKept : Kept P) (depth : Nat) (n : Node) (v : Value) (h : ofNode depth n = .ok v) : P v := by
  match n with
  | .scalar tag t => exact hKept.scalar (by simpa only [ofNode] using h)
  | .sequence tag items =>
      have hItems := ofItems_kept hKept (depth + 1) items
      have hSingles := ofSingles_kept hKept (depth + 1) items
      cases tag with
      | sequence =>
          obtain ⟨vs, hVs, rfl⟩ := exists_of_map_ok (by simpa only [ofNode] using h)
          exact hKept.list (hItems vs hVs)
      | ordered | pairs =>
          obtain ⟨vs, hVs, rfl⟩ := exists_of_map_ok (by simpa only [ofNode] using h)
          exact hKept.list (hSingles vs hVs)
      | mapping | set => cases h
      | _ => exact hKept.scalar (by simpa only [ofNode] using h)
  | .mapping tag pairs =>
      have hEntries := fun es => allPairs_kept es (mergedPairs_kept hKept (depth + 1) pairs)
        (ownPairs_kept hKept (depth + 1) pairs)
      cases tag with
      | mapping =>
          simp only [ofNode] at h
          split at h
          · obtain ⟨es, hEs, rfl⟩ := exists_of_map_ok h
            exact hKept.mapping (hEntries es hEs).enterAll
          · cases h
      | set =>
          simp only [ofNode] at h
          split at h
          · obtain ⟨es, hEs, rfl⟩ := exists_of_map_ok h
            exact hKept.set (hEntries es hEs).enterAll
          · cases h
      | sequence | ordered | pairs => cases h
      | _ => exact hKept.scalar (by simpa only [ofNode] using h)

theorem ofItems_kept (hKept : Kept P) (depth : Nat) (ns : List Node) (vs : List Value)
    (h : ofItems depth ns = .ok vs) : ∀ v ∈ vs, P v := by
  match ns with
  | [] =>
      cases h
      exact nofun
  | n :: rest =>
      obtain ⟨⟨v, others⟩, hBoth, rfl⟩ := exists_of_map_ok (by simpa only [ofItems] using h)
      obtain ⟨hV, hOthers⟩ := both_ok hBoth
      exact List.forall_mem_cons.mpr ⟨ofNode_kept hKept depth n v hV, ofItems_kept hKept depth rest others hOthers⟩

theorem ofSingles_kept (hKept : Kept P) (depth : Nat) (ns : List Node) (vs : List Value)
    (h : ofSingles depth ns = .ok vs) : ∀ v ∈ vs, P v := by
  match ns with
  | [] =>
      cases h
      exact nofun
  | .mapping _ [(k, w)] :: rest =>
      obtain ⟨⟨⟨key, value⟩, others⟩, hAll, rfl⟩ := exists_of_map_ok (by simpa only [ofSingles] using h)
      obtain ⟨hPair, hOthers⟩ := both_ok hAll
      obtain ⟨hKey, hValue⟩ := both_ok hPair
      exact List.forall_mem_cons.mpr
        ⟨hKept.tuple (ofNode_kept hKept depth k key hKey) (ofNode_kept hKept depth w value hValue),
          ofSingles_kept hKept depth rest others hOthers⟩
  | .mapping _ [] :: _ | .mapping _ (_ :: _ :: _) :: _ | .scalar .. :: _ | .sequence .. :: _ => cases h

theorem ownPairs_kept (hKept : Kept P) (depth : Nat) (ps : List (Node × Node)) (es : List (Value × Value))
    (h : ownPairs depth ps = .ok es) : AllEntries P es := by
  match ps with
  | [] =>
      cases h
      exact nofun
  | (k, w) :: rest =>
      rw [ownPairs.eq_def] at h
      dsimp only at h
      split at h
      · exact ownPairs_kept hKept depth rest es h
      · obtain ⟨⟨⟨key, value⟩, others⟩, hAll, rfl⟩ := exists_of_map_ok h
        obtain ⟨hPair, hOthers⟩ := both_ok hAll
        obtain ⟨hKey, hValue⟩ := both_ok hPair
        refine List.forall_mem_cons.mpr
          ⟨⟨?_, ofNode_kept hKept depth w _ hValue⟩, ownPairs_kept hKept depth rest others hOthers⟩
        split at hKey
        · next t _ =>
            cases hKey
            exact ⟨rfl, hKept.scalar (show scalarNode depth .str (.ok t) = _ from rfl)⟩
        · obtain ⟨found, hFound, hScalar⟩ := exists_of_bind_ok hKey
          split at hScalar
          · next hLeaf =>
              cases hScalar
              exact ⟨hLeaf, ofNode_kept hKept depth k _ hFound⟩
          · cases hScalar

theorem mergedPairs_kept (hKept : Kept P) (depth : Nat) (ps : List (Node × Node)) (es : List (Value × Value))
    (h : mergedPairs depth ps = .ok es) : AllEntries P es := by
  match ps with
  | [] =>
      cases h
      exact nofun
  | (k, w) :: rest =>
      simp only [mergedPairs] at h
      split at h
      · obtain ⟨⟨a, b⟩, hBoth, rfl⟩ := exists_of_map_ok h
        obtain ⟨hA, hB⟩ := both_ok hBoth
        exact (mergedNode_kept hKept depth w a hA).append (mergedPairs_kept hKept depth rest b hB)
      · exact mergedPairs_kept hKept depth rest es h

theorem mergedNode_kept (hKept : Kept P) (depth : Nat) (n : Node) (es : List (Value × Value))
    (h : mergedNode depth n = .ok es) : AllEntries P es := by
  match n with
  | .mapping _ pairs =>
      exact allPairs_kept es (mergedPairs_kept hKept depth pairs) (ownPairs_kept hKept depth pairs)
        (by simpa only [mergedNode] using h)
  | .sequence _ items => exact mergedItems_kept hKept depth items es (by simpa only [mergedNode] using h)
  | .scalar .. => cases h

theorem mergedItems_kept (hKept : Kept P) (depth : Nat) (ns : List Node) (es : List (Value × Value))
    (h : mergedItems depth ns = .ok es) : AllEntries P es := by
  match ns with
  | [] =>
      cases h
      exact nofun
  | n :: rest =>
      obtain ⟨⟨a, b⟩, hBoth, rfl⟩ := exists_of_map_ok (by simpa only [mergedItems] using h)
      obtain ⟨hA, hB⟩ := both_ok hBoth
      exact (mergedItems_kept hKept depth rest a hA).append (mergedNode_kept hKept depth n b hB)

end

/-- What is kept holds of everything that is loaded. -/
theorem Kept.load (hKept : Kept P) {dates : Bool} {bs : Bytes} (h : load dates bs = .ok v) : P v := by
  unfold Value.load at h
  split at h
  · split at h
    · obtain ⟨n, _, hNode⟩ := exists_of_bind_ok h
      cases n with
      | none =>
          cases hNode
          exact hKept.scalar (show scalarNode 0 .null (.ok []) = _ from rfl)
      | some n => exact ofNode_kept hKept 0 n v (exists_of_mapError_ok hNode)
    · cases h
  · cases h

theorem isScalar_of_scalarNode {depth : Nat} {tag : Tag} {t : Except Fault Text}
    (h : scalarNode depth tag t = .ok v) : v.isScalar = true := by
  cases tag with
  | null | str =>
      obtain ⟨text, -, rfl⟩ := exists_of_map_ok (exists_of_mapError_ok h)
      rfl
  | bool | int | float | binary | timestamp =>
      obtain ⟨text, -, hRead⟩ := exists_of_bind_ok (exists_of_mapError_ok h)
      obtain ⟨x, -, hResult⟩ := exists_of_bind_ok hRead
      cases hResult
      rfl
  | _ => cases h

theorem scalarNode_fine {depth : Nat} {tag : Tag} {t : Except Fault Text} (h : scalarNode depth tag t = .ok v) :
    v.toDocument.Fine := by
  cases tag with
  | float =>
      obtain ⟨text, _, hRead⟩ := exists_of_bind_ok (exists_of_mapError_ok h)
      obtain ⟨x, hFloat, hResult⟩ := exists_of_bind_ok hRead
      cases hResult
      exact Scalar.readFloat_normal hFloat
  | null | str =>
      obtain ⟨text, _, rfl⟩ := exists_of_map_ok (exists_of_mapError_ok h)
      trivial
  | bool | int | binary | timestamp =>
      obtain ⟨text, _, hRead⟩ := exists_of_bind_ok (exists_of_mapError_ok h)
      obtain ⟨x, _, hResult⟩ := exists_of_bind_ok hRead
      cases hResult
      trivial
  | _ => cases h

/-- A scalar's document has no parts. -/
theorem wellFormed_scalar (hScalar : v.isScalar = true) (h : v.toDocument.Fine) : v.toDocument.WellFormed := by
  cases v with
  | list | tuple | set | mapping => cases hScalar
  | _ => exact Document.wellFormed_leaf nofun nofun h

theorem wellFormed_list (h : ∀ v ∈ vs, v.toDocument.WellFormed) : (list vs).toDocument.WellFormed := by
  rw [toDocument, toDocuments_eq]
  exact Document.wellFormed_list.mpr (List.forall_mem_map.mpr h)

/-- What is loaded makes a well-formed document. -/
theorem kept_wellFormed : Kept fun v => v.toDocument.WellFormed where
  scalar h := wellFormed_scalar (isScalar_of_scalarNode h) (scalarNode_fine h)
  list h := wellFormed_list h
  tuple hA hB := wellFormed_list (List.forall_mem_cons.mpr ⟨hA, List.forall_mem_singleton.mpr hB⟩)
  set h := by
    rw [toDocument, toDocuments_eq]
    refine Document.wellFormed_list.mpr fun d hMem => ?_
    obtain ⟨v, hV, rfl⟩ := List.mem_map.mp (List.mem_mergeSort.mp hMem)
    obtain ⟨e, hE, rfl⟩ := List.mem_map.mp hV
    exact (h e hE).1.2
  mapping h := by
    rw [toDocument, toMembers_eq]
    exact Document.wellFormed_ofList (List.forall_mem_map.mpr fun e hE => (h e hE).2)

theorem read_true (bs : Bytes) : read true bs = load true bs := by
  unfold read
  cases load true bs <;> rfl

theorem read_false_ok_iff {bs : Bytes} : read false bs = .ok v ↔ load false bs = .ok v ∧ v.isReducible = true := by
  unfold read
  cases load false bs with
  | error f => exact iff_of_false (by rintro ⟨⟩) (by rintro ⟨⟨⟩, -⟩)
  | ok w =>
      change (if w.isReducible = true then (.ok w : Except Fault Value) else .error .longNumber) = .ok v ↔ _
      rw [Except.ok.injEq]
      split
      · next hReducible =>
          rw [Except.ok.injEq]
          exact ⟨fun h => h ▸ ⟨rfl, hReducible⟩, And.left⟩
      · next hNot =>
          refine iff_of_false (by rintro ⟨⟩) ?_
          rintro ⟨rfl, hReducible⟩
          exact hNot hReducible

theorem load_of_read {dates : Bool} {bs : Bytes} (h : read dates bs = .ok v) : load dates bs = .ok v := by
  cases dates with
  | true => exact (read_true bs).symm.trans h
  | false => exact (read_false_ok_iff.mp h).1

theorem load_wellFormed {dates : Bool} {bs : Bytes} (h : load dates bs = .ok v) : v.toDocument.WellFormed :=
  kept_wellFormed.load h

end Value
end Yaml

namespace Json

variable {t rest : Text} {d : Document}

theorem numberOf?_wellFormed {sign whole fraction power : Text}
    (h : numberOf? sign whole fraction power = some d) : d.WellFormed := by
  unfold numberOf? at h
  split at h
  · split at h
    · cases h
    · obtain ⟨n, _, rfl⟩ := Option.map_eq_some_iff.mp h
      exact Document.wellFormed_leaf nofun nofun trivial
  · obtain ⟨x, hRead, rfl⟩ := Option.map_eq_some_iff.mp h
    exact Document.wellFormed_leaf nofun nofun (Double.read?_normal hRead)

theorem number?_wellFormed (h : number? t = some (d, rest)) : d.WellFormed := by
  obtain ⟨whole, _, h⟩ := Option.bind_eq_some_iff.mp h
  obtain ⟨n, hNumber, hResult⟩ := Option.bind_eq_some_iff.mp h
  obtain rfl : n = d := (Prod.mk.inj (Option.some.inj hResult)).1
  exact numberOf?_wellFormed hNumber

theorem word?_wellFormed (h : word? t = some (d, rest)) : d.WellFormed := by
  obtain ⟨⟨w, found⟩, hMem, hWord⟩ := List.exists_of_findSome?_eq_some h
  obtain ⟨_, _, hResult⟩ := Option.map_eq_some_iff.mp hWord
  obtain rfl : found = d := (Prod.mk.inj hResult).1
  have hWords : ∀ p ∈ words, p.2.WellFormed := by
    simp only [words, List.forall_mem_cons]
    refine ⟨?_, ?_, ?_, ?_, ?_, ?_, nofun⟩ <;>
      exact Document.wellFormed_leaf nofun nofun trivial
  exact hWords _ hMem

/-- Each of the mutual readers makes well-formed documents if those with less fuel do. -/
theorem value_wellFormed (fuel : Nat) :
    (∀ t d rest, value fuel t = some (d, rest) → d.WellFormed) ∧
    (∀ t ds rest, items fuel t = some (ds, rest) → ∀ d ∈ ds, d.WellFormed) ∧
    (∀ t ms rest, members fuel t = some (ms, rest) → ∀ m ∈ ms, m.2.WellFormed) := by
  induction fuel with
  | zero => exact ⟨nofun, nofun, nofun⟩
  | succ fuel ih =>
      obtain ⟨ihValue, ihItems, ihMembers⟩ := ih
      refine ⟨fun t d rest h => ?_, fun t ds rest h => ?_, fun t ms rest h => ?_⟩
      · cases t with
        | nil => cases h
        | cons p rest' =>
            simp only [value] at h
            split at h
            · obtain ⟨_, _, hResult⟩ := Option.map_eq_some_iff.mp h
              cases hResult
              exact Document.wellFormed_leaf nofun nofun trivial
            · split at h
              · split at h
                · cases h
                · split at h
                  · cases h
                    exact Document.wellFormed_list.mpr nofun
                  · obtain ⟨⟨ds, _⟩, hItems, hResult⟩ := Option.map_eq_some_iff.mp h
                    cases hResult
                    exact Document.wellFormed_list.mpr (ihItems _ _ _ hItems)
              · split at h
                · split at h
                  · cases h
                  · split at h
                    · cases h
                      exact Document.wellFormed_object.mpr ⟨List.nodup_nil, nofun⟩
                    · obtain ⟨⟨ms, _⟩, hMembers, hResult⟩ := Option.map_eq_some_iff.mp h
                      cases hResult
                      exact Document.wellFormed_ofList (ihMembers _ _ _ hMembers)
                · rcases Option.or_eq_some_iff.mp h with hWord | ⟨_, hNumber⟩
                  · exact word?_wellFormed hWord
                  · exact number?_wellFormed hNumber
      · obtain ⟨⟨d, after⟩, hValue, h⟩ := Option.bind_eq_some_iff.mp h
        dsimp only at h
        split at h
        · cases h
        · split at h
          · cases h
            exact List.forall_mem_singleton.mpr (ihValue _ _ _ hValue)
          · split at h
            · obtain ⟨⟨others, _⟩, hItems, hResult⟩ := Option.map_eq_some_iff.mp h
              cases hResult
              exact List.forall_mem_cons.mpr ⟨ihValue _ _ _ hValue, ihItems _ _ _ hItems⟩
            · cases h
      · obtain ⟨⟨name, after⟩, _, h⟩ := Option.bind_eq_some_iff.mp h
        obtain ⟨⟨d, after'⟩, hValue, h⟩ := Option.bind_eq_some_iff.mp h
        dsimp only at h
        split at h
        · cases h
        · split at h
          · cases h
            exact List.forall_mem_singleton.mpr (ihValue _ _ _ hValue)
          · split at h
            · obtain ⟨⟨others, _⟩, hMembers, hResult⟩ := Option.map_eq_some_iff.mp h
              cases hResult
              exact List.forall_mem_cons.mpr ⟨ihValue _ _ _ hValue, ihMembers _ _ _ hMembers⟩
            · cases h

theorem read?_wellFormed {bs : Bytes} (h : read? bs = some d) : d.WellFormed := by
  obtain ⟨t, _, hText⟩ := Option.bind_eq_some_iff.mp h
  obtain ⟨⟨found, rest⟩, hValue, hEnd⟩ := Option.bind_eq_some_iff.mp hText
  dsimp only at hEnd
  split at hEnd
  · cases hEnd
    exact (value_wellFormed _).1 _ _ _ hValue
  · cases hEnd

end Json

/-- What is read as YAML is made of a value. -/
theorem Document.exists_value_of_read? {bs : Bytes} {d : Document} (h : Document.read? bs = .ok (some (d, .yaml))) :
    ∃ v, Yaml.Value.read false bs = .ok v ∧ v.toDocument = d := by
  unfold Document.read? at h
  split at h
  · next v hRead =>
      cases h
      exact ⟨v, hRead, rfl⟩
  · obtain ⟨found, -, hResult⟩ := Option.map_eq_some_iff.mp (Except.ok.inj h)
    cases hResult
  · cases h

/-- What is read is well formed, in whichever language it was written. -/
theorem Document.read?_wellFormed {bs : Bytes} {d : Document} {f : Format}
    (h : Document.read? bs = .ok (some (d, f))) : d.WellFormed := by
  unfold Document.read? at h
  split at h
  · next v hRead =>
      cases h
      exact Yaml.Value.load_wellFormed (Yaml.Value.load_of_read hRead)
  · obtain ⟨found, hRead, hResult⟩ := Option.map_eq_some_iff.mp (Except.ok.inj h)
    cases hResult
    exact Json.read?_wellFormed hRead
  · cases h

end Conform

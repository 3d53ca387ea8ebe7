import Conform.Proofs.Document.Reading
import Conform.Proofs.Text.Lacking
import Conform.Proofs.Yaml.Dates
import Mathlib.Data.List.Find
import Mathlib.Data.List.Induction

/-! What recognising dates comes to for values. A date may not exist, so a stream may be read without dates that cannot
be read with them. -/
namespace Conform

theorem Members.get?_set (k name : Text) (d : Document) (ms : Members) :
    get? (set k d ms) name = if k == name then some d else get? ms name := by
  induction ms with
  | nil =>
      rw [set, get?, List.lookup_cons, BEq.comm]
      cases k == name <;> rfl
  | cons m rest ih =>
      obtain ⟨k', d'⟩ := m
      simp only [get?] at ih ⊢
      rw [set]
      split
      · next hSame =>
          rw [beq_iff_eq.mp hSame, List.lookup_cons, List.lookup_cons, BEq.comm]
          cases k == name <;> rfl
      · next hOther =>
          rw [List.lookup_cons, List.lookup_cons, ih]
          cases hHere : name == k' with
          | false => rfl
          | true =>
              have hNot : ¬ (k == name) = true := fun hSame =>
                hOther (beq_iff_eq.mpr ((beq_iff_eq.mp hSame).trans (beq_iff_eq.mp hHere)).symm)
              exact (if_neg hNot).symm

namespace Yaml

namespace Scalar

theorem stamp?_of_strict {t : Text} {stamp : Stamp} (h : stamp? true t = some stamp) : stamp? false t = some stamp := by
  unfold stamp? at h ⊢
  simp only [Option.bind_eq_bind, Option.bind_eq_some_iff] at h ⊢
  obtain ⟨year, hYear, afterYear, hMark, month, hMonth, afterMonth, hMark', day, hDay, hStamp⟩ := h
  refine ⟨year, hYear, afterYear, hMark, month, hMonth, afterMonth, hMark', day, hDay, ?_⟩
  split at hStamp
  · next hEnd =>
      split at hStamp
      · cases hStamp
      · rw [if_pos hEnd]
        exact hStamp
  · next hMore =>
      rw [if_neg hMore]
      exact hStamp

/-- What has the form of a date is a date, or it names a day or a time that does not exist. -/
theorem readMoment_of_isDate {t : Text} {f : Fault} (h : IsDate t) (hFails : readMoment t = .error f) :
    ∃ why, f = .noSuchMoment why := by
  unfold IsDate implicitTag at h
  unfold readMoment at hFails
  dsimp only at h
  generalize (if t.endsWith "\n" then t.dropLast else t) = u at h hFails
  have hForm : (stamp? true u).isSome := by
    by_contra hNone
    rw [Bool.eq_false_iff.mpr hNone, Bool.and_false, if_neg Bool.false_ne_true] at h
    split_ifs at h
  obtain ⟨stamp, hStamp⟩ := Option.isSome_iff_exists.mp hForm
  rw [stamp?_of_strict hStamp] at hFails
  dsimp only at hFails
  split at hFails
  · cases hFails
  · exact ⟨_, (Except.error.inj hFails).symm⟩

end Scalar

namespace Value

mutual

/-- Whether the second of two values is the first with its dates left as texts. Of keys that are one date only the
first is kept, while as texts they may be several keys. -/
inductive Undated : Value → Value → Prop where
  | same {v : Value} (h : v.isScalar = true) : Undated v v
  | date {t : Text} {m : Moment} (h : Scalar.IsDate t) : Undated (moment m) (text t)
  | tuple {a a' b b' : Value} (h : Undated a a') (h' : Undated b b') : Undated (tuple [a, b]) (tuple [a', b'])
  | list {items items' : List Value} (h : UndatedItems items items') : Undated (list items) (list items')
  | set {es es' : List (Value × Value)} (h : UndatedEntries es es') :
      Undated (set ((enterAll es).map (·.1))) (set ((enterAll es').map (·.1)))
  | mapping {es es' : List (Value × Value)} (h : UndatedEntries es es') :
      Undated (mapping (enterAll es)) (mapping (enterAll es'))

inductive UndatedItems : List Value → List Value → Prop where
  | nil : UndatedItems [] []
  | cons {v v' : Value} {rest rest' : List Value} (h : Undated v v') (hRest : UndatedItems rest rest') :
      UndatedItems (v :: rest) (v' :: rest')

inductive UndatedEntries : List (Value × Value) → List (Value × Value) → Prop where
  | nil : UndatedEntries [] []
  | cons {k k' v v' : Value} {rest rest' : List (Value × Value)} (hScalar : k'.isScalar = true)
      (hKey : Undated k k') (h : Undated v v') (hRest : UndatedEntries rest rest') : UndatedEntries ((k, v) :: rest) ((k', v') :: rest')

end

theorem Undated.isScalar_eq {v v' : Value} (h : Undated v v') : v'.isScalar = v.isScalar := by
  cases h <;> rfl

theorem UndatedEntries.append {es es' fs fs' : List (Value × Value)} (h : UndatedEntries es es')
    (hRest : UndatedEntries fs fs') : UndatedEntries (es ++ fs) (es' ++ fs') := by
  match h with
  | .nil => exact hRest
  | .cons hScalar hKey h hOthers => exact .cons hScalar hKey h (hOthers.append hRest)

variable {α β γ δ : Type} {R : α → β → Prop} {S : γ → δ → Prop} {x : Built α} {y : Built β}

/-- Whether a result is known from the one without dates. There may be none because a date does not exist. -/
inductive Leaves (R : α → β → Prop) : Built α → Built β → Prop where
  | ok {a : α} {b : β} (h : R a b) : Leaves R (.ok a) (.ok b)
  | error (e f : Nat × Fault) : Leaves R (.error e) (.error f)
  | date (depth : Nat) (why : Moment.Fault) (b : β) : Leaves R (.error (depth, .noSuchMoment why)) (.ok b)

namespace Leaves

theorem of_eq {R : α → α → Prop} {x : Built α} (h : ∀ a, x = .ok a → R a a) : Leaves R x x := by
  cases x with
  | ok a => exact .ok (h a rfl)
  | error e => exact .error e e

theorem map {f : α → γ} {g : β → δ} (h : Leaves R x y) (hNext : ∀ a b, R a b → S (f a) (g b)) :
    Leaves S (x.map f) (y.map g) := by
  cases h with
  | ok h => exact .ok (hNext _ _ h)
  | error e f => exact .error e f
  | date depth why b => exact .date depth why _

theorem both {x' : Built γ} {y' : Built δ} (h : Leaves R x y) (h' : Leaves S x' y') :
    Leaves (fun p q => R p.1 q.1 ∧ S p.2 q.2) (Value.both x x') (Value.both y y') := by
  cases h with
  | ok h =>
      cases h' with
      | ok h' => exact .ok ⟨h, h'⟩
      | error e f => exact .error e f
      | date depth why b => exact .date depth why _
  | error e f => cases h' <;> exact .error _ _
  | date depth why b =>
      cases h' with
      | ok h' => exact .date depth why _
      | error e f => exact .error _ _
      | date depth' why' b' =>
          change Leaves _ (.error (if depth' < depth then _ else _)) _
          split
          · exact .date depth' why' _
          · exact .date depth why _

end Leaves

end Value

namespace Value

/-- Whether a node in a list to be merged is a mapping that can be. -/
def mergeableItem : Node → Bool
  | .mapping _ pairs => mergeable pairs
  | _ => false

theorem mergeableItems_cons (n : Node) (rest : List Node) :
    mergeableItems (n :: rest) = (mergeableItem n && mergeableItems rest) := by
  cases n <;> simp [mergeableItems, mergeableItem]

end Value

namespace Node

theorem isMerge_eq {n n' : Node} (h : Undated n n') : Value.isMerge n' = Value.isMerge n := by
  cases h with
  | scalar | date => rfl
  | sequence tag | mapping tag => cases tag <;> rfl

mutual

theorem mergeable_eq {pairs pairs' : List (Node × Node)} (h : UndatedPairs pairs pairs') :
    Value.mergeable pairs' = Value.mergeable pairs := by
  match h with
  | .nil => rfl
  | .cons hKey h hRest =>
      rw [Value.mergeable, Value.mergeable, mergeable_eq hRest, mergeableNode_eq h, isMerge_eq hKey]

theorem mergeableNode_eq {n n' : Node} (h : Undated n n') : Value.mergeableNode n' = Value.mergeableNode n := by
  match h with
  | .scalar .. | .date _ => rfl
  | .sequence _ h => exact mergeableItems_eq h
  | .mapping _ h => exact mergeable_eq h

theorem mergeableItem_eq {n n' : Node} (h : Undated n n') : Value.mergeableItem n' = Value.mergeableItem n := by
  match h with
  | .scalar .. | .date _ | .sequence .. => rfl
  | .mapping _ h => exact mergeable_eq h

theorem mergeableItems_eq {items items' : List Node} (h : UndatedItems items items') :
    Value.mergeableItems items' = Value.mergeableItems items := by
  match h with
  | .nil => rfl
  | .cons h hRest =>
      rw [Value.mergeableItems_cons, Value.mergeableItems_cons, mergeableItem_eq h, mergeableItems_eq hRest]

end

end Node

namespace Value

open Node (UndatedPairs)

theorem isDefaultValue_eq {n n' : Node} (h : n.Undated n') : isDefaultValue n' = isDefaultValue n := by
  cases h with
  | scalar | date => rfl
  | sequence tag | mapping tag => cases tag <;> rfl

mutual

theorem scalarText_eq {n n' : Node} (h : n.Undated n') : scalarText n' = scalarText n := by
  match h with
  | .scalar .. | .date _ | .sequence .. => rfl
  | .mapping _ h => exact ofPairs_eq h

theorem ofPairs_eq {pairs pairs' : List (Node × Node)} (h : UndatedPairs pairs pairs') :
    scalarText.ofPairs pairs' = scalarText.ofPairs pairs := by
  match h with
  | .nil => rfl
  | .cons hKey h hRest =>
      rw [scalarText.ofPairs, scalarText.ofPairs, isDefaultValue_eq hKey, scalarText_eq h, ofPairs_eq hRest]

end

theorem leaves_scalarNode (depth : Nat) (tag : Tag) (t : Except Fault Text) :
    Leaves Undated (scalarNode depth tag t) (scalarNode depth tag t) :=
  .of_eq fun _ h => .same (isScalar_of_scalarNode h)

theorem leaves_date {t : Text} (h : Scalar.IsDate t) (depth : Nat) :
    Leaves Undated (scalarNode depth .timestamp (.ok t)) (scalarNode depth .str (.ok t)) := by
  change Leaves Undated (atDepth depth (Scalar.readMoment t >>= fun m => .ok (moment m))) (.ok (text t))
  cases hRead : Scalar.readMoment t with
  | ok m => exact .ok (.date h)
  | error f =>
      obtain ⟨why, rfl⟩ := Scalar.readMoment_of_isDate h hRead
      exact .date depth why _

theorem Leaves.allPairs {x y x' y' : Built (List (Value × Value))} (h : Leaves UndatedEntries x y)
    (h' : Leaves UndatedEntries x' y') : Leaves UndatedEntries (allPairs x x') (allPairs y y') :=
  (h.both h').map fun _ _ hBoth => hBoth.1.append hBoth.2

/-- Whether two keys belong together. -/
def UndatedKey (k k' : Value) : Prop := k'.isScalar = true ∧ Undated k k'

theorem Leaves.key {x y : Built Value} (h : Leaves Undated x y) (depth : Nat) :
    Leaves UndatedKey (x.bind fun key => if key.isScalar then .ok key else .error (depth, .malformed))
      (y.bind fun key => if key.isScalar then .ok key else .error (depth, .malformed)) := by
  cases h with
  | ok h =>
      simp only [Except.bind, ← h.isScalar_eq]
      split
      · next hScalar => exact .ok ⟨hScalar, h⟩
      · exact .error _ _
  | error e f => exact .error e f
  | date depth' why b =>
      simp only [Except.bind]
      split
      · exact .date depth' why b
      · exact .error _ _

variable {depth : Nat} {n n' k k' v v' : Node} {items items' rest rest' : List Node}
  {pairs pairs' others others' : List (Node × Node)}

theorem leaves_sequence (tag : Tag)
    (hItems : Leaves UndatedItems (ofItems (depth + 1) items) (ofItems (depth + 1) items'))
    (hSingles : Leaves UndatedItems (ofSingles (depth + 1) items) (ofSingles (depth + 1) items')) :
    Leaves Undated (ofNode depth (.sequence tag items)) (ofNode depth (.sequence tag items')) := by
  cases tag with
  | sequence => exact hItems.map fun _ _ h => .list h
  | ordered | pairs => exact hSingles.map fun _ _ h => .list h
  | mapping | set => exact .error _ _
  | _ =>
      rw [ofNode, ofNode]
      · exact leaves_scalarNode depth _ _
      all_goals exact nofun

theorem leaves_mapping (tag : Tag) (h : UndatedPairs pairs pairs')
    (hMerged : Leaves UndatedEntries (mergedPairs (depth + 1) pairs) (mergedPairs (depth + 1) pairs'))
    (hOwn : Leaves UndatedEntries (ownPairs (depth + 1) pairs) (ownPairs (depth + 1) pairs')) :
    Leaves Undated (ofNode depth (.mapping tag pairs)) (ofNode depth (.mapping tag pairs')) := by
  have hEntries := hMerged.allPairs hOwn
  cases tag with
  | mapping =>
      rw [ofNode, ofNode, Node.mergeable_eq h]
      split
      · exact hEntries.map fun _ _ h => .mapping h
      · exact .error _ _
  | set =>
      rw [ofNode, ofNode, Node.mergeable_eq h]
      split
      · exact hEntries.map fun _ _ h => .set h
      · exact .error _ _
  | sequence | ordered | pairs => exact .error _ _
  | _ =>
      rw [ofNode, ofNode, ofPairs_eq h]
      · exact leaves_scalarNode depth _ _
      all_goals exact nofun

/-- The only pair of a mapping that has no more. -/
def onlyPair? : Node → Option (Node × Node)
  | .mapping _ [pair] => some pair
  | _ => none

theorem ofSingles_cons (depth : Nat) (n : Node) (rest : List Node) :
    ofSingles depth (n :: rest) = match onlyPair? n with
      | some (k, v) => (both (both (ofNode depth k) (ofNode depth v)) (ofSingles depth rest)).map
          fun ((k, v), vs) => tuple [k, v] :: vs
      | none => .error (depth, .malformed) := by
  match n with
  | .scalar .. | .sequence .. | .mapping _ [] | .mapping _ (_ :: _ :: _) => rfl
  | .mapping _ [_] =>
      rw [ofSingles]
      rfl

/-- Whether the keys and the values of two pairs are known from each other. -/
def LeavesPair (depth : Nat) (p p' : Node × Node) : Prop :=
  Leaves Undated (ofNode depth p.1) (ofNode depth p'.1) ∧ Leaves Undated (ofNode depth p.2) (ofNode depth p'.2)

theorem leaves_singles (h : Option.Rel (LeavesPair depth) (onlyPair? n) (onlyPair? n'))
    (hRest : Leaves UndatedItems (ofSingles depth rest) (ofSingles depth rest')) :
    Leaves UndatedItems (ofSingles depth (n :: rest)) (ofSingles depth (n' :: rest')) := by
  rw [ofSingles_cons, ofSingles_cons]
  generalize onlyPair? n = pair? at h ⊢
  generalize onlyPair? n' = pair?' at h ⊢
  cases h with
  | none => exact .error _ _
  | some h => exact ((h.1.both h.2).both hRest).map fun _ _ hAll => .cons (.tuple hAll.1.1 hAll.1.2) hAll.2

theorem leaves_firstPair (tag : Tag) (h : UndatedPairs others others') (hFirst : LeavesPair depth (k, v) (k', v')) :
    Option.Rel (LeavesPair depth) (onlyPair? (.mapping tag ((k, v) :: others)))
      (onlyPair? (.mapping tag ((k', v') :: others'))) := by
  cases h with
  | nil => exact .some hFirst
  | cons => exact .none

/-- The key of an entry. -/
def ownKey (depth : Nat) (k : Node) : Built Value :=
  match k with
  | .scalar .defaultValue t => .ok (text t)
  | k => (ofNode depth k).bind fun key => if key.isScalar then .ok key else .error (depth, .malformed)

theorem ownPairs_cons (depth : Nat) (k v : Node) (others : List (Node × Node)) :
    ownPairs depth ((k, v) :: others) =
      if isMerge k then ownPairs depth others
      else (both (both (ownKey depth k) (ofNode depth v)) (ownPairs depth others)).map fun (e, es) => e :: es := by
  rw [ownPairs.eq_def]
  rfl

theorem leaves_ownKey (h : k.Undated k') (hKey : Leaves Undated (ofNode depth k) (ofNode depth k')) :
    Leaves UndatedKey (ownKey depth k) (ownKey depth k') := by
  have hFound := hKey.key depth
  cases h with
  | scalar tag t =>
      cases tag with
      | defaultValue => exact .ok ⟨rfl, .same rfl⟩
      | _ => exact hFound
  | date | sequence | mapping => exact hFound

theorem leaves_own (hNodes : k.Undated k') (hKey : Leaves Undated (ofNode depth k) (ofNode depth k'))
    (h : Leaves Undated (ofNode depth v) (ofNode depth v'))
    (hRest : Leaves UndatedEntries (ownPairs depth others) (ownPairs depth others')) :
    Leaves UndatedEntries (ownPairs depth ((k, v) :: others)) (ownPairs depth ((k', v') :: others')) := by
  rw [ownPairs_cons, ownPairs_cons, Node.isMerge_eq hNodes]
  split
  · exact hRest
  · exact (((leaves_ownKey hNodes hKey).both h).both hRest).map
      fun _ _ hAll => .cons hAll.1.1.1 hAll.1.1.2 hAll.1.2 hAll.2

theorem leaves_merged (hNodes : k.Undated k')
    (h : Leaves UndatedEntries (mergedNode depth v) (mergedNode depth v'))
    (hRest : Leaves UndatedEntries (mergedPairs depth others) (mergedPairs depth others')) :
    Leaves UndatedEntries (mergedPairs depth ((k, v) :: others)) (mergedPairs depth ((k', v') :: others')) := by
  rw [mergedPairs, mergedPairs, Node.isMerge_eq hNodes]
  split
  · exact (h.both hRest).map fun _ _ hBoth => hBoth.1.append hBoth.2
  · exact hRest

theorem leaves_mergedItem (h : Leaves UndatedEntries (mergedNode depth n) (mergedNode depth n'))
    (hRest : Leaves UndatedEntries (mergedItems depth rest) (mergedItems depth rest')) :
    Leaves UndatedEntries (mergedItems depth (n :: rest)) (mergedItems depth (n' :: rest')) := by
  rw [mergedItems, mergedItems]
  exact (hRest.both h).map fun _ _ hBoth => hBoth.1.append hBoth.2

mutual

theorem leaves_ofNode (depth : Nat) {n n' : Node} (h : n.Undated n') :
    Leaves Undated (ofNode depth n) (ofNode depth n') := by
  match h with
  | .scalar tag t => exact leaves_scalarNode depth _ _
  | .date h => exact leaves_date h depth
  | .sequence tag h => exact leaves_sequence tag (leaves_ofItems _ h) (leaves_ofSingles _ h)
  | .mapping tag h => exact leaves_mapping tag h (leaves_mergedPairs _ h) (leaves_ownPairs _ h)

theorem leaves_ofItems (depth : Nat) {items items' : List Node} (h : Node.UndatedItems items items') :
    Leaves UndatedItems (ofItems depth items) (ofItems depth items') := by
  match h with
  | .nil => exact .ok .nil
  | .cons h hRest =>
      rw [ofItems, ofItems]
      exact ((leaves_ofNode depth h).both (leaves_ofItems depth hRest)).map fun _ _ hBoth => .cons hBoth.1 hBoth.2

theorem leaves_ofSingles (depth : Nat) {items items' : List Node} (h : Node.UndatedItems items items') :
    Leaves UndatedItems (ofSingles depth items) (ofSingles depth items') := by
  match h with
  | .nil => exact .ok .nil
  | .cons h hRest => exact leaves_singles (leaves_onlyPair depth h) (leaves_ofSingles depth hRest)

theorem leaves_onlyPair (depth : Nat) {n n' : Node} (h : n.Undated n') :
    Option.Rel (LeavesPair depth) (onlyPair? n) (onlyPair? n') := by
  match h with
  | .scalar .. | .date _ | .sequence .. => exact .none
  | .mapping tag h => exact leaves_pairs depth tag h

theorem leaves_pairs (depth : Nat) (tag : Tag) {pairs pairs' : List (Node × Node)} (h : UndatedPairs pairs pairs') :
    Option.Rel (LeavesPair depth) (onlyPair? (.mapping tag pairs)) (onlyPair? (.mapping tag pairs')) := by
  match h with
  | .nil => exact .none
  | .cons hKey h hRest => exact leaves_firstPair tag hRest ⟨leaves_ofNode depth hKey, leaves_ofNode depth h⟩

theorem leaves_ownPairs (depth : Nat) {pairs pairs' : List (Node × Node)} (h : UndatedPairs pairs pairs') :
    Leaves UndatedEntries (ownPairs depth pairs) (ownPairs depth pairs') := by
  match h with
  | .nil => exact .ok .nil
  | .cons hKey h hRest =>
      exact leaves_own hKey (leaves_ofNode depth hKey) (leaves_ofNode depth h) (leaves_ownPairs depth hRest)

theorem leaves_mergedPairs (depth : Nat) {pairs pairs' : List (Node × Node)} (h : UndatedPairs pairs pairs') :
    Leaves UndatedEntries (mergedPairs depth pairs) (mergedPairs depth pairs') := by
  match h with
  | .nil => exact .ok .nil
  | .cons hKey h hRest => exact leaves_merged hKey (leaves_mergedNode depth h) (leaves_mergedPairs depth hRest)

theorem leaves_mergedNode (depth : Nat) {n n' : Node} (h : n.Undated n') :
    Leaves UndatedEntries (mergedNode depth n) (mergedNode depth n') := by
  match h with
  | .scalar .. | .date _ => exact .error _ _
  | .sequence _ h => exact leaves_mergedItems depth h
  | .mapping _ h => exact (leaves_mergedPairs depth h).allPairs (leaves_ownPairs depth h)

theorem leaves_mergedItems (depth : Nat) {items items' : List Node} (h : Node.UndatedItems items items') :
    Leaves UndatedEntries (mergedItems depth items) (mergedItems depth items') := by
  match h with
  | .nil => exact .ok .nil
  | .cons h hRest => exact leaves_mergedItem (leaves_mergedNode depth h) (leaves_mergedItems depth hRest)

end

/-! ### What is found under a name -/

/-- Whether an entry has a text for its key. -/
def isNamed (name : Text) (e : Value × Value) : Bool :=
  match e.1 with
  | text t => t == name
  | _ => false

variable {name : Text} {k k' v v' : Value} {es es' : List (Value × Value)}

theorem isNamed_iff {e : Value × Value} : isNamed name e = true ↔ e.1 = text name := by
  obtain ⟨k, v⟩ := e
  cases k <;> simp [isNamed]

theorem get?_mapping (es : List (Value × Value)) (name : Text) :
    (mapping es).get? name = (es.find? (isNamed name)).map (·.2) := rfl

theorem sameKey_text_iff : k.sameKey (text name) = true ↔ k = text name := by
  cases k <;> simp [sameKey, number?]

theorem text_sameKey_iff : (text name).sameKey k = true ↔ text name = k := by
  cases k <;> simp [sameKey, number?]

/-- One key is a text if another with which it is one key is. -/
theorem isNamed_of_sameKey (h : k'.sameKey k = true) (v v' : Value) :
    isNamed name (k', v') = isNamed name (k, v) := by
  rw [Bool.eq_iff_iff, isNamed_iff, isNamed_iff]
  constructor
  · rintro rfl
    exact (text_sameKey_iff.mp h).symm
  · rintro rfl
    exact sameKey_text_iff.mp h

theorem sameKey_of_isNamed (h : isNamed name (k, v) = true) (h' : isNamed name (k', v') = true) :
    k'.sameKey k = true := by
  obtain rfl : k = text name := isNamed_iff.mp h
  exact sameKey_text_iff.mpr (isNamed_iff.mp h')

theorem find?_enter (k v : Value) (acc : List (Value × Value)) :
    ((enter k v acc).find? (isNamed name)).map (·.2) =
      if isNamed name (k, v) then some v else (acc.find? (isNamed name)).map (·.2) := by
  induction acc with
  | nil =>
      cases hNew : isNamed name (k, v) <;> simp [enter, hNew]
  | cons e rest ih =>
      obtain ⟨k', v'⟩ := e
      rw [enter]
      split
      · next hSame =>
          have hKnown : isNamed name (k', v) = isNamed name (k, v) := isNamed_of_sameKey hSame v v
          have hOld : isNamed name (k', v') = isNamed name (k, v) := isNamed_of_sameKey hSame v v'
          cases hNew : isNamed name (k, v) <;> simp [hKnown, hOld, hNew]
      · next hOther =>
          cases hOld : isNamed name (k', v') with
          | false => simpa [hOld] using ih
          | true =>
              have hNew : isNamed name (k, v) = false :=
                Bool.eq_false_iff.mpr fun hNew => hOther (sameKey_of_isNamed hNew hOld)
              simp [hOld, hNew]

theorem countP_enter (k v : Value) (acc : List (Value × Value)) (h : acc.countP (isNamed name) ≤ 1) :
    (enter k v acc).countP (isNamed name) ≤ 1 ∧
      (isNamed name (k, v) = false → (enter k v acc).countP (isNamed name) = acc.countP (isNamed name)) := by
  induction acc with
  | nil => cases hNew : isNamed name (k, v) <;> simp [enter, hNew]
  | cons e rest ih =>
      obtain ⟨k', v'⟩ := e
      rw [List.countP_cons] at h
      rw [enter]
      split
      · next hSame =>
          have hKnown : isNamed name (k', v) = isNamed name (k', v') := rfl
          rw [List.countP_cons, List.countP_cons, hKnown]
          exact ⟨h, fun _ => rfl⟩
      · next hOther =>
          obtain ⟨hMost, hKept⟩ := ih (by omega)
          rw [List.countP_cons, List.countP_cons]
          cases hOld : isNamed name (k', v') with
          | false => exact ⟨by simpa using hMost, fun hNew => by simpa using hKept hNew⟩
          | true =>
              have hNew : isNamed name (k, v) = false :=
                Bool.eq_false_iff.mpr fun hNew => hOther (sameKey_of_isNamed hNew hOld)
              rw [hKept hNew]
              rw [hOld] at h
              exact ⟨h, fun _ => rfl⟩

/-- No text is a key twice. -/
theorem countP_enterAll (es : List (Value × Value)) (name : Text) : (enterAll es).countP (isNamed name) ≤ 1 := by
  induction es using List.reverseRecOn with
  | nil => exact Nat.zero_le 1
  | append_singleton es e ih =>
      rw [enterAll_append]
      exact (countP_enter e.1 e.2 _ ih).1

/-- Of the values entered under a text the last one counts. -/
theorem get?_enterAll (es : List (Value × Value)) (name : Text) :
    (mapping (enterAll es)).get? name = (es.reverse.find? (isNamed name)).map (·.2) := by
  rw [get?_mapping]
  induction es using List.reverseRecOn with
  | nil => rfl
  | append_singleton es e ih =>
      rw [enterAll_append, find?_enter, List.reverse_append, List.reverse_singleton, List.singleton_append,
        List.find?_cons, ih]
      cases isNamed name e <;> rfl

/-- A key that is no text is never written as a keyword. -/
theorem plain_eq_iff (h : k.isScalar = true) (hName : name.head? = some (Point.ofChar '$')) :
    k.plain = name ↔ k = text name := by
  have hLacks : ∀ {t : Text}, Text.Lacks '$' t → t ≠ name := by
    rintro t hFree rfl
    exact hFree _ (List.mem_of_mem_head? hName) (by decide)
  cases k with
  | text t => simp [plain]
  | null => exact iff_of_false (hLacks (by decide)) nofun
  | bool b => exact iff_of_false (hLacks (by cases b <;> decide)) nofun
  | int n => exact iff_of_false (hLacks (Text.lacks_ofInt (by decide) (by decide) n)) nofun
  | float x => exact iff_of_false (hLacks x.lacks_display) nofun
  | moment m => exact iff_of_false (hLacks m.lacks_display) nofun
  | bytes bs =>
      refine iff_of_false (fun hSame => ?_) nofun
      have hHead : (bytes bs).plain.head? = some (Point.ofChar 'b') := rfl
      rw [hSame, hName] at hHead
      exact absurd hHead (by decide)
  | list | tuple | set | mapping => cases h

theorem find?_reverse_of_countP {α : Type} {p : α → Bool} {l : List α} (h : l.countP p ≤ 1) :
    l.reverse.find? p = l.find? p := by
  rw [← List.head?_filter, ← List.head?_filter, List.filter_reverse]
  rw [List.countP_eq_length_filter] at h
  match l.filter p, h with
  | [], _ => rfl
  | [_], _ => rfl

theorem get?_members (ms : Members) (name : Text) :
    Members.get? (Members.ofList ms) name = (ms.reverse.find? (·.1 == name)).map (·.2) := by
  induction ms using List.reverseRecOn with
  | nil => rfl
  | append_singleton ms m ih =>
      rw [Members.ofList, List.foldl_append, List.foldl_cons, List.foldl_nil, Members.get?_set, List.reverse_append,
        List.reverse_singleton, List.singleton_append, List.find?_cons]
      cases m.1 == name
      · exact ih
      · rfl

theorem isScalar_enterAll (h : ∀ e ∈ es, e.1.isScalar = true) : ∀ e ∈ enterAll es, e.1.isScalar = true := fun e hMem =>
  (forall_mem_enterAll (P := fun k => k.isScalar = true) (Q := fun _ => True) (fun e hE => ⟨h e hE, trivial⟩) e hMem).1

/-- In the document there is under a keyword what there was under it. -/
theorem get?_toDocument (hKeys : ∀ e ∈ es, e.1.isScalar = true) (hName : name.head? = some (Point.ofChar '$')) :
    (mapping (enterAll es)).toDocument.get? name = ((mapping (enterAll es)).get? name).map toDocument := by
  have hSame : (enterAll es).reverse.find? ((·.1 == name) ∘ fun e => (e.1.plain, e.2.toDocument)) =
      (enterAll es).reverse.find? (isNamed name) := by
    refine List.find?_congr fun e hMem => ?_
    have hScalar := isScalar_enterAll hKeys e (List.mem_reverse.mp hMem)
    rw [Bool.eq_iff_iff, isNamed_iff, ← plain_eq_iff hScalar hName]
    exact beq_iff_eq
  rw [toDocument, Document.get?, get?_members, toMembers_eq, ← List.map_reverse, List.find?_map, hSame,
    find?_reverse_of_countP (countP_enterAll es name), get?_mapping]
  cases (enterAll es).find? (isNamed name) <;> rfl

theorem UndatedEntries.isScalar {es es' : List (Value × Value)} (h : UndatedEntries es es') :
    ∀ e ∈ es', e.1.isScalar = true := by
  match h with
  | .nil => exact List.forall_mem_nil _
  | .cons hScalar _ _ hRest => exact List.forall_mem_cons.mpr ⟨hScalar, hRest.isScalar⟩

theorem UndatedEntries.forall₂ {es es' : List (Value × Value)} (h : UndatedEntries es es') :
    List.Forall₂ (fun e e' => Undated e.1 e'.1 ∧ Undated e.2 e'.2) es es' := by
  match h with
  | .nil => exact .nil
  | .cons _ hKey h hRest => exact .cons ⟨hKey, h⟩ hRest.forall₂

theorem isNamed_undated (hForm : ¬ Scalar.IsDate name) (h : Undated k k') (v v' : Value) :
    isNamed name (k', v') = isNamed name (k, v) := by
  cases h with
  | date hDate =>
      refine Bool.eq_false_iff.mpr fun hNamed => hForm ?_
      rw [← beq_iff_eq.mp hNamed]
      exact hDate
  | _ => rfl

/-- Under a keyword there is the same up to dates. -/
theorem UndatedEntries.find? (h : UndatedEntries es es') (hForm : ¬ Scalar.IsDate name) :
    Option.Rel (fun e e' => Undated e.2 e'.2) (es.reverse.find? (isNamed name)) (es'.reverse.find? (isNamed name)) := by
  have hPairs := List.rel_reverse h.forall₂
  generalize es.reverse = fs at hPairs
  generalize es'.reverse = fs' at hPairs
  induction hPairs with
  | nil => exact .none
  | @cons e e' _ _ hHead _ ih =>
      have hNamed : isNamed name e' = isNamed name e := isNamed_undated hForm hHead.1 e.2 e'.2
      rw [List.find?_cons, List.find?_cons, hNamed]
      cases isNamed name e
      · exact ih
      · exact .some hHead.2

theorem get?_of_undated (h : Undated v v') (hName : name.head? = some (Point.ofChar '$'))
    (hForm : ¬ Scalar.IsDate name) :
    Option.Rel (fun w d => ∃ w', Undated w w' ∧ w'.toDocument = d) (v.get? name) (v'.toDocument.get? name) := by
  cases h with
  | mapping hEntries =>
      next es es' =>
      rw [get?_toDocument hEntries.isScalar hName, get?_enterAll, get?_enterAll]
      have hFound := hEntries.find? hForm
      generalize es.reverse.find? (isNamed name) = found at hFound ⊢
      generalize es'.reverse.find? (isNamed name) = found' at hFound ⊢
      cases hFound with
      | none => exact .none
      | some h => exact .some ⟨_, h, rfl⟩
  | same hScalar => cases v <;> first | exact .none | cases hScalar
  | date | tuple | list | set => exact .none


/-- What comes to be a text without dates is one with them, or it is a date, or it is no text but bytes. -/
theorem cases_of_text {t : Text} (h : Undated v v') (hText : v'.toDocument = .text t) :
    v = text t ∨ (∃ m, v = moment m ∧ Scalar.IsDate t) ∨ ∃ bs, v = bytes bs ∧ t = bs.textLossy := by
  cases h with
  | date hDate =>
      obtain rfl := Document.text.inj hText
      exact .inr (.inl ⟨_, rfl, hDate⟩)
  | same =>
      cases v with
      | text t' =>
          obtain rfl := Document.text.inj hText
          exact .inl rfl
      | bytes bs => exact .inr (.inr ⟨bs, rfl, (Document.text.inj hText).symm⟩)
      | _ => cases hText
  | tuple | list | set | mapping => cases hText

/-- Whether what is read with dates is known from what is read without them. -/
inductive Compares : Except Fault Value → Except Fault Value → Prop where
  | ok {v v' : Value} (h : Undated v v') : Compares (.ok v) (.ok v')
  | error (f f' : Fault) : Compares (.error f) (.error f')
  | date (why : Moment.Fault) (v : Value) : Compares (.error (.noSuchMoment why)) (.ok v)
  | long (v : Value) : Compares (.ok v) (.error .longNumber)

theorem compares_ofChars (cs : List Char) : Compares (ofChars true cs) (ofChars false cs) := by
  unfold ofChars
  have hNodes := Node.related_ofTokens? (Token.scan cs)
  generalize Node.ofTokens? true (Token.scan cs) = x at hNodes ⊢
  generalize Node.ofTokens? false (Token.scan cs) = y at hNodes ⊢
  cases hNodes with
  | error f => exact .error f f
  | ok h =>
      cases h with
      | none => exact .ok (.same rfl)
      | @some n n' h =>
          change Compares ((ofNode 0 n).mapError (·.2)) ((ofNode 0 n').mapError (·.2))
          have hValues := leaves_ofNode 0 h
          generalize ofNode 0 n = built at hValues ⊢
          generalize ofNode 0 n' = built' at hValues ⊢
          cases hValues with
          | ok h => exact .ok h
          | error e f => exact .error _ _
          | date depth why b => exact .date why b

theorem compares_load (bs : Bytes) : Compares (load true bs) (load false bs) := by
  unfold load
  split
  · split
    · exact compares_ofChars _
    · exact .error _ _
  · exact .error _ _

/-- A stream that is read with dates is read without them as well, unless there is a number in it that has no text,
and then only dates and texts of their form differ. One that is read without them has a date that does not exist, if
it cannot be read with them. -/
theorem compares_read (bs : Bytes) : Compares (read true bs) (read false bs) := by
  have hLoads := compares_load bs
  rw [read_true, read]
  generalize load true bs = x at hLoads ⊢
  generalize load false bs = y at hLoads ⊢
  cases y with
  | error f => exact hLoads
  | ok v =>
      change Compares x (if v.isReducible = true then .ok v else .error .longNumber)
      split
      · exact hLoads
      · cases hLoads with
        | ok => exact .long _
        | date => exact .error _ _

end Value
end Yaml
end Conform

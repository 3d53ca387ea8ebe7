import Conform.Proofs.Json.Canonical
import Mathlib.Data.List.TakeWhile

/-! Documents that are equal up to the order of the members of their objects: these are the documents
that are the same once all members are put in order, and those that have one canonical text. -/
namespace Conform

namespace Text

theorem le_antisymm {s t : Text} (h : le s t = true) (h' : le t s = true) : s = t := by
  simp only [le, Bool.not_eq_true'] at h h'
  induction s generalizing t with
  | nil =>
      cases t with
      | nil => rfl
      | cons b t => cases h'
  | cons a s ih =>
      cases t with
      | nil => cases h
      | cons b t =>
          simp only [lt] at h h'
          split at h
          · cases h
          · next hNotLess =>
              rw [if_neg hNotLess] at h'
              split at h'
              · cases h'
              · next hNotMore =>
                  rw [if_neg hNotMore] at h
                  rw [ih h h', Fin.ext (show a.val = b.val by omega)]

theorem lt_of_le_of_ne {s t : Text} (h : le s t = true) (hNe : s ≠ t) : lt s t = true := by
  cases hLess : lt s t with
  | true => rfl
  | false =>
      have hGe : le t s = true := by rw [le, hLess, Bool.not_false]
      exact absurd (le_antisymm h hGe) hNe

theorem le_of_lt {s t : Text} (h : lt s t = true) : le s t = true := by
  rw [le, lt_asymm h, Bool.not_false]

section Keys

variable {α : Type} {key : α → Text} {as bs : List α}

theorem pairwise_mergeSort (key : α → Text) (as : List α) :
    (as.mergeSort fun a b => le (key a) (key b)).Pairwise fun a b => le (key a) (key b) = true :=
  List.pairwise_mergeSort (fun a b c => le_trans (key a) (key b) (key c)) (fun a b => le_total (key a) (key b)) as

/-- What is sorted by different keys is in one order, whatever order it was in. -/
theorem mergeSort_eq_of_perm (hNodup : (as.map key).Nodup) (h : as.Perm bs) :
    (as.mergeSort fun a b => le (key a) (key b)) = bs.mergeSort fun a b => le (key a) (key b) := by
  have hPerm := List.mergeSort_perm as fun a b => le (key a) (key b)
  have hPerm' := List.mergeSort_perm bs fun a b => le (key a) (key b)
  refine List.Perm.eq_of_pairwise ?_ (pairwise_mergeSort key as) (pairwise_mergeSort key bs)
    ((hPerm.trans h).trans hPerm'.symm)
  intro a b hA hB hLe hGe
  have hInA := hPerm.mem_iff.mp hA
  have hInB := h.mem_iff.mpr (hPerm'.mem_iff.mp hB)
  exact List.inj_on_of_nodup_map hNodup hInA hInB (le_antisymm hLe hGe)

end Keys

section Sorted

variable {ts us : List Text}

theorem pairwise_sorted (ts : List Text) : (sorted ts).Pairwise fun a b => le a b = true :=
  List.pairwise_mergeSort le_trans le_total ts

theorem sorted_perm (ts : List Text) : (sorted ts).Perm ts := List.mergeSort_perm ts le

/-- What is in order is known from what it has. -/
theorem eq_sorted (h : us.Pairwise fun a b => le a b = true) (hPerm : us.Perm ts) : us = sorted ts :=
  (hPerm.trans (sorted_perm ts).symm).eq_of_pairwise (fun _ _ _ _ => le_antisymm) h (pairwise_sorted ts)

/-- The order in which texts are given does not matter once they are sorted. -/
theorem sorted_eq_of_perm (h : ts.Perm us) : sorted ts = sorted us :=
  eq_sorted (pairwise_sorted ts) ((sorted_perm ts).trans h)

theorem sorted_filter (p : Text → Bool) (ts : List Text) : sorted (ts.filter p) = (sorted ts).filter p :=
  (eq_sorted ((pairwise_sorted ts).filter p) ((sorted_perm ts).filter p)).symm

end Sorted

end Text

namespace Document

variable {v w : Document} {as bs : List Document} {ms ns : Members}

mutual

/-- Equality up to the order of the members of objects, at every depth. A whole number is never equal
to a float. -/
def EqUpToOrder : Document → Document → Prop
  | list as, list bs => EqItems as bs
  | object ms, object ns => ms.length = ns.length ∧ EqMembers ms ns
  | v, w => v = w

def EqItems : List Document → List Document → Prop
  | [], [] => True
  | v :: as, w :: bs => EqUpToOrder v w ∧ EqItems as bs
  | _, _ => False

/-- Every member of the first has an equal one of its name in the second. -/
def EqMembers : Members → Members → Prop
  | [], _ => True
  | (k, v) :: rest, ns => (∃ w, (k, w) ∈ ns ∧ EqUpToOrder v w) ∧ EqMembers rest ns

end

theorem eqItems_iff (h : ∀ v ∈ as, ∀ w ∈ bs, (EqUpToOrder v w ↔ v.sorted = w.sorted)) :
    EqItems as bs ↔ as.map sorted = bs.map sorted := by
  induction as generalizing bs with
  | nil => cases bs <;> simp [EqItems]
  | cons v as ih =>
      cases bs with
      | nil => simp [EqItems]
      | cons w bs =>
          have hRest := ih fun v hV w hW => h v (List.mem_cons_of_mem _ hV) w (List.mem_cons_of_mem _ hW)
          rw [EqItems, h v List.mem_cons_self w List.mem_cons_self, hRest, List.map_cons, List.map_cons,
            List.cons_eq_cons]

theorem eqMembers_iff : EqMembers ms ns ↔ ∀ m ∈ ms, ∃ w, (m.1, w) ∈ ns ∧ EqUpToOrder m.2 w := by
  induction ms with
  | nil => simp [EqMembers]
  | cons m rest ih => simp [EqMembers, ih]

/-- Members with different names are put in one order, whatever order they are in. -/
theorem mergeSort_eq_iff {α : Type} {ms ns : List (Text × α)} (hNodup : (ms.map Prod.fst).Nodup) :
    (ms.mergeSort fun a b => Text.le a.1 b.1) = (ns.mergeSort fun a b => Text.le a.1 b.1) ↔ ms.Perm ns := by
  have hPerm : ∀ ms : List (Text × α), (ms.mergeSort fun a b => Text.le a.1 b.1).Perm ms := fun ms =>
    List.mergeSort_perm ms _
  exact ⟨fun hSame => (hPerm ms).symm.trans (hSame ▸ hPerm ns), Text.mergeSort_eq_of_perm hNodup⟩

theorem perm_iff {α : Type} {ms ns : List (Text × α)} (hNodup : (ms.map Prod.fst).Nodup) :
    ms.Perm ns ↔ ms.length = ns.length ∧ ∀ m ∈ ms, m ∈ ns := by
  refine ⟨fun h => ⟨h.length_eq, fun m hMem => h.mem_iff.mp hMem⟩, fun ⟨hLength, hSub⟩ => ?_⟩
  exact (List.subperm_of_subset (List.Nodup.of_map _ hNodup) hSub).perm_of_length_le hLength.ge

/-- Documents are equal up to order exactly if they are the same once they are put in order. -/
theorem eqUpToOrder_iff (hV : WellFormed v) (hW : WellFormed w) :
    EqUpToOrder v w ↔ v.sorted = w.sorted := by
  induction v using Document.induction_on generalizing w with
  | hStep v ih =>
      cases v with
      | list as =>
          cases w with
          | list bs =>
              rw [EqUpToOrder, sorted, sorted, sortedItems_eq, sortedItems_eq, list.injEq]
              exact eqItems_iff fun v hMem w hMem' =>
                ih v (.item hMem) (hV.inside (.single (.item hMem))) (hW.inside (.single (.item hMem')))
          | _ => simp [EqUpToOrder, sorted]
      | object ms =>
          cases w with
          | object ns =>
              have hNodup : ((ms.map fun m => (m.1, m.2.sorted)).map Prod.fst).Nodup := by
                rw [List.map_map]
                exact hV.nodup .refl
              rw [EqUpToOrder, eqMembers_iff, sorted, sorted, sortedMembers_eq, sortedMembers_eq, object.injEq,
                mergeSort_eq_iff hNodup, perm_iff hNodup, List.length_map, List.length_map]
              refine and_congr_right fun _ => ?_
              rw [List.forall_mem_map]
              refine forall₂_congr fun m hMem => ?_
              rw [List.mem_map]
              constructor
              · rintro ⟨w, hMem', hSame⟩
                refine ⟨(m.1, w), hMem', Prod.ext rfl ?_⟩
                exact ((ih m.2 (.member (k := m.1) hMem) (hV.inside (.single (.member (k := m.1) hMem)))
                  (hW.inside (.single (.member hMem')))).mp hSame).symm
              · rintro ⟨n, hMem', hSame⟩
                obtain ⟨hName, hValue⟩ := Prod.mk.inj hSame
                refine ⟨n.2, hName ▸ hMem', ?_⟩
                exact (ih m.2 (.member (k := m.1) hMem) (hV.inside (.single (.member (k := m.1) hMem)))
                  (hW.inside (.single (.member (k := n.1) hMem')))).mpr hValue.symm
          | _ => simp [EqUpToOrder, sorted]
      | _ => cases w <;> simp [EqUpToOrder, sorted]

/-- Objects are equal up to order if their members, themselves put in order, are the same in some
order. -/
theorem eqUpToOrder_object (hV : WellFormed (object ms)) (hW : WellFormed (object ns)) :
    EqUpToOrder (object ms) (object ns) ↔
      (ms.map fun m => (m.1, m.2.sorted)).Perm (ns.map fun m => (m.1, m.2.sorted)) := by
  have hNodup : ((ms.map fun m => (m.1, m.2.sorted)).map Prod.fst).Nodup := by
    rw [List.map_map]
    exact hV.nodup .refl
  rw [eqUpToOrder_iff hV hW, sorted, sorted, sortedMembers_eq, sortedMembers_eq, object.injEq,
    mergeSort_eq_iff hNodup]

theorem wellFormed_sorted (h : WellFormed v) : WellFormed v.sorted := by
  induction v using Document.induction_on with
  | hStep v ih =>
      cases v with
      | list items =>
          rw [sorted, sortedItems_eq]
          refine wellFormed_list.mpr (List.forall_mem_map.mpr fun d hMem => ?_)
          exact ih d (.item hMem) (h.inside (.single (.item hMem)))
      | object ms =>
          rw [sorted_object]
          have hPerm := List.mergeSort_perm ms fun a b => Text.le a.1 b.1
          refine wellFormed_object.mpr ⟨?_, List.forall_mem_map.mpr fun m hMem => ?_⟩
          · rw [Members.names, List.map_map]
            exact (hPerm.map Prod.fst).nodup_iff.mpr (h.nodup .refl)
          · have hIn := hPerm.mem_iff.mp hMem
            exact ih m.2 (.member (k := m.1) hIn) (h.inside (.single (.member (k := m.1) hIn)))
      | _ => exact h

theorem sorted_sorted (v : Document) : v.sorted.sorted = v.sorted := by
  induction v using Document.induction_on with
  | hStep v ih =>
      cases v with
      | list items =>
          rw [sorted, sortedItems_eq, sorted, sortedItems_eq, List.map_map]
          exact congrArg list (List.map_congr_left fun d hMem => ih d (.item hMem))
      | object ms =>
          have hAgain : (object ((ms.mergeSort fun a b => Text.le a.1 b.1).map fun m => (m.1, m.2.sorted))).sorted =
              object ((ms.mergeSort fun a b => Text.le a.1 b.1).map fun m => (m.1, m.2.sorted.sorted)) := by
            rw [sorted_object, mergeSort_map, mergeSort_idem, List.map_map]
            rfl
          rw [sorted_object, hAgain]
          refine congrArg object (List.map_congr_left fun m hMem => ?_)
          rw [ih m.2 (.member (k := m.1) (List.mem_mergeSort.mp hMem))]
      | _ => rfl

/-- Putting the members in order leaves a document the same up to order. -/
theorem eqUpToOrder_sorted (h : WellFormed v) : EqUpToOrder v.sorted v :=
  (eqUpToOrder_iff (wellFormed_sorted h) h).mpr (sorted_sorted v)

/-- Whether what a document itself holds can be written as JSON in UTF-8, its parts apart: no dates, no
whole numbers of more digits than are ever written, and no surrogates. -/
def Plain : Document → Prop
  | int n => (Text.ofNat n.natAbs).length ≤ Text.maxDigits
  | moment _ => False
  | d => ∀ t ∈ Json.textsOf d, t.hasSurrogate = false

/-- Whether a document is a JSON value: one that readers make, and that can be written at every
depth. -/
structure IsJson (v : Document) : Prop where
  wellFormed : WellFormed v
  plain : ∀ sub, Inside v sub → sub.Plain

theorem Plain.text {t : Text} (h : v.Plain) (hText : t ∈ Json.textsOf v) : t.hasSurrogate = false := by
  cases v with
  | int n => cases hText
  | moment m => cases hText
  | _ => exact h t hText

theorem obstacle?_of_plain (h : ∀ sub, Inside v sub → sub.Plain) : Json.obstacle? v = none := by
  induction v using Document.induction_on with
  | hStep v ih =>
      have hPart : ∀ d, Part v d → Json.obstacle? d = none := fun d hPart =>
        ih d hPart fun sub hInside => h sub (.head hPart hInside)
      cases v with
      | int n =>
          have hShort : (Text.ofNat n.natAbs).length ≤ Text.maxDigits := h _ .refl
          rw [Json.obstacle?, if_neg (Nat.not_lt.mpr hShort)]
      | moment m => exact (h _ .refl).elim
      | list items => exact Json.itemObstacle?_eq_none.mpr fun d hMem => hPart d (.item hMem)
      | object ms => exact Json.obstacle?_object.mpr fun m hMem => hPart m.2 (.member (k := m.1) hMem)
      | _ => rfl

/-- A test for JSON values without floats. -/
def isSimple : Document → Bool
  | null | bool _ | list _ => true
  | int n => (Text.ofNat n.natAbs).length ≤ Text.maxDigits
  | text t => !t.hasSurrogate
  | object ms => (Members.names ms).Nodup && (Members.names ms).all (!·.hasSurrogate)
  | float _ | moment _ => false

theorem isJson_of_isSimple (h : v.every isSimple = true) : IsJson v := by
  have hAll : ∀ sub, Inside v sub → sub.Fine ∧ sub.Plain := by
    intro sub hInside
    have hSub := of_every_inside h hInside
    cases sub with
    | object ms =>
        simp only [isSimple, Bool.and_eq_true, decide_eq_true_eq, List.all_eq_true, Bool.not_eq_true'] at hSub
        exact hSub
    | int n =>
        have hShort : (Text.ofNat n.natAbs).length ≤ Text.maxDigits := of_decide_eq_true hSub
        exact ⟨trivial, hShort⟩
    | text t => exact ⟨trivial, fun u hText => by simpa [List.mem_singleton.mp hText, isSimple] using hSub⟩
    | float x => cases hSub
    | moment m => cases hSub
    | _ => exact ⟨trivial, nofun⟩
  exact ⟨fun sub hInside => (hAll sub hInside).1, fun sub hInside => (hAll sub hInside).2⟩

theorem surrogateRun?_eq_none {t : Text} (h : ∀ p ∈ t, p.isSurrogate = false) : surrogateRun? t = none := by
  have hAll : t.takeWhile (!·.isSurrogate) = t :=
    List.takeWhile_eq_self_iff.mpr fun p hMem => by simp [h p hMem]
  unfold surrogateRun?
  simp only [hAll, List.drop_length]

theorem forall_of_surrogateRun? {t : Text} (h : surrogateRun? t = none) : ∀ p ∈ t, p.isSurrogate = false := by
  have hSplit : t.drop (t.takeWhile (!·.isSurrogate)).length = t.dropWhile (!·.isSurrogate) := by
    have hWhole := congrArg (List.drop (t.takeWhile (!·.isSurrogate)).length)
      (List.takeWhile_append_dropWhile (p := (!·.isSurrogate)) (l := t))
    rw [List.drop_left] at hWhole
    exact hWhole.symm
  have hNone : t.dropWhile (!·.isSurrogate) = [] := by
    unfold surrogateRun? at h
    dsimp only at h
    rw [hSplit] at h
    cases hRest : t.dropWhile (!·.isSurrogate) with
    | nil => rfl
    | cons p rest =>
        rw [hRest] at h
        cases h
  simpa using List.dropWhile_eq_nil_iff.mp hNone

/-- An object has a canonical text if all of its members can be written. -/
theorem canonical_object {ms : Members} : (∃ t, (object ms).canonical = .ok t) ↔
    ∀ m ∈ ms, Json.obstacle? m.2 = none ∧ ∀ p ∈ Json.printMember 1 m, p.isSurrogate = false := by
  have hClean : (∀ p ∈ Json.render .canonical (object ms), p.isSurrogate = false) ↔
      ∀ m ∈ ms, ∀ p ∈ Json.printMember 1 m, p.isSurrogate = false := by
    rw [Json.render, Json.print_object, List.forall_mem_cons, List.forall_mem_append, List.forall_mem_singleton,
      Json.forall_mem_joined_iff (by decide), List.forall_mem_map]
    refine ⟨fun h m hMem => h.2.1 m (List.mem_mergeSort.mpr hMem), fun h => ⟨by decide, fun m hMem => ?_, by decide⟩⟩
    exact h m (List.mem_mergeSort.mp hMem)
  unfold canonical
  rw [forall₂_and, ← Json.obstacle?_object, ← hClean]
  cases hObstacle : Json.obstacle? (object ms) with
  | some o =>
      constructor
      · rintro ⟨t, hText⟩
        cases hText
      · rintro ⟨hNone, _⟩
        cases hNone
  | none =>
      dsimp only
      rw [and_iff_right rfl]
      constructor
      · rintro ⟨t, h⟩
        refine forall_of_surrogateRun? ?_
        cases hRun : surrogateRun? (Json.render .canonical (object ms)) with
        | none => rfl
        | some run =>
            rw [hRun] at h
            cases h
      · intro h
        rw [surrogateRun?_eq_none h]
        exact ⟨_, rfl⟩

/-- Every JSON value has a canonical text. -/
theorem IsJson.canonical (h : IsJson v) : ∃ t, v.canonical = .ok t := by
  have hNone := obstacle?_of_plain h.plain
  have hClean : ∀ p ∈ Json.render .canonical v, p.isSurrogate = false := by
    refine Json.forall_mem_print h.wellFormed hNone (fun p hShown => ?_) (fun sub hInside t hText p hMem _ => ?_) 0
    · simp only [Point.isSurrogate, Bool.and_eq_false_iff, decide_eq_false_iff_not]
      exact Or.inl (by have := hShown.2; omega)
    · have hNone := List.any_eq_false.mp ((h.plain sub hInside).text hText)
      exact Bool.eq_false_iff.mpr (hNone p hMem)
  refine ⟨Json.render .canonical v, ?_⟩
  rw [Document.canonical, hNone]
  simp only [surrogateRun?_eq_none hClean]

/-- Documents with canonical texts have the same one exactly if they are equal up to order. -/
theorem canonical_eq_iff {t u : Text} (hV : WellFormed v) (hW : WellFormed w) (hText : v.canonical = .ok t)
    (hText' : w.canonical = .ok u) : t = u ↔ EqUpToOrder v w := by
  rw [eqUpToOrder_iff hV hW]
  constructor
  · rintro rfl
    have hRead := Json.read?_canonical hV hText
    exact Option.some.inj (hRead.symm.trans (Json.read?_canonical hW hText'))
  · intro hSame
    rw [← canonical_sorted, hSame, canonical_sorted, hText'] at hText
    exact (Except.ok.inj hText).symm

end Document
end Conform

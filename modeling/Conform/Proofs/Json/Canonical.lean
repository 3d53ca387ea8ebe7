import Conform.Proofs.Json.Values

/-! The canonical text is a text for a document up to the order of the members of its objects: putting
them in order changes nothing. -/
namespace Conform

namespace Text

theorem lt_irrefl (s : Text) : lt s s = false := by
  induction s with
  | nil => rfl
  | cons a s ih => simp [lt, ih]

theorem lt_asymm {s t : Text} (h : lt s t = true) : lt t s = false := by
  induction s generalizing t with
  | nil =>
      cases t with
      | nil => cases h
      | cons b t => rfl
  | cons a s ih =>
      cases t with
      | nil => cases h
      | cons b t =>
          simp only [lt] at h ⊢
          split at h
          · next hLess => simp [hLess, Nat.not_lt.mpr (Nat.le_of_lt hLess)]
          · next hNotLess =>
              split at h
              · cases h
              · next hNotMore => simp [hNotLess, hNotMore, ih h]

theorem le_total (s t : Text) : (le s t || le t s) = true := by
  cases h : lt t s with
  | false => simp [le, h]
  | true => simp [le, lt_asymm h]

theorem le_trans (s t u : Text) (h : le s t = true) (h' : le t u = true) : le s u = true := by
  simp only [le, Bool.not_eq_true'] at *
  induction u generalizing s t with
  | nil =>
      cases t with
      | nil => exact h
      | cons b t => cases h'
  | cons c u ih =>
      cases s with
      | nil => rfl
      | cons a s =>
          cases t with
          | nil => cases h
          | cons b t =>
              simp only [lt] at h h' ⊢
              split at h
              · cases h
              · next hBA =>
                  split at h'
                  · cases h'
                  · next hCB =>
                      have hCA : ¬c.val < a.val := by omega
                      rw [if_neg hCA]
                      split
                      · rfl
                      · next hAC =>
                          rw [if_neg (by omega)] at h h'
                          exact ih s t h h'

end Text

namespace Document

theorem mergeSort_idem {α : Type} (ms : List (Text × α)) :
    (ms.mergeSort fun a b => Text.le a.1 b.1).mergeSort (fun a b => Text.le a.1 b.1) =
      ms.mergeSort fun a b => Text.le a.1 b.1 :=
  List.mergeSort_of_pairwise (List.pairwise_mergeSort (fun a b c => Text.le_trans a.1 b.1 c.1)
    (fun a b => Text.le_total a.1 b.1) ms)

/-- The members of an object in order, their own members in order too. -/
theorem sorted_object (ms : Members) : (object ms).sorted =
    object ((ms.mergeSort fun a b => Text.le a.1 b.1).map fun m => (m.1, m.2.sorted)) := by
  rw [sorted, sortedMembers_eq, mergeSort_map]

end Document

namespace Json

open Document (Part)

theorem obstacle?_sorted (d : Document) : obstacle? d.sorted = obstacle? d := by
  induction d using Document.induction_on with
  | hStep d ih =>
      cases d with
      | list items =>
          have hItems : ∀ ds : List Document, (∀ d ∈ ds, obstacle? d.sorted = obstacle? d) →
              itemObstacle? (ds.map Document.sorted) = itemObstacle? ds := by
            intro ds hAll
            induction ds with
            | nil => rfl
            | cons d others ihDs =>
                obtain ⟨hFirst, hOthers⟩ := List.forall_mem_cons.mp hAll
                rw [List.map_cons, itemObstacle?, itemObstacle?, hFirst, ihDs hOthers]
          rw [Document.sorted, Document.sortedItems_eq]
          exact hItems items fun d hMem => ih d (.item hMem)
      | object ms =>
          rw [Document.sorted_object, obstacle?, obstacle?, memberObstacles_eq, memberObstacles_eq,
            Document.mergeSort_map obstacle?, Document.mergeSort_map obstacle? ms,
            Document.mergeSort_map Document.sorted, Document.mergeSort_idem, List.map_map]
          refine congrArg (List.findSome? _) (List.map_congr_left fun m hMem => ?_)
          have hSame := ih m.2 (.member (k := m.1) (List.mem_mergeSort.mp hMem))
          simp only [Function.comp_apply, hSame]
      | _ => rfl

theorem print_sorted (d : Document) (level : Nat) :
    print .canonical level d.sorted = print .canonical level d := by
  induction d using Document.induction_on generalizing level with
  | hStep d ih =>
      cases d with
      | list items =>
          rw [Document.sorted, Document.sortedItems_eq, print_list, print_list, List.map_map]
          have hItems : items.map (print .canonical (level + 1) ∘ Document.sorted) =
              items.map (print .canonical (level + 1)) :=
            List.map_congr_left fun d hMem => ih d (.item hMem) (level + 1)
          rw [hItems]
      | object ms =>
          rw [Document.sorted_object, print_object, print_object, Document.mergeSort_map Document.sorted,
            Document.mergeSort_idem, List.map_map]
          have hMembers : (ms.mergeSort fun a b => Text.le a.1 b.1).map
                (printMember (level + 1) ∘ fun m => (m.1, m.2.sorted)) =
              (ms.mergeSort fun a b => Text.le a.1 b.1).map (printMember (level + 1)) := by
            refine List.map_congr_left fun m hMem => ?_
            have hSame := ih m.2 (.member (k := m.1) (List.mem_mergeSort.mp hMem)) (level + 1)
            simp only [Function.comp_apply, printMember, hSame]
          rw [hMembers]
      | _ => rfl

end Json

/-- A document and the same document in order have one canonical text. -/
theorem Document.canonical_sorted (d : Document) : d.sorted.canonical = d.canonical := by
  unfold canonical
  rw [Json.obstacle?_sorted, Json.render, Json.print_sorted]
  rfl

end Conform

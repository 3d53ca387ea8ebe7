import Conform.Document
import Conform.Proofs.Double
import Conform.Proofs.Lookup
import Mathlib.Logic.Relation

/-! What is inside a document. Objects have each name once and numbers are the roundings of their
values in every document that is read, at every depth. -/
namespace Conform

namespace Members

variable {ms : Members} {k name : Text} {v value : Document} {m : Text × Document}

/-- Whether some member has the given name and text. -/
def Says (ms : Members) (name t : Text) : Prop := (name, Document.text t) ∈ ms

theorem mem_of_get? (h : get? ms k = some v) : (k, v) ∈ ms := mem_of_lookup h

theorem get?_of_mem (hDistinct : (names ms).Nodup) (hMem : (k, v) ∈ ms) : get? ms k = some v :=
  lookup_of_mem hDistinct hMem

theorem has_iff : has ms name = true ↔ name ∈ names ms := by
  simp [has, names]

theorem exists_get?_of_has (h : has ms name = true) : ∃ v, get? ms name = some v := by
  obtain ⟨m, hMem, rfl⟩ := List.mem_map.mp (has_iff.mp h)
  rw [← Option.ne_none_iff_exists']
  intro hNone
  simpa using List.lookup_eq_none_iff.mp hNone m hMem

theorem mem_set (h : m ∈ set name value ms) : m = (name, value) ∨ m ∈ ms := by
  induction ms with
  | nil => simpa [set] using h
  | cons first rest ih =>
      simp only [set] at h
      split at h
      · next hSame =>
          rcases List.mem_cons.mp h with rfl | hMem
          · exact Or.inl (by rw [eq_of_beq hSame])
          · exact Or.inr (List.mem_cons_of_mem _ hMem)
      · rcases List.mem_cons.mp h with rfl | hMem
        · exact Or.inr List.mem_cons_self
        · exact (ih hMem).imp id (List.mem_cons_of_mem _)

theorem mem_names_set : k ∈ names (set name value ms) ↔ k = name ∨ k ∈ names ms := by
  induction ms with
  | nil => simp [set, names]
  | cons first rest ih =>
      simp only [set]
      split
      · next hSame => simp [names, eq_of_beq hSame]
      · simp only [names, List.map_cons, List.mem_cons] at ih ⊢
        rw [ih]
        tauto

theorem nodup_set (h : (names ms).Nodup) : (names (set name value ms)).Nodup := by
  induction ms with
  | nil => simp [set, names]
  | cons first rest ih =>
      obtain ⟨k, v⟩ := first
      obtain ⟨hNew, hRest⟩ := List.nodup_cons.mp h
      simp only [set]
      split
      · exact h
      · next hOther =>
          refine List.nodup_cons.mpr ⟨fun hMem => ?_, ih hRest⟩
          rcases mem_names_set.mp hMem with hSame | hMem
          · exact hOther (beq_iff_eq.mpr hSame)
          · exact hNew hMem

theorem ofList_induction {P : Members → Prop} (hNil : P [])
    (hStep : ∀ acc, ∀ m ∈ ms, P acc → P (set m.1 m.2 acc)) : P (ofList ms) := by
  unfold ofList
  suffices hRun : ∀ items ⊆ ms, ∀ acc, P acc → P (items.foldl (fun acc m => set m.1 m.2 acc) acc) from
    hRun ms (List.Subset.refl ms) [] hNil
  intro items hItems
  induction items with
  | nil => exact fun acc h => h
  | cons first rest ih =>
      obtain ⟨hFirst, hRest⟩ := List.cons_subset.mp hItems
      exact fun acc h => ih hRest _ (hStep acc first hFirst h)

theorem mem_names_ofList : k ∈ names (ofList ms) ↔ k ∈ names ms := by
  unfold ofList
  suffices hRun : ∀ acc : Members, k ∈ names (ms.foldl (fun acc m => set m.1 m.2 acc) acc) ↔
      k ∈ names acc ∨ k ∈ names ms by simpa [names] using hRun []
  induction ms with
  | nil => exact fun acc => by simp [names]
  | cons first rest ih =>
      intro acc
      rw [List.foldl_cons, ih, mem_names_set]
      simp only [names, List.map_cons, List.mem_cons]
      tauto

theorem nodup_ofList (ms : Members) : (names (ofList ms)).Nodup :=
  ofList_induction (P := fun acc => (names acc).Nodup) List.nodup_nil fun _ _ _ h => nodup_set h

theorem set_of_notMem (h : name ∉ names ms) : set name value ms = ms ++ [(name, value)] := by
  induction ms with
  | nil => rfl
  | cons first rest ih =>
      obtain ⟨hFirst, hRest⟩ := not_or.mp (fun hMem => h (List.mem_cons.mpr hMem))
      rw [set, if_neg (by simpa using Ne.symm hFirst), ih hRest, List.cons_append]

/-- Members of different names are entered as they are. -/
theorem ofList_of_nodup (h : (names ms).Nodup) : ofList ms = ms := by
  unfold ofList
  suffices hRun : ∀ acc : Members, (names (acc ++ ms)).Nodup →
      ms.foldl (fun acc m => set m.1 m.2 acc) acc = acc ++ ms from hRun [] h
  clear h
  induction ms with
  | nil => exact fun acc _ => (List.append_nil acc).symm
  | cons first rest ih =>
      intro acc hAll
      have hNew : first.1 ∉ names acc := by
        simp only [names, List.map_append, List.map_cons, List.nodup_append] at hAll
        exact fun hMem => hAll.2.2 _ hMem _ List.mem_cons_self rfl
      rw [List.foldl_cons, set_of_notMem hNew, ih (acc ++ [first]) (by simpa using hAll)]
      simp

theorem mem_ofList (h : m ∈ ofList ms) : m ∈ ms := by
  have hAll : ∀ m ∈ ofList ms, m ∈ ms := by
    refine ofList_induction (P := fun acc => ∀ m ∈ acc, m ∈ ms) (fun m hMem => by cases hMem)
      fun acc first hFirst hAcc m hMem => ?_
    rcases mem_set hMem with rfl | hMem
    · exact hFirst
    · exact hAcc m hMem
  exact hAll m h

theorem nodup_erase (h : (names ms).Nodup) : (names (erase name ms)).Nodup :=
  h.sublist (List.Sublist.map _ List.filter_sublist)

theorem mem_erase : m ∈ erase name ms ↔ m ∈ ms ∧ m.1 ≠ name := by
  rw [erase, List.mem_filter, bne_iff_ne]

theorem get?_erase_self (ms : Members) (name : Text) : get? (erase name ms) name = none := by
  rw [get?, List.lookup_eq_none_iff]
  exact fun m hMem => bne_iff_ne.mpr (mem_erase.mp hMem).2.symm

theorem get?_erase_ne (h : k ≠ name) (ms : Members) : get? (erase name ms) k = get? ms k := by
  unfold get? erase
  induction ms with
  | nil => rfl
  | cons m rest ih =>
      obtain ⟨key, value⟩ := m
      by_cases hKey : key = name
      · subst hKey
        rw [List.filter_cons_of_neg (by simp), List.lookup_cons, beq_eq_false_iff_ne.mpr h, ih]
      · rw [List.filter_cons_of_pos (by simpa using hKey), List.lookup_cons, List.lookup_cons, ih]

theorem has_erase_ne (h : k ≠ name) (ms : Members) : has (erase name ms) k = has ms k := by
  rw [Bool.eq_iff_iff, has_iff, has_iff, names, names, List.mem_map, List.mem_map]
  constructor
  · rintro ⟨m, hMem, hName⟩
    exact ⟨m, (mem_erase.mp hMem).1, hName⟩
  · rintro ⟨m, hMem, hName⟩
    exact ⟨m, mem_erase.mpr ⟨hMem, hName ▸ h⟩, hName⟩

end Members

namespace Document

variable {d whole sub inner : Document} {items : List Document} {ms : Members}

mutual

/-- Whether two documents are one and the same, with their members in the same order. -/
def agrees : Document → Document → Bool
  | null, null => true
  | bool a, bool b => a == b
  | int a, int b => a == b
  | float a, float b => a == b
  | text a, text b => a == b
  | moment a, moment b => a == b
  | list as, list bs => agreeItems as bs
  | object as, object bs => agreeMembers as bs
  | _, _ => false

def agreeItems : List Document → List Document → Bool
  | [], [] => true
  | a :: as, b :: bs => agrees a b && agreeItems as bs
  | _, _ => false

def agreeMembers : List (Text × Document) → List (Text × Document) → Bool
  | [], [] => true
  | (k, a) :: as, (l, b) :: bs => k == l && agrees a b && agreeMembers as bs
  | _, _ => false

end

mutual

theorem agrees_iff : ∀ a b : Document, agrees a b = true ↔ a = b
  | null, b => by cases b <;> simp [agrees]
  | bool a, b => by cases b <;> simp [agrees]
  | int a, b => by cases b <;> simp [agrees]
  | float a, b => by cases b <;> simp [agrees]
  | text a, b => by cases b <;> simp [agrees]
  | moment a, b => by cases b <;> simp [agrees]
  | list as, b => by cases b <;> simp [agrees, agreeItems_iff as]
  | object as, b => by cases b <;> simp [agrees, agreeMembers_iff as]

theorem agreeItems_iff : ∀ as bs : List Document, agreeItems as bs = true ↔ as = bs
  | [], bs => by cases bs <;> simp [agreeItems]
  | a :: as, bs => by cases bs <;> simp [agreeItems, agrees_iff a, agreeItems_iff as]

theorem agreeMembers_iff : ∀ as bs : List (Text × Document), agreeMembers as bs = true ↔ as = bs
  | [], bs => by cases bs <;> simp [agreeMembers]
  | (k, a) :: as, bs => by
      cases bs <;> simp [agreeMembers, agrees_iff a, agreeMembers_iff as, Prod.ext_iff]

end

instance : DecidableEq Document := fun _ _ => decidable_of_iff _ (agrees_iff _ _)

/-- The items of a list and the values of an object are its parts. -/
inductive Part : Document → Document → Prop where
  | item {items : List Document} {d : Document} (h : d ∈ items) : Part (list items) d
  | member {ms : Members} {k : Text} {d : Document} (h : (k, d) ∈ ms) : Part (object ms) d

/-- A document and what is inside it, at any depth. -/
def Inside : Document → Document → Prop := Relation.ReflTransGen Part

/-- What is inside a document, at any depth, without the document itself. -/
def Nested : Document → Document → Prop := Relation.TransGen Part

theorem inside_iff : Inside whole sub ↔ sub = whole ∨ Nested whole sub :=
  Relation.reflTransGen_iff_eq_or_transGen

theorem Inside.part (h : Inside whole sub) (hPart : Part sub inner) : Inside whole inner := h.tail hPart

theorem Inside.trans (h : Inside whole sub) (h' : Inside sub inner) : Inside whole inner :=
  Relation.ReflTransGen.trans h h'

theorem Inside.nested (h : Inside whole sub) (hPart : Part sub inner) : Nested whole inner :=
  Relation.TransGen.tail' h hPart

theorem Inside.nested_trans (h : Inside whole sub) (h' : Nested sub inner) : Nested whole inner :=
  Relation.TransGen.trans_right h h'

theorem Nested.inside (h : Nested whole sub) : Inside whole sub := h.to_reflTransGen

theorem depth_pos (d : Document) : 0 < d.depth := by
  cases d <;> simp [depth]

/-- What is part of a document is less deep. -/
theorem Part.depth_lt (h : Part whole sub) : sub.depth < whole.depth := by
  cases h with
  | @item items _ hMem =>
      rw [depth, Nat.lt_succ_iff]
      induction items with
      | nil => cases hMem
      | cons d rest ih =>
          rw [depthItems]
          rcases List.mem_cons.mp hMem with rfl | hMem
          · exact Nat.le_max_left ..
          · exact (ih hMem).trans (Nat.le_max_right ..)
  | @member ms k _ hMem =>
      rw [depth, Nat.lt_succ_iff]
      induction ms with
      | nil => cases hMem
      | cons m rest ih =>
          obtain ⟨name, d⟩ := m
          rw [depthMembers]
          rcases List.mem_cons.mp hMem with hSame | hMem
          · obtain ⟨rfl, rfl⟩ := Prod.mk.inj hSame
            exact Nat.le_max_left ..
          · exact (ih hMem).trans (Nat.le_max_right ..)

theorem Nested.depth_lt (h : Nested whole sub) : sub.depth < whole.depth := by
  induction h with
  | single hPart => exact hPart.depth_lt
  | tail _ hPart ih => exact hPart.depth_lt.trans ih

theorem Inside.cases_head (h : Inside whole sub) :
    sub = whole ∨ ∃ d, Part whole d ∧ Inside d sub :=
  (Relation.ReflTransGen.cases_head h).imp Eq.symm id

theorem inside_list : Inside (list items) sub ↔ sub = list items ∨ ∃ d ∈ items, Inside d sub := by
  constructor
  · intro h
    refine h.cases_head.imp id fun ⟨d, hPart, hInside⟩ => ?_
    cases hPart with
    | item hMem => exact ⟨d, hMem, hInside⟩
  · rintro (rfl | ⟨d, hMem, hInside⟩)
    · exact .refl
    · exact .head (.item hMem) hInside

theorem inside_object : Inside (object ms) sub ↔ sub = object ms ∨ ∃ m ∈ ms, Inside m.2 sub := by
  constructor
  · intro h
    refine h.cases_head.imp id fun ⟨d, hPart, hInside⟩ => ?_
    cases hPart with
    | member hMem => exact ⟨_, hMem, hInside⟩
  · rintro (rfl | ⟨m, hMem, hInside⟩)
    · exact .refl
    · exact .head (.member hMem) hInside

/-- Whether a document is as readers leave it, its parts apart. -/
def Fine : Document → Prop
  | object ms => (Members.names ms).Nodup
  | float x => x.Normal
  | _ => True

/-- Whether a document is as readers leave it, at every depth. -/
def WellFormed (d : Document) : Prop := ∀ sub, Inside d sub → sub.Fine

theorem WellFormed.inside (h : WellFormed whole) (hInside : Inside whole sub) : WellFormed sub :=
  fun _ h' => h _ (hInside.trans h')

theorem WellFormed.nodup (h : WellFormed whole) (hInside : Inside whole (object ms)) :
    (Members.names ms).Nodup := h _ hInside

theorem wellFormed_list : WellFormed (list items) ↔ ∀ d ∈ items, WellFormed d := by
  refine ⟨fun h d hMem => h.inside (.single (.item hMem)), fun h sub hInside => ?_⟩
  rcases inside_list.mp hInside with rfl | ⟨d, hMem, hSub⟩
  · trivial
  · exact h d hMem sub hSub

theorem wellFormed_object :
    WellFormed (object ms) ↔ (Members.names ms).Nodup ∧ ∀ m ∈ ms, WellFormed m.2 := by
  refine ⟨fun h => ⟨h _ .refl, fun m hMem => h.inside (.single (.member (k := m.1) hMem))⟩,
    fun ⟨hNodup, h⟩ sub hInside => ?_⟩
  rcases inside_object.mp hInside with rfl | ⟨m, hMem, hSub⟩
  · exact hNodup
  · exact h m hMem sub hSub

theorem wellFormed_leaf (hList : ∀ items, d ≠ list items) (hObject : ∀ ms, d ≠ object ms)
    (hFine : d.Fine) : WellFormed d := by
  intro sub hInside
  rcases hInside.cases_head with rfl | ⟨inner, hPart, _⟩
  · exact hFine
  · cases hPart with
    | item _ => exact absurd rfl (hList _)
    | member _ => exact absurd rfl (hObject _)

theorem wellFormed_ofList (h : ∀ m ∈ ms, WellFormed m.2) : WellFormed (object (Members.ofList ms)) :=
  wellFormed_object.mpr ⟨Members.nodup_ofList ms, fun m hMem => h m (Members.mem_ofList hMem)⟩

theorem says_of_get? {k t : Text} (h : (d.get? k).bind text? = some t) :
    ∃ ms, d = object ms ∧ Members.Says ms k t := by
  obtain ⟨v, hGet, hText⟩ := Option.bind_eq_some_iff.mp h
  cases d with
  | object ms =>
      cases v with
      | text t' =>
          obtain rfl : t' = t := Option.some.inj hText
          exact ⟨ms, rfl, Members.mem_of_get? hGet⟩
      | _ => cases hText
  | _ => cases hGet

section Every

variable {p : Document → Bool}

mutual

/-- Whether a test succeeds for a document and everything inside it. -/
def every (p : Document → Bool) : Document → Bool
  | list items => p (list items) && everyItem p items
  | object ms => p (object ms) && everyMember p ms
  | d => p d

def everyItem (p : Document → Bool) : List Document → Bool
  | [] => true
  | d :: rest => every p d && everyItem p rest

def everyMember (p : Document → Bool) : List (Text × Document) → Bool
  | [] => true
  | (_, d) :: rest => every p d && everyMember p rest

end

theorem everyItem_eq (items : List Document) : everyItem p items = items.all (every p) := by
  induction items with
  | nil => rfl
  | cons d rest ih => simp [everyItem, ih]

theorem everyMember_eq (ms : Members) : everyMember p ms = ms.all fun m => every p m.2 := by
  induction ms with
  | nil => rfl
  | cons m rest ih => simp [everyMember, ih]

theorem every_of_part (h : whole.every p = true) (hPart : Part whole d) : d.every p = true := by
  cases hPart with
  | item hMem =>
      simp only [every, everyItem_eq, Bool.and_eq_true, List.all_eq_true] at h
      exact h.2 d hMem
  | member hMem =>
      simp only [every, everyMember_eq, Bool.and_eq_true, List.all_eq_true] at h
      exact h.2 _ hMem

theorem of_every (h : d.every p = true) : p d = true := by
  cases d <;> simp_all [every]

theorem every_inside (h : whole.every p = true) (hInside : Inside whole sub) :
    sub.every p = true := by
  induction hInside with
  | refl => exact h
  | tail _ hPart ih => exact every_of_part ih hPart

/-- A test of everything inside a document holds of each thing inside. -/
theorem of_every_inside (h : whole.every p = true) (hInside : Inside whole sub) : p sub = true :=
  of_every (every_inside h hInside)

/-- Whether a test succeeds for everything inside a document. -/
def everyNested (p : Document → Bool) : Document → Bool
  | list items => everyItem p items
  | object ms => everyMember p ms
  | _ => true

theorem of_everyNested (h : whole.everyNested p = true) (hNested : Nested whole sub) :
    p sub = true := by
  obtain ⟨part, hPart, hInside⟩ := Relation.TransGen.head'_iff.mp hNested
  refine of_every_inside ?_ hInside
  cases hPart with
  | item hMem =>
      simp only [everyNested, everyItem_eq, List.all_eq_true] at h
      exact h part hMem
  | member hMem =>
      simp only [everyNested, everyMember_eq, List.all_eq_true] at h
      exact h _ hMem

end Every

end Document
end Conform

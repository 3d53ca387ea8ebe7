import Mathlib.Data.List.Forall2
import Mathlib.Data.List.ReduceOption

/-! Computations that may fail: what is known once one has succeeded, and two of them side by side, which go alike if
they fail in the same way or come to results that belong together. -/
namespace Conform

section Results

variable {ε α β : Type} {x : Except ε α} {f : α → Except ε β} {as : List α} {bs : List β} {b : β}

theorem exists_of_bind_ok (h : (x >>= f) = .ok b) : ∃ a, x = .ok a ∧ f a = .ok b := by
  cases x with
  | error e => cases h
  | ok a => exact ⟨a, rfl, h⟩

theorem cases_of_bind_error {e : ε} (h : (x >>= f) = .error e) : x = .error e ∨ ∃ a, x = .ok a ∧ f a = .error e := by
  cases x with
  | error e' => exact .inl (congrArg _ (Except.error.inj h))
  | ok a => exact .inr ⟨a, rfl, h⟩

theorem bind_of_ok {a : α} (h : x = .ok a) : (x >>= f) = f a := by
  rw [h]
  rfl

theorem exists_bind_ok (h : ∃ a, x = .ok a) (hRest : ∀ a, ∃ b, f a = .ok b) : ∃ b, (x >>= f) = .ok b := by
  obtain ⟨a, rfl⟩ := h
  exact hRest a

theorem exists_of_map_ok {g : α → β} (h : x.map g = .ok b) : ∃ a, x = .ok a ∧ g a = b := by
  cases x with
  | error e => cases h
  | ok a => exact ⟨a, rfl, Except.ok.inj h⟩

theorem exists_of_mapError_ok {ε' : Type} {g : ε → ε'} {a : α} (h : x.mapError g = .ok a) :
    x = .ok a := by
  cases x with
  | error e => cases h
  | ok a' => exact congrArg _ (Except.ok.inj h)

theorem exists_of_mapError_error {ε' : Type} {g : ε → ε'} {e' : ε'} (h : x.mapError g = .error e') :
    ∃ e, x = .error e ∧ g e = e' := by
  cases x with
  | error e => exact ⟨e, rfl, Except.error.inj h⟩
  | ok a => cases h

/-- What failures are called does not matter to what results are compared by. -/
theorem map_mapError_congr {ε' : Type} {g : ε → ε'} {y : Except ε α} {k : α → β} (h : x.map k = y.map k) :
    (x.mapError g).map k = (y.mapError g).map k := by
  cases x with
  | error e =>
      cases y with
      | error e' =>
          obtain rfl : e = e' := Except.error.inj h
          rfl
      | ok b => cases h
  | ok a =>
      cases y with
      | error e' => cases h
      | ok b =>
          have hSame : k a = k b := Except.ok.inj h
          simp only [Except.mapError, Except.map, hSame]

/-- A run that passes a test of its result has one. -/
theorem exists_of_any {p : α → Bool} (h : x.toOption.any p = true) : ∃ a, x = .ok a ∧ p a = true := by
  cases x with
  | error e => cases h
  | ok a => exact ⟨a, rfl, h⟩

theorem exists_of_isOk (h : x.isOk = true) : ∃ a, x = .ok a := by
  cases x with
  | error e => cases h
  | ok a => exact ⟨a, rfl⟩

theorem eq_ok_of_toOption {a : α} (h : x.toOption = some a) : x = .ok a := by
  cases x with
  | error e => cases h
  | ok a' => exact congrArg _ (Option.some.inj h)

/-- What went wrong, if anything did. -/
def fault? : Except ε α → Option ε
  | .error e => some e
  | .ok _ => none

theorem eq_error_of_fault? {e : ε} (h : fault? x = some e) : x = .error e := by
  cases x with
  | error e' => exact congrArg _ (Option.some.inj h)
  | ok a => cases h

theorem forall₂_of_mapM_ok (h : as.mapM f = .ok bs) : List.Forall₂ (fun a b => f a = .ok b) as bs := by
  induction as generalizing bs with
  | nil =>
      obtain rfl : [] = bs := Except.ok.inj h
      exact .nil
  | cons a rest ih =>
      rw [List.mapM_cons] at h
      obtain ⟨first, hFirst, h⟩ := exists_of_bind_ok h
      obtain ⟨others, hOthers, h⟩ := exists_of_bind_ok h
      obtain rfl : first :: others = bs := Except.ok.inj h
      exact .cons hFirst (ih hOthers)

theorem mapM_ok_of_forall₂ (h : List.Forall₂ (fun a b => f a = .ok b) as bs) : as.mapM f = .ok bs := by
  induction h with
  | nil => rfl
  | cons hOne _ ih =>
      rw [List.mapM_cons, hOne, ih]
      rfl

/-- A list is gone through with its numbers if each item gives its result under every number. -/
theorem mapM_zipIdx_ok {f : α × Nat → Except ε β} (h : List.Forall₂ (fun a b => ∀ i, f (a, i) = .ok b) as bs)
    (start : Nat) : (as.zipIdx start).mapM f = .ok bs := by
  induction h generalizing start with
  | nil => rfl
  | cons hOne _ ih =>
      rw [List.zipIdx_cons, List.mapM_cons, hOne, ih]
      rfl

theorem exists_left_of_forall₂ {R : α → β → Prop} (h : List.Forall₂ R as bs) (hMem : b ∈ bs) :
    ∃ a ∈ as, R a b := by
  induction h with
  | nil => cases hMem
  | cons hFirst _ ih =>
      rcases List.mem_cons.mp hMem with rfl | hMem
      · exact ⟨_, List.mem_cons_self, hFirst⟩
      · obtain ⟨a, hA, hRun⟩ := ih hMem
        exact ⟨a, List.mem_cons_of_mem _ hA, hRun⟩

theorem exists_of_mapM_ok (h : as.mapM f = .ok bs) (hMem : b ∈ bs) : ∃ a ∈ as, f a = .ok b :=
  exists_left_of_forall₂ (R := fun a b => f a = .ok b) (forall₂_of_mapM_ok h) hMem

theorem exists_mem_of_mapM_ok {a : α} (h : as.mapM f = .ok bs) (hMem : a ∈ as) : ∃ b ∈ bs, f a = .ok b :=
  exists_left_of_forall₂ (R := fun b a => f a = .ok b) (forall₂_of_mapM_ok h).flip hMem

theorem exists_mapM_ok (h : ∀ a ∈ as, (f a).isOk = true) : ∃ bs, as.mapM f = .ok bs := by
  induction as with
  | nil => exact ⟨[], rfl⟩
  | cons a rest ih =>
      obtain ⟨hFirst, hRest⟩ := List.forall_mem_cons.mp h
      obtain ⟨first, hFirst⟩ := exists_of_isOk hFirst
      obtain ⟨others, hOthers⟩ := ih hRest
      exact ⟨first :: others, by rw [List.mapM_cons, hFirst, hOthers]; rfl⟩

theorem exists_of_mapM_error {e : ε} (h : as.mapM f = .error e) : ∃ a ∈ as, f a = .error e := by
  induction as with
  | nil => cases h
  | cons a rest ih =>
      rw [List.mapM_cons] at h
      rcases cases_of_bind_error h with hFirst | ⟨_, -, h⟩
      · exact ⟨a, List.mem_cons_self, hFirst⟩
      rcases cases_of_bind_error h with hRest | ⟨_, -, h⟩
      · obtain ⟨a, hMem, hFails⟩ := ih hRest
        exact ⟨a, List.mem_cons_of_mem _ hMem, hFails⟩
      · cases h

/-- A list is gone through exactly if nothing goes wrong with any of its items. -/
theorem exists_mapM_ok_iff : (∃ bs, as.mapM f = .ok bs) ↔ ∀ a ∈ as, ∀ e, f a ≠ .error e := by
  constructor
  · rintro ⟨bs, h⟩ a hMem e hFails
    obtain ⟨b, -, hOk⟩ := exists_mem_of_mapM_ok h hMem
    cases hOk.symm.trans hFails
  · intro h
    refine exists_mapM_ok fun a hMem => ?_
    cases hRun : f a with
    | error e => exact absurd hRun (h a hMem e)
    | ok b => rfl

/-- A run that keeps some of the results keeps them in the order of the items. -/
theorem filterMapM_ok_iff {g : α → Except ε (Option β)} :
    as.filterMapM g = .ok bs ↔ ∃ os, List.Forall₂ (fun a o => g a = .ok o) as os ∧ os.reduceOption = bs := by
  induction as generalizing bs with
  | nil =>
      constructor
      · intro h
        exact ⟨[], .nil, Except.ok.inj h⟩
      · rintro ⟨_, ⟨⟩, rfl⟩
        rfl
  | cons a rest ih =>
      rw [List.filterMapM_cons]
      constructor
      · intro h
        obtain ⟨o, hFirst, h⟩ := exists_of_bind_ok h
        cases o with
        | none =>
            obtain ⟨os, hAll, rfl⟩ := ih.mp h
            exact ⟨none :: os, .cons hFirst hAll, List.reduceOption_cons_of_none os⟩
        | some b =>
            obtain ⟨others, hOthers, h⟩ := exists_of_bind_ok h
            obtain rfl : b :: others = bs := Except.ok.inj h
            obtain ⟨os, hAll, rfl⟩ := ih.mp hOthers
            exact ⟨some b :: os, .cons hFirst hAll, List.reduceOption_cons_of_some b os⟩
      · rintro ⟨_, hAll, rfl⟩
        cases hAll with
        | @cons _ o _ os hFirst hAll =>
            have hRest := ih.mpr ⟨os, hAll, rfl⟩
            cases o with
            | none => rw [bind_of_ok hFirst, List.reduceOption_cons_of_none, hRest]
            | some b =>
                rw [bind_of_ok hFirst, List.reduceOption_cons_of_some]
                dsimp only
                rw [hRest]
                rfl

theorem ok_of_forM_ok {g : α → Except ε Unit} (h : as.forM g = .ok ()) {a : α} (hMem : a ∈ as) :
    g a = .ok () := by
  induction as with
  | nil => cases hMem
  | cons first rest ih =>
      obtain ⟨_, hFirst, hRest⟩ := exists_of_bind_ok h
      rcases List.mem_cons.mp hMem with rfl | hMem
      · exact hFirst
      · exact ih hRest hMem

theorem exists_of_forM_error {g : α → Except ε Unit} {e : ε} (h : as.forM g = .error e) : ∃ a ∈ as, g a = .error e := by
  induction as with
  | nil => cases h
  | cons first rest ih =>
      rcases cases_of_bind_error h with hFirst | ⟨_, -, hRest⟩
      · exact ⟨first, List.mem_cons_self, hFirst⟩
      · obtain ⟨a, hMem, hFails⟩ := ih hRest
        exact ⟨a, List.mem_cons_of_mem _ hMem, hFails⟩

end Results

section SideBySide

variable {ε α β γ δ : Type} {R : α → β → Prop} {S : γ → δ → Prop} {x : Except ε α} {y : Except ε β}
  {f : α → Except ε γ} {g : β → Except ε δ}

/-- Whether two computations fail alike or come to results that belong together. -/
inductive Related (R : α → β → Prop) : Except ε α → Except ε β → Prop where
  | ok {a : α} {b : β} (h : R a b) : Related R (.ok a) (.ok b)
  | error (e : ε) : Related R (.error e) (.error e)

namespace Related

theorem bind (h : Related R x y) (hNext : ∀ a b, R a b → Related S (f a) (g b)) : Related S (x >>= f) (y >>= g) := by
  cases h with
  | ok h => exact hNext _ _ h
  | error e => exact .error e

/-- Two computations that begin in the same way are compared by how they go on. -/
theorem bind_same {g : α → Except ε δ} (hNext : ∀ a, x = .ok a → Related S (f a) (g a)) :
    Related S (x >>= f) (x >>= g) := by
  cases x with
  | error e => exact .error e
  | ok a => exact hNext a rfl

theorem map {k : α → γ} {k' : β → δ} (h : Related R x y) (hNext : ∀ a b, R a b → S (k a) (k' b)) :
    Related S (x.map k) (y.map k') := by
  cases h with
  | ok h => exact .ok (hNext _ _ h)
  | error e => exact .error e

theorem imp {R' : α → β → Prop} (h : Related R x y) (hImp : ∀ a b, R a b → R' a b) : Related R' x y := by
  cases h with
  | ok h => exact .ok (hImp _ _ h)
  | error e => exact .error e

theorem mapM {as : List α} {f : α → Except ε γ} {g : α → Except ε δ} (h : ∀ a ∈ as, Related S (f a) (g a)) :
    Related (List.Forall₂ S) (as.mapM f) (as.mapM g) := by
  induction as with
  | nil => exact .ok .nil
  | cons a rest ih =>
      obtain ⟨hFirst, hRest⟩ := List.forall_mem_cons.mp h
      rw [List.mapM_cons, List.mapM_cons]
      exact hFirst.bind fun _ _ hOne => (ih hRest).bind fun _ _ hOthers => .ok (.cons hOne hOthers)

end Related

/-- Lists whose items belong together in pairs still do so once both are put in the same order. -/
theorem forall₂_mergeSort {as : List α} {bs : List β} {le : α → α → Bool} {le' : β → β → Bool}
    (h : List.Forall₂ R as bs) (hOrder : ∀ a b c d, R a b → R c d → le a c = le' b d) :
    List.Forall₂ R (as.mergeSort le) (bs.mergeSort le') := by
  have hMem : ∀ z ∈ as.zip bs, R z.1 z.2 := fun z hMem => List.forall₂_zip h hMem
  have hLeft : ((as.zip bs).mergeSort fun z w => le z.1 w.1).map Prod.fst = as.mergeSort le := by
    rw [List.map_mergeSort (s := le) fun _ _ _ _ => rfl, List.map_fst_zip (Nat.le_of_eq h.length_eq)]
  have hRight : ((as.zip bs).mergeSort fun z w => le z.1 w.1).map Prod.snd = bs.mergeSort le' := by
    rw [List.map_mergeSort (s := le') fun z hZ w hW => hOrder _ _ _ _ (hMem z hZ) (hMem w hW),
      List.map_snd_zip (Nat.le_of_eq h.length_eq.symm)]
  rw [← hLeft, ← hRight, List.forall₂_map_left_iff, List.forall₂_map_right_iff, List.forall₂_same]
  exact fun z hZ => hMem z (List.mem_mergeSort.mp hZ)

end SideBySide

end Conform

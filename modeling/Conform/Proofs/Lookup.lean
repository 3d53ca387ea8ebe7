import Mathlib.Data.List.Nodup

/-! Lists that are searched by name. Where no name stands twice, what stands under a name is what is found. -/
namespace Conform

variable {κ α : Type} [BEq κ] [LawfulBEq κ] {entries : List (κ × α)} {k : κ} {v : α}

theorem mem_of_lookup (h : entries.lookup k = some v) : (k, v) ∈ entries := by
  obtain ⟨before, after, rfl, -⟩ := List.lookup_eq_some_iff.mp h
  simp

/-- What stands under a name is found if nothing else stands there. -/
theorem lookup_eq_of_unique (hMem : (k, v) ∈ entries) (hOnly : ∀ w, (k, w) ∈ entries → w = v) :
    entries.lookup k = some v := by
  cases hFound : entries.lookup k with
  | none =>
      have hAbsent := List.lookup_eq_none_iff.mp hFound (k, v) hMem
      simp at hAbsent
  | some w => rw [hOnly w (mem_of_lookup hFound)]

theorem lookup_of_mem (hDistinct : (entries.map Prod.fst).Nodup) (hMem : (k, v) ∈ entries) :
    entries.lookup k = some v := by
  apply lookup_eq_of_unique hMem
  intro w hOther
  exact congrArg Prod.snd (List.inj_on_of_nodup_map hDistinct hOther hMem rfl)

/-- Of entries under different names the order does not matter. -/
theorem lookup_eq_of_perm {entries' : List (κ × α)} (h : entries.Perm entries')
    (hNodup : (entries.map Prod.fst).Nodup) (k : κ) : entries.lookup k = entries'.lookup k := by
  cases hFound : entries.lookup k with
  | none =>
      refine (List.lookup_eq_none_iff.mpr fun e hMem => ?_).symm
      exact List.lookup_eq_none_iff.mp hFound e (h.mem_iff.mpr hMem)
  | some v =>
      have hMem : (k, v) ∈ entries' := h.mem_iff.mp (mem_of_lookup hFound)
      exact (lookup_of_mem ((h.map Prod.fst).nodup_iff.mp hNodup) hMem).symm

omit [LawfulBEq κ] in
theorem lookup_map {β : Type} (f : α → β) (entries : List (κ × α)) (k : κ) :
    (entries.map fun e => (e.1, f e.2)).lookup k = (entries.lookup k).map f := by
  induction entries with
  | nil => rfl
  | cons e rest ih =>
      obtain ⟨key, v⟩ := e
      rw [List.map_cons, List.lookup_cons, List.lookup_cons]
      cases k == key with
      | false => exact ih
      | true => rfl

/-- Of slots with different names, those that are empty being left out, each name has what its slot holds. -/
theorem lookup_slots {slots : List (κ × Option α)} (h : (slots.map Prod.fst).Nodup) (k : κ) :
    (slots.flatMap fun s => (s.2.map fun v => (s.1, v)).toList).lookup k = (slots.lookup k).join := by
  induction slots with
  | nil => rfl
  | cons s rest ih =>
      obtain ⟨hFresh, hRest⟩ := List.nodup_cons.mp h
      obtain ⟨name, held⟩ := s
      rw [List.flatMap_cons, List.lookup_append, ih hRest, List.lookup_cons]
      cases hName : k == name with
      | false =>
          cases held with
          | none => rfl
          | some v => simp [List.lookup_cons, hName]
      | true =>
          have hAbsent : rest.lookup k = none := List.lookup_eq_none_iff.mpr fun other hMem =>
            bne_iff_ne.mpr fun hSame => hFresh (List.mem_map.mpr ⟨other, hMem, hSame ▸ beq_iff_eq.mp hName⟩)
          rw [hAbsent]
          cases held with
          | none => rfl
          | some v => simp [List.lookup_cons, hName]

theorem lookup_filter_ne {k' : κ} (h : k' ≠ k) (entries : List (κ × α)) :
    (entries.filter (·.1 != k)).lookup k' = entries.lookup k' := by
  induction entries with
  | nil => rfl
  | cons e rest ih =>
      obtain ⟨key, value⟩ := e
      by_cases hKey : key = k
      · subst hKey
        rw [List.filter_cons_of_neg (by simp), List.lookup_cons, beq_eq_false_iff_ne.mpr h, ih]
      · rw [List.filter_cons_of_pos (by simpa using hKey), List.lookup_cons, List.lookup_cons, ih]

/-- Entries that are put before others hide those under the same names, whether these are taken out or not. -/
theorem lookup_append_filter (k : κ) (top under : List (κ × α)) :
    (top ++ under.filter fun e => !top.any (·.1 == e.1)).lookup k =
      (top.lookup k).or (under.lookup k) := by
  rw [List.lookup_append]
  cases hTop : top.lookup k with
  | some v => rfl
  | none =>
      rw [Option.none_or, Option.none_or]
      have hGone : top.any (·.1 == k) = false := by
        rw [List.any_eq_false]
        intro e he hKey
        have hOther := List.lookup_eq_none_iff.mp hTop e he
        rw [eq_of_beq hKey] at hOther
        simp at hOther
      induction under with
      | nil => rfl
      | cons e rest ih =>
          rw [List.filter_cons]
          by_cases hKey : k = e.1
          · subst hKey
            rw [hGone, Bool.not_false, if_pos rfl, List.lookup_cons_self, List.lookup_cons_self]
          · rw [List.lookup_cons, beq_eq_false_iff_ne.mpr hKey]
            split
            · rw [List.lookup_cons, beq_eq_false_iff_ne.mpr hKey]
              exact ih
            · exact ih

section Find

variable {name : α → κ} {xs : List α} {x : α} (h : (xs.map name).Nodup)

include h

theorem find?_of_mem (hMem : x ∈ xs) : xs.find? (name · == name x) = some x := by
  cases hFound : xs.find? (name · == name x) with
  | none => exact absurd BEq.rfl (List.find?_eq_none.mp hFound x hMem)
  | some y =>
      have hSame : name y = name x := by simpa using List.find?_some hFound
      rw [List.inj_on_of_nodup_map h (List.mem_of_find?_eq_some hFound) hMem hSame]

/-- Where no name stands twice, it makes no difference from which end a name is looked for. -/
theorem find?_reverse_of_nodup (k : κ) : xs.find? (name · == k) = xs.reverse.find? (name · == k) := by
  have hReverse : (xs.reverse.map name).Nodup := by rwa [List.map_reverse, List.nodup_reverse]
  by_cases hSome : ∃ x ∈ xs, name x = k
  · obtain ⟨x, hMem, rfl⟩ := hSome
    rw [find?_of_mem h hMem, find?_of_mem hReverse (List.mem_reverse.mpr hMem)]
  · have hNone : ∀ x ∈ xs, ¬(name x == k) = true := fun x hMem hSame => hSome ⟨x, hMem, beq_iff_eq.mp hSame⟩
    rw [List.find?_eq_none.mpr hNone, List.find?_eq_none.mpr fun x hMem => hNone x (List.mem_reverse.mp hMem)]

end Find

omit [LawfulBEq κ] in
/-- The first occurrence of a name is the only one that counts: those behind it are no longer new. -/
theorem eraseDups_filter_cons {isNew isNew' : κ → Bool} (h : isNew k = true)
    (hRest : ∀ l, isNew' l = (isNew l && !l == k)) (ks : List κ) :
    ((k :: ks).filter isNew).eraseDups = k :: (ks.filter isNew').eraseDups := by
  rw [List.filter_cons_of_pos h, List.eraseDups_cons, List.filter_filter]
  refine congrArg (k :: List.eraseDups ·) (List.filter_congr fun l _ => ?_)
  rw [hRest, Bool.and_comm]

end Conform

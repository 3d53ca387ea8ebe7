import Conform.Proofs.Path.Names

/-! Where paths start, and the way to a path from a directory. The way says how many steps up it takes and which
names come after them, so paths that are reached by one way have the same names. -/
namespace Conform.Path

variable {p q cwd start root : Text} {ns here there there' : List Text} {n : Text}

theorem isAbsolute_cons (c : Point) (rest : Text) : isAbsolute (c :: rest) = (Point.ofChar '/' == c) :=
  Bool.and_true _

theorem IsName.isAbsolute_append (h : IsName n) (rest : Text) : isAbsolute (n ++ rest) = false := by
  obtain ⟨c, tail, rfl⟩ := List.exists_cons_of_ne_nil h.ne_nil
  rw [List.cons_append, isAbsolute_cons]
  refine beq_eq_false_iff_ne.mpr ?_
  rintro rfl
  exact h.free _ List.mem_cons_self (by decide)

theorem IsName.isAbsolute (h : IsName n) : isAbsolute n = false := by
  simpa using h.isAbsolute_append []

theorem isAbsolute_join_slash (h : ∀ n ∈ ns, IsName n) : isAbsolute (Text.join "/" ns) = false := by
  cases ns with
  | nil => rfl
  | cons n rest =>
      have hFirst := h n List.mem_cons_self
      cases rest with
      | nil => exact hFirst.isAbsolute
      | cons next others =>
          have hJoin : Text.join "/" (n :: next :: others) = n ++ ("/" ++ Text.join "/" (next :: others)) :=
            List.append_assoc ..
          rw [hJoin]
          exact hFirst.isAbsolute_append _

/-- Whether a path starts at the root is told by its root alone. -/
theorem isAbsolute_ofNames (hRoot : root ∈ ([[], "/", "//"] : List Text)) (h : ∀ n ∈ ns, IsName n) :
    isAbsolute (ofNames root ns) = !root.isEmpty := by
  have hWhole : isAbsolute (root ++ Text.join "/" ns) = !root.isEmpty := by
    simp only [List.mem_cons, List.not_mem_nil, or_false] at hRoot
    rcases hRoot with rfl | rfl | rfl
    · exact isAbsolute_join_slash h
    · rfl
    · rfl
  unfold ofNames
  dsimp only
  split
  · next hEmpty =>
      rw [← hWhole, List.isEmpty_iff.mp hEmpty]
      rfl
  · exact hWhole

theorem isEmpty_rootOf (p : Text) : (!(rootOf p).isEmpty) = isAbsolute p := by
  unfold rootOf isAbsolute
  cases hOne : p.startsWith "/" with
  | true => cases p.startsWith "//" && !p.startsWith "///" <;> rfl
  | false =>
      have hTwo : p.startsWith "//" = false := by
        cases p with
        | nil => rfl
        | cons c rest =>
            have hFirst : (Point.ofChar '/' == c) = false := (isAbsolute_cons c rest).symm.trans hOne
            exact Bool.and_eq_false_imp.mpr fun hSame => absurd (hFirst.symm.trans hSame) Bool.false_ne_true
      rw [hTwo]
      rfl

theorem isAbsolute_tidy (p : Text) : isAbsolute (tidy p) = isAbsolute p :=
  (isAbsolute_ofNames (rootOf_mem p) fun _ => isName_of_mem).trans (isEmpty_rootOf p)

theorem names_tidy (p : Text) : names (tidy p) = names p :=
  names_ofNames (rootOf_mem p) fun _ => isName_of_mem

theorem isAbsolute_join (hRelative : isAbsolute q = false) : isAbsolute (join p q) = isAbsolute p := by
  unfold join
  rw [hRelative, if_neg Bool.false_ne_true]
  cases p with
  | nil => exact hRelative
  | cons c rest =>
      split
      · rw [List.cons_append, isAbsolute_cons, isAbsolute_cons]
      · rw [List.append_assoc, List.cons_append, isAbsolute_cons, isAbsolute_cons]

theorem isAbsolute_normal (p : Text) : isAbsolute (normal p) = isAbsolute p :=
  (isAbsolute_ofNames (rootOf_mem p) fun _ hMem => isName_of_mem (resolveUp_subset _ _ hMem)).trans (isEmpty_rootOf p)

/-- At the root all steps up are taken back. -/
theorem up_not_mem_resolveUp (ns : List Text) : up ∉ resolveUp true ns := by
  induction ns using List.reverseRecOn with
  | nil => exact List.not_mem_nil
  | append_singleton ns n ih =>
      unfold resolveUp at ih ⊢
      rw [List.foldl_append, List.foldl_cons, List.foldl_nil]
      generalize ns.foldl _ [] = before at ih ⊢
      split
      · next hName =>
          have hOther : n ≠ up := bne_iff_ne.mp hName
          simpa using ⟨ih, hOther.symm⟩
      · split
        · next last hLast =>
            split
            · next hSame =>
                obtain rfl : last = up := eq_of_beq hSame
                exact absurd (List.mem_of_getLast? hLast) ih
            · exact fun hMem => ih (List.mem_of_mem_dropLast hMem)
        · exact ih

theorem isAbsolute_absolute (hCwd : isAbsolute cwd = true) (p : Text) : isAbsolute (absolute cwd p) = true := by
  unfold absolute
  rw [isAbsolute_normal]
  split
  · assumption
  · next hRelative => rw [isAbsolute_join (Bool.eq_false_iff.mpr hRelative), hCwd]

theorem up_not_mem_absolute (hCwd : isAbsolute cwd = true) (p : Text) : up ∉ names (absolute cwd p) := by
  have hStart := isAbsolute_absolute hCwd p
  unfold absolute at hStart ⊢
  rw [isAbsolute_normal] at hStart
  rw [names_normal, hStart]
  exact up_not_mem_resolveUp _

/-- A path from the root is the same wherever it is read. -/
theorem names_absolute_of_isAbsolute (h : isAbsolute p = true) (hUp : up ∉ names p) :
    names (absolute cwd p) = names p := by
  unfold absolute
  rw [if_pos h, names_normal, resolveUp_of_not_mem _ hUp]

/-! ### Ways -/

theorem take_commonLength : there.take (commonLength here there) = here.take (commonLength here there) := by
  induction here generalizing there with
  | nil => rfl
  | cons a rest ih =>
      cases there with
      | nil => rfl
      | cons b others =>
          rw [commonLength]
          split
          · next hSame => rw [List.take_succ_cons, List.take_succ_cons, ih, eq_of_beq hSame]
          · rfl

theorem commonLength_le : commonLength here there ≤ here.length := by
  induction here generalizing there with
  | nil => exact Nat.le_refl 0
  | cons a rest ih =>
      cases there with
      | nil => exact Nat.zero_le _
      | cons b others =>
          rw [commonLength]
          split
          · exact Nat.succ_le_succ ih
          · exact Nat.zero_le _

/-- The way from some names to others: steps up to where they part, and the names from there on. -/
def way (here there : List Text) : List Text :=
  List.replicate (here.length - commonLength here there) up ++ there.drop (commonLength here there)

theorem not_mem_drop (hUp : up ∉ ns) (k : Nat) : up ∉ ns.drop k := fun hMem => hUp (List.mem_of_mem_drop hMem)

theorem count_way (hUp : up ∉ there) : (way here there).count up = here.length - commonLength here there := by
  rw [way, List.count_append, List.count_replicate_self, List.count_eq_zero.mpr (not_mem_drop hUp _), Nat.add_zero]

/-- Two ways are the same only if they lead to the same names. -/
theorem way_injective (hUp : up ∉ there) (hUp' : up ∉ there') (h : way here there = way here there') :
    there = there' := by
  have hSteps : here.length - commonLength here there = here.length - commonLength here there' := by
    rw [← count_way hUp, ← count_way hUp', h]
  have hShared : commonLength here there = commonLength here there' := by
    have hLess : commonLength here there ≤ here.length := commonLength_le
    have hLess' : commonLength here there' ≤ here.length := commonLength_le
    omega
  have hRest : there.drop (commonLength here there) = there'.drop (commonLength here there') := by
    rw [way, way, hSteps] at h
    exact List.append_cancel_left h
  have hStart : there.take (commonLength here there) = there'.take (commonLength here there') := by
    rw [take_commonLength, take_commonLength, hShared]
  rw [← List.take_append_drop (commonLength here there) there, hStart, hRest, List.take_append_drop]

theorem isName_up : IsName up where
  ne_nil := by decide
  ne_here := by decide
  free c hMem := by
    have hAll : up.all (·.char != '/') = true := by decide
    exact bne_iff_ne.mp (List.all_eq_true.mp hAll c hMem)

/-- The steps of a way stay as they are when it is normalised. -/
theorem names_normal_relative (hUp : up ∉ names (absolute cwd p)) :
    names (normal (relative cwd p start)) = way (names (absolute cwd start)) (names (absolute cwd p)) := by
  let here := names (absolute cwd start)
  let there := names (absolute cwd p)
  have hNames : ∀ n ∈ way here there, IsName n := by
    intro n hMem
    rcases List.mem_append.mp hMem with hStep | hName
    · rw [List.eq_of_mem_replicate hStep]
      exact isName_up
    · exact isName_of_mem (List.mem_of_mem_drop hName)
  have hWay : names (relative cwd p start) = way here there := names_ofNames List.mem_cons_self hNames
  have hStart : isAbsolute (relative cwd p start) = false := isAbsolute_ofNames List.mem_cons_self hNames
  rw [names_normal, hWay, hStart, way, resolveUp_append (not_mem_drop hUp _), resolveUp_replicate]

/-- Paths with one way to them have the same names. -/
theorem names_eq_of_relative_eq (hUp : up ∉ names (absolute cwd p)) (hUp' : up ∉ names (absolute cwd q))
    (h : normal (relative cwd p start) = normal (relative cwd q start)) :
    names (absolute cwd p) = names (absolute cwd q) := by
  apply way_injective hUp hUp'
  rw [← names_normal_relative hUp, ← names_normal_relative hUp', h]

end Conform.Path

import Conform.Proofs.Path

/-! The names in a path. A path is the same as its names once it is known where it starts: joining paths
puts their names one after the other, and normalising one only takes names back before steps up. So
whether one path lies in another is a matter of one list of names being the beginning of the other. -/
namespace Conform

namespace Path

variable {p q cwd : Text} {ns : List Text} {n : Text}

/-- Whether a part of a path names something. -/
def isNamed (part : Text) : Bool := !part.isEmpty && part != Text.ofString "."

/-- Whether a text can stand as a name in a path. -/
structure IsName (n : Text) : Prop where
  ne_nil : n ≠ []
  ne_here : n ≠ Text.ofString "."
  free : ∀ c ∈ n, c.char ≠ '/'

/-- The step to the directory above. -/
def up : Text := ".."

theorem names_eq (p : Text) : names p = (Text.splitOn '/' p).filter isNamed := rfl

theorem isName_of_mem (h : n ∈ names p) : IsName n := by
  obtain ⟨hPiece, hNamed⟩ := List.mem_filter.mp h
  obtain ⟨hNil, hHere⟩ : n ≠ [] ∧ n ≠ Text.ofString "." := by simpa using hNamed
  exact ⟨hNil, hHere, Text.free_of_mem_splitOn hPiece⟩

theorem splitOn_append_slash (p q : Text) :
    Text.splitOn '/' (p ++ "/" ++ q) = Text.splitOn '/' p ++ Text.splitOn '/' q := by
  rw [show p ++ "/" ++ q = p ++ Point.ofChar '/' :: q from List.append_assoc p _ q]
  exact Text.splitOn_append (by decide) p q

theorem names_append_slash (p q : Text) : names (p ++ "/" ++ q) = names p ++ names q := by
  rw [names_eq, splitOn_append_slash, List.filter_append, names_eq, names_eq]

theorem names_slash (q : Text) : names ("/" ++ q) = names q := names_append_slash [] q

theorem names_ended (p : Text) : names (p ++ "/") = names p := by
  have hNames := names_append_slash p []
  rwa [List.append_nil, show names [] = [] from rfl, List.append_nil] at hNames

theorem isNamed_of_isName (h : IsName n) : isNamed n = true := by
  simp [isNamed, h.ne_nil, h.ne_here]

theorem names_of_isName (h : IsName n) : names n = [n] := by
  rw [names_eq, Text.splitOn_of_free h.free]
  exact List.filter_cons_of_pos (isNamed_of_isName h)

/-- What was joined by slashes is cut at them again. -/
theorem splitOn_join_slash (h : ∀ n ∈ ns, IsName n) (hSome : ns ≠ []) :
    Text.splitOn '/' (Text.join "/" ns) = ns := by
  induction ns with
  | nil => exact absurd rfl hSome
  | cons n rest ih =>
      obtain ⟨hName, hRest⟩ := List.forall_mem_cons.mp h
      cases rest with
      | nil => exact Text.splitOn_of_free hName.free
      | cons next others =>
          have hJoin : Text.join "/" (n :: next :: others) =
              n ++ Point.ofChar '/' :: Text.join "/" (next :: others) := List.append_assoc n _ _
          rw [hJoin, Text.splitOn_append (by decide), Text.splitOn_of_free hName.free, ih hRest (List.cons_ne_nil _ _)]
          rfl

theorem names_join_slash (h : ∀ n ∈ ns, IsName n) : names (Text.join "/" ns) = ns := by
  cases ns with
  | nil => decide
  | cons n rest =>
      rw [names_eq, splitOn_join_slash h (List.cons_ne_nil _ _)]
      exact List.filter_eq_self.mpr fun m hMem => isNamed_of_isName (h m hMem)

theorem names_ofNames {root : Text} (hRoot : root ∈ ([[], "/", "//"] : List Text)) (h : ∀ n ∈ ns, IsName n) :
    names (ofNames root ns) = ns := by
  have hWhole : names (root ++ Text.join "/" ns) = ns := by
    simp only [List.mem_cons, List.not_mem_nil, or_false] at hRoot
    rcases hRoot with rfl | rfl | rfl
    · exact names_join_slash h
    · exact (names_slash _).trans (names_join_slash h)
    · exact (names_slash _).trans ((names_slash _).trans (names_join_slash h))
  unfold ofNames
  dsimp only
  split
  · -- Without a root and without names the path is written as a dot.
    next hEmpty =>
      rw [List.isEmpty_iff.mp hEmpty] at hWhole
      rw [← hWhole]
      decide
  · exact hWhole

/-- Names without steps up take nothing back of what stands before them. -/
theorem resolveUp_append {absolute : Bool} {before : List Text} (h : up ∉ ns) :
    resolveUp absolute (before ++ ns) = resolveUp absolute before ++ ns := by
  induction ns using List.reverseRecOn with
  | nil => rw [List.append_nil, List.append_nil]
  | append_singleton ns n ih =>
      obtain ⟨hRest, hHere⟩ : up ∉ ns ∧ up ≠ n := by simpa using h
      have hName : (n != Text.ofString "..") = true := bne_iff_ne.mpr (Ne.symm hHere)
      rw [← List.append_assoc, ← List.append_assoc, ← ih hRest]
      unfold resolveUp
      rw [List.foldl_append, List.foldl_cons, List.foldl_nil, if_pos hName]

/-- Where there are no steps up there is nothing to take back. -/
theorem resolveUp_of_not_mem (absolute : Bool) (h : up ∉ ns) : resolveUp absolute ns = ns :=
  @resolveUp_append ns absolute [] h

/-- Steps up from where nothing is known to stand before them are kept. -/
theorem resolveUp_replicate (steps : Nat) : resolveUp false (List.replicate steps up) = List.replicate steps up := by
  induction steps with
  | zero => rfl
  | succ steps ih =>
      rw [List.replicate_succ']
      unfold resolveUp at ih ⊢
      rw [List.foldl_append, ih, List.foldl_cons, List.foldl_nil]
      cases steps with
      | zero => rfl
      | succ steps =>
          rw [List.getLast?_replicate]
          rfl

theorem names_normal (p : Text) : names (normal p) = resolveUp (isAbsolute p) (names p) :=
  names_ofNames (rootOf_mem p) fun _ hMem => isName_of_mem (resolveUp_subset _ _ hMem)

/-- A path read in a directory has the names of the directory before its own. -/
theorem names_join (hRelative : isAbsolute q = false) : names (join p q) = names p ++ names q := by
  unfold join
  rw [hRelative, if_neg (by simp)]
  split
  · next hEnd =>
      rcases (Bool.or_eq_true _ _).mp hEnd with hEmpty | hSlash
      · rw [List.isEmpty_iff.mp hEmpty]
        rfl
      · obtain ⟨front, rfl⟩ := List.isSuffixOf_iff_suffix.mp hSlash
        calc names (front ++ "/" ++ q) = names front ++ names q := names_append_slash front q
          _ = names (front ++ "/") ++ names q := by rw [names_ended]
  · exact names_append_slash p q

/-- The names from the root to what a path names, if it and the directory it is read in have no steps up. -/
theorem names_absolute (hCwd : up ∉ names cwd) (hPath : up ∉ names p) :
    names (absolute cwd p) = if isAbsolute p then names p else names cwd ++ names p := by
  unfold absolute
  rw [names_normal]
  cases hAbsolute : isAbsolute p with
  | true => exact resolveUp_of_not_mem _ hPath
  | false =>
      have hNames : names (join cwd p) = names cwd ++ names p := names_join hAbsolute
      simp only [Bool.false_eq_true, if_false]
      rw [hNames]
      exact resolveUp_of_not_mem _ fun hMem => (List.mem_append.mp hMem).elim hCwd hPath

theorem up_not_mem_names_absolute (hCwd : up ∉ names cwd) (hPath : up ∉ names p) : up ∉ names (absolute cwd p) := by
  rw [names_absolute hCwd hPath]
  split
  · exact hPath
  · exact fun hMem => (List.mem_append.mp hMem).elim hCwd hPath

theorem up_not_mem_names (h : ¬ HasDots p) : up ∉ names p := fun hMem =>
  h (Text.infix_of_mem_splitOn (List.mem_filter.mp hMem).1)

theorem prefix_of_length_le_commonLength {a b : List Text} (h : a.length ≤ commonLength a b) : a <+: b := by
  induction a generalizing b with
  | nil => exact List.nil_prefix
  | cons n a ih =>
      cases b with
      | nil => simp [commonLength] at h
      | cons m b =>
          rw [commonLength] at h
          split at h
          · next hSame =>
              rw [List.length_cons, Nat.succ_le_succ_iff] at h
              exact List.cons_prefix_cons.mpr ⟨eq_of_beq hSame, ih h⟩
          · simp at h

/-- A path that lies in another one has the names of that one and then its own. -/
theorem prefix_of_isWithin {child parent : Text} (h : isWithin cwd child parent = true) :
    names (absolute cwd parent) <+: names (absolute cwd child) := by
  refine prefix_of_length_le_commonLength (Nat.le_of_not_lt fun hLess => ?_)
  -- Otherwise the way from the one to the other begins with a step up.
  unfold isWithin relative at h
  dsimp only at h
  obtain ⟨steps, hSteps⟩ := Nat.exists_eq_add_of_lt hLess
  have hCount : (names (absolute cwd parent)).length -
      commonLength (names (absolute cwd parent)) (names (absolute cwd child)) = steps + 1 := by omega
  rw [hCount, List.replicate_succ, List.cons_append] at h
  have hStart : ∀ rest, Text.startsWith (ofNames [] (Text.ofString ".." :: rest)) ".." = true := by
    intro rest
    cases rest <;> rfl
  rw [hStart] at h
  cases h

end Path
end Conform

import Conform.Proofs.Path.Location
import Mathlib.Data.List.DropRight

/-! Paths that lie in a directory. The one test compares texts with a slash put behind them, the other looks at how
the way from the directory to the path begins; both come down to the names of the directory being the first of those
of the path. The second test takes names that begin with two dots for steps up. -/
namespace Conform.Path

variable {p cwd root target : Text} {here there ns ms : List Text}

/-- A path from the root in its normal form, with one slash in front. -/
structure IsPlain (p : Text) : Prop where
  normal_eq : normal p = p
  rootOf_eq : rootOf p = Text.ofString "/"

theorem join_slash_append (hFirst : ns ≠ []) (hSecond : ms ≠ []) :
    Text.join "/" (ns ++ ms) = Text.join "/" ns ++ "/" ++ Text.join "/" ms := by
  induction ns with
  | nil => exact absurd rfl hFirst
  | cons n rest ih =>
      cases rest with
      | nil =>
          obtain ⟨m, others, rfl⟩ := List.exists_cons_of_ne_nil hSecond
          rfl
      | cons next others =>
          have hJoin : ∀ more : List Text, Text.join "/" (n :: next :: more) =
              n ++ "/" ++ Text.join "/" (next :: more) := fun _ => rfl
          rw [List.cons_append, List.cons_append, hJoin, ← List.cons_append, ih (List.cons_ne_nil _ _), hJoin]
          simp only [List.append_assoc]

/-! ### Texts with a slash behind them -/

theorem names_append_slashes {slashes : Text} (h : ∀ c ∈ slashes, c.char = '/') (p : Text) :
    names (p ++ slashes) = names p := by
  induction slashes using List.reverseRecOn with
  | nil => rw [List.append_nil]
  | append_singleton slashes c ih =>
      obtain ⟨hRest, hLast⟩ : (∀ d ∈ slashes, d.char = '/') ∧ c.char = '/' := by
        simpa [or_imp, forall_and] using h
      rw [← List.append_assoc, Point.eq_ofChar hLast (by decide), ← ih hRest]
      exact names_ended (p ++ slashes)

/-- A path without the slashes at its end, and these slashes. -/
theorem exists_slashes (p : Text) :
    ∃ slashes, p = Text.dropEndWhile (·.char == '/') p ++ slashes ∧ ∀ c ∈ slashes, c.char = '/' := by
  refine ⟨p.rtakeWhile (·.char == '/'), List.rdropWhile_append_rtakeWhile.symm, fun c hMem => ?_⟩
  have hSlash : (c.char == '/') = true := List.mem_rtakeWhile_imp (p := fun c : Point => c.char == '/') hMem
  exact beq_iff_eq.mp hSlash

theorem names_dropEndWhile (p : Text) : names (Text.dropEndWhile (·.char == '/') p) = names p := by
  obtain ⟨slashes, hParts, hSlashes⟩ := exists_slashes p
  rw [← names_append_slashes hSlashes, ← hParts]

/-- Whatever the two paths are, one that begins with the other and a slash has its names first. -/
theorem names_prefix_of_startsWith
    (h : Text.startsWith (target ++ "/") (Text.dropEndWhile (·.char == '/') root ++ "/") = true) :
    names root <+: names target := by
  obtain ⟨rest, hRest⟩ := List.isPrefixOf_iff_prefix.mp h
  have hNames := congrArg names hRest
  rw [names_append_slash, names_dropEndWhile, names_ended] at hNames
  exact ⟨names rest, hNames⟩

theorem dropEndWhile_isPrefix (p : Text) : Text.dropEndWhile (·.char == '/') p ++ "/" <+: p ++ "/" := by
  obtain ⟨slashes, hParts, hSlashes⟩ := exists_slashes p
  conv_rhs => rw [hParts, List.append_assoc]
  refine (List.prefix_append_right_inj _).mpr ?_
  cases slashes with
  | nil => exact List.prefix_rfl
  | cons c rest =>
      rw [Point.eq_ofChar (hSlashes c List.mem_cons_self) (by decide)]
      exact List.prefix_append _ _

namespace IsPlain

theorem eq_join (h : IsPlain p) : p = "/" ++ Text.join "/" (names p) := by
  have hNormal := Path.normal_eq p
  rw [h.normal_eq, h.rootOf_eq] at hNormal
  exact hNormal

theorem isAbsolute_eq (h : IsPlain p) : isAbsolute p = true := by
  rw [← isEmpty_rootOf, h.rootOf_eq]
  rfl

theorem absolute_eq (h : IsPlain p) (cwd : Text) : absolute cwd p = p := by
  rw [absolute, if_pos h.isAbsolute_eq, h.normal_eq]

theorem tidy_eq (h : IsPlain p) : tidy p = p := by
  have hNormal := Path.normal_eq p
  rw [h.normal_eq] at hNormal
  exact hNormal.symm

/-- The text of a path begins with that of a directory whose names are the first of its own. -/
theorem startsWith (hRoot : IsPlain root) (hTarget : IsPlain target) (h : names root <+: names target) :
    Text.startsWith (target ++ "/") (Text.dropEndWhile (·.char == '/') root ++ "/") = true := by
  obtain ⟨rest, hRest⟩ := h
  refine List.isPrefixOf_iff_prefix.mpr ?_
  by_cases hTop : names root = []
  · -- The root itself is a slash, and nothing but the slash behind it is left.
    rw [hRoot.eq_join, hTop, hTarget.eq_join, List.append_assoc]
    exact List.prefix_append _ _
  · refine (dropEndWhile_isPrefix root).trans ?_
    rw [hRoot.eq_join, hTarget.eq_join, ← hRest]
    by_cases hSame : rest = []
    · rw [hSame, List.append_nil]
    · rw [join_slash_append hTop hSame]
      exact ⟨Text.join "/" rest ++ "/", by simp only [List.append_assoc]⟩

/-- The target comes back exactly if the names of the root are the first of its own. -/
theorem ensureWithin_eq (hRoot : IsPlain root) (hTarget : IsPlain target) (cwd : Text) : ensureWithin cwd root target =
    if names root <+: names target then .ok target else .error (.escapesRoot target root) := by
  rw [ensureWithin, hRoot.absolute_eq, hTarget.absolute_eq, hTarget.tidy_eq]
  by_cases hNames : names root <+: names target
  · rw [if_pos (hRoot.startsWith hTarget hNames), if_pos hNames]
  · rw [if_neg fun hStart => hNames (names_prefix_of_startsWith hStart), if_neg hNames]

end IsPlain

/-- Whatever the two paths are, the target has the names of the root first if it comes back. -/
theorem names_prefix_of_ensureWithin {q : Text} (h : ensureWithin cwd root target = .ok q) :
    names (absolute cwd root) <+: names (absolute cwd target) := by
  rw [ensureWithin] at h
  split at h
  · next hStart => exact names_prefix_of_startsWith hStart
  · cases h

/-! ### Ways that begin with a step up -/

theorem commonLength_of_prefix (h : here <+: there) : commonLength here there = here.length := by
  induction here generalizing there with
  | nil => rfl
  | cons n rest ih =>
      obtain ⟨more, rfl⟩ := h
      rw [List.cons_append, commonLength, BEq.rfl, if_pos rfl, ih (List.prefix_append _ _)]
      rfl

/-- What begins with two dots does so by its first name. -/
theorem startsWith_ofNames (h : ∀ n ∈ ns, IsName n) (hDots : ∀ n ∈ ns, Text.startsWith n ".." = false) :
    Text.startsWith (ofNames [] ns) ".." = false := by
  have hFree : Point.ofChar '/' ∉ Text.ofString ".." := by decide
  cases ns with
  | nil => rfl
  | cons n rest =>
      have hFirst : ¬ Text.ofString ".." <+: n := fun hPrefix => by
        have hStart := hDots n List.mem_cons_self
        rw [Text.startsWith, List.isPrefixOf_iff_prefix.mpr hPrefix] at hStart
        cases hStart
      have hWhole : ofNames [] (n :: rest) = Text.join "/" (n :: rest) := by
        obtain ⟨c, tail, rfl⟩ := List.exists_cons_of_ne_nil (h n List.mem_cons_self).ne_nil
        cases rest <;> rfl
      rw [hWhole]
      refine Bool.eq_false_iff.mpr fun hStart => hFirst ?_
      have hPrefix := List.isPrefixOf_iff_prefix.mp hStart
      cases rest with
      | nil => exact hPrefix
      | cons next others =>
          have hJoin : Text.join "/" (n :: next :: others) =
              n ++ Point.ofChar '/' :: Text.join "/" (next :: others) := List.append_assoc n _ _
          rw [hJoin] at hPrefix
          exact Text.prefix_of_prefix_append hFree hPrefix

/-- A path whose own names do not begin with two dots is in every directory whose names are its first. -/
theorem isWithin_of_prefix (h : names (absolute cwd root) <+: names (absolute cwd target))
    (hDots : ∀ n ∈ names (absolute cwd target), Text.startsWith n ".." = false) : isWithin cwd target root = true := by
  rw [isWithin, relative, commonLength_of_prefix h, Nat.sub_self, List.replicate_zero, List.nil_append,
    startsWith_ofNames (fun n hMem => isName_of_mem (List.mem_of_mem_drop hMem))
      fun n hMem => hDots n (List.mem_of_mem_drop hMem)]
  rfl

/-! ### Directories above a path -/

/-- What is put together of names ends in the last of them. -/
theorem exists_join_concat (h : ∀ n ∈ ns, IsName n) (hSome : ns ≠ []) :
    ∃ t c, Text.join "/" ns = t ++ [c] ∧ c.char ≠ '/' := by
  obtain ⟨before, n, rfl⟩ := (List.eq_nil_or_concat' ns).resolve_left hSome
  have hName := h n (by simp)
  obtain ⟨start, c, rfl⟩ := (List.eq_nil_or_concat' n).resolve_left hName.ne_nil
  have hOther := hName.free c (by simp)
  cases before with
  | nil => exact ⟨start, c, rfl, hOther⟩
  | cons first rest =>
      refine ⟨Text.join "/" (first :: rest) ++ "/" ++ start, c, ?_, hOther⟩
      rw [join_slash_append (List.cons_ne_nil _ _) (List.cons_ne_nil _ _), List.append_assoc _ start]
      rfl

theorem ofNames_eq (hRoot : root ∈ (["/", "//"] : List Text)) (ns : List Text) :
    ofNames root ns = root ++ Text.join "/" ns := by
  simp only [List.mem_cons, List.not_mem_nil, or_false] at hRoot
  rcases hRoot with rfl | rfl <;> rfl

theorem ofNames_relative (h : ∀ n ∈ ns, IsName n) (hSome : ns ≠ []) : ofNames [] ns = Text.join "/" ns := by
  obtain ⟨t, c, hJoin, -⟩ := exists_join_concat h hSome
  rw [ofNames, List.nil_append, hJoin, if_neg (by simp)]

/-- A way put behind the path of a directory. -/
theorem join_ofNames (hRoot : root ∈ (["/", "//"] : List Text)) (hMs : ∀ n ∈ ms, IsName n) (hNs : ∀ n ∈ ns, IsName n)
    (hSome : ns ≠ []) : join (ofNames root ms) (ofNames [] ns) = ofNames root (ms ++ ns) := by
  rw [join, ofNames_relative hNs hSome, isAbsolute_join_slash hNs, if_neg Bool.false_ne_true, ofNames_eq hRoot,
    ofNames_eq hRoot]
  by_cases hTop : ms = []
  · subst hTop
    have hEnds : (root ++ Text.join "/" []).endsWith "/" = true := by
      simp only [List.mem_cons, List.not_mem_nil, or_false] at hRoot
      rcases hRoot with rfl | rfl <;> rfl
    rw [hEnds, Bool.or_true, if_pos rfl, List.nil_append]
    exact congrArg (· ++ _) (List.append_nil root)
  · obtain ⟨t, c, hJoin, hOther⟩ := exists_join_concat hMs hTop
    have hEnds : (root ++ Text.join "/" ms).endsWith "/" = false := by
      refine Bool.eq_false_iff.mpr fun hEnds => ?_
      rw [hJoin, ← List.append_assoc] at hEnds
      obtain ⟨front, hLast⟩ := List.isSuffixOf_iff_suffix.mp hEnds
      obtain rfl : Point.ofChar '/' = c := List.cons.inj (List.append_inj' hLast rfl).2 |>.1
      exact hOther rfl
    have hFilled : (root ++ Text.join "/" ms).isEmpty = false := by simp [hJoin]
    rw [hEnds, hFilled, Bool.or_false, if_neg Bool.false_ne_true, join_slash_append hTop hSome]
    simp only [List.append_assoc]

/-- The path of what is under a name without the name. -/
theorem parent_ofNames {n : Text} (hRoot : root ∈ (["/", "//"] : List Text)) (h : ∀ m ∈ ms ++ [n], IsName m) :
    parent (ofNames root (ms ++ [n])) = ofNames root ms := by
  have hMs : ∀ m ∈ ms, IsName m := fun m hMem => h m (List.mem_append_left _ hMem)
  have hCut : ∀ head : Text, Text.cutLast? '/' (head ++ Point.ofChar '/' :: n) = some (head, n) := fun head => by
    rw [Text.cutLast?_append (by decide), Text.cutLast?_of_free (h n (by simp)).free]
    rfl
  rw [ofNames_eq hRoot, ofNames_eq hRoot]
  by_cases hTop : ms = []
  · subst hTop
    simp only [List.mem_cons, List.not_mem_nil, or_false] at hRoot
    rcases hRoot with rfl | rfl
    · rw [parent, show Text.ofString "/" ++ Text.join "/" ([] ++ [n]) = [] ++ Point.ofChar '/' :: n from rfl, hCut]
      rfl
    · rw [parent, show Text.ofString "//" ++ Text.join "/" ([] ++ [n]) = "/" ++ Point.ofChar '/' :: n from rfl, hCut]
      rfl
  · obtain ⟨t, c, hJoin, hOther⟩ := exists_join_concat hMs hTop
    have hWhole : root ++ Text.join "/" (ms ++ [n]) = (root ++ Text.join "/" ms) ++ Point.ofChar '/' :: n := by
      rw [join_slash_append hTop (List.cons_ne_nil _ _), List.append_assoc, List.append_assoc]
      rfl
    have hNotAll : (root ++ Text.join "/" ms ++ "/").all (·.char == '/') = false := by
      rw [List.all_eq_false]
      exact ⟨c, by simp [hJoin], by simpa using hOther⟩
    rw [parent, hWhole, hCut]
    dsimp only
    rw [hNotAll, if_neg Bool.false_ne_true, hJoin, ← List.append_assoc]
    have hDropped : List.rdropWhile (·.char == '/') (root ++ t ++ [c] ++ [Point.ofChar '/']) = root ++ t ++ [c] := by
      rw [List.rdropWhile_concat_pos _ _ _ (by decide), List.rdropWhile_concat_neg _ _ _ (by simpa using hOther)]
    exact hDropped

theorem parent_root (hRoot : root ∈ (["/", "//"] : List Text)) : parent root = root := by
  simp only [List.mem_cons, List.not_mem_nil, or_false] at hRoot
  rcases hRoot with rfl | rfl <;> decide

end Conform.Path

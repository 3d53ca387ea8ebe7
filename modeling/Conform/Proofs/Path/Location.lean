import Conform.Proofs.Path.Relative

/-! Where paths lead. A path is followed part by part, one step up for each `..` and one step down for each name, and
the names from the root of a path are those of the place to which it is followed from the directory it is read in.
Normalising a path takes a name and the step up behind it away together, so it leads to the same place as before. -/
namespace Conform.Path

variable {p q cwd root : Text} {here ns parts : List Text} {n part : Text}

/-- One part of a path, from the place to which the parts before it have led. -/
def step (here : List Text) (part : Text) : List Text :=
  if isNamed part then if part == up then here.dropLast else here ++ [part] else here

/-- Where some parts of a path lead from a place, one after the other. -/
def follow (here parts : List Text) : List Text := parts.foldl step here

/-- Where a path leads when it is read in a directory, by the names from the root. -/
def location (cwd p : Text) : List Text :=
  follow (if isAbsolute p then [] else follow [] (Text.splitOn '/' cwd)) (Text.splitOn '/' p)

theorem follow_append (here parts rest : List Text) : follow here (parts ++ rest) = follow (follow here parts) rest :=
  List.foldl_append

theorem follow_concat (here parts : List Text) (part : Text) :
    follow here (parts ++ [part]) = step (follow here parts) part := follow_append here parts [part]

/-- Parts that name nothing lead nowhere else. -/
theorem follow_filter (here parts : List Text) : follow here (parts.filter isNamed) = follow here parts := by
  induction parts using List.reverseRecOn with
  | nil => rfl
  | append_singleton parts part ih =>
      rw [List.filter_append, follow_append, ih, follow_concat]
      cases hNamed : isNamed part with
      | true => rw [List.filter_cons_of_pos hNamed]; rfl
      | false =>
          rw [List.filter_cons_of_neg (by simp [hNamed]), step, if_neg (by simp [hNamed])]
          rfl

theorem follow_names (here : List Text) (p : Text) : follow here (names p) = follow here (Text.splitOn '/' p) :=
  follow_filter here _

theorem up_not_mem_step (h : up ∉ here) (part : Text) : up ∉ step here part := by
  unfold step
  split
  · split
    · exact fun hMem => h (List.mem_of_mem_dropLast hMem)
    · next hOther =>
        have hNe : part ≠ up := by simpa using hOther
        simpa using ⟨h, hNe.symm⟩
  · exact h

theorem up_not_mem_follow (h : up ∉ here) (parts : List Text) : up ∉ follow here parts := by
  induction parts using List.reverseRecOn with
  | nil => exact h
  | append_singleton parts part ih =>
      rw [follow_concat]
      exact up_not_mem_step ih part

/-! ### Names that are taken back -/

theorem resolveUp_concat_name (absolute : Bool) (ns : List Text) (h : n ≠ up) :
    resolveUp absolute (ns ++ [n]) = resolveUp absolute ns ++ [n] :=
  resolveUp_append (by simpa using h.symm)

theorem resolveUp_concat_up (absolute : Bool) (ns : List Text) : resolveUp absolute (ns ++ [up]) =
    match (resolveUp absolute ns).getLast? with
    | some last => if last == up then resolveUp absolute ns ++ [up] else (resolveUp absolute ns).dropLast
    | none => if absolute then resolveUp absolute ns else [up] := by
  have hUp : (up != Text.ofString "..") = false := by decide
  rw [resolveUp, List.foldl_append, List.foldl_cons, List.foldl_nil, hUp, if_neg Bool.false_ne_true]
  rfl

/-- At the root, taking names back is following them. -/
theorem resolveUp_eq_follow (h : ∀ n ∈ ns, isNamed n = true) : resolveUp true ns = follow [] ns := by
  induction ns using List.reverseRecOn with
  | nil => rfl
  | append_singleton ns n ih =>
      obtain ⟨hRest, hNamed⟩ : (∀ m ∈ ns, isNamed m = true) ∧ isNamed n = true := by
        simpa [or_imp, forall_and] using h
      rw [follow_concat, ← ih hRest, step, if_pos hNamed]
      by_cases hStep : n = up
      · rw [hStep, BEq.rfl, if_pos rfl, resolveUp_concat_up]
        cases hLast : (resolveUp true ns).getLast? with
        | none =>
            rw [List.getLast?_eq_none_iff.mp hLast]
            rfl
        | some last =>
            have hOther : last ≠ up := fun hSame => up_not_mem_resolveUp ns (hSame ▸ List.mem_of_getLast? hLast)
            exact if_neg (by simpa using hOther)
      · rw [resolveUp_concat_name true ns hStep, beq_eq_false_iff_ne.mpr hStep, if_neg Bool.false_ne_true]

/-- A name and the step up behind it lead back to where they started. -/
theorem follow_resolveUp (h : ∀ n ∈ ns, isNamed n = true) : follow here (resolveUp false ns) = follow here ns := by
  induction ns using List.reverseRecOn with
  | nil => rfl
  | append_singleton ns n ih =>
      have hRest : ∀ m ∈ ns, isNamed m = true := fun m hMem => h m (List.mem_append_left _ hMem)
      rw [follow_concat, ← ih hRest]
      by_cases hStep : n = up
      · rw [hStep, resolveUp_concat_up]
        split
        · next last hLast =>
            split
            · exact follow_concat here _ up
            · next hOther =>
                -- The last name is taken back: with it, the step up would come back to where it started.
                obtain ⟨front, hFront⟩ := List.getLast?_eq_some_iff.mp hLast
                have hLastNamed : isNamed last = true :=
                  hRest last (resolveUp_subset false ns (List.mem_of_getLast? hLast))
                have hDown : step (follow here front) last = follow here front ++ [last] := by
                  rw [step, if_pos hLastNamed, if_neg hOther]
                rw [hFront, List.dropLast_concat, follow_concat, hDown]
                exact (List.dropLast_concat).symm
        · next hNone =>
            rw [List.getLast?_eq_none_iff.mp hNone]
            rfl
      · rw [resolveUp_concat_name false ns hStep, follow_concat]

/-- Without steps up a path leads on from where it starts. -/
theorem follow_of_not_mem (h : up ∉ parts) : follow here parts = here ++ parts.filter isNamed := by
  induction parts using List.reverseRecOn with
  | nil => exact (List.append_nil here).symm
  | append_singleton parts part ih =>
      obtain ⟨hRest, hOther⟩ : up ∉ parts ∧ up ≠ part := by simpa using h
      rw [follow_concat, ih hRest, List.filter_append, ← List.append_assoc, step, beq_eq_false_iff_ne.mpr hOther.symm]
      cases hNamed : isNamed part with
      | true => simp [hNamed]
      | false => simp [hNamed]

/-! ### Places -/

theorem isNamed_of_mem (h : n ∈ names p) : isNamed n = true := (List.mem_filter.mp h).2

/-- The names of a path from the root are those of the place to which it leads. -/
theorem names_absolute_eq (hCwd : isAbsolute cwd = true) (p : Text) : names (absolute cwd p) = location cwd p := by
  rw [absolute, location, names_normal]
  cases hAbsolute : isAbsolute p with
  | true =>
      simp only [if_true]
      rw [hAbsolute, resolveUp_eq_follow fun _ => isNamed_of_mem, follow_names]
  | false =>
      simp only [Bool.false_eq_true, if_false]
      have hNamed : ∀ n ∈ names cwd ++ names p, isNamed n = true := fun n hMem =>
        (List.mem_append.mp hMem).elim isNamed_of_mem isNamed_of_mem
      rw [isAbsolute_join hAbsolute, hCwd, names_join hAbsolute, resolveUp_eq_follow hNamed, follow_append,
        follow_names, follow_names]

/-- Normalising a path does not change where it leads. -/
theorem location_normal (cwd p : Text) : location cwd (normal p) = location cwd p := by
  rw [location, location, isAbsolute_normal, ← follow_names _ (normal p), names_normal, ← follow_names _ p]
  cases isAbsolute p with
  | true =>
      have hAgain := resolveUp_of_not_mem true (up_not_mem_resolveUp (names p))
      have hKept : ∀ n ∈ resolveUp true (names p), isNamed n = true := fun n hMem =>
        isNamed_of_mem (resolveUp_subset _ _ hMem)
      rw [if_pos rfl, ← resolveUp_eq_follow hKept, hAgain, resolveUp_eq_follow fun _ => isNamed_of_mem]
  | false => exact follow_resolveUp fun _ => isNamed_of_mem

/-! ### Slashes in front -/

theorem rootOf_relative (h : isAbsolute p = false) : rootOf p = [] := by
  have hEmpty := isEmpty_rootOf p
  rw [h, Bool.not_eq_false'] at hEmpty
  exact List.isEmpty_iff.mp hEmpty

/-- Two slashes are kept, unless there are more. -/
theorem rootOf_slash (rest : Text) : rootOf (Point.ofChar '/' :: rest) =
    if isAbsolute rest && !isAbsolute rest.tail then Text.ofString "//" else Text.ofString "/" := by
  have hOne : Text.startsWith (Point.ofChar '/' :: rest) "/" = true := rfl
  have hTwo : Text.startsWith (Point.ofChar '/' :: rest) "//" = isAbsolute rest := rfl
  have hThree : Text.startsWith (Point.ofChar '/' :: rest) "///" = (isAbsolute rest && isAbsolute rest.tail) := by
    cases rest with
    | nil => rfl
    | cons c rest => rw [isAbsolute_cons]; rfl
  rw [rootOf, hOne, hTwo, hThree]
  cases isAbsolute rest with
  | true => cases isAbsolute rest.tail <;> rfl
  | false => rfl

theorem rootOf_ofNames (hRoot : root ∈ ([[], "/", "//"] : List Text)) (h : ∀ n ∈ ns, IsName n) :
    rootOf (ofNames root ns) = root := by
  have hNames := isAbsolute_join_slash h
  have hStart := isAbsolute_ofNames hRoot h
  simp only [List.mem_cons, List.not_mem_nil, or_false] at hRoot
  rcases hRoot with rfl | rfl | rfl
  · exact rootOf_relative hStart
  · rw [show ofNames "/" ns = Point.ofChar '/' :: Text.join "/" ns from rfl, rootOf_slash, hNames]
    rfl
  · have hSecond : isAbsolute (Point.ofChar '/' :: Text.join "/" ns) = true := rfl
    rw [show ofNames "//" ns = Point.ofChar '/' :: Point.ofChar '/' :: Text.join "/" ns from rfl, rootOf_slash,
      hSecond, List.tail_cons, hNames]
    rfl

/-- What is put behind a directory: a slash comes in front only where there is none yet. -/
theorem exists_join_eq (hRelative : isAbsolute q = false) (p : Text) :
    ∃ rest, join p q = p ++ rest ∧ (p.getLast? = some (Point.ofChar '/') → isAbsolute rest = false) := by
  rw [join, hRelative, if_neg Bool.false_ne_true]
  split
  · exact ⟨q, rfl, fun _ => hRelative⟩
  · next hOpen =>
      refine ⟨"/" ++ q, List.append_assoc p _ q, fun hLast => absurd ?_ hOpen⟩
      obtain ⟨front, rfl⟩ := List.getLast?_eq_some_iff.mp hLast
      exact (Bool.or_eq_true _ _).mpr (Or.inr (List.isSuffixOf_iff_suffix.mpr ⟨front, rfl⟩))

/-- A path that is read in a directory starts where the directory does. -/
theorem rootOf_join (hRelative : isAbsolute q = false) (p : Text) : rootOf (join p q) = rootOf p := by
  have hJoin := isAbsolute_join (p := p) hRelative
  cases hStart : isAbsolute p with
  | false => rw [rootOf_relative hStart, rootOf_relative (hJoin.trans hStart)]
  | true =>
      obtain ⟨rest, hRest, hEnd⟩ := exists_join_eq hRelative p
      rw [hRest]
      -- The first three points tell the root, so only a path of one or two slashes could change.
      match p, hStart, hEnd with
      | [c], hStart, hEnd =>
          rw [isAbsolute_cons] at hStart
          obtain rfl := eq_of_beq hStart
          rw [List.singleton_append, rootOf_slash, rootOf_slash, hEnd rfl]
          rfl
      | [c, d], hStart, hEnd =>
          rw [isAbsolute_cons] at hStart
          obtain rfl := eq_of_beq hStart
          rw [List.cons_append, List.singleton_append, rootOf_slash, rootOf_slash, isAbsolute_cons, isAbsolute_cons,
            List.tail_cons, List.tail_cons]
          cases hSecond : Point.ofChar '/' == d with
          | false => rfl
          | true =>
              obtain rfl := eq_of_beq hSecond
              rw [hEnd rfl]
              rfl
      | c :: d :: e :: front, hStart, _ =>
          rw [isAbsolute_cons] at hStart
          obtain rfl := eq_of_beq hStart
          rw [List.cons_append, List.cons_append, List.cons_append, rootOf_slash, rootOf_slash, isAbsolute_cons,
            isAbsolute_cons, List.tail_cons, List.tail_cons, isAbsolute_cons, isAbsolute_cons]

theorem normal_eq (p : Text) : normal p = ofNames (rootOf p) (names (normal p)) := by
  rw [names_normal]
  rfl

/-- A path from the root is known from where it starts and where it leads. -/
theorem absolute_eq (hCwd : isAbsolute cwd = true) (p : Text) :
    absolute cwd p = ofNames (if isAbsolute p then rootOf p else rootOf cwd) (location cwd p) := by
  rw [← names_absolute_eq hCwd, absolute]
  refine (normal_eq _).trans (congrArg (ofNames · _) ?_)
  cases hAbsolute : isAbsolute p with
  | true => rfl
  | false => exact rootOf_join hAbsolute cwd

theorem rootOf_normal (p : Text) : rootOf (normal p) = rootOf p :=
  rootOf_ofNames (rootOf_mem p) fun _ hMem => isName_of_mem (resolveUp_subset _ _ hMem)

/-- A path without steps up is normalised once and for all. -/
theorem normal_normal (h : up ∉ names (normal p)) : normal (normal p) = normal p := by
  have hNames : names (normal (normal p)) = names (normal p) := by
    rw [names_normal (normal p), resolveUp_of_not_mem _ h]
  rw [normal_eq (normal p), hNames, rootOf_normal, ← normal_eq]

/-- A normalised path leads to the same place from every directory. -/
theorem absolute_normal (hCwd : isAbsolute cwd = true) (p : Text) : absolute cwd (normal p) = absolute cwd p := by
  rw [absolute_eq hCwd, absolute_eq hCwd, location_normal, isAbsolute_normal, rootOf_normal]

/-! ### Cleaned paths

A path is refused exactly if two dots stand together in it once it is normalised; otherwise it comes out in a form that
cleaning keeps, that has no empty parts, single dots or steps up any more, and that leads to the same place from every
directory. -/

/-- Names that are put together are found again behind the slashes in front. -/
theorem splitOn_ofNames (hRoot : root ∈ ([[], "/", "//"] : List Text)) (h : ∀ n ∈ ns, IsName n) (hSome : ns ≠ []) :
    Text.splitOn '/' ((ofNames root ns).dropWhile (·.char == '/')) = ns := by
  obtain ⟨c, rest, hJoin, hFirst⟩ : ∃ c rest, Text.join "/" ns = c :: rest ∧ c.char ≠ '/' := by
    obtain ⟨n, others, rfl⟩ := List.exists_cons_of_ne_nil hSome
    have hName := h n List.mem_cons_self
    obtain ⟨c, tail, rfl⟩ := List.exists_cons_of_ne_nil hName.ne_nil
    cases others <;> exact ⟨c, _, rfl, hName.free c List.mem_cons_self⟩
  have hSlashes : root.all (·.char == '/') = true := by
    simp only [List.mem_cons, List.not_mem_nil, or_false] at hRoot
    rcases hRoot with rfl | rfl | rfl <;> rfl
  have hWhole : ofNames root ns = root ++ Text.join "/" ns := by
    rw [ofNames, hJoin]
    cases root <;> rfl
  have hOther : ¬(c.char == '/') = true := by simpa using hFirst
  rw [hWhole, List.dropWhile_append_of_pos (List.all_eq_true.mp hSlashes), hJoin, List.dropWhile_cons, if_neg hOther,
    ← hJoin]
  exact splitOn_join_slash h hSome

/-- What there is to say of the form that cleaning gives a path. -/
structure IsCleaned (p q : Text) : Prop where
  /-- It stays as it is when it is cleaned once more. -/
  again : clean q = .ok q
  /-- Behind the slashes in front there are names alone. -/
  parts : q ∈ ([".", "/", "//"] : List Text) ∨ ∀ part ∈ Text.splitOn '/' (q.dropWhile (·.char == '/')),
    part ≠ [] ∧ part ≠ Text.ofString "." ∧ part ≠ up
  /-- It is the same path as before, read in any directory, and leads to the same place. -/
  place : ∀ dir, isAbsolute dir = true → absolute dir q = absolute dir p ∧ location dir q = location dir p ∧
    names (absolute dir p) = location dir p
  /-- Where it does not start at the root, this place is in the directory or below it. -/
  below : ∀ dir, isAbsolute dir = true → isAbsolute p = false → rootOf (absolute dir p) = rootOf dir ∧
    location dir "." <+: location dir p

theorem parts_normal (h : up ∉ names (normal p)) : normal p ∈ ([".", "/", "//"] : List Text) ∨
    ∀ part ∈ Text.splitOn '/' ((normal p).dropWhile (·.char == '/')),
      part ≠ [] ∧ part ≠ Text.ofString "." ∧ part ≠ up := by
  have hRoot := rootOf_mem p
  have hNames : ∀ n ∈ names (normal p), IsName n := fun n hMem => isName_of_mem hMem
  by_cases hSome : names (normal p) = []
  · left
    rw [normal_eq, hSome]
    simp only [List.mem_cons, List.not_mem_nil, or_false] at hRoot
    rcases hRoot with hRoot | hRoot | hRoot <;> rw [hRoot] <;> decide
  · right
    rw [normal_eq p, splitOn_ofNames hRoot hNames hSome]
    exact fun n hMem => ⟨(hNames n hMem).ne_nil, (hNames n hMem).ne_here, fun hSame => h (hSame ▸ hMem)⟩

/-- A path that does not start at the root and has no steps up left leads into the directory that it is read in. -/
theorem location_isPrefix (hRelative : isAbsolute p = false) (h : up ∉ names (normal p)) (dir : Text) :
    location dir "." <+: location dir p := by
  rw [← location_normal dir p, location, location, isAbsolute_normal, hRelative, ← follow_names _ (normal p),
    follow_of_not_mem h]
  exact List.prefix_append _ _

theorem isCleaned_normal (h : ¬ HasDots (normal p)) : IsCleaned p (normal p) where
  again := by
    have hFree : Text.contains ".." (normal p) = false := Bool.eq_false_iff.mpr fun hDots =>
      h (Text.contains_iff.mp hDots)
    rw [clean, normal_normal (up_not_mem_names h)]
    simp [hFree]
  parts := parts_normal (up_not_mem_names h)
  place dir hDir := ⟨absolute_normal hDir p, location_normal dir p, names_absolute_eq hDir p⟩
  below dir hDir hRelative := by
    refine ⟨?_, location_isPrefix hRelative (up_not_mem_names h) dir⟩
    rw [absolute, if_neg (by simp [hRelative]), rootOf_normal, rootOf_join hRelative]

/-- A path is refused if two dots stand together once it is normalised, and no other path is cleaned to it; all
others are cleaned. -/
theorem clean_outcome (p : Text) : (HasDots (normal p) ∧ clean p = .error (.pathTraversal p) ∧ HasDots p ∧
      ∀ raw, clean raw ≠ .ok p) ∨
    (¬ HasDots (normal p) ∧ ∃ q, clean p = .ok q ∧ IsCleaned p q) := by
  by_cases hDots : HasDots (normal p)
  · have hRaw := hasDots_of_normal hDots
    refine .inl ⟨hDots, if_pos (Text.contains_iff.mpr hDots), hRaw, fun raw hClean => ?_⟩
    rcases clean_cases raw with ⟨q, hSame, hNone⟩ | ⟨hRefused, -⟩
    · exact hNone (Except.ok.inj (hClean.symm.trans hSame) ▸ hRaw)
    · cases hRefused.symm.trans hClean
  · exact .inr ⟨hDots, normal p, if_neg fun hFound => hDots (Text.contains_iff.mp hFound), isCleaned_normal hDots⟩

example : clean "//a/./b/..//c/" = .ok "//a/c" := rfl

end Conform.Path

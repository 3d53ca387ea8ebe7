import Conform.Proofs.FileTree.Order

/-! Trees from which a file was removed. A walk meets the other files as before, and what any other path leads to is
as it was, but for the directories around the file. -/
namespace Conform

namespace Path

variable {root : Text} {ns : List Text}

theorem getLast?_splitOn (a b : Text) :
    (Text.splitOn '/' (a ++ "/" ++ b)).getLast? = (Text.splitOn '/' b).getLast? := by
  obtain ⟨first, rest, hSplit, -⟩ := Text.prefix_of_splitOn '/' b
  rw [splitOn_append_slash, hSplit]
  exact List.getLast?_append_of_ne_nil _ (List.cons_ne_nil _ _)

/-- A path that is put together from names ends with the last of them. -/
theorem getLast?_splitOn_ofNames (hRoot : root ∈ ([[], "/", "//"] : List Text)) (h : ∀ n ∈ ns, IsName n)
    (hSome : ns ≠ []) : (Text.splitOn '/' (ofNames root ns)).getLast? = ns.getLast? := by
  have hJoin := congrArg List.getLast? (splitOn_join_slash h hSome)
  have hWhole : (Text.splitOn '/' (root ++ Text.join "/" ns)).getLast? = ns.getLast? := by
    simp only [List.mem_cons, List.not_mem_nil, or_false] at hRoot
    rcases hRoot with rfl | rfl | rfl
    · exact hJoin
    · exact (getLast?_splitOn [] _).trans hJoin
    · exact (getLast?_splitOn "/" _).trans hJoin
  unfold ofNames
  dsimp only
  split
  · next hEmpty =>
      rw [List.isEmpty_iff.mp hEmpty] at hWhole
      exact absurd rfl (h [] (List.mem_of_getLast? hWhole.symm)).ne_nil
  · exact hWhole

/-- A path without empty parts ends with a name, if there is any in it. -/
theorem isNamed_getLast?_tidy {p : Text} (hSome : names p ≠ []) :
    ∀ last ∈ (Text.splitOn '/' (tidy p)).getLast?, isNamed last = true := by
  intro last hLast
  rw [tidy, getLast?_splitOn_ofNames (rootOf_mem p) (fun _ => isName_of_mem) hSome] at hLast
  exact isNamed_of_isName (isName_of_mem (List.mem_of_getLast? hLast))

end Path

namespace FileTree

variable {t inner u : FileTree} {es : List (Text × FileTree)} {path name : Text} {ns ms parts : List Text}
  {above : List FileTree} {content : Bytes}

/-- The entries that a removal leaves, if the file is in the directory itself. -/
theorem fileNames_filter (name : Text) (es : List (Text × FileTree)) :
    fileNames (es.filter (·.1 != name)) = (fileNames es).filter (· != name) := by
  rw [fileNames, fileNames, List.filter_map, List.filter_comm]
  rfl

theorem map_fst_filter (name : Text) (es : List (Text × FileTree)) :
    (es.filter (·.1 != name)).map Prod.fst = (es.map Prod.fst).filter (· != name) := by
  rw [List.filter_map]
  rfl

/-- Below an entry nothing has the names of another one. -/
theorem filter_walkEntry (h : (directory es).Proper) (hEntry : IsEntry name) (path : Text)
    (hApart : ∀ n rest, Path.names path ++ name :: n :: rest ≠ Path.names path ++ ns) :
    (walkEntry path es name).filter (fun p => Path.names p != Path.names path ++ ns) = walkEntry path es name := by
  refine List.filter_eq_self.mpr fun p hMem => ?_
  obtain ⟨n, rest, hNames, -⟩ := (h.below_walkEntry path name).names p hMem
  rw [hNames, hEntry.names_join, List.append_assoc]
  exact bne_iff_ne.mpr (hApart n rest)

theorem flatMap_filter {α β : Type} {p : α → Bool} {f g : α → List β} {l : List α}
    (hKept : ∀ a ∈ l, p a = true → f a = g a) (hLeft : ∀ a ∈ l, p a = false → g a = []) :
    (l.filter p).flatMap f = l.flatMap g := by
  induction l with
  | nil => rfl
  | cons a rest ih =>
      obtain ⟨hKept, hKeptRest⟩ := List.forall_mem_cons.mp hKept
      obtain ⟨hLeft, hLeftRest⟩ := List.forall_mem_cons.mp hLeft
      rw [List.flatMap_cons, ← ih hKeptRest hLeftRest]
      cases hHere : p a with
      | true => rw [List.filter_cons_of_pos hHere, List.flatMap_cons, hKept hHere]
      | false => rw [List.filter_cons_of_neg (by simp [hHere]), hLeft hHere, List.nil_append]

/-- A removal from the directory itself. -/
theorem walk_remove_here (h : (directory es).Proper) (hFile : es.lookup name = some (file content)) (path : Text) :
    (directory (es.filter (·.1 != name))).walk path =
      ((directory es).walk path).filter fun p => Path.names p != Path.names path ++ [name] := by
  obtain ⟨hDistinct, hNames, -⟩ : (es.map Prod.fst).Nodup ∧ _ := h.entries
  have hDistinct' : ((es.filter (·.1 != name)).map Prod.fst).Nodup := hDistinct.sublist (List.filter_sublist.map _)
  have hHere : ∀ n ∈ Text.sorted (fileNames es),
      (n != name) = (Path.names (Path.join path n) != Path.names path ++ [name]) := by
    intro n hMem
    have hEntry := h.of_mem_fileNames ((Text.sorted_perm _).mem_iff.mp hMem)
    rw [hEntry.names_join, Bool.eq_iff_iff, bne_iff_ne, bne_iff_ne]
    simp
  have hEntries : ∀ n ∈ Text.sorted (es.map Prod.fst), IsEntry n := by
    intro n hMem
    obtain ⟨e, hEntry, rfl⟩ := List.mem_map.mp ((Text.sorted_perm _).mem_iff.mp hMem)
    exact hNames e hEntry
  have hInside : ∀ n ∈ Text.sorted (es.map Prod.fst), (walkEntry path es n).filter
      (fun p => Path.names p != Path.names path ++ [name]) = walkEntry path es n := fun n hMem =>
    filter_walkEntry h (hEntries n hMem) path fun _ _ hSame => by simpa using List.append_cancel_left hSame
  rw [walk_directory hDistinct', walk_directory hDistinct, fileNames_filter, map_fst_filter, Text.sorted_filter,
    Text.sorted_filter, List.filter_append, List.filter_map, List.filter_flatMap]
  congr 1
  · exact congrArg _ (List.filter_congr hHere)
  · refine flatMap_filter (fun n hMem hOther => ?_) fun n hMem hHere => ?_
    · rw [hInside n hMem, walkEntry, lookup_filter_ne (bne_iff_ne.mp hOther), walkEntry]
    · obtain rfl : n = name := by simpa using hHere
      rw [hInside n hMem, walkEntry, hFile]
      rfl

/-- The entries once something is removed below one of them. -/
def removeBelow (name : Text) (ns : List Text) (es : List (Text × FileTree)) : List (Text × FileTree) :=
  es.map fun e => if e.1 == name then (e.1, remove e.2 ns) else e

theorem map_fst_removeBelow (name : Text) (ns : List Text) (es : List (Text × FileTree)) :
    (removeBelow name ns es).map Prod.fst = es.map Prod.fst := by
  rw [removeBelow, List.map_map]
  refine List.map_congr_left fun e _ => ?_
  rw [Function.comp_apply]
  split <;> rfl

theorem lookup_removeBelow (k name : Text) (ns : List Text) (es : List (Text × FileTree)) :
    (removeBelow name ns es).lookup k = (es.lookup k).map fun t => if k == name then t.remove ns else t := by
  induction es with
  | nil => rfl
  | cons e rest ih =>
      obtain ⟨n, t⟩ := e
      have hCons : removeBelow name ns ((n, t) :: rest) =
          (n, if n == name then t.remove ns else t) :: removeBelow name ns rest := by
        rw [removeBelow, List.map_cons, removeBelow]
        dsimp only
        split <;> rfl
      rw [hCons, List.lookup_cons, List.lookup_cons, ih]
      cases hKey : k == n with
      | false => rfl
      | true =>
          obtain rfl := beq_iff_eq.mp hKey
          rfl

theorem isDirectory_remove (t : FileTree) (name : Text) (ns : List Text) :
    (t.remove (name :: ns)).isDirectory = true := by
  cases ns <;> rfl

theorem fileNames_removeBelow (hEntry : ∀ e ∈ es, e.1 = name → e.2.isDirectory = true) (n : Text) (ns : List Text) :
    fileNames (removeBelow name (n :: ns) es) = fileNames es := by
  induction es with
  | nil => rfl
  | cons e rest ih =>
      obtain ⟨hHere, hRest⟩ := List.forall_mem_cons.mp hEntry
      have hSame : (if e.1 == name then (e.1, remove e.2 (n :: ns)) else e).2.isDirectory = e.2.isDirectory := by
        split
        · next hName => rw [isDirectory_remove, hHere (beq_iff_eq.mp hName)]
        · rfl
      have hName : (if e.1 == name then (e.1, remove e.2 (n :: ns)) else e).1 = e.1 := by
        split <;> rfl
      have hFiles := ih hRest
      rw [fileNames, fileNames, removeBelow] at hFiles ⊢
      rw [List.map_cons, List.filter_cons, List.filter_cons, hSame]
      split
      · rw [List.map_cons, List.map_cons, hFiles, hName]
      · exact hFiles

/-- A removal further below. -/
theorem walk_removeBelow (h : (directory es).Proper) (hDirectory : es.lookup name = some inner)
    (hInner : inner.isDirectory = true) {n : Text}
    (ih : ∀ path, (inner.remove (n :: ns)).walk path =
      (inner.walk path).filter fun p => Path.names p != Path.names path ++ n :: ns) (path : Text) :
    (directory (removeBelow name (n :: ns) es)).walk path =
      ((directory es).walk path).filter fun p => Path.names p != Path.names path ++ name :: n :: ns := by
  obtain ⟨hDistinct, hNames, -⟩ : (es.map Prod.fst).Nodup ∧ _ := h.entries
  have hDistinct' : ((removeBelow name (n :: ns) es).map Prod.fst).Nodup := by rwa [map_fst_removeBelow]
  have hOnly : ∀ e ∈ es, e.1 = name → e.2.isDirectory = true := by
    rintro ⟨k, t⟩ hMem rfl
    obtain rfl : t = inner := Option.some.inj ((lookup_of_mem hDistinct hMem).symm.trans hDirectory)
    exact hInner
  have hHere : ∀ m ∈ Text.sorted (fileNames es),
      (Path.names (Path.join path m) != Path.names path ++ name :: n :: ns) = true := by
    intro m hMem
    have hEntry := h.of_mem_fileNames ((Text.sorted_perm _).mem_iff.mp hMem)
    rw [hEntry.names_join, bne_iff_ne]
    exact fun hSame => nomatch List.append_cancel_left hSame
  have hInside : ∀ m ∈ Text.sorted (es.map Prod.fst), walkEntry path (removeBelow name (n :: ns) es) m =
      (walkEntry path es m).filter fun p => Path.names p != Path.names path ++ name :: n :: ns := by
    intro m hMem
    have hEntry : IsEntry m := by
      obtain ⟨e, hIn, rfl⟩ := List.mem_map.mp ((Text.sorted_perm _).mem_iff.mp hMem)
      exact hNames e hIn
    by_cases hName : m = name
    · obtain rfl := hName
      rw [walkEntry, lookup_removeBelow, walkEntry, hDirectory, BEq.rfl]
      refine (ih (Path.join path m)).trans ?_
      rw [hEntry.names_join, List.append_assoc]
      rfl
    · rw [filter_walkEntry h hEntry path fun _ _ hSame => hName (List.cons.inj (List.append_cancel_left hSame)).1,
        walkEntry, lookup_removeBelow, walkEntry, beq_eq_false_iff_ne.mpr hName]
      cases es.lookup m <;> rfl
  rw [walk_directory hDistinct', walk_directory hDistinct, map_fst_removeBelow, fileNames_removeBelow hOnly,
    List.filter_append, List.filter_map, List.filter_flatMap]
  congr 1
  · exact congrArg _ (List.filter_eq_self.mpr hHere).symm
  · exact List.flatMap_congr hInside

/-- A walk after the removal of a file meets all others, in the same order. -/
theorem Proper.walk_remove (h : t.Proper) (hFile : at? ns t = some (file content)) (hNames : ns ≠ []) (path : Text) :
    (t.remove ns).walk path = (t.walk path).filter fun p => Path.names p != Path.names path ++ ns := by
  induction ns generalizing t path with
  | nil => exact absurd rfl hNames
  | cons name rest ih =>
      obtain ⟨es, inner, rfl, hEntry, hInner⟩ := exists_of_at?_cons hFile
      cases rest with
      | nil =>
          obtain rfl : inner = file content := Option.some.inj hInner
          exact walk_remove_here h hEntry path
      | cons n rest =>
          obtain ⟨es', -, rfl, -, -⟩ := exists_of_at?_cons hInner
          exact walk_removeBelow h hEntry rfl (ih (h.entry (mem_of_lookup hEntry)) hInner (List.cons_ne_nil _ _)) path

/-! ### Paths after a removal -/

/-- Without steps up it does not matter what is above. -/
theorem locate_above (hUp : Path.up ∉ parts) (above above' : List FileTree) (t : FileTree) :
    locate parts above t = locate parts above' t := by
  induction parts generalizing above above' t with
  | nil => rfl
  | cons part rest ih =>
      obtain ⟨hHere, hRest⟩ : Path.up ≠ part ∧ Path.up ∉ rest := by simpa using hUp
      cases t with
      | file _ => rfl
      | directory es =>
          rw [locate_directory hHere, locate_directory hHere]
          split
          · split
            · exact ih hRest _ _ _
            · rfl
          · exact ih hRest _ _ _

/-- What a path leads to stands at the end of its names. -/
theorem at?_of_locate (hUp : Path.up ∉ parts) (h : locate parts above t = .ok u) :
    at? (parts.filter Path.isNamed) t = some u := by
  induction parts generalizing above t with
  | nil => exact congrArg some (Except.ok.inj h)
  | cons part rest ih =>
      obtain ⟨hHere, hRest⟩ : Path.up ≠ part ∧ Path.up ∉ rest := by simpa using hUp
      cases t with
      | file _ => cases h
      | directory es =>
          rw [locate_directory hHere] at h
          split at h
          · next hNamed =>
              rw [List.filter_cons_of_pos hNamed, at?]
              split at h
              · next inner hEntry =>
                  rw [hEntry]
                  exact ih hRest h
              · cases h
          · next hBlank =>
              rw [List.filter_cons_of_neg hBlank]
              exact ih hRest h

/-- What stands at the end of some names is what a path with these names leads to, if it ends with a name. -/
theorem locate_of_at? (hUp : Path.up ∉ parts) (hEnd : ∀ last ∈ parts.getLast?, Path.isNamed last = true)
    (h : at? (parts.filter Path.isNamed) t = some u) : locate parts above t = .ok u := by
  induction parts generalizing above t with
  | nil => exact congrArg Except.ok (Option.some.inj h)
  | cons part rest ih =>
      obtain ⟨hHere, hRest⟩ : Path.up ≠ part ∧ Path.up ∉ rest := by simpa using hUp
      have hEnd' : ∀ last ∈ rest.getLast?, Path.isNamed last = true := by
        intro last hLast
        refine hEnd last ?_
        rw [List.getLast?_cons]
        rw [Option.mem_def] at hLast
        rw [hLast]
        rfl
      by_cases hNamed : Path.isNamed part = true
      · rw [List.filter_cons_of_pos hNamed] at h
        obtain ⟨es, inner, rfl, hEntry, hInner⟩ := exists_of_at?_cons h
        rw [locate_directory hHere, if_pos hNamed, hEntry]
        exact ih hRest hEnd' hInner
      · rw [List.filter_cons_of_neg hNamed] at h
        obtain ⟨last, hLast⟩ : ∃ last, rest.getLast? = some last := by
          cases rest with
          | nil => exact absurd (hEnd part rfl) hNamed
          | cons next others => exact ⟨_, List.getLast?_eq_some_getLast (List.cons_ne_nil _ _)⟩
        have hSome : last ∈ rest.filter Path.isNamed :=
          List.mem_filter.mpr ⟨List.mem_of_getLast? hLast, hEnd' last hLast⟩
        obtain ⟨name, names, hNames⟩ := List.exists_cons_of_ne_nil (List.ne_nil_of_mem hSome)
        obtain ⟨es, -, rfl, -, -⟩ := exists_of_at?_cons (hNames ▸ h)
        rw [locate_directory hHere, if_neg hNamed]
        exact ih hRest hEnd' h

/-- A removal keeps the other entries of a directory. -/
theorem exists_of_remove (es : List (Text × FileTree)) (name : Text) (ns : List Text) :
    ∃ es', (directory es).remove (name :: ns) = directory es' ∧ (∀ k, k ≠ name → es'.lookup k = es.lookup k) ∧
      es'.lookup name = if ns = [] then none else (es.lookup name).map (remove · ns) := by
  cases ns with
  | nil =>
      refine ⟨es.filter (·.1 != name), rfl, fun k hOther => lookup_filter_ne hOther es, ?_⟩
      rw [if_pos rfl, List.lookup_eq_none_iff]
      intro e hMem
      exact bne_iff_ne.mpr fun hSame => by simpa [hSame] using (List.mem_filter.mp hMem).2
  | cons n rest =>
      refine ⟨removeBelow name (n :: rest) es, rfl, fun k hOther => ?_, ?_⟩
      · rw [lookup_removeBelow, beq_eq_false_iff_ne.mpr hOther]
        cases es.lookup k <;> rfl
      · rw [lookup_removeBelow, BEq.rfl]
        rfl

/-- What a path that leads elsewhere leads to after the removal of a file. A directory around the file has it no
longer, and all else is as it was. -/
theorem locate_remove (above' : List FileTree) (hFile : at? ns t = some (file content)) (hUp : Path.up ∉ parts)
    (hApart : parts.filter Path.isNamed ≠ ns) (h : locate parts above t = .ok u) :
    ∃ u', locate parts above' (t.remove ns) = .ok u' ∧
      ((¬ parts.filter Path.isNamed <+: ns ∧ u' = u) ∨
        ∃ rest, rest ≠ [] ∧ ns = parts.filter Path.isNamed ++ rest ∧ u' = u.remove rest) := by
  induction parts generalizing t ns above above' with
  | nil =>
      obtain rfl : t = u := Except.ok.inj h
      exact ⟨_, rfl, .inr ⟨ns, fun hNil => hApart hNil.symm, rfl, rfl⟩⟩
  | cons part rest ih =>
      obtain ⟨hHere, hRest⟩ : Path.up ≠ part ∧ Path.up ∉ rest := by simpa using hUp
      cases ns with
      | nil =>
          obtain rfl : t = file content := Option.some.inj hFile
          cases h
      | cons name ns =>
          obtain ⟨es, inner, rfl, hEntry, hInner⟩ := exists_of_at?_cons hFile
          obtain ⟨es', hRemove, hOthers, hNamesake⟩ := exists_of_remove es name ns
          rw [hRemove, locate_directory hHere]
          rw [locate_directory hHere] at h
          by_cases hNamed : Path.isNamed part = true
          · rw [if_pos hNamed] at h ⊢
            rw [List.filter_cons_of_pos hNamed] at hApart ⊢
            by_cases hSame : part = name
            · obtain rfl := hSame
              rw [hEntry] at h
              have hNs : ns ≠ [] := by
                rintro rfl
                obtain rfl : inner = file content := Option.some.inj hInner
                cases rest with
                | nil => exact hApart rfl
                | cons next others => cases h
              rw [hNamesake, if_neg hNs, hEntry]
              obtain ⟨u', hFound, hCases⟩ := ih _ hInner hRest (fun hEq => hApart (congrArg _ hEq)) h
              refine ⟨u', hFound, hCases.imp ?_ ?_⟩
              · rintro ⟨hNot, rfl⟩
                exact ⟨fun hPrefix => hNot (List.cons_prefix_cons.mp hPrefix).2, rfl⟩
              · rintro ⟨below, hSome, rfl, rfl⟩
                exact ⟨below, hSome, rfl, rfl⟩
            · rw [hOthers part hSame]
              split at h
              · refine ⟨u, ?_, .inl ⟨fun hPrefix => hSame (List.cons_prefix_cons.mp hPrefix).1, rfl⟩⟩
                rw [← h]
                exact locate_above hRest _ _ _
              · cases h
          · rw [if_neg hNamed] at h ⊢
            rw [List.filter_cons_of_neg hNamed] at hApart ⊢
            rw [← hRemove]
            exact ih _ hFile hRest hApart h

/-- A path that leads nowhere still does after a removal. -/
theorem locate_remove_error {f : AccessFault} (above' : List FileTree) (hFile : at? ns t = some (file content))
    (hUp : Path.up ∉ parts) (h : locate parts above t = .error f) :
    ∃ f', locate parts above' (t.remove ns) = .error f' := by
  induction parts generalizing t ns above above' with
  | nil => cases h
  | cons part rest ih =>
      obtain ⟨hHere, hRest⟩ : Path.up ≠ part ∧ Path.up ∉ rest := by simpa using hUp
      cases ns with
      | nil =>
          obtain rfl : t = file content := Option.some.inj hFile
          exact ⟨_, rfl⟩
      | cons name ns =>
          obtain ⟨es, inner, rfl, hEntry, hInner⟩ := exists_of_at?_cons hFile
          obtain ⟨es', hRemove, hOthers, hNamesake⟩ := exists_of_remove es name ns
          rw [hRemove, locate_directory hHere]
          rw [locate_directory hHere] at h
          by_cases hNamed : Path.isNamed part = true
          · rw [if_pos hNamed] at h ⊢
            by_cases hSame : part = name
            · obtain rfl := hSame
              rw [hEntry] at h
              rw [hNamesake, hEntry]
              by_cases hNs : ns = []
              · rw [if_pos hNs]
                exact ⟨_, rfl⟩
              · rw [if_neg hNs]
                exact ih _ hInner hRest h
            · rw [hOthers part hSame]
              split at h
              · exact ⟨f, (locate_above hRest _ _ _).trans h⟩
              · exact ⟨f, h⟩
          · rw [if_neg hNamed] at h ⊢
            rw [← hRemove]
            exact ih _ hFile hRest h

/-- A walk finds files, and under names that come after those of the directory. -/
theorem Proper.exists_of_mem_walk {p : Text} (h : t.Proper) (hMem : p ∈ t.walk path) :
    ∃ rest content, Path.names p = Path.names path ++ rest ∧ rest ≠ [] ∧ Path.up ∉ rest ∧
      at? rest t = some (file content) := by
  obtain ⟨places, hListing, hWalk⟩ := h.exists_listing
  rw [hWalk] at hMem
  obtain ⟨ns, hHeld, rfl⟩ := List.mem_map.mp hMem
  obtain ⟨hSome, content, hAt⟩ := (hListing.mem_iff ns).mp hHeld
  have hEntries := h.isEntry_of_at? hAt
  exact ⟨ns, content, names_foldl_join hEntries path, hSome, fun hUp => (hEntries _ hUp).ne_up rfl, hAt⟩

end FileTree

namespace Files

open FileTree

variable {fs : Files} {path dir p : Text} {t u : FileTree} {content : Bytes}

section Removal

variable (hCwd : Path.up ∉ Path.names fs.cwd)

include hCwd

theorem at?_of_look (hUp : Path.up ∉ Path.names p) (h : fs.look p = .ok u) : at? (fs.place p) fs.root = some u := by
  rw [← names_whole hCwd hUp]
  exact at?_of_locate (up_not_mem_whole hCwd hUp) (locate_of_look h).2

variable (hFile : at? (fs.place path) fs.root = some (.file content))

include hFile

theorem look_delete (hUp : Path.up ∉ Path.names p) (hApart : fs.place p ≠ fs.place path) (h : fs.look p = .ok u) :
    ∃ u', (fs.delete path).look p = .ok u' ∧ ((¬ fs.place p <+: fs.place path ∧ u' = u) ∨
      ∃ rest, rest ≠ [] ∧ fs.place path = fs.place p ++ rest ∧ u' = u.remove rest) := by
  obtain ⟨hLimit, hFound⟩ := locate_of_look h
  rw [← names_whole hCwd hUp] at hApart ⊢
  obtain ⟨u', hFound', hCases⟩ := locate_remove [] hFile (up_not_mem_whole hCwd hUp) hApart hFound
  have hLook : (fs.delete path).look p = .ok u' := look_of_locate hLimit hFound'
  exact ⟨u', hLook, hCases⟩

theorem look_delete_error {f : Failure} (hUp : Path.up ∉ Path.names p) (h : fs.look p = .error f) :
    ∃ f', (fs.delete path).look p = .error f' := by
  rw [look_eq] at h ⊢
  split at h
  · exact ⟨_, rfl⟩
  · next hLimit =>
      obtain ⟨why, hFails, -⟩ := exists_of_mapError_error h
      obtain ⟨why', hFails'⟩ := locate_remove_error [] hFile (up_not_mem_whole hCwd hUp) hFails
      have hWhole : (fs.delete path).whole p = fs.whole p := rfl
      have hRoot : (fs.delete path).root = fs.root.remove (fs.place path) := rfl
      rw [hWhole, hRoot, hFails']
      exact ⟨_, rfl⟩

end Removal

section Walk

variable (hProper : fs.Proper) (hCwd : Path.up ∉ Path.names fs.cwd) (hDir : Path.up ∉ Path.names dir)

include hProper hCwd hDir

/-- What a walk meets has its place below that of the directory. -/
theorem place_of_walk (hFound : fs.look dir = .ok t) (hMem : p ∈ t.walk dir) : ∃ rest content,
    Path.names p = Path.names dir ++ rest ∧ rest ≠ [] ∧ Path.up ∉ Path.names (Path.tidy p) ∧
    fs.place (Path.tidy p) = fs.place dir ++ rest ∧ at? rest t = some (file content) := by
  obtain ⟨rest, content, hNames, hSome, hUp, hAt⟩ := (hProper.look hFound).exists_of_mem_walk hMem
  have hAbsolute : Path.isAbsolute (Path.tidy p) = Path.isAbsolute dir := by
    rw [Path.isAbsolute_tidy]
    exact ((hProper.look hFound).below_walk dir).isAbsolute p hMem
  have hUp' : Path.up ∉ Path.names (Path.tidy p) := by
    rw [Path.names_tidy, hNames]
    exact fun hMem => (List.mem_append.mp hMem).elim hDir hUp
  refine ⟨rest, content, hNames, hSome, hUp', ?_, hAt⟩
  rw [place, place, Path.names_absolute hCwd hUp', Path.names_absolute hCwd hDir, hAbsolute, Path.names_tidy, hNames]
  split
  · rfl
  · exact (List.append_assoc _ _ _).symm

/-- A walk finds files, and their paths end with a name. -/
theorem file_of_mem_walk (h : p ∈ fs.walk dir) : ∃ rest content, rest ≠ [] ∧ Path.up ∉ Path.names p ∧
    fs.place p = fs.place dir ++ rest ∧ at? (fs.place p) fs.root = some (file content) ∧
    ∀ last ∈ (Text.splitOn '/' (fs.whole p)).getLast?, Path.isNamed last = true := by
  unfold walk at h
  split at h
  · next t hFound =>
      obtain ⟨q, hMem, rfl⟩ := List.mem_map.mp h
      obtain ⟨rest, content, hNames, hSome, hUp, hPlace, hAt⟩ := place_of_walk hProper hCwd hDir hFound hMem
      refine ⟨rest, content, hSome, hUp, hPlace, ?_, ?_⟩
      · rw [hPlace, at?_append, at?_of_look hCwd hDir hFound]
        exact hAt
      · have hTidy := Path.isNamed_getLast?_tidy (p := q) fun hNone => by
          rw [hNames, List.append_eq_nil_iff] at hNone
          exact hSome hNone.2
        rw [whole]
        split
        · exact hTidy
        · rw [Path.getLast?_splitOn]
          exact hTidy
  · cases h

/-- A file that a walk finds can be looked up, unless its path is too long or holds a NUL. -/
theorem look_of_mem_walk (h : p ∈ fs.walk dir) (hLimit : limit? p = none) :
    ∃ content, fs.look p = .ok (file content) ∧ at? (fs.place p) fs.root = some (file content) := by
  obtain ⟨rest, content, -, hUp, -, hAt, hEnd⟩ := file_of_mem_walk hProper hCwd hDir h
  refine ⟨content, look_of_locate hLimit (locate_of_at? (up_not_mem_whole hCwd hUp) hEnd ?_), hAt⟩
  rw [← Path.names_eq, names_whole hCwd hUp]
  exact hAt

variable (hFile : at? (fs.place path) fs.root = some (file content))

include hFile

/-- A removal changes no other file that a walk finds. -/
theorem read_delete (h : p ∈ fs.walk dir) (hApart : fs.place p ≠ fs.place path) :
    (fs.delete path).read p = fs.read p := by
  obtain ⟨-, -, -, hUp, -, -, -⟩ := file_of_mem_walk hProper hCwd hDir h
  unfold read
  cases hLimit : limit? p with
  | some f => rw [look_eq, look_eq, hLimit]
  | none =>
      obtain ⟨content', hLook, hAt⟩ := look_of_mem_walk hProper hCwd hDir h hLimit
      obtain ⟨u', hLook', hCases⟩ := look_delete hCwd hFile hUp hApart hLook
      rw [hLook, hLook']
      rcases hCases with ⟨-, rfl⟩ | ⟨rest, hSome, hPlace, -⟩
      · rfl
      · -- The place of a file is not below that of another one.
        rw [hPlace, at?_append, hAt] at hFile
        obtain ⟨name, rest, rfl⟩ := List.exists_cons_of_ne_nil hSome
        cases hFile

/-- A removal takes the file out of a walk, and nothing else. -/
theorem walk_delete (hApart : fs.place dir ≠ fs.place path) :
    (fs.delete path).walk dir = (fs.walk dir).filter fun p => fs.place p != fs.place path := by
  cases hLook : fs.look dir with
  | error f =>
      obtain ⟨f', hLook'⟩ := look_delete_error hCwd hFile hDir hLook
      rw [walk, hLook', walk, hLook]
      rfl
  | ok t =>
      obtain ⟨t', hLook', hCases⟩ := look_delete hCwd hFile hDir hApart hLook
      rw [walk, hLook', walk, hLook]
      dsimp only
      rw [List.filter_map]
      rcases hCases with ⟨hNot, rfl⟩ | ⟨rest, hSome, hPlace, rfl⟩
      · refine congrArg _ (List.filter_eq_self.mpr fun p hMem => ?_).symm
        obtain ⟨below, -, -, -, -, hBelow, -⟩ := place_of_walk hProper hCwd hDir hLook hMem
        rw [Function.comp_apply, hBelow]
        exact bne_iff_ne.mpr fun hSame => hNot ⟨below, hSame⟩
      · have hHere : at? rest t = some (file content) := by
          rw [hPlace, at?_append, at?_of_look hCwd hDir hLook] at hFile
          exact hFile
        rw [(hProper.look hLook).walk_remove hHere hSome]
        refine congrArg _ (List.filter_congr fun p hMem => ?_)
        obtain ⟨below, -, hNames, -, -, hBelow, -⟩ := place_of_walk hProper hCwd hDir hLook hMem
        rw [Function.comp_apply, hBelow, hPlace, hNames, Bool.eq_iff_iff, bne_iff_ne, bne_iff_ne, Ne, Ne,
          List.append_cancel_left_eq, List.append_cancel_left_eq]

end Walk

end Files
end Conform

import Conform.Proofs.FileTree
import Conform.Proofs.Lookup
import Conform.Proofs.Path.Relative

/-! Walks through trees as there are in a file system. Files that are written one after the other make such a tree,
whatever their paths are. What is found below a directory has the names of the directory and then names of its own,
and no two files have the same names, since no two entries of one directory do. -/
namespace Conform

namespace FileTree

/-- Whether a text can be the name of an entry. -/
structure IsEntry (name : Text) : Prop extends Path.IsName name where
  ne_up : Path.up ≠ name

/-- A tree as there are in a file system: entries have names, and those of one directory have different ones. -/
inductive Proper : FileTree → Prop where
  | ofFile (content : Bytes) : Proper (file content)
  | ofDirectory {es : List (Text × FileTree)} (hDistinct : (es.map Prod.fst).Nodup)
      (hNames : ∀ e ∈ es, IsEntry e.1) (hInner : ∀ e ∈ es, Proper e.2) : Proper (directory es)

variable {t inner new : FileTree} {es : List (Text × FileTree)} {parts ns : List Text} {above : List FileTree}
  {name : Text}

theorem Proper.entry (h : (directory es).Proper) (hMem : (name, inner) ∈ es) : inner.Proper := by
  cases h with
  | ofDirectory _ _ hInner => exact hInner _ hMem

/-- What a path leads to is as proper as the tree that it leads through. -/
theorem Proper.locate (h : t.Proper) (hAbove : ∀ u ∈ above, u.Proper) (hFound : t.locate parts above = .ok inner) :
    inner.Proper := by
  induction parts generalizing t above with
  | nil => exact Except.ok.inj hFound ▸ h
  | cons part rest ih =>
      cases t with
      | file content => cases hFound
      | directory es =>
          rw [locate.eq_def] at hFound
          dsimp only at hFound
          split at hFound
          · exact ih h hAbove hFound
          · split at hFound
            · cases above with
              | nil => exact ih h hAbove hFound
              | cons up above =>
                  obtain ⟨hUp, hRest⟩ := List.forall_mem_cons.mp hAbove
                  exact ih hUp hRest hFound
            · split at hFound
              · next hEntry => exact ih (h.entry (mem_of_lookup hEntry)) (List.forall_mem_cons.mpr ⟨h, hAbove⟩) hFound
              · cases hFound

theorem proper_empty : (directory []).Proper := .ofDirectory List.nodup_nil nofun nofun

theorem Proper.entries (h : t.Proper) : (t.entries.map Prod.fst).Nodup ∧ (∀ e ∈ t.entries, IsEntry e.1) ∧
    ∀ e ∈ t.entries, e.2.Proper := by
  cases h with
  | ofFile content => exact ⟨List.nodup_nil, nofun, nofun⟩
  | ofDirectory hDistinct hNames hInner => exact ⟨hDistinct, hNames, hInner⟩

/-- What is put into a tree takes the place of what has its name. -/
theorem Proper.insert (h : t.Proper) (hNew : new.Proper) (hNames : ∀ n ∈ ns, IsEntry n) :
    (t.insert new ns).Proper := by
  induction ns generalizing t with
  | nil => exact hNew
  | cons name rest ih =>
      obtain ⟨hName, hRest⟩ := List.forall_mem_cons.mp hNames
      obtain ⟨hDistinct, hEntries, hProper⟩ := h.entries
      have hInner : (((t.entries.lookup name).getD (directory [])).insert new rest).Proper := by
        refine ih ?_ hRest
        cases hFound : t.entries.lookup name with
        | none => exact proper_empty
        | some u => exact hProper _ (mem_of_lookup hFound)
      rw [FileTree.insert]
      refine .ofDirectory ?_ ?_ ?_
      · rw [List.map_append]
        refine (hDistinct.sublist (List.filter_sublist.map _)).append (List.nodup_singleton _) fun n hMem hNew => ?_
        obtain ⟨e, hKept, rfl⟩ := List.mem_map.mp hMem
        obtain rfl : e.1 = name := by simpa using hNew
        simpa using (List.mem_filter.mp hKept).2
      · intro e hMem
        rcases List.mem_append.mp hMem with hKept | hAdded
        · exact hEntries e (List.mem_filter.mp hKept).1
        · rw [List.mem_singleton.mp hAdded]
          exact hName
      · intro e hMem
        rcases List.mem_append.mp hMem with hKept | hAdded
        · exact hProper e (List.mem_filter.mp hKept).1
        · rw [List.mem_singleton.mp hAdded]
          exact hInner

end FileTree

namespace Files

open FileTree

/-- Files as a program may find them: a proper tree, and a directory whose path starts at the root. -/
structure Proper (fs : Files) : Prop where
  root : fs.root.Proper
  cwd : Path.isAbsolute fs.cwd = true

variable {fs : Files} {path : Text}

theorem Proper.look {t : FileTree} (h : fs.Proper) (hFound : fs.look path = .ok t) : t.Proper :=
  h.root.locate (List.forall_mem_nil _) (locate_of_look hFound).2

/-- Files may be written anywhere: a path has no steps up once it starts at the root. -/
theorem Proper.write (h : fs.Proper) (path : Text) (content : Bytes) : (fs.write path content).Proper where
  root := h.root.insert (.ofFile content) fun _ hMem =>
    ⟨Path.isName_of_mem hMem, fun hUp => Path.up_not_mem_absolute h.cwd path (hUp ▸ hMem)⟩
  cwd := h.cwd

theorem Proper.foldl_write (h : fs.Proper) (contents : List (Text × Bytes)) :
    (contents.foldl (fun fs e => fs.write e.1 e.2) fs).Proper := by
  induction contents generalizing fs with
  | nil => exact h
  | cons e rest ih => exact ih (h.write e.1 e.2)

end Files
end Conform

/-! ### Walks -/

namespace Conform

namespace FileTree

variable {t : FileTree} {es : List (Text × FileTree)} {path name : Text} {found : Text × List Text}
  {ps qs : List Text}

/-- What is to be said of paths that are found below a directory: each has names after those of the directory,
and they are different paths by their names. -/
structure Below (path : Text) (ps : List Text) : Prop where
  names : ∀ p ∈ ps, ∃ n rest, Path.names p = Path.names path ++ n :: rest ∧ Path.up ∉ n :: rest
  isAbsolute : ∀ p ∈ ps, Path.isAbsolute p = Path.isAbsolute path
  nodup : (ps.map Path.names).Nodup

theorem below_nil (path : Text) : Below path [] := ⟨nofun, nofun, List.nodup_nil⟩

namespace IsEntry

variable (h : IsEntry name)

include h

theorem names_join (path : Text) : Path.names (Path.join path name) = Path.names path ++ [name] := by
  rw [Path.names_join h.isAbsolute, Path.names_of_isName h.toIsName]

theorem isAbsolute_join (path : Text) : Path.isAbsolute (Path.join path name) = Path.isAbsolute path :=
  Path.isAbsolute_join h.isAbsolute

end IsEntry

/-- The entries of a directory lie below it. -/
theorem below_map_join {ns : List Text} (hEntries : ∀ n ∈ ns, IsEntry n) (hDistinct : ns.Nodup) (path : Text) :
    Below path (ns.map (Path.join path)) where
  names p hMem := by
    obtain ⟨n, hName, rfl⟩ := List.mem_map.mp hMem
    have hEntry := hEntries n hName
    exact ⟨n, [], hEntry.names_join path, by simpa using hEntry.ne_up⟩
  isAbsolute p hMem := by
    obtain ⟨n, hName, rfl⟩ := List.mem_map.mp hMem
    exact (hEntries n hName).isAbsolute_join path
  nodup := by
    rw [List.map_map]
    refine hDistinct.map_on fun n hName m hOther hSame => ?_
    have hNames : Path.names path ++ [n] = Path.names path ++ [m] := by
      rw [← (hEntries n hName).names_join, ← (hEntries m hOther).names_join]
      exact hSame
    simpa using hNames

/-- What lies below an entry lies below its directory. -/
theorem Below.of_join (h : Below (Path.join path name) ps) (hEntry : IsEntry name) : Below path ps where
  names p hMem := by
    obtain ⟨n, rest, hNames, hUp⟩ := h.names p hMem
    refine ⟨name, n :: rest, ?_, ?_⟩
    · rw [hNames, hEntry.names_join, List.append_assoc]
      rfl
    · exact fun hMem => (List.mem_cons.mp hMem).elim hEntry.ne_up hUp
  isAbsolute p hMem := (h.isAbsolute p hMem).trans (hEntry.isAbsolute_join path)
  nodup := h.nodup

/-- Files that were found in different places are found together. -/
theorem Below.append (h : Below path ps) (h' : Below path qs)
    (hApart : ∀ p ∈ ps, ∀ q ∈ qs, Path.names p ≠ Path.names q) : Below path (ps ++ qs) where
  names p hMem := (List.mem_append.mp hMem).elim (h.names p) (h'.names p)
  isAbsolute p hMem := (List.mem_append.mp hMem).elim (h.isAbsolute p) (h'.isAbsolute p)
  nodup := by
    rw [List.map_append]
    refine h.nodup.append h'.nodup fun ns hMem hMem' => ?_
    obtain ⟨p, hP, rfl⟩ := List.mem_map.mp hMem
    obtain ⟨q, hQ, hSame⟩ := List.mem_map.mp hMem'
    exact hApart p hP q hQ hSame.symm

/-- What was found below each of several entries is found together. -/
theorem below_flatMap {all : List (Text × List Text)} (hDistinct : (all.map Prod.fst).Nodup)
    (hEntries : ∀ e ∈ all, IsEntry e.1) (hBelow : ∀ e ∈ all, Below (Path.join path e.1) e.2) :
    Below path (all.flatMap Prod.snd) := by
  induction all with
  | nil => exact below_nil path
  | cons e rest ih =>
      obtain ⟨hFresh, hDistinct⟩ := List.nodup_cons.mp hDistinct
      obtain ⟨hEntry, hEntries⟩ := List.forall_mem_cons.mp hEntries
      obtain ⟨hHere, hRest⟩ := List.forall_mem_cons.mp hBelow
      rw [List.flatMap_cons]
      refine (hHere.of_join hEntry).append (ih hDistinct hEntries hRest) fun p hP q hQ hSame => ?_
      obtain ⟨other, hOther, hQ⟩ := List.mem_flatMap.mp hQ
      obtain ⟨n, tail, hNames, -⟩ := hHere.names p hP
      obtain ⟨n', tail', hNames', -⟩ := (hRest other hOther).names q hQ
      rw [hNames, hNames', hEntry.names_join, (hEntries other hOther).names_join, List.append_assoc,
        List.append_assoc] at hSame
      have hFirst : e.1 :: n :: tail = other.1 :: n' :: tail' := List.append_cancel_left hSame
      exact hFresh ((List.cons.inj hFirst).1 ▸ List.mem_map_of_mem hOther)

theorem exists_of_mem_walkInside (h : found ∈ walkInside path es) :
    ∃ inner, (found.1, inner) ∈ es ∧ found.2 = inner.walk (Path.join path found.1) := by
  induction es with
  | nil => cases h
  | cons e rest ih =>
      obtain ⟨name, inner⟩ := e
      rw [walkInside] at h
      rcases List.mem_cons.mp h with rfl | hRest
      · exact ⟨inner, List.mem_cons_self, rfl⟩
      · obtain ⟨inner, hMem, hFound⟩ := ih hRest
        exact ⟨inner, List.mem_cons_of_mem _ hMem, hFound⟩

theorem fst_walkInside (path : Text) (es : List (Text × FileTree)) :
    (walkInside path es).map Prod.fst = es.map Prod.fst := by
  induction es with
  | nil => rfl
  | cons e rest ih =>
      obtain ⟨name, inner⟩ := e
      rw [walkInside, List.map_cons, List.map_cons, ih]

/-- A walk finds each file of a tree once. -/
theorem Proper.below_walk (h : t.Proper) (path : Text) : Below path (t.walk path) := by
  induction h generalizing path with
  | ofFile content => exact below_nil path
  | @ofDirectory es hDistinct hNames _ ih =>
      let names := (es.filter fun e => !e.2.isDirectory).map Prod.fst
      let inside := (walkInside path es).mergeSort fun a b => Text.le a.1 b.1
      have hPerm : (Text.sorted names).Perm names := List.mergeSort_perm ..
      have hPerm' : inside.Perm (walkInside path es) := List.mergeSort_perm ..
      have hFiles : ∀ n ∈ Text.sorted names, IsEntry n := by
        intro n hMem
        obtain ⟨e, hEntry, rfl⟩ := List.mem_map.mp (hPerm.mem_iff.mp hMem)
        exact hNames e (List.mem_filter.mp hEntry).1
      have hInside : ∀ e ∈ inside, IsEntry e.1 ∧ Below (Path.join path e.1) e.2 := by
        intro e hMem
        obtain ⟨inner, hEntry, hFound⟩ := exists_of_mem_walkInside (hPerm'.mem_iff.mp hMem)
        exact ⟨hNames _ hEntry, hFound ▸ ih _ hEntry _⟩
      have hBelow : Below path ((Text.sorted names).map (Path.join path)) :=
        below_map_join hFiles (hPerm.nodup_iff.mpr (hDistinct.sublist (List.filter_sublist.map _))) path
      have hBelow' : Below path (inside.flatMap Prod.snd) := by
        refine below_flatMap ?_ (fun e hMem => (hInside e hMem).1) fun e hMem => (hInside e hMem).2
        rw [(hPerm'.map Prod.fst).nodup_iff, fst_walkInside]
        exact hDistinct
      -- The files of the directory have one name after those of the directory, and all others have more.
      refine hBelow.append hBelow' fun p hP q hQ hSame => ?_
      obtain ⟨n, hName, rfl⟩ := List.mem_map.mp hP
      obtain ⟨e, hEntry, hQ⟩ := List.mem_flatMap.mp hQ
      obtain ⟨hName', hInner⟩ := hInside e hEntry
      obtain ⟨first, rest, hNames', -⟩ := hInner.names q hQ
      rw [(hFiles n hName).names_join, hNames', hName'.names_join, List.append_assoc] at hSame
      cases List.append_cancel_left hSame

/-- A directory of files alone is gone through in the order of its entries, if they are in order. -/
theorem walk_of_files (hFiles : ∀ e ∈ es, e.2.isDirectory = false)
    (hOrder : (es.map Prod.fst).Pairwise fun a b => Text.le a b = true) (path : Text) :
    (directory es).walk path = es.map fun e => Path.join path e.1 := by
  have hAll : es.filter (fun e => !e.2.isDirectory) = es :=
    List.filter_eq_self.mpr fun e hMem => by rw [hFiles e hMem, Bool.not_false]
  have hNone : ∀ e ∈ walkInside path es, e.2 = [] := by
    intro e hMem
    obtain ⟨inner, hEntry, hFound⟩ := exists_of_mem_walkInside hMem
    cases inner with
    | file content => exact hFound
    | directory es' => cases hFiles _ hEntry
  have hEmpty : ((walkInside path es).mergeSort fun a b => Text.le a.1 b.1).flatMap Prod.snd = [] :=
    List.flatMap_eq_nil_iff.mpr fun e hMem => hNone e (List.mem_mergeSort.mp hMem)
  rw [walk, hAll, Text.sorted, List.mergeSort_of_pairwise hOrder, List.map_map]
  exact (congrArg (_ ++ ·) hEmpty).trans (List.append_nil _)

/-- Paths that are found below a directory are found below it as well once they are written without empty parts. -/
theorem Below.map_tidy (h : Below path ps) : Below path (ps.map Path.tidy) where
  names p hMem := by
    obtain ⟨q, hFound, rfl⟩ := List.mem_map.mp hMem
    rw [Path.names_tidy]
    exact h.names q hFound
  isAbsolute p hMem := by
    obtain ⟨q, hFound, rfl⟩ := List.mem_map.mp hMem
    rw [Path.isAbsolute_tidy]
    exact h.isAbsolute q hFound
  nodup := by
    rw [List.map_map, show Path.names ∘ Path.tidy = Path.names from funext Path.names_tidy]
    exact h.nodup

end FileTree

/-- A walk from any directory finds each file below it once. -/
theorem Files.Proper.below_walk {fs : Files} (h : fs.Proper) (path : Text) : FileTree.Below path (fs.walk path) := by
  unfold Files.walk
  split
  · next hFound => exact ((h.look hFound).below_walk path).map_tidy
  · exact FileTree.below_nil path

end Conform

import Conform.Proofs.FileTree.Removal
import Conform.Proofs.Path.Location
import Conform.Proofs.Except
import Mathlib

/-! What a walk from a directory finds. The files at or below the directory whose paths are accepted are listed, each
once and in order, so the list is known from what the tree holds: a tree whose directories list their entries in
another order is gone through in the same way. -/
namespace Conform

namespace Path

/-- The path of what is found under some names from a directory. -/
def under (dir : Text) (ns : List Text) : Text := ofNames (rootOf dir) (names dir ++ ns)

end Path

namespace FileTree

variable {t u inner : FileTree} {es es' : List (Text × FileTree)} {ns parts : List Text} {above above' : List FileTree}

/-- The order in which a directory lists its entries does not count. -/
theorem same_of_perm (h : es.Perm es') (hDistinct : (es.map Prod.fst).Nodup) : Same (directory es) (directory es') := by
  intro ns
  cases ns with
  | nil => rfl
  | cons name rest => rw [at?, at?, lookup_eq_of_perm h hDistinct]

theorem Proper.of_perm (h : (directory es).Proper) (hPerm : es.Perm es') : (directory es').Proper := by
  obtain ⟨hDistinct, hNames, hInner⟩ : (es.map Prod.fst).Nodup ∧ _ := h.entries
  exact .ofDirectory ((hPerm.map Prod.fst).nodup_iff.mp hDistinct) (fun e hMem => hNames e (hPerm.mem_iff.mpr hMem))
    fun e hMem => hInner e (hPerm.mem_iff.mpr hMem)

theorem Same.symm (h : Same t u) : Same u t := fun ns => (h ns).symm

/-- Trees that hold the same have the same files. -/
theorem Same.hasFile (h : Same t u) (hFile : t.HasFile ns) : u.HasFile ns := by
  obtain ⟨hSome, content, hAt⟩ := hFile
  have hContent : (at? ns u).map content? = some (some content) := by
    rw [← h ns, hAt]
    rfl
  obtain ⟨inner, hInner, hFile⟩ := Option.map_eq_some_iff.mp hContent
  cases inner with
  | directory es => cases hFile
  | file content => exact ⟨hSome, content, hInner⟩

/-- A path leads alike through trees that hold the same, steps up included. -/
theorem Same.related_locate (h : Same t u) (hAbove : List.Forall₂ Same above above') :
    Related Same (t.locate parts above) (u.locate parts above') := by
  induction parts generalizing t u above above' with
  | nil => exact .ok h
  | cons part rest ih =>
      cases t with
      | file content =>
          cases u with
          | file _ => exact .error _
          | directory _ => cases h.content_eq
      | directory es =>
          cases u with
          | file _ => cases h.content_eq
          | directory es' =>
              rw [FileTree.locate.eq_def, FileTree.locate.eq_def (part :: rest)]
              dsimp only
              split
              · exact ih h hAbove
              · split
                · cases hAbove with
                  | nil => exact ih h .nil
                  | cons hUp hAbove => exact ih hUp hAbove
                · rcases h.entry part with ⟨hLeft, hRight⟩ | ⟨t, u, hLeft, hRight, hInner⟩
                  · rw [hLeft, hRight]
                    exact .error _
                  · rw [hLeft, hRight]
                    exact ih hInner (.cons h hAbove)

/-- The path of a file as a walk writes it. -/
theorem tidy_foldl_join (h : ∀ n ∈ ns, IsEntry n) (path : Text) :
    Path.tidy (ns.foldl Path.join path) = Path.under path ns := by
  have hRoot : Path.rootOf (ns.foldl Path.join path) = Path.rootOf path := by
    induction ns generalizing path with
    | nil => rfl
    | cons name rest ih =>
        obtain ⟨hName, hRest⟩ := List.forall_mem_cons.mp h
        rw [List.foldl_cons, ih hRest, Path.rootOf_join hName.isAbsolute]
  rw [Path.tidy, hRoot, names_foldl_join h, Path.under]

end FileTree

namespace Files

open FileTree

variable {fs fs' : Files} {dir p : Text} {ns : List Text} {t : FileTree}

/-- Whether there is a file at the end of some names, in or below the directory that a path names. -/
def HasFile (fs : Files) (dir : Text) (ns : List Text) : Prop := ∃ t, fs.look dir = .ok t ∧ t.HasFile ns

theorem look_of_same (hRoot : Same fs.root fs'.root) (hCwd : fs'.cwd = fs.cwd) (h : fs.look p = .ok t) :
    ∃ u, fs'.look p = .ok u ∧ Same t u := by
  obtain ⟨hLimit, hFound⟩ := locate_of_look h
  have hBoth : Related Same (fs.root.locate (Text.splitOn '/' (fs.whole p)) [])
      (fs'.root.locate (Text.splitOn '/' (fs'.whole p)) []) := by
    rw [whole, whole, hCwd]
    exact hRoot.related_locate .nil
  rw [hFound] at hBoth
  generalize hOther : fs'.root.locate (Text.splitOn '/' (fs'.whole p)) [] = found at hBoth
  cases hBoth with
  | ok hSame => exact ⟨_, look_of_locate hLimit hOther, hSame⟩

theorem HasFile.of_same (hRoot : Same fs.root fs'.root) (hCwd : fs'.cwd = fs.cwd) (h : fs.HasFile dir ns) :
    fs'.HasFile dir ns := by
  obtain ⟨t, hLook, hFile⟩ := h
  obtain ⟨u, hLook', hSame⟩ := look_of_same hRoot hCwd hLook
  exact ⟨u, hLook', hSame.hasFile hFile⟩

/-- A walk lists the files at or below a directory in order. -/
theorem Proper.exists_listing (h : fs.Proper) (dir : Text) : ∃ places, Listing (fs.HasFile dir) places ∧
    fs.walk dir = places.map (Path.under dir) := by
  unfold walk
  cases hLook : fs.look dir with
  | error f => exact ⟨[], ⟨by simp [HasFile, hLook], .nil⟩, rfl⟩
  | ok t =>
      have hProper := h.look hLook
      obtain ⟨places, hListing, hWalk⟩ := hProper.exists_listing
      refine ⟨places, ⟨by simpa [HasFile, hLook] using hListing.mem_iff, hListing.order⟩, ?_⟩
      dsimp only
      rw [hWalk, List.map_map]
      refine List.map_congr_left fun ns hMem => ?_
      obtain ⟨-, content, hAt⟩ := (hListing.mem_iff ns).mp hMem
      exact tidy_foldl_join (hProper.isEntry_of_at? hAt) dir

/-- A walk yields each accepted file at or below a directory once and nothing else: in each directory the files by
name, and then those of the subdirectories, which are visited by name. The order in which the entries of directories
are listed makes no difference to it. -/
theorem Proper.walk_accepted (h : fs.Proper) (dir : Text) (accept : Text → Bool) :
    ((fs.walk dir).filter accept).Nodup ∧
    (∃ places, Listing (fun ns => fs.HasFile dir ns ∧ accept (Path.under dir ns) = true) places ∧
      (fs.walk dir).filter accept = places.map (Path.under dir)) ∧
    ∀ fs' : Files, fs'.Proper → fs'.cwd = fs.cwd → Same fs.root fs'.root →
      (fs'.walk dir).filter accept = (fs.walk dir).filter accept := by
  obtain ⟨places, hListing, hWalk⟩ := h.exists_listing dir
  refine ⟨(List.Nodup.of_map _ (h.below_walk dir).nodup).filter accept, ⟨_, hListing.filter (accept ∘ Path.under dir), ?_⟩,
    fun fs' h' hCwd hRoot => ?_⟩
  · rw [hWalk, List.filter_map]
  · obtain ⟨places', hListing', hWalk'⟩ := h'.exists_listing dir
    have hHeld : ∀ ns, fs'.HasFile dir ns ↔ fs.HasFile dir ns := fun ns =>
      ⟨HasFile.of_same hRoot.symm hCwd.symm, HasFile.of_same hRoot hCwd⟩
    rw [hWalk, hWalk', hListing'.unique hListing hHeld]

/-- Files and a directory whose names are not in order. -/
def scattered : List (Text × FileTree) :=
  [("d", .directory [("c", .file [])]), ("b.txt", .file []), ("z", .file []), ("a", .file [])]

theorem walk_accepted_scattered : (⟨.directory scattered, "/"⟩ : Files).Proper ∧
    (⟨.directory scattered.reverse, "/"⟩ : Files).Proper ∧
    Same (.directory scattered) (.directory scattered.reverse) ∧
    (walk ⟨.directory scattered, "/"⟩ "/").filter (· != Text.ofString "/z") =
      [Text.ofString "/a", Text.ofString "/b.txt", Text.ofString "/d/c"] ∧
    (walk ⟨.directory scattered.reverse, "/"⟩ "/").filter (· != Text.ofString "/z") =
      [Text.ofString "/a", Text.ofString "/b.txt", Text.ofString "/d/c"] := by
  have hEmpty : (⟨directory [], "/"⟩ : Files).Proper := ⟨proper_empty, by decide⟩
  -- The tree is what comes of writing these files, one after the other.
  have hRoot : (directory scattered).Proper :=
    (hEmpty.foldl_write [("/d/c", []), ("/b.txt", []), ("/z", []), ("/a", [])]).root
  have hSame : Same (.directory scattered) (.directory scattered.reverse) :=
    same_of_perm (List.reverse_perm scattered).symm (by decide)
  have hProper : (⟨.directory scattered, "/"⟩ : Files).Proper := ⟨hRoot, by decide⟩
  have hProper' : (⟨.directory scattered.reverse, "/"⟩ : Files).Proper :=
    ⟨hRoot.of_perm (List.reverse_perm scattered).symm, by decide⟩
  have hWalk : (walk ⟨.directory scattered, "/"⟩ "/").filter (· != Text.ofString "/z") =
      [Text.ofString "/a", Text.ofString "/b.txt", Text.ofString "/d/c"] := by
    cbv
  obtain ⟨-, -, hOrder⟩ := hProper.walk_accepted "/" (· != Text.ofString "/z")
  exact ⟨hProper, hProper', hSame, hWalk, (hOrder _ hProper' rfl hSame).trans hWalk⟩

end Files
end Conform

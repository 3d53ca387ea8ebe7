import Conform.FileTree
import Conform.Proofs.Except
import Conform.Proofs.Path.Location

/-! Looking up paths. What is found under a path is decided by the part of the tree that the path leads through, so
two trees that hold the same under some directory answer alike for every path into it, whatever else is in them. Steps
up go back through the directories that were passed; if this comes to an end, it does so at the place to which the
path is followed by its names alone. -/
namespace Conform

namespace FileTree

/-- What stands at the end of a list of names, with no steps up or blank ones among them. -/
def at? : List Text → FileTree → Option FileTree
  | [], t => some t
  | _ :: _, file _ => none
  | name :: rest, directory es => (es.lookup name).bind (at? rest)

/-- The content of a file; a directory has none. -/
def content? : FileTree → Option Bytes
  | file content => some content
  | directory _ => none

/-- Whether two trees hold the same: under the same names files with the same content, or directories. The
order in which a directory lists its entries does not count. -/
def Same (t u : FileTree) : Prop := ∀ ns, (at? ns t).map content? = (at? ns u).map content?

variable {t u t' u' inner : FileTree} {es es' : List (Text × FileTree)} {parts ns : List Text}
  {above above' : List FileTree}

theorem exists_of_at?_cons {name : Text} (h : at? (name :: ns) t = some inner) :
    ∃ es next, t = directory es ∧ es.lookup name = some next ∧ at? ns next = some inner := by
  cases t with
  | file _ => cases h
  | directory es =>
      obtain ⟨next, hEntry, hInner⟩ := Option.bind_eq_some_iff.mp h
      exact ⟨es, next, rfl, hEntry, hInner⟩

theorem at?_append (ns ms : List Text) (t : FileTree) : at? (ns ++ ms) t = (at? ns t).bind (at? ms) := by
  induction ns generalizing t with
  | nil => rfl
  | cons name ns ih =>
      cases t with
      | file _ => rfl
      | directory es =>
          rw [List.cons_append, at?, at?, Option.bind_assoc]
          exact congrArg _ (funext ih)

theorem Same.refl (t : FileTree) : Same t t := fun _ => rfl

theorem Same.content_eq (h : Same t u) : content? t = content? u := Option.some.inj (h [])

/-- What two directories that hold the same have under a name holds the same. -/
theorem Same.entry (h : Same (directory es) (directory es')) (name : Text) :
    (es.lookup name = none ∧ es'.lookup name = none) ∨
      ∃ t u, es.lookup name = some t ∧ es'.lookup name = some u ∧ Same t u := by
  have hBelow : ∀ ns, ((es.lookup name).bind (at? ns)).map content? = ((es'.lookup name).bind (at? ns)).map content? :=
    fun ns => h (name :: ns)
  cases hLeft : es.lookup name with
  | none =>
      cases hRight : es'.lookup name with
      | none => exact Or.inl ⟨rfl, rfl⟩
      | some u =>
          rw [hLeft, hRight] at hBelow
          cases hBelow []
  | some t =>
      cases hRight : es'.lookup name with
      | none =>
          rw [hLeft, hRight] at hBelow
          cases hBelow []
      | some u =>
          rw [hLeft, hRight] at hBelow
          exact Or.inr ⟨t, u, rfl, rfl, hBelow⟩

/-- From a directory the way goes on below it, past parts that name nothing. -/
theorem locate_directory {part : Text} (hUp : Path.up ≠ part) : locate (part :: parts) above (directory es) =
    if Path.isNamed part then
      match es.lookup part with
      | some inner => locate parts (directory es :: above) inner
      | none => .error (if maxName < part.utf8.length then .nameTooLong else .missing)
    else locate parts above (directory es) := by
  have hNotUp : (part == Text.ofString "..") = false := beq_eq_false_iff_ne.mpr (Ne.symm hUp)
  rw [locate.eq_def, Path.isNamed, bne]
  dsimp only
  rw [hNotUp]
  cases part.isEmpty <;> cases part == Text.ofString "." <;> rfl

/-- Going down alike in two trees that hold the same comes to the same, at every depth. -/
theorem Same.locate (h : Same t u) (hUp : Path.up ∉ parts) :
    (locate parts above t).map content? = (locate parts above' u).map content? := by
  induction parts generalizing t u above above' with
  | nil => exact congrArg Except.ok h.content_eq
  | cons part rest ih =>
      obtain ⟨hHere, hRest⟩ : Path.up ≠ part ∧ Path.up ∉ rest := by simpa using hUp
      cases t with
      | file _ =>
          cases u with
          | file _ => rfl
          | directory _ => cases h.content_eq
      | directory es =>
          cases u with
          | file _ => cases h.content_eq
          | directory es' =>
              rw [locate_directory hHere, locate_directory hHere]
              split
              · rcases h.entry part with ⟨hLeft, hRight⟩ | ⟨t, u, hLeft, hRight, hInner⟩
                · rw [hLeft, hRight]
                · rw [hLeft, hRight]
                  exact ih hInner hRest
              · exact ih h hRest

/-- Trees that hold the same at the end of some names come to the same for every path that begins with these
names. -/
theorem locate_congr (above above' : List FileTree) (hLeft : at? ns t = some t') (hRight : at? ns u = some u') (hSame : Same t' u')
    (hUp : Path.up ∉ parts) (hNames : ns <+: parts.filter Path.isNamed) :
    (locate parts above t).map content? = (locate parts above' u).map content? := by
  induction parts generalizing ns t u above above' with
  | nil =>
      obtain rfl : ns = [] := List.prefix_nil.mp hNames
      obtain rfl : t = t' := Option.some.inj hLeft
      obtain rfl : u = u' := Option.some.inj hRight
      exact hSame.locate hUp
  | cons part rest ih =>
      cases ns with
      | nil =>
          obtain rfl : t = t' := Option.some.inj hLeft
          obtain rfl : u = u' := Option.some.inj hRight
          exact hSame.locate hUp
      | cons name ns =>
          -- Both trees are directories, since there is something below.
          obtain ⟨es, t, rfl, hEntry, hInner⟩ := exists_of_at?_cons hLeft
          obtain ⟨es', u, rfl, hEntry', hInner'⟩ := exists_of_at?_cons hRight
          obtain ⟨hHere, hRest⟩ : Path.up ≠ part ∧ Path.up ∉ rest := by simpa using hUp
          rw [locate_directory hHere, locate_directory hHere]
          split
          · next hNamed =>
              rw [List.filter_cons_of_pos hNamed] at hNames
              obtain ⟨rfl, hBelow⟩ := List.cons_prefix_cons.mp hNames
              rw [hEntry, hEntry']
              exact ih _ _ hInner hInner' hRest hBelow
          · next hBlank =>
              rw [List.filter_cons_of_neg hBlank] at hNames
              exact ih _ _ hLeft hRight hRest hNames

/-! ### Places in a tree -/

variable {root : FileTree}

/-- Where one stands after going down from the root along some names: the directories that were passed, the nearest
first, and what was reached. -/
inductive Stands (root : FileTree) : List Text → List FileTree → FileTree → Prop where
  | top : Stands root [] [] root
  | down {ns : List Text} {above : List FileTree} {es : List (Text × FileTree)} {name : Text} {inner : FileTree}
      (prior : Stands root ns above (directory es)) (hEntry : es.lookup name = some inner) :
      Stands root (ns ++ [name]) (directory es :: above) inner

theorem Stands.at?_eq (h : Stands root ns above t) : at? ns root = some t := by
  induction h with
  | top => rfl
  | down _ hEntry ih =>
      rw [at?_append, ih, Option.bind_some, at?, hEntry]
      rfl

/-- A step up goes back to the directory that was passed last. -/
theorem Stands.up (h : Stands root ns (u :: above) t) : Stands root ns.dropLast above u := by
  cases h with
  | down prior _ => rwa [List.dropLast_concat]

/-- What a path leads to stands where it is followed to. -/
theorem Stands.locate (h : Stands root ns above t) (hFound : locate parts above t = .ok u) :
    at? (Path.follow ns parts) root = some u := by
  induction parts generalizing ns above t with
  | nil =>
      obtain rfl : t = u := Except.ok.inj hFound
      exact h.at?_eq
  | cons part rest ih =>
      rw [show Path.follow ns (part :: rest) = Path.follow (Path.step ns part) rest from rfl]
      cases t with
      | file content => cases hFound
      | directory es =>
          rw [FileTree.locate.eq_def] at hFound
          dsimp only at hFound
          split at hFound
          · next hBlank =>
              have hNamed : ¬Path.isNamed part = true := by
                simpa [Path.isNamed, or_iff_not_imp_left] using hBlank
              rw [Path.step, if_neg hNamed]
              exact ih h hFound
          · next hSome =>
              have hNamed : Path.isNamed part = true := by simpa [Path.isNamed] using hSome
              rw [Path.step, if_pos hNamed]
              split at hFound
              · next hUp =>
                  rw [if_pos (show (part == Path.up) = true from hUp)]
                  cases above with
                  | nil => cases h with
                    | top => exact ih .top hFound
                  | cons up above => exact ih h.up hFound
              · next hDown =>
                  rw [if_neg (show ¬(part == Path.up) = true from hDown)]
                  split at hFound
                  · next hEntry => exact ih (.down h hEntry) hFound
                  · cases hFound

end FileTree

namespace Files

open FileTree

variable {fs : Files} {root root' : FileTree} {cwd path dir p : Text} {u : FileTree}

/-- A path as it is looked up, from the root or from the directory that others are read in. -/
def whole (fs : Files) (p : Text) : Text := if Path.isAbsolute p then p else fs.cwd ++ "/" ++ p

theorem names_whole (hCwd : Path.up ∉ Path.names fs.cwd) (hUp : Path.up ∉ Path.names p) :
    Path.names (fs.whole p) = fs.place p := by
  rw [place, Path.names_absolute hCwd hUp, whole, ← Path.names_append_slash]
  exact apply_ite Path.names ..

theorem up_not_mem_whole (hCwd : Path.up ∉ Path.names fs.cwd) (hUp : Path.up ∉ Path.names p) :
    Path.up ∉ Text.splitOn '/' (fs.whole p) := by
  intro hMem
  have hNames : Path.up ∈ Path.names (fs.whole p) := List.mem_filter.mpr ⟨hMem, by decide⟩
  rw [names_whole hCwd hUp] at hNames
  exact Path.up_not_mem_names_absolute hCwd hUp hNames

/-- What is wrong with a path whatever there is. -/
def limit? (p : Text) : Option Failure :=
  if p.any (·.val == 0) then some .nulInPath
  else if p.isEmpty then some (.access .missing p)
  else if maxPath < p.utf8.length then some (.access .nameTooLong p)
  else none

theorem look_eq (fs : Files) (p : Text) : fs.look p = match limit? p with
    | some f => .error f
    | none => (locate (Text.splitOn '/' (fs.whole p)) [] fs.root).mapError (.access · p) := by
  unfold look limit?
  split
  · rfl
  · split
    · rfl
    · split <;> rfl

theorem locate_of_look (h : fs.look p = .ok u) :
    limit? p = none ∧ locate (Text.splitOn '/' (fs.whole p)) [] fs.root = .ok u := by
  rw [look_eq] at h
  split at h
  · cases h
  · next hLimit => exact ⟨hLimit, exists_of_mapError_ok h⟩

theorem look_of_locate (hLimit : limit? p = none) (h : locate (Text.splitOn '/' (fs.whole p)) [] fs.root = .ok u) :
    fs.look p = .ok u := by
  rw [look_eq, hLimit, h]
  rfl

/-- What a path names stands at its place, whatever steps up there are in it. -/
theorem at?_place_of_look (hCwd : Path.isAbsolute fs.cwd = true) (h : fs.look p = .ok u) :
    at? (fs.place p) fs.root = some u := by
  have hWhole : Path.follow [] (Text.splitOn '/' (fs.whole p)) = fs.place p := by
    rw [place, Path.names_absolute_eq hCwd, Path.location, whole]
    cases Path.isAbsolute p with
    | true => rfl
    | false =>
        simp only [Bool.false_eq_true, if_false]
        rw [Path.splitOn_append_slash, Path.follow_append]
  rw [← hWhole]
  exact Stands.top.locate (locate_of_look h).2

/-- Whether a directory exists in two trees and holds the same in both. -/
def AgreeAt (fs fs' : Files) (dir : Text) : Prop :=
  ∃ t t', at? (fs.place dir) fs.root = some t ∧ at? (fs'.place dir) fs'.root = some t' ∧ Same t t'

/-- A path without steps up into a directory that two trees agree on names the same in both. -/
theorem look_congr (hCwd : Path.up ∉ Path.names cwd) (hPath : Path.up ∉ Path.names path)
    (hWithin : Path.isWithin cwd path dir = true) (hAgree : AgreeAt ⟨root, cwd⟩ ⟨root', cwd⟩ dir) :
    (look ⟨root, cwd⟩ path).map content? = (look ⟨root', cwd⟩ path).map content? := by
  obtain ⟨t, t', hLeft, hRight, hSame⟩ := hAgree
  have hPlace : place ⟨root, cwd⟩ dir <+: Path.names (whole ⟨root, cwd⟩ path) := by
    rw [names_whole hCwd hPath]
    exact Path.prefix_of_isWithin hWithin
  have hFound := locate_congr [] [] hLeft hRight hSame (up_not_mem_whole hCwd hPath) hPlace
  rw [look_eq, look_eq]
  cases limit? path with
  | some f => rfl
  | none => exact map_mapError_congr hFound

end Files
end Conform

import Conform.Proofs.FileTree.Listing
import Conform.Proofs.Path.Within
import Conform.Proofs.Suite.Discovery
import Conform.Proofs.Text.Lower

/-! The repository that a suite is in, and the files of the suite as seen from there. The search goes up from the
directory with the data to the nearest one that has a repository's mark in it, and each way from there to a file leads
to the file again when it is put behind the path of the repository. -/
namespace Conform

namespace Path

variable {p cwd dir q q' : Text} {ms rest ns : List Text}

/-- A path from the root in its normal form. -/
structure IsRooted (p : Text) : Prop where
  isAbsolute : isAbsolute p = true
  normal_eq : normal p = p

theorem isRooted_absolute (hCwd : isAbsolute cwd = true) (p : Text) : IsRooted (absolute cwd p) where
  isAbsolute := isAbsolute_absolute hCwd p
  normal_eq := normal_normal (up_not_mem_absolute hCwd p)

/-- The directory that some of the names of a path lead to. -/
def above (p : Text) (ms : List Text) : Text := ofNames (rootOf p) ms

theorem rootOf_mem_of_isAbsolute (h : isAbsolute p = true) : rootOf p ∈ (["/", "//"] : List Text) := by
  refine (List.mem_cons.mp (rootOf_mem p)).resolve_left fun hNone => ?_
  rw [← isEmpty_rootOf, hNone] at h
  cases h

namespace IsRooted

theorem rootOf_mem (h : IsRooted p) : rootOf p ∈ (["/", "//"] : List Text) := rootOf_mem_of_isAbsolute h.isAbsolute

theorem up_not_mem (h : IsRooted p) : up ∉ names p := by
  rw [← h.normal_eq, names_normal, h.isAbsolute]
  exact up_not_mem_resolveUp _

theorem above_names (h : IsRooted p) : above p (names p) = p := by
  have hNormal := Path.normal_eq p
  rw [h.normal_eq] at hNormal
  exact hNormal.symm

theorem isName_of_above (hAbove : ms <+: names p) : ∀ n ∈ ms, IsName n := fun _ hMem =>
  isName_of_mem (hAbove.subset hMem)

theorem names_above (h : IsRooted p) (hAbove : ms <+: names p) : names (above p ms) = ms :=
  names_ofNames (List.mem_cons_of_mem _ h.rootOf_mem) (isName_of_above hAbove)

theorem isAbsolute_above (h : IsRooted p) (hAbove : ms <+: names p) : Path.isAbsolute (above p ms) = true := by
  rw [above, isAbsolute_ofNames (List.mem_cons_of_mem _ h.rootOf_mem) (isName_of_above hAbove), isEmpty_rootOf,
    h.isAbsolute]

/-- The way to what is under a directory above, put behind the path of that directory. -/
theorem join_above (h : IsRooted p) (hAbove : ms <+: names p) (hNs : ∀ n ∈ ns, IsName n) (hSome : ns ≠ []) :
    join (above p ms) (ofNames [] ns) = above p (ms ++ ns) :=
  join_ofNames h.rootOf_mem (isName_of_above hAbove) hNs hSome

/-- The path of a directory above is the start of the path. -/
theorem above_isPrefix (h : IsRooted p) (hAbove : ms <+: names p) : above p ms <+: p := by
  obtain ⟨rest, hRest⟩ := hAbove
  by_cases hHere : rest = []
  · rw [hHere, List.append_nil] at hRest
    rw [hRest, h.above_names]
  · have hNames : ∀ n ∈ rest, IsName n := fun n hMem => isName_of_mem (hRest ▸ List.mem_append_right _ hMem)
    have hJoin := h.join_above ⟨rest, hRest⟩ hNames hHere
    rw [hRest, h.above_names] at hJoin
    have hRelative : Path.isAbsolute (ofNames [] rest) = false := by
      rw [isAbsolute_ofNames (by simp) hNames]
      rfl
    obtain ⟨more, hMore, -⟩ := exists_join_eq hRelative (above p ms)
    exact ⟨more, hMore.symm.trans hJoin⟩

end IsRooted

theorem join_injective (h : isAbsolute q = false) (h' : isAbsolute q' = false) (hSame : join dir q = join dir q') :
    q = q' := by
  rw [join, join, h, h', if_neg Bool.false_ne_true, if_neg Bool.false_ne_true] at hSame
  split at hSame
  · exact List.append_cancel_left hSame
  · exact List.append_cancel_left hSame

/-- The way from a directory down to what is under it. -/
theorem normal_relative_eq (hAbsolute : isAbsolute p = true) (hUp : up ∉ names p) (hDir : isAbsolute dir = true)
    (hNames : names p = names dir ++ ns) : normal (relative cwd p dir) = ofNames [] ns := by
  have hThere : names (absolute cwd p) = names dir ++ ns := (names_absolute_of_isAbsolute hAbsolute hUp).trans hNames
  have hHere : names (absolute cwd dir) = names dir :=
    names_absolute_of_isAbsolute hDir fun hMem => hUp (hNames ▸ List.mem_append_left ns hMem)
  have hShared : commonLength (names dir) (names dir ++ ns) = (names dir).length :=
    commonLength_of_prefix (List.prefix_append _ _)
  have hNs : ∀ n ∈ ns, IsName n := fun n hMem => isName_of_mem (hNames ▸ List.mem_append_right _ hMem)
  have hWay : relative cwd p dir = ofNames [] ns := by
    rw [relative, hThere, hHere, hShared, Nat.sub_self, List.drop_left]
    rfl
  rw [hWay, normal, names_ofNames (by simp) hNs, rootOf_ofNames (by simp) hNs,
    resolveUp_of_not_mem _ fun hMem => hUp (hNames ▸ List.mem_append_right _ hMem)]

end Path

namespace Suite

open FileTree (at?)

variable {fs : Files} {start root dataRoot clean : Text} {exclude ms ns : List Text}

/-- Whether there is an entry `.git` in the directory that some of the names of a path lead to, and its path is not too
long to be looked up. -/
def Marked (fs : Files) (start : Text) (ms : List Text) : Prop :=
  (∃ t, at? (ms ++ [Text.ofString ".git"]) fs.root = some t) ∧
    (Path.join (Path.above start ms) ".git").utf8.length ≤ FileTree.maxPath

/-- Whether a directory is the nearest marked one at or above a directory, or that directory itself if there is none. -/
inductive IsRepositoryOf (fs : Files) (start : Text) : Text → Prop where
  | marked {ms : List Text} (hAbove : ms <+: Path.names start) (hMarked : Marked fs start ms)
      (hNearest : ∀ ks, ks <+: Path.names start → Marked fs start ks → ks.length ≤ ms.length) :
      IsRepositoryOf fs start (Path.above start ms)
  | alone (hNone : ∀ ks, ks <+: Path.names start → ¬ Marked fs start ks) : IsRepositoryOf fs start start

/-- Whether a file at the end of some names holds data by its ending. -/
def IsDataFile (ns : List Text) : Prop :=
  ∃ name ∈ ns.getLast?, ∃ ending ∈ ([".yaml", ".yml", ".json"] : List Text), name.EndsAnyCase ending

theorem isName_git : Path.IsName ".git" where
  ne_nil := by decide
  ne_here := by decide
  free c hMem := by
    have hAll : (Text.ofString ".git").all (·.char != '/') = true := by decide
    simpa using List.all_eq_true.mp hAll c hMem

section Search

variable (hCwd : Path.isAbsolute fs.cwd = true) (hStart : Path.IsRooted start)
  (hPlain : start.any (·.val == 0) = false)

include hCwd hStart hPlain in
/-- A mark is found by its path. -/
theorem exists_git_iff (hAbove : ms <+: Path.names start) :
    fs.exists_ (Path.join (Path.above start ms) ".git") = true ↔ Marked fs start ms := by
  let p := Path.join (Path.above start ms) ".git"
  have hNs : ∀ n ∈ ms ++ [Text.ofString ".git"], Path.IsName n := List.forall_mem_append.mpr
    ⟨Path.IsRooted.isName_of_above hAbove, List.forall_mem_singleton.mpr isName_git⟩
  have hPath : p = Path.above start (ms ++ [Text.ofString ".git"]) :=
    hStart.join_above hAbove (List.forall_mem_singleton.mpr isName_git) (List.cons_ne_nil _ _)
  have hNames : Path.names p = ms ++ [Text.ofString ".git"] :=
    hPath ▸ Path.names_ofNames (List.mem_cons_of_mem _ hStart.rootOf_mem) hNs
  have hAbsolute : Path.isAbsolute p = true :=
    (Path.isAbsolute_join (by decide)).trans (hStart.isAbsolute_above hAbove)
  have hUp : Path.up ∉ Path.names p := by
    rw [hNames]
    have hElse : Path.up ≠ Text.ofString ".git" := by decide
    exact fun hMem => (List.mem_append.mp hMem).elim (fun hMs => hStart.up_not_mem (hAbove.subset hMs))
      fun hLast => hElse (List.mem_singleton.mp hLast)
  have hPlace : fs.place p = ms ++ [Text.ofString ".git"] :=
    (Path.names_absolute_of_isAbsolute hAbsolute hUp).trans hNames
  have hWhole : fs.whole p = p := if_pos hAbsolute
  have hNul : p.any (·.val == 0) = false := by
    obtain ⟨more, hMore⟩ := hStart.above_isPrefix hAbove
    have hDir : (Path.above start ms).any (·.val == 0) = false := by
      rw [← hMore, List.any_append, Bool.or_eq_false_iff] at hPlain
      exact hPlain.1
    change (Path.join _ _).any _ = false
    rw [Path.join, if_neg (by decide)]
    split <;> simp only [List.any_append, hDir] <;> decide
  have hLimit : Files.limit? p = none ↔ p.utf8.length ≤ FileTree.maxPath := by
    have hFilled : p.isEmpty = false := List.isEmpty_eq_false_iff.mpr fun hNone => by
      rw [hNone] at hAbsolute
      cases hAbsolute
    rw [Files.limit?, hNul, hFilled, if_neg Bool.false_ne_true, if_neg Bool.false_ne_true]
    split <;> simp_all
  constructor
  · intro hExists
    obtain ⟨u, hLook⟩ := exists_of_isOk hExists
    exact ⟨⟨u, hPlace ▸ Files.at?_place_of_look hCwd hLook⟩, hLimit.mp (Files.locate_of_look hLook).1⟩
  · rintro ⟨⟨u, hAt⟩, hLength⟩
    have hEnd : ∀ last ∈ (Text.splitOn '/' p).getLast?, Path.isNamed last = true := by
      rw [hPath, Path.above, Path.getLast?_splitOn_ofNames (List.mem_cons_of_mem _ hStart.rootOf_mem) hNs (by simp),
        List.getLast?_concat]
      exact fun last hLast => Option.some.inj hLast ▸ Path.isNamed_of_isName isName_git
    have hLocated : fs.root.locate (Text.splitOn '/' (fs.whole p)) [] = .ok u := by
      rw [hWhole]
      refine FileTree.locate_of_at? (fun hMem => hUp (List.mem_filter.mpr ⟨hMem, by decide⟩)) hEnd ?_
      rw [← Path.names_eq, hNames]
      exact hAt
    rw [Files.exists_, Files.look_of_locate (hLimit.mpr hLength) hLocated]
    rfl

include hCwd hStart hPlain in
/-- The search upwards finds the repository before it has gone past the root. -/
theorem isRepositoryOf_rootAbove {fuel : Nat} (hAbove : ms <+: Path.names start) (hFuel : ms.length < fuel)
    (hLast : ∀ ks, ks <+: Path.names start → Marked fs start ks → ks.length ≤ ms.length) :
    IsRepositoryOf fs start (rootAbove fs start fuel (Path.above start ms)) := by
  induction ms using List.reverseRecOn generalizing fuel with
  | nil =>
      obtain ⟨fuel, rfl⟩ := Nat.exists_eq_add_one_of_ne_zero (Nat.ne_zero_of_lt hFuel)
      have hTop : Path.parent (Path.above start []) = Path.above start [] := by
        rw [Path.above, Path.ofNames_eq hStart.rootOf_mem, Text.join, List.append_nil, Path.parent_root hStart.rootOf_mem]
      rw [rootAbove]
      split
      · next hHere => exact .marked hAbove ((exists_git_iff hCwd hStart hPlain hAbove).mp hHere) hLast
      · next hHere =>
          rw [hTop, if_pos (beq_self_eq_true _)]
          refine .alone fun ks hPrefix hMarked => hHere ?_
          obtain rfl := List.length_eq_zero_iff.mp (Nat.le_zero.mp (hLast ks hPrefix hMarked))
          exact (exists_git_iff hCwd hStart hPlain hPrefix).mpr hMarked
  | append_singleton ms n ih =>
      obtain ⟨fuel, rfl⟩ := Nat.exists_eq_add_one_of_ne_zero (Nat.ne_zero_of_lt hFuel)
      rw [List.length_append] at hFuel
      have hFurther : ms <+: Path.names start := (List.prefix_append ms [n]).trans hAbove
      have hParent : Path.parent (Path.above start (ms ++ [n])) = Path.above start ms :=
        Path.parent_ofNames hStart.rootOf_mem (Path.IsRooted.isName_of_above hAbove)
      have hElse : Path.above start ms ≠ Path.above start (ms ++ [n]) := fun hSame => by
        have hNames := congrArg Path.names hSame
        rw [hStart.names_above hFurther, hStart.names_above hAbove] at hNames
        simp at hNames
      rw [rootAbove]
      split
      · next hHere => exact .marked hAbove ((exists_git_iff hCwd hStart hPlain hAbove).mp hHere) hLast
      · next hHere =>
          rw [hParent, if_neg (by simpa using hElse)]
          refine ih hFurther (Nat.lt_of_succ_lt_succ hFuel) fun ks hPrefix hMarked => ?_
          have hLength := hLast ks hPrefix hMarked
          rw [List.length_append] at hLength
          refine Nat.le_of_lt_succ (Nat.lt_of_le_of_ne hLength fun hSame => hHere ?_)
          obtain rfl : ks = ms ++ [n] :=
            (List.prefix_of_prefix_length_le hPrefix hAbove (by simp [hSame])).eq_of_length (by simp [hSame])
          exact (exists_git_iff hCwd hStart hPlain hAbove).mpr hMarked

end Search

theorem IsRepositoryOf.exists_above (hStart : Path.IsRooted start) (h : IsRepositoryOf fs start root) :
    ∃ ms, ms <+: Path.names start ∧ root = Path.above start ms := by
  cases h with
  | @marked ms hAbove => exact ⟨ms, hAbove, rfl⟩
  | alone => exact ⟨Path.names start, List.prefix_rfl, hStart.above_names.symm⟩

/-- A path has no more names than points. -/
theorem length_names_le (hStart : Path.IsRooted start) : (Path.names start).length ≤ start.length := by
  have hJoin : ∀ ns : List Text, (∀ n ∈ ns, Path.IsName n) → ns.length ≤ (Text.join "/" ns).length := by
    intro ns hNames
    induction ns with
    | nil => exact Nat.zero_le _
    | cons n rest ih =>
        obtain ⟨hFirst, hRest⟩ := List.forall_mem_cons.mp hNames
        have hSome := List.length_pos_iff.mpr hFirst.ne_nil
        cases rest with
        | nil => exact hSome
        | cons next others =>
            have hLater := ih hRest
            have hParts : Text.join "/" (n :: next :: others) = n ++ "/" ++ Text.join "/" (next :: others) := rfl
            rw [hParts, List.length_append, List.length_append, List.length_cons]
            omega
  have hWhole := hStart.above_names
  rw [Path.above, Path.ofNames_eq hStart.rootOf_mem] at hWhole
  have hLength := congrArg List.length hWhole
  rw [List.length_append] at hLength
  have hNames := hJoin (Path.names start) fun _ => Path.isName_of_mem
  omega

/-- The endings are looked for in the lower case of a name. -/
theorem hasDataEnding_iff {name : Text} : hasDataEnding name = true ↔
    ∃ ending ∈ ([".yaml", ".yml", ".json"] : List Text), name.EndsAnyCase ending := by
  have hAll : dataEndings.all (·.all fun p => decide (Text.IsSteady p)) = true := by decide +kernel
  have hSteady : ∀ ending ∈ dataEndings, ∀ p ∈ ending, Text.IsSteady p := fun ending hMem p hPoint =>
    of_decide_eq_true (List.all_eq_true.mp (List.all_eq_true.mp hAll ending hMem) p hPoint)
  rw [hasDataEnding, List.any_eq_true]
  constructor
  · rintro ⟨ending, hMem, hEnds⟩
    exact ⟨ending, hMem, (Text.suffix_lower_iff (hSteady ending hMem)).mp (List.isSuffixOf_iff_suffix.mp hEnds)⟩
  · rintro ⟨ending, hMem, hEnds⟩
    exact ⟨ending, hMem, List.isSuffixOf_iff_suffix.mpr ((Text.suffix_lower_iff (hSteady ending hMem)).mpr hEnds)⟩

section Found

variable (hFiles : fs.Proper) (hStart : Path.IsRooted start) (hFile : fs.HasFile start ns)

include hFiles hStart hFile

theorem isEntry_of_hasFile : ns ≠ [] ∧ ∀ n ∈ Path.names start ++ ns, FileTree.IsEntry n := by
  obtain ⟨t, hLook, hSome, content, hAt⟩ := hFile
  refine ⟨hSome, List.forall_mem_append.mpr ⟨fun n hMem => ?_, (hFiles.look hLook).isEntry_of_at? hAt⟩⟩
  exact ⟨Path.isName_of_mem hMem, fun hUp => hStart.up_not_mem (hUp ▸ hMem)⟩

theorem names_under : Path.names (Path.under start ns) = Path.names start ++ ns :=
  Path.names_ofNames (List.mem_cons_of_mem _ hStart.rootOf_mem) fun n hMem =>
    ((isEntry_of_hasFile hFiles hStart hFile).2 n hMem).toIsName

theorem isDataFile_iff : hasDataEnding (Path.name (Path.under start ns)) = true ↔ IsDataFile ns := by
  have hSome := (isEntry_of_hasFile hFiles hStart hFile).1
  have hName : Path.name (Path.under start ns) = ns.getLast hSome := by
    rw [Path.name, names_under hFiles hStart hFile, List.getLast?_append_of_ne_nil _ hSome,
      List.getLast?_eq_some_getLast hSome, Option.getD_some]
  rw [hName, hasDataEnding_iff, IsDataFile, List.getLast?_eq_some_getLast hSome]
  simp

/-- The way to a file from a directory above, and back. -/
theorem way_from_above (hAbove : ms <+: Path.names start) {rel : Text}
    (hRel : rel = Path.normal (Path.relative fs.cwd (Path.under start ns) (Path.above start ms))) :
    Path.isAbsolute rel = false ∧ Path.up ∉ Text.splitOn '/' rel ∧
      Path.join (Path.above start ms) rel = Path.under start ns := by
  obtain ⟨rest, hRest⟩ := hAbove
  obtain ⟨hSome, hEntries⟩ := isEntry_of_hasFile hFiles hStart hFile
  have hNames := names_under hFiles hStart hFile
  have hWay : ∀ n ∈ rest ++ ns, FileTree.IsEntry n := fun n hMem => hEntries n (by
    rw [← hRest, List.append_assoc]
    exact List.mem_append_right _ hMem)
  have hWayNames : ∀ n ∈ rest ++ ns, Path.IsName n := fun n hMem => (hWay n hMem).toIsName
  have hWaySome : rest ++ ns ≠ [] := List.append_ne_nil_of_right_ne_nil _ hSome
  have hUnder : Path.isAbsolute (Path.under start ns) = true := by
    rw [Path.under, Path.isAbsolute_ofNames (List.mem_cons_of_mem _ hStart.rootOf_mem)
      fun n hMem => (hEntries n hMem).toIsName, Path.isEmpty_rootOf, hStart.isAbsolute]
  have hUp : Path.up ∉ Path.names (Path.under start ns) := by
    rw [hNames]
    exact fun hMem => (hEntries _ hMem).ne_up rfl
  have hSplit : Path.names (Path.under start ns) = Path.names (Path.above start ms) ++ (rest ++ ns) := by
    rw [hNames, hStart.names_above ⟨rest, hRest⟩, ← List.append_assoc, hRest]
  rw [Path.normal_relative_eq hUnder hUp (hStart.isAbsolute_above ⟨rest, hRest⟩) hSplit] at hRel
  subst hRel
  refine ⟨?_, ?_, ?_⟩
  · rw [Path.isAbsolute_ofNames (by simp) hWayNames]
    rfl
  · rw [Path.ofNames_relative hWayNames hWaySome, Path.splitOn_join_slash hWayNames hWaySome]
    exact fun hMem => (hWay _ hMem).ne_up rfl
  · rw [hStart.join_above ⟨rest, hRest⟩ hWayNames hWaySome, ← List.append_assoc, hRest]
    rfl

end Found

/-- What is kept of a walk: the files with data that are not to be left out, each by the way to it. -/
theorem mem_kept_iff (hFiles : fs.Proper) (hStart : Path.IsRooted start) {rel : Text} :
    rel ∈ kept fs root exclude (fs.walk start) ↔ Glob.acceptsAny exclude rel = false ∧
      ∃ ns, fs.HasFile start ns ∧ IsDataFile ns ∧
        rel = Path.normal (Path.relative fs.cwd (Path.under start ns) root) := by
  obtain ⟨places, hListing, hWalk⟩ := hFiles.exists_listing start
  rw [kept, List.mem_filter, hWalk, Bool.not_eq_true', and_comm]
  refine and_congr_right fun _ => ?_
  constructor
  · intro hRel
    obtain ⟨p, hKept, hRel⟩ := List.mem_map.mp hRel
    obtain ⟨hP, hEnds⟩ := List.mem_filter.mp hKept
    obtain ⟨ns, hPlace, rfl⟩ := List.mem_map.mp hP
    have hFile := (hListing.mem_iff ns).mp hPlace
    exact ⟨ns, hFile, (isDataFile_iff hFiles hStart hFile).mp hEnds, hRel.symm⟩
  · rintro ⟨ns, hFile, hData, rfl⟩
    refine List.mem_map_of_mem (List.mem_filter.mpr ⟨?_, (isDataFile_iff hFiles hStart hFile).mpr hData⟩)
    exact List.mem_map_of_mem ((hListing.mem_iff ns).mpr hFile)

/-- A directory can only be looked up by a path without NUL. -/
theorem plain_of_isDirectory (hDir : fs.isDirectory start = true) : start.any (·.val == 0) = false := by
  rw [Files.isDirectory] at hDir
  split at hDir
  · next t hLook =>
      have hLimit := (Files.locate_of_look hLook).1
      rw [Files.limit?] at hLimit
      split at hLimit
      · cases hLimit
      · next hPlain => exact Bool.eq_false_iff.mpr hPlain
  · cases hDir

theorem repositoryRoot_ok (hFiles : fs.Proper) (hClean : Path.clean dataRoot = .ok clean)
    (hDir : fs.isDirectory (Path.absolute fs.cwd clean) = true) :
    ∃ root, repositoryRoot fs dataRoot = .ok root ∧ IsRepositoryOf fs (Path.absolute fs.cwd clean) root := by
  have hStart : Path.IsRooted (Path.absolute fs.cwd clean) := Path.isRooted_absolute hFiles.cwd clean
  have hFound := isRepositoryOf_rootAbove hFiles.cwd hStart (plain_of_isDirectory hDir) List.prefix_rfl
    (Nat.lt_succ_of_le (length_names_le hStart)) fun ks hPrefix _ => hPrefix.length_le
  rw [hStart.above_names] at hFound
  refine ⟨_, ?_, hFound⟩
  rw [repositoryRoot, hClean]
  rfl

/-- From every directory of a suite the nearest repository is found, and the files with data at or below the
directory, each once and told by a way down from the repository: put behind the path of the repository it leads to the
file. They are those with an ending of data, in whatever case, that are not to be left out. -/
theorem discover_from_repository (hFiles : fs.Proper) (hClean : Path.clean dataRoot = .ok clean)
    (hDir : fs.isDirectory (Path.absolute fs.cwd clean) = true) (exclude : List Text) :
    ∃ root paths, repositoryRoot fs dataRoot = .ok root ∧ IsRepositoryOf fs (Path.absolute fs.cwd clean) root ∧
      discover fs root dataRoot exclude = .ok paths ∧ paths.Nodup ∧
      (∀ rel ∈ paths, Path.isAbsolute rel = false ∧ Path.up ∉ Text.splitOn '/' rel) ∧
      ∀ rel, rel ∈ paths ↔ Path.isAbsolute rel = false ∧ Glob.acceptsAny exclude rel = false ∧
        ∃ ns, fs.HasFile (Path.absolute fs.cwd clean) ns ∧ IsDataFile ns ∧
          Path.join root rel = Path.under (Path.absolute fs.cwd clean) ns := by
  have hStart : Path.IsRooted (Path.absolute fs.cwd clean) := Path.isRooted_absolute hFiles.cwd clean
  obtain ⟨root, hFound, hRoot⟩ := repositoryRoot_ok hFiles hClean hDir
  obtain ⟨ms, hAbove, hRootEq⟩ := hRoot.exists_above hStart
  have hDiscover : discover fs root dataRoot exclude =
      .ok (kept fs root exclude (fs.walk (Path.absolute fs.cwd clean))) :=
    discover_eq_ok_iff.mpr ⟨clean, hClean, hDir, rfl⟩
  have hWay : ∀ {ns rel}, fs.HasFile (Path.absolute fs.cwd clean) ns →
      rel = Path.normal (Path.relative fs.cwd (Path.under (Path.absolute fs.cwd clean) ns) root) →
      Path.isAbsolute rel = false ∧ Path.up ∉ Text.splitOn '/' rel ∧
        Path.join root rel = Path.under (Path.absolute fs.cwd clean) ns := fun hFile hRel => by
    rw [hRootEq] at hRel ⊢
    exact way_from_above hFiles hStart hFile hAbove hRel
  refine ⟨root, _, hFound, hRoot, hDiscover, nodup_of_discover hFiles hDiscover, fun rel hRel => ?_, fun rel => ?_⟩
  · obtain ⟨-, ns, hFile, -, hSame⟩ := (mem_kept_iff hFiles hStart).mp hRel
    obtain ⟨hRelative, hUp, -⟩ := hWay hFile hSame
    exact ⟨hRelative, hUp⟩
  · rw [mem_kept_iff hFiles hStart]
    constructor
    · rintro ⟨hLeft, ns, hFile, hData, hSame⟩
      obtain ⟨hRelative, -, hJoin⟩ := hWay hFile hSame
      exact ⟨hRelative, hLeft, ns, hFile, hData, hJoin⟩
    · rintro ⟨hRelative, hLeft, ns, hFile, hData, hJoin⟩
      obtain ⟨hRelative', -, hJoin'⟩ := hWay hFile rfl
      exact ⟨hLeft, ns, hFile, hData, Path.join_injective hRelative hRelative' (hJoin.trans hJoin'.symm)⟩

/-- A repository with data in a directory and below it, and with a file beside. -/
def nested : Files :=
  [("/repo/.git", []), ("/repo/data/a.YML", []), ("/repo/data/more/b.json", []), ("/repo/c.yaml", [])].foldl
    (fun fs e => fs.write (Text.ofString e.1) e.2) ⟨.directory [], "/"⟩

theorem discover_from_repository_nested : nested.Proper ∧ Path.clean "repo/data" = .ok "repo/data" ∧
    nested.isDirectory (Path.absolute nested.cwd "repo/data") = true ∧
    ∃ paths, repositoryRoot nested "repo/data" = .ok "/repo" ∧
      IsRepositoryOf nested (Path.absolute nested.cwd "repo/data") "/repo" ∧
      discover nested "/repo" "repo/data" ["**/*.json"] = .ok paths ∧ paths.Nodup ∧
      (∀ rel ∈ paths, Path.isAbsolute rel = false ∧ Path.up ∉ Text.splitOn '/' rel) ∧
      ∀ rel, rel ∈ paths ↔ Path.isAbsolute rel = false ∧ Glob.acceptsAny ["**/*.json"] rel = false ∧
        ∃ ns, nested.HasFile (Path.absolute nested.cwd "repo/data") ns ∧ IsDataFile ns ∧
          Path.join "/repo" rel = Path.under (Path.absolute nested.cwd "repo/data") ns := by
  have hEmpty : (⟨.directory [], "/"⟩ : Files).Proper := ⟨FileTree.proper_empty, by decide⟩
  have hProper : nested.Proper := hEmpty.foldl_write [("/repo/.git", []), ("/repo/data/a.YML", []),
    ("/repo/data/more/b.json", []), ("/repo/c.yaml", [])]
  have hClean : Path.clean "repo/data" = .ok "repo/data" := by rfl
  have hDir : nested.isDirectory (Path.absolute nested.cwd "repo/data") = true := by decide +kernel
  have hFound : (repositoryRoot nested "repo/data").toOption = some (Text.ofString "/repo") := by decide +kernel
  obtain ⟨root, paths, hRoot, hRest⟩ := discover_from_repository hProper hClean hDir ["**/*.json"]
  obtain rfl : Text.ofString "/repo" = root := Except.ok.inj ((eq_ok_of_toOption hFound).symm.trans hRoot)
  exact ⟨hProper, hClean, hDir, paths, hRoot, hRest⟩

end Suite
end Conform

import Conform.Proofs.FileTree.Walk
import Conform.Proofs.Document.Order

/-! The order of a walk. The files of a directory come in the order of their names, and those of its subdirectories
after them, one subdirectory after the other. A list of files in this order is known from what it holds, so a walk
does not depend on the order in which a directory lists its entries. -/
namespace Conform

/-- Different texts are sorted strictly. -/
theorem Text.pairwise_lt_sorted {ts : List Text} (h : ts.Nodup) :
    (sorted ts).Pairwise fun a b => lt a b = true := by
  have hNodup : (sorted ts).Nodup := (sorted_perm ts).nodup_iff.mpr h
  exact (pairwise_sorted ts).imp₂ (fun _ _ => lt_of_le_of_ne) hNodup

namespace FileTree

variable {t inner : FileTree} {es : List (Text × FileTree)} {path name : Text} {ns ms : List Text}
  {places places' : List (List Text)} {held held' : List Text → Prop}

/-! ### Walks by names -/

/-- The names of the files in a directory. -/
def fileNames (es : List (Text × FileTree)) : List Text := (es.filter fun e => !e.2.isDirectory).map Prod.fst

/-- What a walk meets in an entry of a directory. -/
def walkEntry (path : Text) (es : List (Text × FileTree)) (name : Text) : List Text :=
  ((es.lookup name).map (walk (Path.join path name))).getD []

theorem walkEntry_of_mem (hDistinct : (es.map Prod.fst).Nodup) (hMem : (name, inner) ∈ es) (path : Text) :
    walkEntry path es name = inner.walk (Path.join path name) := by
  rw [walkEntry, lookup_of_mem hDistinct hMem]
  rfl

theorem walkInside_eq (hDistinct : (es.map Prod.fst).Nodup) (path : Text) :
    walkInside path es = (es.map Prod.fst).map fun name => (name, walkEntry path es name) := by
  have hPart : ∀ fs ⊆ es, walkInside path fs = (fs.map Prod.fst).map fun name => (name, walkEntry path es name) := by
    intro fs hSub
    induction fs with
    | nil => rfl
    | cons e rest ih =>
        obtain ⟨hHere, hRest⟩ := List.cons_subset.mp hSub
        obtain ⟨name, inner⟩ := e
        rw [walkInside, ih hRest, List.map_cons, List.map_cons, walkEntry_of_mem hDistinct hHere]
  exact hPart es (List.Subset.refl es)

/-- A walk goes by the names of the entries. -/
theorem walk_directory (hDistinct : (es.map Prod.fst).Nodup) (path : Text) : (directory es).walk path =
    (Text.sorted (fileNames es)).map (Path.join path) ++ (Text.sorted (es.map Prod.fst)).flatMap (walkEntry path es) := by
  have hSorted : (Text.sorted (es.map Prod.fst)).map (fun name => (name, walkEntry path es name)) =
      ((es.map Prod.fst).map fun name => (name, walkEntry path es name)).mergeSort fun a b => Text.le a.1 b.1 :=
    List.map_mergeSort fun _ _ _ _ => rfl
  rw [walk, walkInside_eq hDistinct, ← hSorted, List.flatMap_map]
  rfl

theorem Proper.of_mem_fileNames (h : (directory es).Proper) (hMem : name ∈ fileNames es) : IsEntry name := by
  obtain ⟨e, hEntry, rfl⟩ := List.mem_map.mp hMem
  exact h.entries.2.1 e (List.mem_filter.mp hEntry).1

theorem Proper.mem_fileNames (h : (directory es).Proper) :
    name ∈ fileNames es ↔ ∃ content, es.lookup name = some (file content) := by
  constructor
  · intro hMem
    obtain ⟨⟨name, inner⟩, hEntry, rfl⟩ := List.mem_map.mp hMem
    obtain ⟨hIn, hFile⟩ := List.mem_filter.mp hEntry
    cases inner with
    | directory es => cases hFile
    | file content => exact ⟨content, lookup_of_mem h.entries.1 hIn⟩
  · rintro ⟨content, hFound⟩
    exact List.mem_map.mpr ⟨_, List.mem_filter.mpr ⟨mem_of_lookup hFound, rfl⟩, rfl⟩

/-! ### The order of files -/

/-- Whether the file at the end of the first names comes before that at the end of the second, both from one
directory. -/
inductive Precedes : List Text → List Text → Prop where
  /-- Files of the directory itself come in the order of their names. -/
  | file {a b : Text} (hLess : Text.lt a b = true) : Precedes [a] [b]
  /-- They come before all that is in subdirectories. -/
  | shallow {a b : Text} {rest : List Text} (hBelow : rest ≠ []) : Precedes [a] (b :: rest)
  /-- Subdirectories come in the order of their names. -/
  | deep {a b : Text} {rest rest' : List Text} (hLess : Text.lt a b = true) (hBelow : rest ≠ []) (hBelow' : rest' ≠ []) :
      Precedes (a :: rest) (b :: rest')
  /-- Within one subdirectory it is the same again. -/
  | inside (a : Text) {rest rest' : List Text} (h : Precedes rest rest') : Precedes (a :: rest) (a :: rest')

/-- Of two files only one comes before the other. -/
theorem Precedes.asymm (h : Precedes ns ms) : ¬ Precedes ms ns := by
  induction h with
  | file hLess =>
      intro hBack
      cases hBack with
      | file hMore => exact absurd hMore (by simp [Text.lt_asymm hLess])
      | shallow hBelow => exact hBelow rfl
      | deep _ hBelow _ => exact hBelow rfl
      | inside _ hBack => cases hBack
  | shallow hBelow =>
      intro hBack
      cases hBack with
      | file _ => exact hBelow rfl
      | shallow hNone => exact hNone rfl
      | deep _ _ hNone => exact hNone rfl
      | inside _ hBack => cases hBack
  | deep hLess hBelow hBelow' =>
      intro hBack
      cases hBack with
      | file _ => exact hBelow rfl
      | shallow _ => exact hBelow' rfl
      | deep hMore _ _ => exact absurd hMore (by simp [Text.lt_asymm hLess])
      | inside _ _ => exact absurd hLess (by simp [Text.lt_irrefl])
  | inside name h ih =>
      intro hBack
      cases hBack with
      | file _ => cases h
      | shallow _ => cases h
      | deep hLess _ _ => exact absurd hLess (by simp [Text.lt_irrefl])
      | inside _ hBack => exact ih hBack

/-- What is to be said of a list of files, by their names: it has each of those that are held once and nothing else,
and it is in the order of a walk. -/
structure Listing (held : List Text → Prop) (places : List (List Text)) : Prop where
  mem_iff : ∀ ns, ns ∈ places ↔ held ns
  order : places.Pairwise Precedes

namespace Listing

theorem nodup (h : Listing held places) : places.Nodup :=
  h.order.imp fun hBefore hSame => (hSame ▸ hBefore).asymm (hSame ▸ hBefore)

/-- There is one list of the files that are held. -/
theorem unique (h : Listing held places) (h' : Listing held' places') (hSame : ∀ ns, held ns ↔ held' ns) :
    places = places' := by
  have hPerm : places.Perm places' := (List.perm_ext_iff_of_nodup h.nodup h'.nodup).mpr fun ns => by
    rw [h.mem_iff, h'.mem_iff, hSame]
  exact hPerm.eq_of_pairwise (fun _ _ _ _ hBefore hAfter => absurd hAfter hBefore.asymm) h.order h'.order

theorem filter (h : Listing held places) (keep : List Text → Bool) :
    Listing (fun ns => held ns ∧ keep ns = true) (places.filter keep) where
  mem_iff ns := by rw [List.mem_filter, h.mem_iff]
  order := h.order.filter keep

end Listing

/-- Whether there is a file at the end of some names, in or below a directory. -/
def HasFile (t : FileTree) (ns : List Text) : Prop := ns ≠ [] ∧ ∃ content, at? ns t = some (file content)

theorem hasFile_directory : (directory es).HasFile (name :: ns) ↔
    (ns = [] ∧ ∃ content, es.lookup name = some (file content)) ∨
      ∃ inner, es.lookup name = some inner ∧ inner.HasFile ns := by
  have hAt : ∀ content, at? (name :: ns) (directory es) = some (file content) ↔
      ∃ inner, es.lookup name = some inner ∧ at? ns inner = some (file content) :=
    fun content => Option.bind_eq_some_iff
  simp only [HasFile, hAt]
  constructor
  · rintro ⟨-, content, inner, hEntry, hInner⟩
    cases ns with
    | nil =>
        obtain rfl : inner = file content := Option.some.inj hInner
        exact .inl ⟨rfl, content, hEntry⟩
    | cons n rest => exact .inr ⟨inner, hEntry, List.cons_ne_nil _ _, content, hInner⟩
  · rintro (⟨rfl, content, hEntry⟩ | ⟨inner, hEntry, -, content, hInner⟩)
    · exact ⟨List.cons_ne_nil _ _, content, _, hEntry, rfl⟩
    · exact ⟨List.cons_ne_nil _ _, content, inner, hEntry, hInner⟩

/-- The files of a directory and then those of its entries, each list being in order, are in order together. -/
theorem Proper.listing_directory (h : (directory es).Proper) {below : Text → List (List Text)}
    (hBelow : ∀ name, Listing (fun ns => ∃ inner, es.lookup name = some inner ∧ inner.HasFile ns) (below name)) :
    Listing (directory es).HasFile ((Text.sorted (fileNames es)).map ([·]) ++
      (Text.sorted (es.map Prod.fst)).flatMap fun name => (below name).map (name :: ·)) where
  mem_iff ns := by
    cases ns with
    | nil => simp [HasFile]
    | cons name rest =>
        rw [hasFile_directory, List.mem_append, ← (hBelow name).mem_iff]
        refine or_congr ?_ ?_
        · rw [← h.mem_fileNames, ← (Text.sorted_perm _).mem_iff]
          simp [and_comm, eq_comm]
        · have hName : rest ∈ below name → name ∈ Text.sorted (es.map Prod.fst) := by
            intro hMem
            obtain ⟨inner, hEntry, -⟩ := ((hBelow name).mem_iff rest).mp hMem
            exact (Text.sorted_perm _).mem_iff.mpr (List.mem_map_of_mem (mem_of_lookup hEntry))
          simpa using hName
  order := by
    have hFiles : (fileNames es).Nodup := h.entries.1.sublist (List.filter_sublist.map _)
    have hSome : ∀ name, ∀ ns ∈ below name, ns ≠ [] := fun name ns hMem => by
      obtain ⟨inner, -, hSome, -⟩ := ((hBelow name).mem_iff ns).mp hMem
      exact hSome
    rw [List.pairwise_append, List.pairwise_map, List.pairwise_flatMap]
    refine ⟨(Text.pairwise_lt_sorted hFiles).imp .file, ⟨fun name _ => ?_, ?_⟩, ?_⟩
    · exact List.pairwise_map.mpr ((hBelow name).order.imp (.inside name))
    · refine (Text.pairwise_lt_sorted h.entries.1).imp fun hLess ns hMem ms hMem' => ?_
      obtain ⟨rest, hRest, rfl⟩ := List.mem_map.mp hMem
      obtain ⟨rest', hRest', rfl⟩ := List.mem_map.mp hMem'
      exact .deep hLess (hSome _ rest hRest) (hSome _ rest' hRest')
    · intro ns hMem ms hMem'
      obtain ⟨name, -, rfl⟩ := List.mem_map.mp hMem
      obtain ⟨other, -, hMem'⟩ := List.mem_flatMap.mp hMem'
      obtain ⟨rest, hRest, rfl⟩ := List.mem_map.mp hMem'
      exact .shallow (hSome other rest hRest)

/-- A walk meets the files of a tree in order. Their paths are those of the directory with their names after it. -/
theorem Proper.exists_listing (h : t.Proper) : ∃ places, Listing t.HasFile places ∧
    ∀ path, t.walk path = places.map (List.foldl Path.join path) := by
  induction h with
  | ofFile content =>
      refine ⟨[], ⟨fun ns => ?_, .nil⟩, fun _ => rfl⟩
      cases ns <;> simp [HasFile, at?]
  | @ofDirectory es hDistinct hNames hInner ih =>
      have hEntry : ∀ name, ∃ below, Listing (fun ns => ∃ inner, es.lookup name = some inner ∧ inner.HasFile ns) below ∧
          ∀ path, walkEntry path es name = below.map (List.foldl Path.join (Path.join path name)) := by
        intro name
        unfold walkEntry
        cases hFound : es.lookup name with
        | none => exact ⟨[], ⟨by simp, .nil⟩, fun _ => rfl⟩
        | some inner =>
            obtain ⟨below, hBelow, hWalk⟩ := ih _ (mem_of_lookup hFound)
            exact ⟨below, by simpa using hBelow, fun path => hWalk _⟩
      choose below hBelow hWalk using hEntry
      refine ⟨_, (Proper.ofDirectory hDistinct hNames hInner).listing_directory hBelow, fun path => ?_⟩
      have hEntries : walkEntry path es = fun name => (below name).map (List.foldl Path.join path ∘ (name :: ·)) :=
        funext fun name => hWalk name path
      simp only [walk_directory hDistinct, hEntries, List.map_append, List.map_map, List.map_flatMap]
      rfl

/-- What is met in an entry lies below it. -/
theorem Proper.below_walkEntry (h : (directory es).Proper) (path name : Text) :
    Below (Path.join path name) (walkEntry path es name) := by
  rw [walkEntry]
  cases hFound : es.lookup name with
  | none => exact below_nil _
  | some inner => exact (h.entry (mem_of_lookup hFound)).below_walk _

/-- What stands at the end of names in a proper tree is reached by the names of entries. -/
theorem Proper.isEntry_of_at? (h : t.Proper) (hFound : at? ns t = some inner) : ∀ n ∈ ns, IsEntry n := by
  induction ns generalizing t with
  | nil => exact nofun
  | cons name rest ih =>
      obtain ⟨es, next, rfl, hEntry, hInner⟩ := exists_of_at?_cons hFound
      have hMem := mem_of_lookup hEntry
      exact List.forall_mem_cons.mpr ⟨h.entries.2.1 _ hMem, ih (h.entry hMem) hInner⟩

theorem names_foldl_join (h : ∀ n ∈ ns, IsEntry n) (path : Text) :
    Path.names (ns.foldl Path.join path) = Path.names path ++ ns := by
  induction ns generalizing path with
  | nil => exact (List.append_nil _).symm
  | cons name rest ih =>
      obtain ⟨hName, hRest⟩ := List.forall_mem_cons.mp h
      rw [List.foldl_cons, ih hRest, hName.names_join, List.append_assoc]
      rfl

end FileTree

end Conform

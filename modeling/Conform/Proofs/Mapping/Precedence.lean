import Conform.Mapping.Repository
import Conform.Mapping.Resolver
import Conform.Proofs.Mapping.Tuning
import Conform.Proofs.Schema.Batch

/-! Which entry of two manifests decides. The entries of the upper manifest come after those of the lower one,
and the last entry that applies counts, exclusions before rules. The manifest of a repository lies over the
built-in one in this way, and so do its settings, one by one. -/
namespace Conform.Mapping

/-- Whether an entry is the last of a list that passes a test. -/
def IsLast {α : Type} (p : α → Bool) (xs : List α) (x : α) : Prop :=
  ∃ before after, xs = before ++ x :: after ∧ p x = true ∧ ∀ y ∈ after, p y = false

section Last

variable {α : Type} {p : α → Bool} {xs : List α} {x : α}

theorem find?_reverse_eq_some_iff : xs.reverse.find? p = some x ↔ IsLast p xs x := by
  rw [List.find?_eq_some_iff_append]
  constructor
  · rintro ⟨hHolds, after, before, hEntries, hAfter⟩
    refine ⟨before.reverse, after.reverse, ?_, hHolds, fun y hMem => ?_⟩
    · rw [← List.reverse_reverse xs, hEntries]
      simp
    · simpa using hAfter y (List.mem_reverse.mp hMem)
  · rintro ⟨before, after, rfl, hHolds, hAfter⟩
    exact ⟨hHolds, after.reverse, before.reverse, by simp, fun y hMem => by simp [hAfter y (List.mem_reverse.mp hMem)]⟩

theorem find?_reverse_eq_none_iff : xs.reverse.find? p = none ↔ ∀ y ∈ xs, p y = false := by
  simp [List.find?_eq_none]

/-- The last entry of two lists is that of the second, or that of the first if there is none. -/
theorem find?_reverse_append_eq_some_iff {low high : List α} : (low ++ high).reverse.find? p = some x ↔
    IsLast p high x ∨ (∀ y ∈ high, p y = false) ∧ IsLast p low x := by
  rw [List.reverse_append, List.find?_append, Option.or_eq_some_iff, find?_reverse_eq_some_iff,
    find?_reverse_eq_none_iff, find?_reverse_eq_some_iff]

end Last

namespace Manifest

/-- Which entry of two manifests decides about a path, and the answer it gives. -/
inductive Decides (base overlay : Manifest) (path : Text) : Resolution → Prop where
  | overlayExclusion {e : Exclusion} (hLast : IsLast (·.applies path) overlay.exclusions e) :
      Decides base overlay path (.excluded e.reason)
  | baseExclusion {e : Exclusion} (hOverlay : ∀ e ∈ overlay.exclusions, e.applies path = false)
      (hLast : IsLast (·.applies path) base.exclusions e) : Decides base overlay path (.excluded e.reason)
  | overlayRule {r : Rule} (hExclusions : ∀ e ∈ base.exclusions ++ overlay.exclusions, e.applies path = false)
      (hLast : IsLast (·.applies path) overlay.rules r) : Decides base overlay path (.mapped r)
  | baseRule {r : Rule} (hExclusions : ∀ e ∈ base.exclusions ++ overlay.exclusions, e.applies path = false)
      (hOverlay : ∀ r ∈ overlay.rules, r.applies path = false) (hLast : IsLast (·.applies path) base.rules r) :
      Decides base overlay path (.mapped r)
  | unmatched (hExclusions : ∀ e ∈ base.exclusions ++ overlay.exclusions, e.applies path = false)
      (hRules : ∀ r ∈ base.rules ++ overlay.rules, r.applies path = false) : Decides base overlay path .unmatched

variable {base overlay : Manifest} {path : Text} {a : Resolution}

theorem resolve_merge (base overlay : Manifest) (path : Text) : (base.merge overlay).resolve path =
    (match (base.exclusions ++ overlay.exclusions).reverse.find? (·.applies (Glob.normalPath path)) with
      | some e => .excluded e.reason
      | none =>
        match (base.rules ++ overlay.rules).reverse.find? (·.applies (Glob.normalPath path)) with
        | some r => .mapped r
        | none => .unmatched) := rfl

theorem decides_resolve (base overlay : Manifest) (path : Text) :
    Decides base overlay (Glob.normalPath path) ((base.merge overlay).resolve path) := by
  rw [resolve_merge]
  cases hExclusion : (base.exclusions ++ overlay.exclusions).reverse.find? (·.applies (Glob.normalPath path)) with
  | some e =>
      rcases find?_reverse_append_eq_some_iff.mp hExclusion with hLast | ⟨hOverlay, hLast⟩
      · exact .overlayExclusion hLast
      · exact .baseExclusion hOverlay hLast
  | none =>
      have hExclusions := find?_reverse_eq_none_iff.mp hExclusion
      cases hRule : (base.rules ++ overlay.rules).reverse.find? (·.applies (Glob.normalPath path)) with
      | some r =>
          rcases find?_reverse_append_eq_some_iff.mp hRule with hLast | ⟨hOverlay, hLast⟩
          · exact .overlayRule hExclusions hLast
          · exact .baseRule hExclusions hOverlay hLast
      | none => exact .unmatched hExclusions (find?_reverse_eq_none_iff.mp hRule)

theorem resolve_eq_of_decides (h : Decides base overlay (Glob.normalPath path) a) :
    (base.merge overlay).resolve path = a := by
  rw [resolve_merge]
  cases h with
  | overlayExclusion hLast => rw [find?_reverse_append_eq_some_iff.mpr (Or.inl hLast)]
  | baseExclusion hOverlay hLast => rw [find?_reverse_append_eq_some_iff.mpr (Or.inr ⟨hOverlay, hLast⟩)]
  | overlayRule hExclusions hLast =>
      rw [find?_reverse_eq_none_iff.mpr hExclusions, find?_reverse_append_eq_some_iff.mpr (Or.inl hLast)]
  | baseRule hExclusions hOverlay hLast =>
      rw [find?_reverse_eq_none_iff.mpr hExclusions, find?_reverse_append_eq_some_iff.mpr (Or.inr ⟨hOverlay, hLast⟩)]
  | unmatched hExclusions hRules =>
      rw [find?_reverse_eq_none_iff.mpr hExclusions, find?_reverse_eq_none_iff.mpr hRules]

/-- What the document of a manifest says of a setting; null if it says nothing. -/
def said (d : Document) (name : Text) : Document := ((d.get? "config").bind (·.get? name)).getD .null

variable {d : Document} {m : Manifest} {name : Text}

theorem reads_of_ofDocument (h : ofDocument d = .ok m) (hName : name ∈ Tuning.names) :
    Tuning.Reads name (said d name) (m.tuning.setting? name) := by
  cases d with
  | null =>
      obtain rfl : {} = m := Except.ok.inj h
      exact .unset
  | object ms =>
      obtain ⟨_, hMembers, h⟩ := exists_of_bind_ok h
      obtain rfl := Except.ok.inj hMembers
      have hSaid : said (.object ms) name = ((Field.member ms "config").get? name).getD .null := by
        unfold said Field.member
        cases hConfig : Members.get? ms "config" with
        | none => simp only [Document.get?, hConfig]; rfl
        | some d => simp only [Document.get?, hConfig]; rfl
      rw [hSaid]
      -- The version is read alike whether it is there or not.
      dsimp only at h
      split at h
      all_goals
        obtain ⟨version, -, h⟩ := exists_of_bind_ok h
        obtain ⟨tuning, hTuning, h⟩ := exists_of_bind_ok h
        obtain ⟨_, -, h⟩ := exists_of_bind_ok h
        obtain ⟨rules, -, h⟩ := exists_of_bind_ok h
        obtain ⟨_, -, h⟩ := exists_of_bind_ok h
        obtain ⟨exclusions, -, h⟩ := exists_of_bind_ok h
        obtain ⟨_, -, h⟩ := exists_of_bind_ok h
        obtain ⟨overrides, -, h⟩ := exists_of_bind_ok h
        obtain rfl := Except.ok.inj h
        exact Tuning.reads_of_ofDocument hTuning hName
  | _ =>
      obtain ⟨_, hMembers, -⟩ := exists_of_bind_ok h
      cases hMembers

end Manifest

namespace Repository

variable {fs : Files} {s : Schema.Compiled} {root manifest path : Text} {bs : Bytes} {m : Manifest} {r : Repository}

/-- A manifest that is accepted is the one in its text, with the built-in settings where it has none. -/
theorem parse_ok (h : parse s path bs = .ok m) : ∃ d format raw, Document.readData bs = .ok (d, format) ∧
    Manifest.ofDocument d = .ok raw ∧ m.rules = raw.rules ∧ m.exclusions = raw.exclusions ∧
    m.overrides = raw.overrides ∧ m.tuning = raw.tuning.withDefaults Manifest.builtin.tuning := by
  obtain ⟨report, -, h⟩ := exists_of_bind_ok h
  dsimp only at h
  split at h
  · cases h
  · obtain ⟨⟨d, format⟩, hData, h⟩ := exists_of_bind_ok h
    obtain ⟨raw, hRaw, h⟩ := exists_of_bind_ok h
    generalize (if List.isEmpty raw.version = true then Manifest.currentVersion else raw.version) = version at h
    split at h
    · cases h
    · obtain rfl := Except.ok.inj h
      exact ⟨d, format, raw, hData, hRaw, rfl, rfl, rfl, rfl⟩

/-- A repository either has no manifest, and then the built-in one is in effect, or its own is laid over it. -/
theorem load_ok (h : load fs s root manifest = .ok r) : (r.own = none ∧ r.effective = .builtin) ∨
    ∃ path bs m, r.own = some (path, m) ∧ r.effective = Manifest.builtin.merge m ∧ fs.read path = .ok bs ∧
      parse s path bs = .ok m := by
  obtain ⟨path, -, h⟩ := exists_of_bind_ok h
  split at h
  · next bs hRead =>
      obtain ⟨m, hParse, h⟩ := exists_of_bind_ok h
      obtain rfl := Except.ok.inj h
      exact Or.inr ⟨path, bs, m, rfl, rfl, hRead, hParse⟩
  · obtain rfl := Except.ok.inj h
    exact Or.inl ⟨rfl, rfl⟩
  · cases h

/-- Of two manifests the upper one decides, by its last entry that applies, and exclusions decide before rules.
The manifest of a repository decides in this way over the built-in one, and each of its settings counts if it is
set, whatever it is set to. -/
theorem upper_decides :
    (∀ base overlay path a, (base.merge overlay).resolve path = a ↔
      Manifest.Decides base overlay (Glob.normalPath path) a) ∧
    ∀ fs s root manifest r path m, load fs s root manifest = .ok r → r.own = some (path, m) →
      (∀ p a, r.effective.resolve p = a ↔ Manifest.Decides .builtin m (Glob.normalPath p) a) ∧
      ∃ bs d format raw, fs.read path = .ok bs ∧ Document.readData bs = .ok (d, format) ∧
        Manifest.ofDocument d = .ok raw ∧ m.rules = raw.rules ∧ m.exclusions = raw.exclusions ∧
        m.overrides = raw.overrides ∧
        ∀ name ∈ Tuning.names, ∃ v, Tuning.Reads name (Manifest.said d name) v ∧
          r.effective.tuning.setting? name = v.or (Manifest.builtin.tuning.setting? name) := by
  have hDecides : ∀ base overlay path a, (base.merge overlay).resolve path = a ↔
      Manifest.Decides base overlay (Glob.normalPath path) a := fun base overlay path a =>
    ⟨fun h => h ▸ Manifest.decides_resolve base overlay path, Manifest.resolve_eq_of_decides⟩
  refine ⟨hDecides, fun fs s root manifest r path m hLoad hOwn => ?_⟩
  rcases load_ok hLoad with ⟨hNone, -⟩ | ⟨path', bs, m', hOwn', hEffective, hRead, hParse⟩
  · cases hNone.symm.trans hOwn
  · obtain ⟨rfl, rfl⟩ : path' = path ∧ m' = m := by simpa using hOwn'.symm.trans hOwn
    obtain ⟨d, format, raw, hData, hRaw, hRules, hExclusions, hOverrides, hTuning⟩ := parse_ok hParse
    refine ⟨fun p a => hEffective ▸ hDecides _ _ p a, bs, d, format, raw, hRead, hData, hRaw, hRules, hExclusions,
      hOverrides, fun name hName => ⟨_, Manifest.reads_of_ofDocument hRaw hName, ?_⟩⟩
    -- The built-in settings are laid under those of the repository twice.
    rw [hEffective, Manifest.merge, Tuning.setting?_merge, hTuning, Tuning.withDefaults, Tuning.setting?_merge,
      Option.or_assoc, Option.or_self]

/-- A repository with a manifest that turns a setting off and leaves all files out. -/
def tuned : Files where
  root := .directory [(".goneat", .directory [("schema-mappings.yaml", .file (Text.utf8
    "\x7b\"config\":\x7b\"inference_enabled\":false\x7d,\"exclusions\":[\x7b\x7d]\x7d"))])]
  cwd := "/"

theorem upper_decides_tuned : ∃ s r path m, Schema.Compiled.read false true Schema.Batch.anything = .ok s ∧
    load tuned s "" "" = .ok r ∧ r.own = some (path, m) ∧
    (∀ p a, r.effective.resolve p = a ↔ Manifest.Decides .builtin m (Glob.normalPath p) a) ∧
    r.effective.tuning.setting? "inference_enabled" = some (.bool false) := by
  have hRun : ((Schema.Compiled.read false true Schema.Batch.anything).toOption.any fun s =>
      (load tuned s "" "").toOption.any fun r => r.own.isSome && r.effective.tuning.inference == some false) = true := by
    decide +kernel
  obtain ⟨s, hSchema, hRun⟩ := exists_of_any hRun
  obtain ⟨r, hLoad, hRun⟩ := exists_of_any hRun
  obtain ⟨hOwn, hInference⟩ := Bool.and_eq_true_iff.mp hRun
  obtain ⟨⟨path, m⟩, hOwn⟩ := Option.isSome_iff_exists.mp hOwn
  obtain ⟨hResolve, -⟩ := upper_decides.2 _ _ _ _ _ _ _ hLoad hOwn
  exact ⟨s, r, path, m, hSchema, hLoad, hOwn, hResolve, by
    rw [Tuning.setting?_eq]
    exact congrArg (Option.map Document.bool) (beq_iff_eq.mp hInference)⟩

end Repository
end Conform.Mapping

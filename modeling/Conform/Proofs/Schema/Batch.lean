import Conform.Proofs.Document.Order
import Conform.Proofs.Except
import Conform.Proofs.Path
import Conform.Proofs.Pool
import Conform.Schema.Batch

/-! What a batch comes to. The counts say how many reports were made and the last report under a path is
kept, so where reports under one path agree their order does not matter. They do agree: what is reported
depends on the key of a path alone, and no cleaned path is the text of a refused one. -/
namespace Conform.Schema.Batch

variable {b b' : Batch} {log log' es : List (Text × Report)} {e : Text × Report} {path raw : Text}
  {r : Report} {n : Nat}

/-- A batch of so many files, none of them reported on. -/
def ofTotal (n : Nat) : Batch := { empty with total := n }

/-- A batch after more reports, in the order in which they are made. -/
def recordAll (b : Batch) (log : List (Text × Report)) : Batch :=
  log.foldl (fun b e => b.record e.1 e.2) b

/-- The paths with a report. -/
def keys (b : Batch) : List Text := b.reports.map Prod.fst

theorem ofReports_eq : ofReports log = (ofTotal log.length).recordAll log := rfl

@[simp]
theorem recordAll_nil : b.recordAll [] = b := rfl

@[simp]
theorem recordAll_cons : b.recordAll (e :: log) = (b.record e.1 e.2).recordAll log := rfl

theorem recordAll_append : b.recordAll (log ++ log') = (b.recordAll log).recordAll log' := List.foldl_append

@[simp]
theorem total_recordAll : (b.recordAll log).total = b.total := by
  induction log generalizing b with
  | nil => rfl
  | cons e log ih => exact ih

theorem valid_record : (b.record path r).valid = b.valid + if r.valid then 1 else 0 := by
  rw [record]
  cases r.valid <;> rfl

theorem invalid_record : (b.record path r).invalid = b.invalid + if !r.valid then 1 else 0 := by
  rw [record]
  cases r.valid <;> rfl

@[simp]
theorem valid_recordAll : (b.recordAll log).valid = b.valid + log.countP (·.2.valid) := by
  induction log generalizing b with
  | nil => rfl
  | cons e log ih =>
      rw [recordAll_cons, ih, List.countP_cons, valid_record]
      omega

@[simp]
theorem invalid_recordAll : (b.recordAll log).invalid = b.invalid + log.countP (!·.2.valid) := by
  induction log generalizing b with
  | nil => rfl
  | cons e log ih =>
      rw [recordAll_cons, ih, List.countP_cons, invalid_record]
      omega

/-- Every report is counted once, as one on valid data or as one on invalid data. -/
theorem valid_add_invalid_recordAll :
    (b.recordAll log).valid + (b.recordAll log).invalid = b.valid + b.invalid + log.length := by
  have hSplit := List.length_eq_countP_add_countP (fun e : Text × Report => e.2.valid) (l := log)
  simp only [Bool.decide_eq_false, Bool.not_eq_true] at hSplit
  rw [valid_recordAll, invalid_recordAll]
  omega

/-! ### The reports that are kept -/

theorem keys_put : (put path r es).map Prod.fst =
    if path ∈ es.map Prod.fst then es.map Prod.fst else es.map Prod.fst ++ [path] := by
  induction es with
  | nil => rfl
  | cons first rest ih =>
      obtain ⟨p, s⟩ := first
      by_cases hHere : p = path
      · simp [put, hHere]
      · have hOther : ¬ path = p := fun hSame => hHere hSame.symm
        simp only [put, beq_iff_eq, hHere, if_false, List.map_cons, List.mem_cons, hOther, false_or, ih]
        split <;> rfl

theorem nodup_put (h : (es.map Prod.fst).Nodup) : ((put path r es).map Prod.fst).Nodup := by
  rw [keys_put]
  split
  · exact h
  · next hNew => exact List.concat_eq_append ▸ h.concat hNew

/-- A report takes the place of the one under its path. -/
theorem mem_put (h : (es.map Prod.fst).Nodup) :
    e ∈ put path r es ↔ e = (path, r) ∨ (e ∈ es ∧ e.1 ≠ path) := by
  induction es with
  | nil => simp [put]
  | cons first rest ih =>
      obtain ⟨p, s⟩ := first
      obtain ⟨hAbsent, hRest⟩ := List.nodup_cons.mp h
      by_cases hHere : p = path
      · subst hHere
        have hKept : ∀ e ∈ rest, e.1 ≠ p := fun e hMem hSame =>
          hAbsent (List.mem_map.mpr ⟨e, hMem, hSame⟩)
        simp only [put, beq_self_eq_true, if_true, List.mem_cons]
        grind
      · simp only [put, beq_iff_eq, hHere, if_false, List.mem_cons, ih hRest]
        grind

theorem nodup_recordAll (h : b.keys.Nodup) : (b.recordAll log).keys.Nodup := by
  induction log generalizing b with
  | nil => exact h
  | cons e log ih => exact ih (nodup_put h)

/-- Whether reports under one path are the same report. -/
def Consistent (log : List (Text × Report)) : Prop := ∀ e ∈ log, ∀ e' ∈ log, e.1 = e'.1 → e = e'

theorem Consistent.of_subset (h : Consistent log) (hSub : log' ⊆ log) : Consistent log' :=
  fun e hE e' hE' => h e (hSub hE) e' (hSub hE')

/-- Reports of a kind that depends on the path alone are all kept, and there are no others. -/
theorem mem_recordAll (h : Consistent log) : e ∈ ((ofTotal n).recordAll log).reports ↔ e ∈ log := by
  induction log using List.reverseRecOn with
  | nil => simp [ofTotal, empty]
  | append_singleton log last ih =>
      have hBefore := ih (h.of_subset (List.subset_append_left _ _))
      have hNodup : ((ofTotal n).recordAll log).keys.Nodup := nodup_recordAll List.nodup_nil
      rw [recordAll_append, recordAll_cons, recordAll_nil, record, mem_put hNodup, hBefore, List.mem_append, List.mem_singleton]
      constructor
      · rintro (rfl | ⟨hMem, _⟩)
        · exact Or.inr rfl
        · exact Or.inl hMem
      · rintro (hMem | rfl)
        · by_cases hSame : e.1 = last.1
          · exact Or.inl (h e (by simp [hMem]) last (by simp) hSame)
          · exact Or.inr ⟨hMem, hSame⟩
        · exact Or.inl rfl

/-- Whether two batches come to the same: equal counts, and equal reports under the same paths. -/
structure Same (b b' : Batch) : Prop where
  total : b.total = b'.total
  valid : b.valid = b'.valid
  invalid : b.invalid = b'.invalid
  reports : b.reports.Perm b'.reports

/-- The order of reports does not matter where those under one path are the same. -/
theorem same_of_perm (h : log.Perm log') (hOne : Consistent log) :
    Same ((ofTotal n).recordAll log) ((ofTotal n).recordAll log') where
  total := by simp
  valid := by simp [h.countP_eq]
  invalid := by simp [h.countP_eq]
  reports := by
    have hNodup : ∀ log, ((ofTotal n).recordAll log).reports.Nodup := fun log =>
      List.Nodup.of_map Prod.fst (nodup_recordAll List.nodup_nil)
    refine (List.perm_ext_iff_of_nodup (hNodup log) (hNodup log')).mpr fun e => ?_
    rw [mem_recordAll hOne, mem_recordAll (hOne.of_subset h.symm.subset), h.mem_iff]

/-- Batches that come to the same are told in the same words. -/
theorem Same.toDocument_eq (h : Same b b') (hNodup : b.keys.Nodup) : b.toDocument = b'.toDocument := by
  have hSorted : b.sorted = b'.sorted := (Document.mergeSort_eq_iff hNodup).mpr h.reports
  simp only [toDocument, isValid, severity, summary, h.total, h.valid, h.invalid, hSorted]

/-! ### The key of a path -/

/-- The path under which a report is kept: the cleaned path, or the text of one that is refused. -/
def key (raw : Text) : Text :=
  match Path.clean raw with
  | .ok path => path
  | .error _ => raw

theorem key_cases (raw : Text) : (Path.clean raw = .ok (key raw) ∧ ¬ Path.HasDots (key raw)) ∨
    (Path.clean raw = .error (.pathTraversal raw) ∧ key raw = raw ∧ Path.HasDots (key raw)) := by
  unfold key
  rcases Path.clean_cases raw with ⟨path, hClean, hDots⟩ | ⟨hClean, hDots⟩
  · exact Or.inl (by simp [hClean, hDots])
  · exact Or.inr (by simp [hClean, hDots])

/-- A key is taken by one cleaned path or by one refused path, never by both. -/
theorem clean_eq_of_key_eq {p q : Text} (h : key p = key q) : Path.clean p = Path.clean q := by
  rcases key_cases p with ⟨hP, hFreeP⟩ | ⟨hP, hRawP, hDotsP⟩ <;>
    rcases key_cases q with ⟨hQ, hFreeQ⟩ | ⟨hQ, hRawQ, hDotsQ⟩
  · rw [hP, hQ, h]
  · exact absurd (h ▸ hDotsQ) hFreeP
  · exact absurd (h ▸ hDotsP) hFreeQ
  · rw [hP, hQ, ← hRawP, ← hRawQ, h]

section One

variable {fs : Files} {g : Guard} {schema : Except Failure Compiled} {offline : Bool} {o : BatchOptions}
  {bs : Bytes} {paths : List Text} {entries : List (Text × Report)}

/-- A file has one outcome however its path is spelt, and only the spellings of one file share a key. -/
theorem validateOne_congr {p q : Text} (h : key p = key q) :
    validateOne fs g schema p = validateOne fs g schema q := by
  have hClean := clean_eq_of_key_eq h
  unfold validateOne
  rcases key_cases p with ⟨hP, -⟩ | ⟨hP, hRawP, -⟩
  · rw [← hClean, hP]
  · rcases key_cases q with ⟨hQ, -⟩ | ⟨-, hRawQ, -⟩
    · rw [hP, hQ] at hClean
      cases hClean
    · rw [← hRawP, ← hRawQ, h]

/-- The report on a file is kept under the key of its path. -/
theorem fst_of_validateOne (h : validateOne fs g schema raw = .ok e) : e.1 = key raw := by
  unfold validateOne at h
  unfold key
  cases hClean : Path.clean raw with
  | error f =>
      rw [hClean] at h
      exact congrArg Prod.fst (Except.ok.inj h).symm
  | ok path =>
      simp only [hClean] at h
      obtain ⟨found, -, h⟩ := exists_of_bind_ok h
      cases found with
      | error why => exact congrArg Prod.fst (Except.ok.inj h).symm
      | ok content =>
          obtain ⟨r, -, h⟩ := exists_of_bind_ok h
          exact congrArg Prod.fst (Except.ok.inj h).symm

/-- A batch that has time for its work makes a report on each file in turn. -/
theorem run_eq (hSchema : schemaOf offline o.guard bs = .ok schema) (hTime : o.timeout.isInstant = false) :
    run fs offline o bs paths = (paths.mapM (validateOne fs o.guard schema)).map ofReports := by
  unfold run
  rw [hSchema, hTime]
  simp only [bind, Except.bind, Bool.false_and, Bool.false_eq_true, if_false, Pool.run_open]
  cases paths.mapM (validateOne fs o.guard schema) <;> rfl

/-- A batch of one file holds the outcome of that file. -/
theorem run_singleton (hSchema : schemaOf offline o.guard bs = .ok schema)
    (hTime : o.timeout.isInstant = false) :
    run fs offline o bs [raw] = (validateOne fs o.guard schema raw).map fun e => ofReports [e] := by
  rw [run_eq hSchema hTime, List.mapM_cons]
  cases validateOne fs o.guard schema raw <;> rfl

/-- Files whose reports have one key have one report. -/
theorem consistent_of_outcomes (h : ∀ e ∈ entries, ∃ path, validateOne fs g schema path = .ok e) :
    Consistent entries := by
  intro e hE e' hE' hSame
  obtain ⟨p, hP⟩ := h e hE
  obtain ⟨q, hQ⟩ := h e' hE'
  have hKey : key p = key q := by rw [← fst_of_validateOne hP, ← fst_of_validateOne hQ, hSame]
  exact Except.ok.inj (hP.symm.trans ((validateOne_congr hKey).trans hQ))

theorem consistent_of_mapM (h : paths.mapM (validateOne fs g schema) = .ok entries) : Consistent entries :=
  consistent_of_outcomes fun _ hMem =>
    let ⟨path, _, hOutcome⟩ := exists_of_mapM_ok h hMem
    ⟨path, hOutcome⟩

/-- A batch with an outcome for every file has a report under the key of each path and no others. -/
theorem mem_keys_of_mapM (h : paths.mapM (validateOne fs g schema) = .ok entries) {k : Text} :
    k ∈ (ofReports entries).keys ↔ ∃ p ∈ paths, key p = k := by
  have hKept : ∀ e, e ∈ (ofReports entries).reports ↔ e ∈ entries := fun e => mem_recordAll (consistent_of_mapM h)
  constructor
  · intro hMem
    obtain ⟨e, hE, rfl⟩ := List.mem_map.mp hMem
    obtain ⟨p, hP, hOutcome⟩ := exists_of_mapM_ok h ((hKept e).mp hE)
    exact ⟨p, hP, (fst_of_validateOne hOutcome).symm⟩
  · rintro ⟨p, hP, rfl⟩
    obtain ⟨e, hE, hOutcome⟩ := exists_mem_of_mapM_ok h hP
    exact List.mem_map.mpr ⟨e, (hKept e).mpr hE, fst_of_validateOne hOutcome⟩

end One

/-! ### A small batch -/

/-- A directory with one file. -/
def oneFile : Files where
  root := .directory [("a.json", .file (Text.utf8 "[1]"))]
  cwd := "/"

/-- Two spellings of its path, a path that leads out of the directory, and one that leads nowhere. -/
def fourPaths : List Text := ["a.json", "./a.json", "../a.json", "b.json"]

def twoWorkers : BatchOptions := ⟨⟨2, by decide⟩, .whole 30, .usual⟩

/-- A schema to which all data conform. -/
def anything : Bytes := Text.utf8 "\x7b\"$schema\": \"http://json-schema.org/draft-07/schema#\"\x7d"

theorem exists_outcomes_fourPaths : ∃ schema, schemaOf false twoWorkers.guard anything = .ok schema ∧
    ∀ path ∈ fourPaths, (validateOne oneFile twoWorkers.guard schema path).isOk = true := by
  have hRun : ((schemaOf false twoWorkers.guard anything).toOption.any fun schema => fourPaths.all fun path =>
      (validateOne oneFile twoWorkers.guard schema path).isOk) = true := by decide +kernel
  obtain ⟨schema, hSchema, hAll⟩ := exists_of_any hRun
  exact ⟨schema, hSchema, List.all_eq_true.mp hAll⟩

end Conform.Schema.Batch

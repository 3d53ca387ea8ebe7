import Conform.Proofs.Schema.Batch
import Conform.Proofs.Schema.Failures

/-! What becomes of one file. A file validated by itself is looked at before its schema and breaks off at
the first obstacle, while a batch has its schema at hand and turns obstacles into reports. Both do the same
checks, so they come to the same report, and where the one fails the other reports that the file cannot be
used, unless the failure is of a kind that ends a batch. -/
namespace Conform.Schema.Batch

variable {fs : Files} {offline : Bool} {g : Guard} {o : BatchOptions} {bs data : Bytes} {raw path : Text}
  {schema : Except Failure Compiled} {r : Report} {f : Failure}

theorem schemaOf_ok (h : schemaOf offline g bs = .ok schema) :
    Compiled.read offline g.enforceDialect bs = schema ∧ ∀ f, schema = .error f → f.isDomain = true := by
  unfold schemaOf at h
  split at h
  · next s hRead =>
      obtain rfl : .ok s = schema := Except.ok.inj h
      exact ⟨hRead, nofun⟩
  · next f hRead =>
      split at h
      · next hDomain =>
          obtain rfl : .error f = schema := Except.ok.inj h
          exact ⟨hRead, fun _ hSame => Except.error.inj hSame ▸ hDomain⟩
      · cases h

/-- A file that may be read is read, or both ways of validating it stop before its content with a failure
that is reported, or its path names nothing at all. -/
theorem content_cases (fs : Files) (g : Guard) (hClean : Path.clean raw = .ok path) :
    (∃ data, g.read fs raw = .ok (path, data) ∧ content g fs path = .ok (.ok data)) ∨
    ((∃ f, g.read fs raw = .error f ∧ f.isForeign = false) ∧ ∃ why, content g fs path = .ok (.error why)) ∨
    (g.read fs raw = .error .nulInPath ∧ content g fs path = .error .nulInPath ∧
      path.any (·.val == 0) = true) := by
  have hRead : g.read fs raw =
      if !Path.isWithinAny fs.cwd path g.allowed then .error (.outsideAllowed path g.allowed)
      else (fs.size path).bind fun size =>
        if g.maxSize < size then .error (.overSize path g.maxSize size) else (fs.read path).map (path, ·) := by
    rw [Guard.read, Guard.cleanAs, hClean]
    rfl
  rw [hRead]
  unfold content explain
  by_cases hWithin : Path.isWithinAny fs.cwd path g.allowed = true
  · cases hSize : fs.size path with
    | error f =>
        rcases Files.failure_of_size hSize with ⟨hNul, rfl⟩ | hAccess
        · exact Or.inr (Or.inr ⟨by simp [hWithin, Except.bind],
            by simp [hWithin, Failure.isAccess, bind, Except.bind], hNul⟩)
        · have hReported : f.isForeign = false := Failure.isForeign_eq_false_iff.mpr (Or.inr hAccess)
          exact Or.inr (Or.inl (by simp [hWithin, hAccess, hReported, bind, Except.bind, pure, Except.pure]))
    | ok size =>
        by_cases hLarge : g.maxSize < size
        · exact Or.inr (Or.inl (by simp [hWithin, hLarge, Failure.isForeign, Failure.isDomain, bind, Except.bind,
            pure, Except.pure]))
        · cases hData : fs.read path with
          | ok data => exact Or.inl ⟨data, by simp [hWithin, hLarge, bind, Except.bind, Except.map]⟩
          | error f =>
              have hAccess := Files.isAccess_of_read hSize hData
              have hReported : f.isForeign = false := Failure.isForeign_eq_false_iff.mpr (Or.inr hAccess)
              exact Or.inr (Or.inl (by simp [hWithin, hLarge, hAccess, hReported, bind, Except.bind, Except.map]))
  · exact Or.inr (Or.inl (by simp [hWithin, Failure.isForeign, Failure.isDomain, pure, Except.pure]))

theorem reportOn_eq : reportOn schema path data =
    match schema.bind (·.validateBytes data (some { file := path, type := "file" })) with
    | .ok r => .ok r
    | .error f => if f.isDomain then .ok (failed path (setupError f)) else .error f := rfl

/-- What a batch reports on the content of a file is what a check of it by itself finds. Where the latter
fails the batch makes a report of its own, or fails in the same way. -/
theorem reportOn_cases (path : Text) (data : Bytes) (hSchema : schemaOf offline g bs = .ok schema) :
    (∃ r, Compiled.validateData offline g.enforceDialect bs data (some { file := path, type := "file" }) = .ok r ∧
      reportOn schema path data = .ok r) ∨
    ∃ f, Compiled.validateData offline g.enforceDialect bs data (some { file := path, type := "file" }) = .error f ∧
      ((∃ why, reportOn schema path data = .ok (failed path why)) ∨
        (f.isForeign = true ∧ reportOn schema path data = .error f)) := by
  obtain ⟨hRead, hDomain⟩ := schemaOf_ok hSchema
  rw [reportOn_eq]
  unfold Compiled.validateData
  rw [hRead]
  cases schema with
  | error f =>
      -- The single check may already have failed over the data.
      have hReport : (if f.isDomain then .ok (failed path (setupError f)) else .error f : Except Failure Report) =
          .ok (failed path (setupError f)) := if_pos (hDomain f rfl)
      cases Document.readData data with
      | error f' => exact Or.inr ⟨f', rfl, Or.inl ⟨_, hReport⟩⟩
      | ok read => exact Or.inr ⟨f, rfl, Or.inl ⟨_, hReport⟩⟩
  | ok s =>
      cases hRun : s.validateBytes data (some { file := path, type := "file" }) with
      | ok r => exact Or.inl ⟨r, hRun, by simp only [Except.bind, hRun]⟩
      | error f =>
          refine Or.inr ⟨f, hRun, ?_⟩
          simp only [Except.bind, hRun]
          rcases Compiled.failure_of_validateBytes hRun with hOwn | hForeign
          · exact Or.inl ⟨_, if_pos hOwn⟩
          · have hOwn : f.isDomain = false := (Failure.isForeign_iff.mp hForeign).1
            exact Or.inr ⟨hForeign, by simp [hOwn]⟩

/-- What a batch makes of a file is what becomes of the file by itself. -/
theorem validateOne_cases (fs : Files) (raw : Text) (hSchema : schemaOf offline g bs = .ok schema) :
    (∃ r, Compiled.validateGuarded fs offline g bs raw = .ok r ∧ Path.clean raw = .ok (key raw) ∧
      validateOne fs g schema raw = .ok (key raw, r)) ∨
    ∃ f, Compiled.validateGuarded fs offline g bs raw = .error f ∧
      ((∃ why, validateOne fs g schema raw = .ok (key raw, failed (key raw) why)) ∨
        (f.isForeign = true ∧ validateOne fs g schema raw = .error f)) := by
  unfold Compiled.validateGuarded validateOne
  rcases key_cases raw with ⟨hClean, -⟩ | ⟨hClean, hRaw, -⟩
  · rw [hClean]
    rcases content_cases fs g hClean with ⟨data, hRead, hContent⟩ | ⟨⟨f, hRead, -⟩, why, hContent⟩ |
      ⟨hRead, hContent, -⟩
    · simp only [hRead, hContent, bind, Except.bind]
      rcases reportOn_cases (key raw) data hSchema with ⟨r, hSingle, hReport⟩ |
        ⟨f, hSingle, ⟨why, hReport⟩ | ⟨hForeign, hReport⟩⟩
      · exact Or.inl ⟨r, hSingle, trivial, by rw [hReport]; rfl⟩
      · exact Or.inr ⟨f, hSingle, Or.inl ⟨why, by rw [hReport]; rfl⟩⟩
      · exact Or.inr ⟨f, hSingle, Or.inr ⟨hForeign, by rw [hReport]⟩⟩
    · simp only [hRead, hContent, bind, Except.bind]
      exact Or.inr ⟨f, rfl, Or.inl ⟨why, rfl⟩⟩
    · simp only [hRead, hContent, bind, Except.bind]
      exact Or.inr ⟨_, rfl, Or.inr ⟨rfl, rfl⟩⟩
  · have hRefused : g.read fs raw = .error (.unsafePath "path" raw) := by
      rw [Guard.read, Guard.cleanAs, hClean]
      rfl
    rw [hClean, hRefused, hRaw]
    exact Or.inr ⟨_, rfl, Or.inl ⟨_, rfl⟩⟩

/-- Validating a file by itself and validating it in a batch come to the same: the report on it if there is
one, and if it cannot be used, one issue that says so. -/
theorem run_singleton_of_validateGuarded (fs : Files) (raw : Text) (hSchema : schemaOf offline o.guard bs = .ok schema)
    (hTime : o.timeout.isInstant = false) :
    (∀ r, Compiled.validateGuarded fs offline o.guard bs raw = .ok r → ∃ path, Path.clean raw = .ok path ∧
      run fs offline o bs [raw] = .ok (ofReports [(path, r)])) ∧
    ∀ f, Compiled.validateGuarded fs offline o.guard bs raw = .error f → f.isDomain = true ∨ f.isAccess = true →
      ∃ issue, run fs offline o bs [raw] = .ok (ofReports [(key raw, ⟨[issue]⟩)]) ∧ issue.path = key raw ∧
        issue.source.map Source.severity = some "error" := by
  rw [run_singleton hSchema hTime]
  rcases validateOne_cases fs raw hSchema with ⟨r, hSingle, hClean, hOne⟩ |
    ⟨f, hSingle, ⟨why, hOne⟩ | ⟨hForeign, hOne⟩⟩
  · rw [hSingle, hOne]
    exact ⟨fun _ hSame => ⟨key raw, hClean, Except.ok.inj hSame ▸ rfl⟩, nofun⟩
  · rw [hSingle, hOne]
    exact ⟨nofun, fun _ _ _ => ⟨_, rfl, rfl, rfl⟩⟩
  · rw [hSingle]
    refine ⟨nofun, fun f' hSame hReported => ?_⟩
    obtain rfl : f = f' := Except.error.inj hSame
    rw [Failure.isForeign_eq_false_iff.mpr hReported] at hForeign
    cases hForeign

theorem run_singleton_of_validateGuarded_oneFile : ∃ schema r f issue,
    schemaOf false twoWorkers.guard anything = .ok schema ∧ twoWorkers.timeout.isInstant = false ∧
    Compiled.validateGuarded oneFile false twoWorkers.guard anything "./a.json" = .ok r ∧
    run oneFile false twoWorkers anything ["./a.json"] = .ok (ofReports [(key "./a.json", r)]) ∧
    Compiled.validateGuarded oneFile false twoWorkers.guard anything "b.json" = .error f ∧ f.isAccess = true ∧
    run oneFile false twoWorkers anything ["b.json"] = .ok (ofReports [(key "b.json", ⟨[issue]⟩)]) := by
  obtain ⟨schema, hSchema, -⟩ := exists_outcomes_fourPaths
  have hTime : twoWorkers.timeout.isInstant = false := by decide
  have hHere : (Compiled.validateGuarded oneFile false twoWorkers.guard anything "./a.json").isOk = true := by
    decide +kernel
  have hMissing : (fault? (Compiled.validateGuarded oneFile false twoWorkers.guard anything "b.json")).any
      Failure.isAccess = true := by decide +kernel
  obtain ⟨r, hSingle⟩ := exists_of_isOk hHere
  obtain ⟨f, hFault, hAccess⟩ := (Option.any_eq_true ..).mp hMissing
  obtain ⟨hReports, -⟩ := run_singleton_of_validateGuarded oneFile "./a.json" hSchema hTime
  obtain ⟨-, hFails⟩ := run_singleton_of_validateGuarded oneFile "b.json" hSchema hTime
  obtain ⟨path, hClean, hRun⟩ := hReports r hSingle
  obtain ⟨issue, hRun', -⟩ := hFails f (eq_error_of_fault? hFault) (Or.inr hAccess)
  obtain rfl : path = key "./a.json" := by rw [key, hClean]
  exact ⟨schema, r, f, issue, hSchema, hTime, hSingle, hRun, eq_error_of_fault? hFault, hAccess, hRun'⟩

/-! ### Failures that end a batch -/

/-- Whether a file ends its batch with a failure that is not reported: its path holds a NUL, or it may be
read and its content is data with a bad scalar, or one that a keyword of the schema cannot be checked for. -/
inductive Derails (fs : Files) (g : Guard) (schema : Except Failure Compiled) (raw : Text) : Failure → Prop where
  | name {path : Text} (hClean : Path.clean raw = .ok path) (hContent : content g fs path = .error .nulInPath)
      (hNul : path.any (·.val == 0) = true) : Derails fs g schema raw .nulInPath
  | scalar {path : Text} {data : Bytes} {s : Compiled} {fault : Yaml.Fault} (hClean : Path.clean raw = .ok path)
      (hContent : content g fs path = .ok (.ok data)) (hCompiled : schema = .ok s)
      (hData : Document.readData data = .error (.scalar fault)) : Derails fs g schema raw (.scalar fault)
  | check {path : Text} {data : Bytes} {s : Compiled} {d : Document} {format : Format} {f : Failure}
      (hClean : Path.clean raw = .ok path) (hContent : content g fs path = .ok (.ok data)) (hCompiled : schema = .ok s)
      (hData : Document.readData data = .ok (d, format)) (hRun : s.validate d = .error f) (hMet : f.isLocal = true) :
      Derails fs g schema raw f

theorem Derails.isForeign (h : Derails fs g schema raw f) : f.isForeign = true := by
  cases h with
  | name => rfl
  | scalar => rfl
  | check _ _ _ _ _ hMet => exact Failure.isForeign_of_isLocal hMet

theorem reportOn_eq_error_iff : reportOn schema path data = .error f ↔ f.isDomain = false ∧
    schema.bind (·.validateBytes data (some { file := path, type := "file" })) = .error f := by
  rw [reportOn_eq]
  cases schema.bind (·.validateBytes data (some { file := path, type := "file" })) with
  | ok r => simp
  | error f' =>
      by_cases hOwn : f'.isDomain = true
      · simp only [hOwn, if_true, Except.error.injEq]
        exact ⟨nofun, fun ⟨hOther, hSame⟩ => absurd (hSame ▸ hOwn) (Bool.eq_false_iff.mp hOther)⟩
      · simp only [hOwn, Bool.false_eq_true, if_false, Except.error.injEq]
        exact ⟨fun hSame => ⟨hSame ▸ Bool.eq_false_iff.mpr hOwn, hSame⟩, fun h => h.2⟩

/-- The report on a content fails where the content is data with a bad scalar or data that the schema cannot
be checked for. -/
theorem reportOn_fails_iff (hOwn : ∀ f, schema = .error f → f.isDomain = true) :
    reportOn schema path data = .error f ↔ ∃ s, schema = .ok s ∧
      ((∃ fault, f = .scalar fault ∧ Document.readData data = .error f) ∨
        ∃ d format, Document.readData data = .ok (d, format) ∧ s.validate d = .error f ∧ f.isLocal = true) := by
  rw [reportOn_eq_error_iff]
  cases schema with
  | error f' =>
      refine ⟨fun ⟨hForeign, hSame⟩ => ?_, fun ⟨_, hOk, _⟩ => nomatch hOk⟩
      obtain rfl : f' = f := Except.error.inj hSame
      exact absurd (hOwn f' rfl) (Bool.eq_false_iff.mp hForeign)
  | ok s =>
      constructor
      · rintro ⟨hForeign, hRun⟩
        refine ⟨s, rfl, ?_⟩
        rcases Compiled.validateBytes_eq_error_iff.mp hRun with hData | ⟨d, format, hData, hRun⟩
        · rcases Document.failure_of_readData hData with rfl | ⟨fault, rfl⟩
          · cases hForeign
          · exact Or.inl ⟨fault, rfl, hData⟩
        · rcases Compiled.failure_of_validate hRun with ⟨named, why, rfl⟩ | hMet
          · cases hForeign
          · exact Or.inr ⟨d, format, hData, hRun, hMet⟩
      · rintro ⟨_, hCompiled, hFails⟩
        obtain rfl := Except.ok.inj hCompiled
        rcases hFails with ⟨fault, rfl, hData⟩ | ⟨d, format, hData, hRun, hMet⟩
        · exact ⟨rfl, Compiled.validateBytes_eq_error_iff.mpr (Or.inl hData)⟩
        · exact ⟨(Failure.isForeign_iff.mp (Failure.isForeign_of_isLocal hMet)).1,
            Compiled.validateBytes_eq_error_iff.mpr (Or.inr ⟨d, format, hData, hRun⟩)⟩

theorem validateOne_fails_iff : validateOne fs g schema raw = .error f ↔ ∃ path, Path.clean raw = .ok path ∧
    (content g fs path = .error f ∨
      ∃ data, content g fs path = .ok (.ok data) ∧ reportOn schema path data = .error f) := by
  unfold validateOne
  cases Path.clean raw with
  | error f' => simp [pure, Except.pure]
  | ok path =>
      cases hContent : content g fs path with
      | error f' => simp [hContent, bind, Except.bind]
      | ok c =>
          cases c with
          | error why => simp [hContent, bind, Except.bind, pure, Except.pure]
          | ok data => cases hReport : reportOn schema path data <;>
              simp [hContent, hReport, bind, Except.bind, pure, Except.pure]

/-- A file fails in a batch exactly if it derails. -/
theorem validateOne_eq_error_iff (hSchema : schemaOf offline g bs = .ok schema) :
    validateOne fs g schema raw = .error f ↔ Derails fs g schema raw f := by
  obtain ⟨-, hOwn⟩ := schemaOf_ok hSchema
  rw [validateOne_fails_iff]
  constructor
  · rintro ⟨path, hClean, hName | ⟨data, hContent, hReport⟩⟩
    · rcases content_cases fs g hClean with ⟨_, -, hOk⟩ | ⟨-, _, hOk⟩ | ⟨-, hContent, hNul⟩
      · cases hName.symm.trans hOk
      · cases hName.symm.trans hOk
      · obtain rfl := Except.error.inj (hContent.symm.trans hName)
        exact .name hClean hContent hNul
    · obtain ⟨s, hCompiled, ⟨fault, rfl, hData⟩ | ⟨d, format, hData, hRun, hMet⟩⟩ :=
        (reportOn_fails_iff hOwn).mp hReport
      · exact .scalar hClean hContent hCompiled hData
      · exact .check hClean hContent hCompiled hData hRun hMet
  · intro h
    cases h with
    | name hClean hContent hNul => exact ⟨_, hClean, Or.inl hContent⟩
    | scalar hClean hContent hCompiled hData =>
        exact ⟨_, hClean, Or.inr ⟨_, hContent, (reportOn_fails_iff hOwn).mpr
          ⟨_, hCompiled, Or.inl ⟨_, rfl, hData⟩⟩⟩⟩
    | check hClean hContent hCompiled hData hRun hMet =>
        exact ⟨_, hClean, Or.inr ⟨_, hContent, (reportOn_fails_iff hOwn).mpr
          ⟨_, hCompiled, Or.inr ⟨_, _, hData, hRun, hMet⟩⟩⟩⟩

variable {paths : List Text} (hSchema : schemaOf offline o.guard bs = .ok schema)
  (hTime : o.timeout.isInstant = false)

include hSchema hTime

theorem endsUnless_run : EndsUnless (run fs offline o bs paths) paths (Derails fs o.guard schema) := by
  rw [run_eq hSchema hTime]
  exact (endsUnless_mapM (fun _ _ => validateOne_eq_error_iff hSchema) fun _ _ => Derails.isForeign).map _

/-- A batch that has come to an end has counted every file once, and has the report on each that it gives
by itself, or one that says why there is none. -/
theorem reports_of_run {b : Batch} (h : run fs offline o bs paths = .ok b) :
    b.total = paths.length ∧ b.valid + b.invalid = b.total ∧
      ∀ raw ∈ paths, ∃ r, (key raw, r) ∈ b.reports ∧
        (Compiled.validateGuarded fs offline o.guard bs raw = .ok r ∨
          ∃ f why, Compiled.validateGuarded fs offline o.guard bs raw = .error f ∧ r = failed (key raw) why) := by
  rw [run_eq hSchema hTime] at h
  obtain ⟨entries, hEntries, rfl⟩ := exists_of_map_ok h
  have hLength : entries.length = paths.length := (forall₂_of_mapM_ok hEntries).length_eq.symm
  refine ⟨?_, ?_, fun raw hMem => ?_⟩
  · rw [ofReports_eq, total_recordAll]
    exact hLength
  · rw [ofReports_eq, valid_add_invalid_recordAll, total_recordAll]
    exact Nat.zero_add _
  · obtain ⟨e, hE, hOutcome⟩ := exists_mem_of_mapM_ok hEntries hMem
    have hKept : e ∈ (ofReports entries).reports := (mem_recordAll (consistent_of_mapM hEntries)).mpr hE
    rcases validateOne_cases fs raw hSchema with ⟨r, hSingle, -, hOne⟩ | ⟨f, hSingle, ⟨why, hOne⟩ | ⟨-, hOne⟩⟩
    · obtain rfl : (key raw, r) = e := Except.ok.inj (hOne.symm.trans hOutcome)
      exact ⟨r, hKept, Or.inl hSingle⟩
    · obtain rfl : (key raw, failed (key raw) why) = e := Except.ok.inj (hOne.symm.trans hOutcome)
      exact ⟨_, hKept, Or.inr ⟨f, why, hSingle, rfl⟩⟩
    · cases hOne.symm.trans hOutcome

end Conform.Schema.Batch

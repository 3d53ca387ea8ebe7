import Conform.Proofs.Schema.Batch
import Mathlib.Data.List.ReduceOption

/-! Batches whose files are validated at the same time. A worker looks whether the batch was called off
before it validates a file and again before it records the report, and in both cases leaves without a
word. So a batch that was called off late may come to an end with reports missing; a batch that is left
alone ends with one report for every file, the same whatever the workers do. -/
namespace Conform.Schema.Batch

/-- Where a job is between two of its steps. -/
inductive Point where
  /-- A worker has taken the path. -/
  | taken (path : Text)
  /-- The batch was not called off when the worker began. -/
  | wanted (path : Text)
  /-- There is a report. -/
  | reported (entry : Text × Report)
  /-- The batch was not called off when the report was there. -/
  | kept (entry : Text × Report)

/-- How far the job for a file has come. The result is the report that it recorded, if any. -/
abbrev JobStage := Pool.Stage Point Failure (Option (Text × Report))

/-- A path with its job. -/
abbrev Job := Text × JobStage

/-- A batch in the middle of its run. -/
abbrev State := Pool.State Text Batch Point Failure (Option (Text × Report))

/-- What a worker does with a path. -/
def worker (check : Text → Except Failure (Text × Report)) :
    Pool.Worker Text Batch Point Failure (Option (Text × Report)) where
  first := .taken
  step cancelled b
    | .taken path => (b, if cancelled then .inr (.ok none) else .inl (.wanted path))
    | .wanted path =>
      (b, match check path with
        | .ok e => .inl (.reported e)
        | .error f => .inr (.error f))
    | .reported e => (b, if cancelled then .inr (.ok none) else .inl (.kept e))
    | .kept e => (b.record e.1 e.2, .inr (.ok (some e)))

/-- A state to which a batch may come, having been called off beforehand or not. -/
def Reached (fs : Files) (offline : Bool) (o : BatchOptions) (bs : Bytes) (paths : List Text)
    (cancelled : Bool) (s : State) : Prop :=
  ∃ schema, schemaOf offline o.guard bs = .ok schema ∧
    Pool.Runs o.pool (worker (validateOne fs o.guard schema))
      (.start cancelled (ofTotal paths.length) paths) s

/-- How many steps a job still takes from a point, beyond the next one. -/
def Point.rank : Point → Nat
  | taken _ => 3
  | wanted _ => 2
  | reported _ => 1
  | kept _ => 0

/-- What a job has recorded. -/
def recordedBy : JobStage → Option (Text × Report)
  | .ended (.ok r) => r
  | _ => none

/-- All that was recorded, in the order of the jobs. -/
def recorded (jobs : List Job) : List (Text × Report) :=
  jobs.filterMap fun job => recordedBy job.2

/-- What a stage says of the path of its job. -/
def Fits (check : Text → Except Failure (Text × Report)) (cancelled : Bool) (path : Text) :
    JobStage → Prop
  | .waiting => True
  | .working (.taken p) => p = path
  | .working (.wanted p) => p = path
  | .working (.reported e) => check path = .ok e
  | .working (.kept e) => check path = .ok e
  | .ended (.ok none) => cancelled = true
  | .ended (.ok (some e)) => check path = .ok e
  | .ended (.error .cancelled) => cancelled = true
  | .ended (.error (.failed f)) => check path = .error f

variable {check : Text → Except Failure (Text × Report)} {pool : Pool} {cancelled : Bool} {n : Nat}
  {paths : List Text} {s s' : State} {rs : List (Option (Text × Report))}

theorem recorded_append {jobs jobs' : List Job} :
    recorded (jobs ++ jobs') = recorded jobs ++ recorded jobs' := List.filterMap_append

theorem recorded_cons {path : Text} {stage : JobStage}
    {jobs : List Job} :
    recorded ((path, stage) :: jobs) = (recordedBy stage).toList ++ recorded jobs := by
  rw [recorded, List.filterMap_cons]
  cases recordedBy stage <;> rfl

theorem rank_lt_of_step {c : Bool} {b : Batch} {p q : Point}
    (h : ((worker check).step c b p).2 = .inl q) : q.rank < p.rank := by
  cases p with
  | taken path =>
      cases c <;> cases h
      exact Nat.lt_succ_self _
  | wanted path =>
      simp only [worker] at h
      split at h <;> cases h
      exact Nat.lt_succ_self _
  | reported e =>
      cases c <;> cases h
      exact Nat.lt_succ_self _
  | kept e => cases h

theorem Fits.step {c : Bool} {b : Batch} {path : Text} {p : Point} (h : Fits check c path (.working p)) :
    Fits check c path (.ofStep ((worker check).step c b p).2) := by
  cases p with
  | taken p =>
      cases c
      · exact h
      · rfl
  | wanted p =>
      obtain rfl : p = path := h
      simp only [worker]
      split
      · assumption
      · assumption
  | reported e =>
      cases c
      · exact h
      · rfl
  | kept e => exact h

/-- What is there of a path at any time is its own outcome, and only what was called off is missing. -/
theorem fits_of_runs (h : Pool.Runs pool (worker check) (.start cancelled (ofTotal n) paths) s) :
    ∀ job ∈ s.jobs, Fits check s.cancelled job.1 job.2 := by
  refine Pool.Runs.forall_jobs h ?_ ?_ (fun c b path p => Fits.step) ?_
  · intro job hJob
    obtain ⟨path, -, rfl⟩ := List.mem_map.mp hJob
    trivial
  · intro c path _
    cases c <;> rfl
  · intro c path stage hFits
    cases stage with
    | waiting => trivial
    | working p => cases p <;> exact hFits
    | ended r =>
        match r with
        | .ok none => rfl
        | .ok (some e) => exact hFits
        | .error .cancelled => rfl
        | .error (.failed f) => exact hFits

/-- A step changes the batch by the report that the job has then recorded, if it has. -/
theorem shared_step (c : Bool) (b : Batch) (p : Point) : ((worker check).step c b p).1 =
    b.recordAll (recordedBy (.ofStep ((worker check).step c b p).2)).toList := by
  cases p with
  | taken path => cases c <;> rfl
  | wanted path =>
      simp only [worker]
      cases check path <;> rfl
  | reported e => cases c <;> rfl
  | kept e => rfl

/-- At any time the batch holds what the jobs have recorded, in the order in which they did. -/
theorem exists_log_of_runs (h : Pool.Runs pool (worker check) (.start cancelled (ofTotal n) paths) s) :
    ∃ log, log.Perm (recorded s.jobs) ∧ s.shared = (ofTotal n).recordAll log := by
  induction h with
  | refl =>
      refine ⟨[], ?_, rfl⟩
      simp [recorded, Pool.State.start, List.filterMap_map, recordedBy]
  | tail _ last ih =>
      obtain ⟨log, hPerm, hShared⟩ := ih
      cases last with
      | callOff => exact ⟨log, hPerm, hShared⟩
      | @take c b before after path =>
          refine ⟨log, ?_, hShared⟩
          have hNothing : recordedBy (.taken (worker check) c path) = recordedBy .waiting := by
            cases c <;> rfl
          simpa only [recorded_append, recorded_cons, hNothing] using hPerm
      | @work c b before after path p =>
          obtain rfl : b = (ofTotal n).recordAll log := hShared
          refine ⟨log ++ _, ?_, (shared_step c _ p).trans recordAll_append.symm⟩
          simp only [recorded_append, recorded_cons] at hPerm ⊢
          refine (hPerm.append_right _).trans ?_
          rw [List.append_assoc]
          exact List.perm_append_comm.append_left _

/-- Once all jobs have results, these are what was recorded. -/
theorem recorded_of_returns (hReturns : s.Returns rs) : recorded s.jobs = rs.reduceOption := by
  have hStages : (s.jobs.map Prod.snd).filterMap recordedBy = recorded s.jobs := List.filterMap_map
  rw [← hStages, hReturns, List.filterMap_map]
  rfl

section Reached

variable {fs : Files} {offline : Bool} {o : BatchOptions} {bs : Bytes} {schema : Except Failure Compiled}
  {entries : List (Text × Report)}

theorem runs_of_reached (hSchema : schemaOf offline o.guard bs = .ok schema)
    (h : Reached fs offline o bs paths cancelled s) :
    Pool.Runs o.pool (worker (validateOne fs o.guard schema))
      (.start cancelled (ofTotal paths.length) paths) s := by
  obtain ⟨schema', hSchema', hRuns⟩ := h
  obtain rfl : schema' = schema := Except.ok.inj (hSchema'.symm.trans hSchema)
  exact hRuns

theorem items_of_reached (h : Reached fs offline o bs paths cancelled s) : s.jobs.map Prod.fst = paths := by
  obtain ⟨_, _, hRuns⟩ := h
  rw [hRuns.items_eq, Pool.State.start, List.map_map]
  exact List.map_id _

theorem fits_of_reached (hSchema : schemaOf offline o.guard bs = .ok schema)
    (h : Reached fs offline o bs paths cancelled s) :
    ∀ job ∈ s.jobs, Fits (validateOne fs o.guard schema) s.cancelled job.1 job.2 :=
  fits_of_runs (runs_of_reached hSchema h)

/-- What the jobs of a batch that has come to an end have recorded is the outcome of their files. -/
theorem outcomes_of_returns (hSchema : schemaOf offline o.guard bs = .ok schema)
    (h : Reached fs offline o bs paths cancelled s) (hReturns : s.Returns rs) :
    List.Forall₂ (fun path r =>
      r.elim (s.cancelled = true) fun e => validateOne fs o.guard schema path = .ok e) paths rs := by
  have hAll := hReturns.forall₂ (P := Fits (validateOne fs o.guard schema) s.cancelled)
    (fits_of_reached hSchema h)
  rw [items_of_reached h] at hAll
  exact hAll.imp fun path r hFits => by cases r <;> exact hFits

/-! ### Batches that are left alone -/

variable (hSchema : schemaOf offline o.guard bs = .ok schema)
  (hJobs : ∀ path ∈ paths, (validateOne fs o.guard schema path).isOk = true)
  (h : Reached fs offline o bs paths cancelled s) (hOn : s.cancelled = false)

include hSchema hJobs h hOn

/-- Nothing stops a batch that is left alone if every file has an outcome. -/
theorem not_stops_of_reached (why : Pool.Stop Failure) : ¬ s.Stops why := by
  rintro ⟨path, hMem⟩
  have hFits := fits_of_reached hSchema h _ hMem
  cases why with
  | cancelled => exact absurd (hOn.symm.trans hFits) Bool.false_ne_true
  | failed f =>
      have hPath : path ∈ paths := items_of_reached h ▸ List.mem_map_of_mem hMem
      have hFails : validateOne fs o.guard schema path = .error f := hFits
      have hOk := hJobs path hPath
      rw [hFails] at hOk
      cases hOk

/-- It comes to an end, from wherever it is. -/
theorem exists_returns_of_reached : ∃ s', Pool.Runs o.pool (worker (validateOne fs o.guard schema)) s s' ∧
    s'.cancelled = false ∧ ∃ rs, s'.Returns rs := by
  have hRank : ∀ c b p q, ((worker (validateOne fs o.guard schema)).step c b p).2 = .inl q → q.rank < p.rank :=
    fun c b p q => rank_lt_of_step
  obtain ⟨s', hRuns, hSame, hOver⟩ := Pool.exists_end hRank o.pool s
  have hReached : Reached fs offline o bs paths cancelled s' :=
    ⟨schema, hSchema, (runs_of_reached hSchema h).trans hRuns⟩
  have hOn' : s'.cancelled = false := hSame.trans hOn
  exact ⟨s', hRuns, hOn', Pool.State.returns_of_isEnded hOver (not_stops_of_reached hSchema hJobs hReached hOn')⟩

omit hJobs hOn in
/-- What a job has recorded stays: no other job puts something else under its key. -/
theorem mem_reports_of_recorded {job : Job} (hJob : job ∈ s.jobs) {e : Text × Report}
    (hRecorded : recordedBy job.2 = some e) : e ∈ s.shared.reports := by
  obtain ⟨log, hPerm, hShared⟩ := exists_log_of_runs (runs_of_reached hSchema h)
  have hOutcomes : ∀ e ∈ log, ∃ path, validateOne fs o.guard schema path = .ok e := by
    intro e hMem
    obtain ⟨⟨path, stage⟩, hJob, hRecorded⟩ := List.mem_filterMap.mp (hPerm.mem_iff.mp hMem)
    have hFits := fits_of_reached hSchema h _ hJob
    match stage, hRecorded with
    | .ended (.ok (some _)), rfl => exact ⟨path, hFits⟩
  have hLogged : e ∈ log := hPerm.mem_iff.mpr (List.mem_filterMap.mpr ⟨job, hJob, hRecorded⟩)
  rw [hShared]
  exact (mem_recordAll (consistent_of_outcomes hOutcomes)).mpr hLogged

omit hJobs in
/-- At the end there are the outcomes of all files, recorded in some order. -/
theorem same_of_returns (hReturns : s.Returns rs)
    (hEntries : paths.mapM (validateOne fs o.guard schema) = .ok entries) : Same s.shared (ofReports entries) := by
  obtain ⟨log, hPerm, hShared⟩ := exists_log_of_runs (runs_of_reached hSchema h)
  have hAll : rs.reduceOption = entries := by
    have hOutcomes := outcomes_of_returns hSchema h hReturns
    have hFiles := forall₂_of_mapM_ok hEntries
    clear hReturns hEntries hShared hPerm h
    induction hOutcomes generalizing entries with
    | nil => exact (List.forall₂_nil_left_iff.mp hFiles).symm
    | @cons path r paths rs hResult _ ih =>
        obtain ⟨e, others, hFile, hRest, rfl⟩ := List.forall₂_cons_left_iff.mp hFiles
        cases r with
        | none => exact absurd (hOn.symm.trans hResult) Bool.false_ne_true
        | some e' =>
            obtain rfl : e' = e := Except.ok.inj (hResult.symm.trans hFile)
            rw [List.reduceOption_cons_of_some, ih hRest]
  rw [recorded_of_returns hReturns, hAll] at hPerm
  have hLength : entries.length = paths.length := (forall₂_of_mapM_ok hEntries).length_eq.symm
  rw [ofReports_eq, hShared, hLength]
  exact same_of_perm hPerm (consistent_of_outcomes fun e hMem =>
    let ⟨path, _, hOutcome⟩ := exists_of_mapM_ok hEntries (hPerm.mem_iff.mp hMem)
    ⟨path, hOutcome⟩)

end Reached

section Ends

variable {fs : Files} {offline : Bool} {o : BatchOptions} {bs : Bytes} {schema : Except Failure Compiled}

/-- The counts of a batch that has come to an end are those of the reports that were recorded, each of
them once, and each is the outcome of its file. They add up to the number of files exactly if no job left
without a report; jobs do so only if the batch was called off, and if it was called off beforehand there
was nothing to do. -/
theorem counts_of_returns (h : Reached fs offline o bs paths cancelled s) (hReturns : s.Returns rs) :
    s.shared.total = paths.length ∧
    s.shared.valid + s.shared.invalid = rs.reduceOption.length ∧
    (s.shared.valid + s.shared.invalid = s.shared.total ↔ ∀ r ∈ rs, r.isSome = true) ∧
    (∃ log, log.Perm rs.reduceOption ∧ s.shared = (ofTotal paths.length).recordAll log) ∧
    (∀ schema, schemaOf offline o.guard bs = .ok schema → List.Forall₂ (fun path r =>
      r.elim (s.cancelled = true) fun e => validateOne fs o.guard schema path = .ok e) paths rs) ∧
    (s.cancelled = false → ∀ r ∈ rs, r.isSome = true) ∧ (cancelled = true → paths = []) := by
  obtain ⟨schema, hSchema, hRuns⟩ := id h
  obtain ⟨log, hPerm, hShared⟩ := exists_log_of_runs hRuns
  rw [recorded_of_returns hReturns] at hPerm
  have hTotal : s.shared.total = paths.length := by simp [hShared, ofTotal]
  have hCount : s.shared.valid + s.shared.invalid = rs.reduceOption.length := by
    rw [hShared, valid_add_invalid_recordAll, hPerm.length_eq]
    exact Nat.zero_add _
  have hOwn := outcomes_of_returns hSchema h hReturns
  have hLength : rs.length = paths.length := hOwn.length_eq.symm
  refine ⟨hTotal, hCount, ?_, ⟨log, hPerm, hShared⟩, fun _ hSchema => outcomes_of_returns hSchema h hReturns,
    fun hOn r hMem => ?_, ?_⟩
  · rw [hCount, hTotal, ← hLength]
    exact List.reduceOption_length_eq_iff
  · obtain ⟨path, -, hFits⟩ := exists_left_of_forall₂ hOwn hMem
    cases r with
    | none => exact absurd (hOn.symm.trans hFits) Bool.false_ne_true
    | some e => rfl
  · rintro rfl
    refine List.eq_nil_iff_forall_not_mem.mpr fun path hPath => ?_
    obtain ⟨job, hJob, -⟩ := List.mem_map.mp (items_of_reached h ▸ hPath)
    obtain ⟨r, -, hEnded⟩ := List.mem_map.mp (hReturns ▸ List.mem_map_of_mem hJob : job.2 ∈ rs.map _)
    rcases hRuns.refused job hJob with hStage | hStage <;> cases hEnded.trans hStage

theorem counts_of_returns_fourPaths : ∃ s rs, Reached oneFile false twoWorkers anything fourPaths false s ∧
    s.Returns rs ∧ s.shared.total = 4 ∧ s.shared.valid + s.shared.invalid = 4 := by
  obtain ⟨schema, hSchema, hJobs⟩ := exists_outcomes_fourPaths
  have hStart : Reached oneFile false twoWorkers anything fourPaths false (.start false (ofTotal 4) fourPaths) :=
    ⟨schema, hSchema, .refl⟩
  obtain ⟨s, hRuns, hOn, rs, hReturns⟩ := exists_returns_of_reached hSchema hJobs hStart rfl
  have hReached : Reached oneFile false twoWorkers anything fourPaths false s := ⟨schema, hSchema, hRuns⟩
  obtain ⟨hTotal, -, hAll, -, -, hNone, -⟩ := counts_of_returns hReached hReturns
  exact ⟨s, rs, hReached, hReturns, hTotal, (hAll.mpr (hNone hOn)).trans hTotal⟩

/-- A batch of one file that is called off after a worker has taken the file, and before it has begun,
comes to an end without a report. -/
theorem exists_reached_lost (fs : Files) (o : BatchOptions) (path : Text)
    (hSchema : schemaOf offline o.guard bs = .ok schema) :
    ∃ s, Reached fs offline o bs [path] false s ∧ s.Returns [none] ∧ s.shared = ofTotal 1 := by
  have hFree : Pool.State.busy (⟨false, ofTotal 1, [] ++ (path, .waiting) :: []⟩ : State) < o.pool.workers :=
    o.pool.workers_pos
  have hLeave : Pool.Step o.pool (worker (validateOne fs o.guard schema))
      ⟨true, ofTotal 1, [] ++ (path, .working (.taken path)) :: []⟩
      ⟨true, ofTotal 1, [] ++ (path, .ended (.ok none)) :: []⟩ := .work
  exact ⟨_, ⟨schema, hSchema, .head (.take hFree) (.head (.callOff _) (.single hLeave))⟩, rfl, rfl⟩

/-- A batch that has come to an end without an error may lack a report. -/
theorem not_counts_of_returns : ∃ s rs, Reached oneFile false twoWorkers anything ["a.json"] false s ∧
    s.Returns rs ∧ s.shared.valid + s.shared.invalid ≠ s.shared.total := by
  obtain ⟨schema, hSchema, -⟩ := exists_outcomes_fourPaths
  obtain ⟨s, hReached, hReturns, hShared⟩ := exists_reached_lost oneFile twoWorkers "a.json" hSchema
  refine ⟨s, [none], hReached, hReturns, ?_⟩
  rw [hShared]
  decide

/-- If every file has an outcome, a batch that is left alone comes to an end whatever its workers do, and
always to the same end. It has one report under the key of each path and no others, and that report is
the one that a batch of that file alone makes; none takes the place of a different one. -/
theorem outcome_of_schedules (hSchema : schemaOf offline o.guard bs = .ok schema)
    (hTime : o.timeout.isInstant = false)
    (hJobs : ∀ path ∈ paths, (validateOne fs o.guard schema path).isOk = true) :
    ∃ b, run fs offline o bs paths = .ok b ∧
      (∀ pool s, Reached fs offline { o with pool } bs paths false s → s.cancelled = false →
        (∀ why, ¬ s.Stops why) ∧
        (∃ s', Pool.Runs pool (worker (validateOne fs o.guard schema)) s s' ∧ s'.cancelled = false ∧
          ∃ rs, s'.Returns rs) ∧
        (∀ job ∈ s.jobs, ∀ e, recordedBy job.2 = some e → e ∈ s.shared.reports) ∧
        ∀ rs, s.Returns rs → Same s.shared b ∧ s.shared.toDocument = b.toDocument) ∧
      b.keys.Nodup ∧
      (∀ k, k ∈ b.keys ↔ ∃ p ∈ paths, Path.clean p = .ok k ∨
        (Path.clean p = .error (.pathTraversal p) ∧ k = p)) ∧
      ∀ p ∈ paths, ∃ r b', (key p, r) ∈ b.reports ∧ run fs offline o bs [p] = .ok b' ∧
        b'.reports = [(key p, r)] := by
  obtain ⟨entries, hEntries⟩ := exists_mapM_ok hJobs
  have hRun : run fs offline o bs paths = .ok (ofReports entries) := by
    rw [run_eq hSchema hTime, hEntries]
    rfl
  refine ⟨ofReports entries, hRun, ?_, nodup_recordAll List.nodup_nil, fun k => ?_, fun p hP => ?_⟩
  · intro pool s hReached hOn
    refine ⟨not_stops_of_reached (o := { o with pool }) hSchema hJobs hReached hOn,
      exists_returns_of_reached (o := { o with pool }) hSchema hJobs hReached hOn,
      fun job hJob e => mem_reports_of_recorded (o := { o with pool }) hSchema hReached hJob, fun rs hReturns => ?_⟩
    have hSame := same_of_returns (o := { o with pool }) hSchema hReached hOn hReturns hEntries
    refine ⟨hSame, hSame.toDocument_eq ?_⟩
    exact (hSame.reports.map Prod.fst).nodup_iff.mpr (nodup_recordAll List.nodup_nil)
  · rw [mem_keys_of_mapM hEntries]
    refine exists_congr fun p => and_congr_right fun _ => ?_
    rcases key_cases p with ⟨hClean, -⟩ | ⟨hClean, hRaw, -⟩
    · simp [hClean]
    · simp [hClean, hRaw, eq_comm]
  · obtain ⟨e, hMem, hOutcome⟩ := exists_mem_of_mapM_ok hEntries hP
    obtain ⟨k, r⟩ := e
    obtain rfl : k = key p := fst_of_validateOne hOutcome
    refine ⟨r, ofReports [(key p, r)], (mem_recordAll (consistent_of_mapM hEntries)).mpr hMem, ?_, rfl⟩
    rw [run_singleton hSchema hTime, hOutcome]
    rfl

theorem outcome_of_schedules_fourPaths : ∃ schema b, schemaOf false twoWorkers.guard anything = .ok schema ∧
    twoWorkers.timeout.isInstant = false ∧
    (∀ path ∈ fourPaths, (validateOne oneFile twoWorkers.guard schema path).isOk = true) ∧
    run oneFile false twoWorkers anything fourPaths = .ok b ∧ b.keys.Nodup ∧
    (∀ pool s rs, Reached oneFile false { twoWorkers with pool } anything fourPaths false s →
      s.cancelled = false → s.Returns rs → Same s.shared b) := by
  obtain ⟨schema, hSchema, hJobs⟩ := exists_outcomes_fourPaths
  obtain ⟨b, hRun, hEnds, hNodup, -⟩ := outcome_of_schedules hSchema (by decide) hJobs
  refine ⟨schema, b, hSchema, by decide, hJobs, hRun, hNodup, fun pool s rs hReached hOn hReturns => ?_⟩
  obtain ⟨-, -, -, hSame⟩ := hEnds pool s hReached hOn
  exact (hSame rs hReturns).1

end Ends

end Conform.Schema.Batch

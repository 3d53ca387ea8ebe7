import Conform.Proofs.Schema.Provided
import Conform.Proofs.Suite.Classification
import Conform.Proofs.Suite.Discovery

/-! Suites whose files are validated at the same time. The workers share the catalog of the library's schemas, and a
file comes out as if it were validated alone. So the results are those of the files one after the other, whatever
the workers do. -/
namespace Conform.Suite

open Schema (Compiled Report)
open Schema.Catalog (Mirrors provided)
open Schema.Sharing (Shared Served plain steady)

/-- A file that was read, and what its result will need. -/
structure Opened where
  path : Text
  expectFail : Bool
  ref : SchemaRef
  data : Bytes

/-- The result for a file, by its schema or by why there is none. -/
def Opened.judge (file : Opened) (schema : Except Failure Compiled) : Except Failure FileResult :=
  Setting.finish file.path file.expectFail file.ref (schema >>= (·.validateBytes file.data))

/-- Where the validation of a file is between two of its steps. -/
inductive Point where
  /-- A worker has taken the file. -/
  | taken (plan : Plan)
  /-- The file was read, and the catalog is being asked for its schema. -/
  | asking (file : Opened) (call : Schema.Sharing.Point)
  /-- There is the schema. -/
  | judging (file : Opened) (schema : Compiled)

/-- What a worker does with a file that it has taken. Only the schemas of the library come from what is shared. -/
def Setting.takeUp (s : Setting) : Plan → Point ⊕ Except Failure FileResult
  | .settled r => .inr (.ok r)
  | .validate path rule expectFail =>
    if rule.origin.getD .embedded = .embedded then
      let ref : SchemaRef := { id := rule.schemaId, origin := .embedded }
      match s.files.read (Path.join s.root path) with
      | .ok data => .inl (.asking ⟨path, expectFail, ref, data⟩ (.seek rule.schemaId none))
      | .error f => .inr (if f.isAccess then .ok (failed path ref f.message) else .error f)
    else .inr (s.carryOut (.validate path rule expectFail))

/-- What a worker does with a plan. -/
def worker (s : Setting) : Pool.Worker Plan Shared Point Failure FileResult where
  first := .taken
  step cancelled x
    | .taken plan => (x, s.takeUp plan)
    | .asking file call =>
      let next := (steady Assets.provider s.offline).step cancelled x call
      (next.1, match next.2 with
        | .inl call => .inl (.asking file call)
        | .inr (.error f) => .inr (file.judge (.error f))
        | .inr (.ok a) =>
          match a.copy? with
          | some copy => .inl (.judging file copy.schema)
          -- A call for a schema comes to no other answer.
          | none => .inl (.asking file call))
    | .judging file schema => (x, .inr (file.judge (.ok schema)))

/-- What a stage says of its plan. -/
def Fits (s : Setting) (cancelled : Bool) (plan : Plan) : Pool.Stage Point Failure FileResult → Prop
  | .waiting => True
  | .working (.taken p) => p = plan
  | .working (.asking file call) => ∃ id, call.call = .schema id none ∧ call.Told Assets.provider s.offline ∧
      s.carryOut plan = file.judge (provided Assets.provider s.offline id)
  | .working (.judging file schema) => s.carryOut plan = file.judge (.ok schema)
  | .ended (.error .cancelled) => cancelled = true
  | .ended (.error (.failed f)) => s.carryOut plan = .error f
  | .ended (.ok r) => s.carryOut plan = .ok r

variable {s : Setting} {cancelled : Bool} {plan : Plan} {x : Shared} {file : Opened} {pool : Pool} {plans : List Plan}
  {st : Pool.State Plan Shared Point Failure FileResult} {rs all files : List FileResult}

theorem fits_ended {r : Except Failure FileResult} (h : s.carryOut plan = r) :
    Fits s cancelled plan (.ofStep (.inr r)) := by
  cases r with
  | ok r => exact h
  | error f => exact h

/-- A schema of the library is what its provider gives. -/
theorem carryOut_embedded (s : Setting) (path : Text) (expectFail : Bool) {rule : Mapping.Rule}
    (hOrigin : rule.origin.getD .embedded = .embedded) :
    s.carryOut (.validate path rule expectFail) = s.withContent path { id := rule.schemaId, origin := .embedded }
      fun data => Opened.judge ⟨path, expectFail, { id := rule.schemaId, origin := .embedded }, data⟩
        (provided Assets.provider s.offline rule.schemaId) := by
  have hProvided := ((Schema.Catalog.mirrors_empty Assets.provider s.offline).get rule.schemaId).2
  unfold Setting.carryOut Setting.validateOne Opened.judge
  dsimp only
  rw [hOrigin]
  unfold Setting.checkEmbedded
  rw [hProvided]

theorem fits_takeUp (s : Setting) (cancelled : Bool) (plan : Plan) :
    Fits s cancelled plan (.ofStep (s.takeUp plan)) := by
  cases plan with
  | settled r => exact fits_ended rfl
  | validate path rule expectFail =>
      unfold Setting.takeUp
      dsimp only
      split
      · next hOrigin =>
          have hOut := carryOut_embedded s path expectFail hOrigin
          unfold Setting.withContent at hOut
          cases hRead : s.files.read (Path.join s.root path) with
          | ok data =>
              rw [hRead] at hOut
              exact ⟨rule.schemaId, rfl, trivial, hOut⟩
          | error f =>
              rw [hRead] at hOut
              exact fits_ended hOut
      · exact fits_ended rfl

/-- Wherever the validation of a file is, its next step leaves the catalog as it should be and comes closer to the
result of the file. -/
theorem Fits.step {p : Point} (hShared : Mirrors Assets.provider s.offline (plain x))
    (h : Fits s cancelled plan (.working p)) :
    Mirrors Assets.provider s.offline (plain ((worker s).step cancelled x p).1) ∧
      Fits s cancelled plan (.ofStep ((worker s).step cancelled x p).2) := by
  cases p with
  | taken p =>
      obtain rfl : p = plan := h
      exact ⟨hShared, fits_takeUp ..⟩
  | judging file schema => exact ⟨hShared, fits_ended h⟩
  | asking file call =>
      obtain ⟨id, hCall, hTold, hOut⟩ := h
      refine ⟨Schema.Sharing.mirrors_change hShared hTold _, ?_⟩
      have hNext := Schema.Sharing.told_goOn hShared hTold
      rw [hCall] at hNext
      simp only [worker, steady, Schema.Sharing.worker]
      cases hStep : call.goOn ⟨Assets.provider, s.offline⟩ x with
      | inl next =>
          rw [hStep] at hNext
          exact ⟨id, hNext.1, hNext.2, hOut⟩
      | inr r =>
          rw [hStep] at hNext
          obtain ⟨found, rfl, hFound⟩ := hNext
          rw [← hFound] at hOut
          cases found with
          | error f => exact fits_ended hOut
          | ok copy => exact hOut

/-- What is there of a file at any time is on the way to its own result. -/
theorem fits_of_runs (hShared : Mirrors Assets.provider s.offline (plain x))
    (h : Pool.Runs pool (worker s) (.start cancelled x plans) st) :
    ∀ job ∈ st.jobs, Fits s st.cancelled job.1 job.2 := by
  refine (h.invariant (I := fun x => Mirrors Assets.provider s.offline (plain x))
    (P := fun c _ plan stage => Fits s c plan stage) hShared ?_ ?_ ?_ ?_ ?_).2
  · intro job hJob
    obtain ⟨plan, -, rfl⟩ := List.mem_map.mp hJob
    trivial
  · intro c x plan _
    cases c <;> rfl
  · exact fun c x plan p hShared hFits => hFits.step hShared
  · exact fun c x p plan stage hFits => hFits
  · intro c x plan stage hFits
    match stage, hFits with
    | .ended (.error .cancelled), _ => rfl
    | .waiting, hFits => exact hFits
    | .working (.taken _), hFits | .working (.asking ..), hFits | .working (.judging ..), hFits => exact hFits
    | .ended (.error (.failed _)), hFits | .ended (.ok _), hFits => exact hFits

/-- Results that the workers have come to are those of the plans, each at the place of its plan. -/
theorem carryOut_of_returns (hShared : Mirrors Assets.provider s.offline (plain x))
    (h : Pool.Runs pool (worker s) (.start cancelled x plans) st) (hReturns : st.Returns rs) :
    List.Forall₂ (fun plan r => s.carryOut plan = .ok r) plans rs := by
  have hAll := hReturns.forall₂ (P := Fits s st.cancelled) (fits_of_runs hShared h)
  rw [h.items_eq, Pool.State.start, List.map_map] at hAll
  rwa [show (Prod.fst ∘ fun plan => (plan, Pool.Stage.waiting)) = (id : Plan → Plan) from rfl, List.map_id] at hAll

/-! ### What a suite comes to -/

/-- The result of a file that is known without a look at it. -/
def Plan.settled? : Plan → Option FileResult
  | settled r => some r
  | validate .. => none

/-- The results of a suite: those of its workers and those that were known before, in the order of their paths. -/
def gathered (plans : List Plan) (rs : List FileResult) : List FileResult :=
  (plans.filterMap Plan.settled? ++ rs).mergeSort fun a b => a.path.le b.path

/-- What a suite makes out before it looks into any file, with a schema that its manifest has to conform to. -/
def prepareBy (schema : Except Failure Compiled) (fs : Files) (offline : Bool) (o : Options) :
    Except Failure (Mapping.Repository × Setting × List Plan) := do
  let root ← repositoryRoot fs o.dataRoot
  let loaded : Except Failure Mapping.Repository := do Mapping.Repository.load fs (← schema) root o.manifest
  let repo ← loaded.mapError fun f => if f.isDomain then .suiteManifest f else f
  let paths ← discover fs root o.dataRoot o.exclude
  let index ← (indexFor fs o.resolution o.refDirs).outcome
  return (repo, ⟨fs, offline, root, o, repo.effective, index⟩, paths.map (Plan.ofPath o repo.effective))

theorem prepare_eq (fs : Files) (offline : Bool) (o : Options) :
    prepare fs offline o = prepareBy (Mapping.Repository.schema Assets.provider offline) fs offline o := rfl

/-- Whether a suite may come to an outcome. Its workers share a catalog that others may have used before, their steps
come in any order, and somebody may call the run off at any time. -/
inductive Ends (schema : Except Failure Compiled) (fs : Files) (offline : Bool) (o : Options) : Outcome → Prop where
  | of_returns {repo : Mapping.Repository} {s : Setting} {plans : List Plan} {x : Shared} {cancelled : Bool}
      {st : Pool.State Plan Shared Point Failure FileResult} {rs : List FileResult}
      (hPrepared : prepareBy schema fs offline o = .ok (repo, s, plans))
      (hShared : Mirrors Assets.provider offline (plain x))
      (hRuns : Pool.Runs o.pool (worker s) (.start cancelled x (plans.filter (!·.isSettled))) st)
      (hReturns : st.Returns rs) : Ends schema fs offline o ⟨s.root, o, repo, gathered plans rs⟩

/-- Whether an outcome accounts for the files of a suite. -/
structure Accounts (fs : Files) (o : Options) (a : Outcome) : Prop where
  root : repositoryRoot fs o.dataRoot = .ok a.root
  /-- There is one result for each file that is discovered, and there is no other. -/
  discovered : ∃ paths, discover fs a.root o.dataRoot o.exclude = .ok paths ∧ (a.files.map FileResult.path).Perm paths
  ascending : a.files.Pairwise fun r r' => Text.lt r.path r'.path = true
  skipped_iff : ∀ r ∈ a.files, r.status = .skipped ↔ o.Skips a.repository.effective r.path
  unmapped_iff : ∀ r ∈ a.files, r.status = .unmapped ↔
    ¬ o.Skips a.repository.effective r.path ∧ ¬ a.repository.effective.Maps r.path
  isValidated_iff : ∀ r ∈ a.files, r.status.isValidated = true ↔
    ¬ o.Skips a.repository.effective r.path ∧ a.repository.effective.Maps r.path
  validated : a.summary.validated =
    a.summary.passed + a.summary.failed + a.summary.expectedFail + a.summary.unexpectedPass
  validated_eq : a.summary.validated = a.files.countP (·.status.isValidated)
  total : a.summary.total = a.summary.passed + a.summary.failed + a.summary.expectedFail + a.summary.unexpectedPass +
    a.summary.skipped + a.summary.unmapped

section Outcome

variable {schema : Except Failure Compiled} {fs : Files} {offline : Bool} {o : Options} {repo : Mapping.Repository}
  {outcome : Outcome}

/-- What is made out beforehand: there is a plan for each discovered file. -/
theorem plans_of_prepareBy (h : prepareBy schema fs offline o = .ok (repo, s, plans)) :
    repositoryRoot fs o.dataRoot = .ok s.root ∧ s.offline = offline ∧ s.options = o ∧ repo.effective.HasTrimmedIds ∧
      discover fs s.root o.dataRoot o.exclude = .ok (plans.map Plan.path) ∧
      ∀ plan ∈ plans, plan = .ofPath o repo.effective plan.path := by
  obtain ⟨root, hRoot, h⟩ := exists_of_bind_ok h
  obtain ⟨repo', hLoaded, h⟩ := exists_of_bind_ok h
  obtain ⟨paths, hPaths, h⟩ := exists_of_bind_ok h
  obtain ⟨index, -, h⟩ := exists_of_bind_ok h
  obtain ⟨compiled, -, hLoad⟩ := exists_of_bind_ok (exists_of_mapError_ok hLoaded)
  cases h
  refine ⟨hRoot, rfl, rfl, Mapping.Repository.hasTrimmedIds_of_load hLoad, ?_, fun plan hMem => ?_⟩
  · rw [List.map_map]
    have hSame : paths.map (Plan.path ∘ Plan.ofPath o repo.effective) = paths.map id :=
      List.map_congr_left fun path _ => Plan.path_ofPath o repo.effective path
    rw [hSame, List.map_id]
    exact hPaths
  · obtain ⟨path, -, rfl⟩ := List.mem_map.mp hMem
    rw [Plan.path_ofPath]

theorem map_path_of_forall₂ (h : List.Forall₂ (fun plan r => s.carryOut plan = .ok r) plans all) :
    all.map FileResult.path = plans.map Plan.path := by
  induction h with
  | nil => rfl
  | cons hOne _ ih => rw [List.map_cons, List.map_cons, ih, Setting.path_of_carryOut hOne]

/-- The results that were known before and those of the workers are results for all plans. -/
theorem exists_perm_of_forall₂
    (h : List.Forall₂ (fun plan r => s.carryOut plan = .ok r) (plans.filter (!·.isSettled)) rs) :
    ∃ all, List.Forall₂ (fun plan r => s.carryOut plan = .ok r) plans all ∧
      (plans.filterMap Plan.settled? ++ rs).Perm all := by
  induction plans generalizing rs with
  | nil =>
      cases h
      exact ⟨[], .nil, .nil⟩
  | cons plan rest ih =>
      cases plan with
      | settled r =>
          obtain ⟨all, hAll, hPerm⟩ := ih h
          exact ⟨r :: all, .cons rfl hAll, hPerm.cons r⟩
      | validate path rule expectFail =>
          obtain ⟨r, others, hOne, hRest, rfl⟩ := List.forall₂_cons_left_iff.mp h
          obtain ⟨all, hAll, hPerm⟩ := ih hRest
          exact ⟨r :: all, .cons hOne hAll, List.perm_middle.trans (hPerm.cons r)⟩

variable (hFiles : fs.Proper) (hPrepared : prepareBy schema fs offline o = .ok (repo, s, plans))

include hFiles hPrepared

theorem nodup_map_path (h : List.Forall₂ (fun plan r => s.carryOut plan = .ok r) plans all) :
    (all.map FileResult.path).Nodup := by
  obtain ⟨-, -, -, -, hPaths, -⟩ := plans_of_prepareBy hPrepared
  rw [map_path_of_forall₂ h]
  exact nodup_of_discover hFiles hPaths

/-- Results for all plans account for the files of a suite once they are put in order. -/
theorem accounts_of_forall₂ (h : List.Forall₂ (fun plan r => s.carryOut plan = .ok r) plans all) :
    Accounts fs o ⟨s.root, o, repo, all.mergeSort fun a b => a.path.le b.path⟩ := by
  obtain ⟨hRoot, -, -, hIds, hPaths, hPlans⟩ := plans_of_prepareBy hPrepared
  let files := all.mergeSort fun a b => a.path.le b.path
  have hPerm : files.Perm all := List.mergeSort_perm ..
  have hSame : (files.map FileResult.path).Perm (plans.map Plan.path) := map_path_of_forall₂ h ▸ hPerm.map _
  have hDistinct : (files.map FileResult.path).Nodup :=
    (hPerm.map _).nodup_iff.mpr (nodup_map_path hFiles hPrepared h)
  have hClass : ∀ r ∈ files, Classified o repo.effective r.path r.status := by
    intro r hMem
    obtain ⟨plan, hPlan, hOut⟩ := exists_left_of_forall₂ h (hPerm.mem_iff.mp hMem)
    have hPath := Setting.path_of_carryOut hOut
    rw [hPlans plan hPlan] at hOut
    exact hPath ▸ Setting.classified_of_carryOut hIds hOut
  obtain ⟨hTotal, hValidated⟩ := Summary.total_ofResults files
  exact {
    root := hRoot
    discovered := ⟨_, hPaths, hSame⟩
    ascending := (Text.pairwise_mergeSort FileResult.path all).imp₂
      (fun _ _ hLe hNe => Text.lt_of_le_of_ne hLe hNe) (List.pairwise_map.mp hDistinct)
    skipped_iff := fun r hMem => (hClass r hMem).skipped_iff
    unmapped_iff := fun r hMem => (hClass r hMem).unmapped_iff
    isValidated_iff := fun r hMem => (hClass r hMem).isValidated_iff
    validated := rfl
    validated_eq := hValidated
    total := hTotal }

/-- Whatever its workers do, a suite comes to what it comes to when its files are validated one after the other. -/
theorem gathered_eq (hShared : Mirrors Assets.provider offline (plain x))
    (hRuns : Pool.Runs pool (worker s) (.start cancelled x (plans.filter (!·.isSettled))) st)
    (hReturns : st.Returns rs) :
    ∃ all, List.Forall₂ (fun plan r => s.carryOut plan = .ok r) plans all ∧
      gathered plans rs = all.mergeSort fun a b => a.path.le b.path := by
  obtain ⟨-, rfl, -⟩ := plans_of_prepareBy hPrepared
  obtain ⟨all, hAll, hPerm⟩ := exists_perm_of_forall₂ (carryOut_of_returns hShared hRuns hReturns)
  have hDistinct := (hPerm.map FileResult.path).nodup_iff.mpr (nodup_map_path hFiles hPrepared hAll)
  exact ⟨all, hAll, Text.mergeSort_eq_of_perm hDistinct hPerm⟩

omit hPrepared

/-- The outcome of a suite is the one that it has when its files are validated one after the other. -/
theorem outcome_run_of_ends (hTime : o.timeout.isInstant = false)
    (h : Ends (Mapping.Repository.schema Assets.provider offline) fs offline o outcome) :
    (run fs offline o).outcome = .ok outcome := by
  obtain ⟨hPrepared, hShared, hRuns, hReturns⟩ := h
  obtain ⟨-, -, hOptions, -⟩ := plans_of_prepareBy hPrepared
  obtain ⟨all, hAll, hSame⟩ := gathered_eq hFiles hPrepared hShared hRuns hReturns
  have hRun := resultOf_run fs offline o
  rw [prepare_eq, bind_of_ok hPrepared] at hRun
  dsimp only at hRun
  rw [Setting.outcome_results (hOptions ▸ hTime), mapM_ok_of_forall₂ hAll] at hRun
  exact hRun.trans (congrArg Except.ok (by rw [hSame]))

/-- Whenever a suite comes to an end, there is one result for each discovered file and no other, in the order of
their paths. A file is skipped if a pattern or an exclusion says so, unmapped if nothing does and no rule names a
schema for it, and validated otherwise; and the numbers of the summary add up. -/
theorem accounts_of_ends :
    (∀ schema outcome, Ends schema fs offline o outcome → Accounts fs o outcome) ∧
      ∀ outcome, (run fs offline o).outcome = .ok outcome → Accounts fs o outcome := by
  constructor
  · rintro schema _ ⟨hPrepared, hShared, hRuns, hReturns⟩
    obtain ⟨all, hAll, hSame⟩ := gathered_eq hFiles hPrepared hShared hRuns hReturns
    rw [hSame]
    exact accounts_of_forall₂ hFiles hPrepared hAll
  · intro outcome h
    have hRun := (resultOf_run fs offline o).symm.trans h
    obtain ⟨⟨repo, s, plans⟩, hPrepared, hResults⟩ := exists_of_bind_ok hRun
    obtain ⟨files, hFiles', rfl⟩ := exists_of_map_ok hResults
    obtain ⟨all, hAll, rfl⟩ := Setting.exists_of_results hFiles'
    exact accounts_of_forall₂ hFiles (prepare_eq fs offline o ▸ hPrepared) (forall₂_of_mapM_ok hAll)

end Outcome

/-! ### A small suite -/

open Schema.Batch (anything twoWorkers)

/-- A manifest that names a schema for all files of a kind. One of the files of this kind conforms to it, one is no
data at all, one is the schema itself; and there are two files of another kind. -/
def fiveContents : List (Text × Bytes) :=
  [("a.json", Text.utf8 "[1]"), ("c.yaml", []), ("d.json", Text.utf8 "["),
    ("m", Text.utf8
      "\x7b\"mappings\":[\x7b\"pattern\":\"*.json\",\"schema_id\":\"s.json\",\"source\":\"local\"\x7d]\x7d"),
    ("output.yaml", []), ("s.json", anything)]

def fiveFiles : Files := fiveContents.foldl (fun fs e => fs.write e.1 e.2) ⟨.directory [], "/"⟩

def fivePaths : List Text := ["a.json", "c.yaml", "d.json", "output.yaml", "s.json"]

def fiveOptions : Options where
  dataRoot := "."
  manifest := "m"
  refDirs := []
  skip := ["s.*"]
  expectFail := []
  exclude := []
  strict := false
  failOnUnmapped := false
  resolution := .preferId
  pool := twoWorkers.pool
  timeout := .whole 30

/-- What a suite makes out beforehand where schemas are not found by name. -/
theorem prepareBy_eq {schema : Except Failure Compiled} {fs : Files} {offline : Bool} {o : Options} {root : Text}
    {compiled : Compiled} {repo : Mapping.Repository} {paths : List Text}
    (hDirs : o.refDirs = []) (hRoot : repositoryRoot fs o.dataRoot = .ok root) (hSchema : schema = .ok compiled)
    (hLoad : Mapping.Repository.load fs compiled root o.manifest = .ok repo)
    (hPaths : discover fs root o.dataRoot o.exclude = .ok paths) :
    prepareBy schema fs offline o =
      .ok (repo, ⟨fs, offline, root, o, repo.effective, none⟩, paths.map (Plan.ofPath o repo.effective)) := by
  have hLoaded : ((do Mapping.Repository.load fs (← schema) root o.manifest : Except Failure _).mapError fun f =>
      if f.isDomain then .suiteManifest f else f) = .ok repo := by
    rw [bind_of_ok hSchema, hLoad]
    rfl
  have hIndex : (indexFor fs o.resolution o.refDirs).outcome = .ok none := by
    simp [indexFor, hDirs, pure]
  unfold prepareBy
  rw [bind_of_ok hRoot]
  dsimp only
  rw [bind_of_ok hLoaded, bind_of_ok hPaths, bind_of_ok hIndex]
  rfl

theorem accounts_of_ends_fiveFiles : ∃ schema outcome, fiveFiles.Proper ∧
    Ends schema fiveFiles false fiveOptions outcome ∧ Accounts fiveFiles fiveOptions outcome ∧
    outcome.summary = ⟨5, 1, 1, 0, 0, 2, 1⟩ := by
  have hFiles : fiveFiles.Proper := Files.Proper.foldl_write ⟨FileTree.proper_empty, by decide⟩ _
  have hRoot : repositoryRoot fiveFiles fiveOptions.dataRoot = .ok "/" := by rfl
  have hWalk : (FileTree.directory (fiveContents.map fun e => (e.1, .file e.2))).walk "/" =
      fiveContents.map fun e => Path.join "/" e.1 := by
    rw [FileTree.walk_of_files (by decide +kernel) (by decide +kernel), List.map_map]
    rfl
  have hPaths : discover fiveFiles "/" fiveOptions.dataRoot fiveOptions.exclude = .ok fivePaths := by
    refine discover_eq_ok_iff.mpr ⟨".", rfl, rfl, ?_⟩
    have hFound : fiveFiles.walk "/" = (fiveContents.map fun e => Path.join "/" e.1).map Path.tidy :=
      congrArg (List.map Path.tidy) hWalk
    exact (congrArg (kept fiveFiles "/" []) hFound).trans (by decide +kernel)
  let x : Shared := ⟨⟨[], [], none⟩, 0⟩
  have hRun : ((Compiled.read false true anything).toOption.any fun compiled =>
      (Mapping.Repository.load fiveFiles compiled "/" fiveOptions.manifest).toOption.any fun repo =>
        let s : Setting := ⟨fiveFiles, false, "/", fiveOptions, repo.effective, none⟩
        let plans := fivePaths.map (Plan.ofPath fiveOptions repo.effective)
        ((Pool.State.start false x (plans.filter (!·.isSettled))).follow fiveOptions.pool (worker s) [0, 1, 1, 0]).any
          fun st => st.jobs.all (·.2.result?.isSome) &&
            Summary.ofResults (plans.filterMap Plan.settled? ++ st.jobs.filterMap (·.2.result?)) =
              ⟨5, 1, 1, 0, 0, 2, 1⟩) = true := by
    decide +kernel
  obtain ⟨compiled, hSchema, hRun⟩ := exists_of_any hRun
  obtain ⟨repo, hLoad, hRun⟩ := exists_of_any hRun
  obtain ⟨st, hFollow, hRun⟩ := (Option.any_eq_true ..).mp hRun
  obtain ⟨hOver, hSummary⟩ := Bool.and_eq_true_iff.mp hRun
  have hPrepared : prepareBy (Compiled.read false true anything) fiveFiles false fiveOptions = _ :=
    prepareBy_eq rfl hRoot hSchema hLoad hPaths
  have hEnds := Ends.of_returns hPrepared (Schema.Catalog.mirrors_empty ..) (Pool.runs_of_follow hFollow)
    (Pool.State.returns_of_isSome (List.all_eq_true.mp hOver))
  refine ⟨_, _, hFiles, hEnds, (accounts_of_ends hFiles).1 _ _ hEnds, ?_⟩
  exact (Summary.ofResults_eq_of_perm (List.mergeSort_perm ..)).trans (of_decide_eq_true hSummary)

end Conform.Suite

import Conform.Proofs.Schema.Outcome
import Conform.Suite.Run

/-! The failures that end a suite. Like a batch, a suite reports what is wrong in the library's own terms and
what cannot be read, file by file; what is neither ends the whole run. -/
namespace Conform.Suite

open Schema (Compiled Batch BatchOptions Index Report)

/-- What the check of data comes to that a rule asks for. -/
inductive Setting.Checks (s : Setting) (rule : Mapping.Rule) (data : Bytes) (r : Except Failure Report) : Prop where
  | embedded (hOrigin : rule.origin.getD .embedded = .embedded) (hCheck : s.checkEmbedded rule.schemaId data = r)
  | locally {p : Text} (hOrigin : rule.origin.getD .embedded = .locally)
      (hPath : s.schemaPath rule.schemaId = .ok p) (hCheck : s.checkLocal p data = r)
  | external {ix : Index} {e : Schema.Entry} (hOrigin : rule.origin.getD .embedded = .external)
      (hEntry : s.entry rule.schemaId.strip = .ok (ix, e)) (hCheck : checkExternal ix e data = r)

/-- Whether a rule for a schema in a file says where it is. If not, the file to be validated is not looked at. -/
def Setting.Locates (s : Setting) (rule : Mapping.Rule) : Prop :=
  rule.origin.getD .embedded = .locally → ∃ p, s.schemaPath rule.schemaId = .ok p

/-- Whether a plan ends the suite with a failure that is not reported: the path of the file holds a NUL, or
the check of its content fails so. -/
inductive Setting.Derails (s : Setting) : Plan → Failure → Prop where
  | name {path : Text} {rule : Mapping.Rule} {expectFail : Bool} (hLocated : s.Locates rule)
      (hNul : (Path.join s.root path).any (·.val == 0) = true) :
      Derails s (.validate path rule expectFail) .nulInPath
  | content {path : Text} {rule : Mapping.Rule} {expectFail : Bool} {data : Bytes} {f : Failure}
      (hRead : s.files.read (Path.join s.root path) = .ok data) (hCheck : s.Checks rule data (.error f))
      (hForeign : f.isForeign = true) : Derails s (.validate path rule expectFail) f

variable {s : Setting} {path p : Text} {rule : Mapping.Rule} {expectFail : Bool} {plans : List Plan} {plan : Plan}
  {f : Failure} {ref : SchemaRef} {use : Bytes → Except Failure FileResult} {files : List FileResult}
  {data : Bytes} {r : Except Failure Report}

namespace Setting

theorem checks_iff_embedded (hOrigin : rule.origin.getD .embedded = .embedded) :
    s.Checks rule data r ↔ s.checkEmbedded rule.schemaId data = r := by
  refine ⟨fun h => ?_, .embedded hOrigin⟩
  cases h with
  | embedded _ hCheck => exact hCheck
  | locally hOther => cases hOrigin.symm.trans hOther
  | external hOther => cases hOrigin.symm.trans hOther

theorem checks_iff_locally (hOrigin : rule.origin.getD .embedded = .locally)
    (hPath : s.schemaPath rule.schemaId = .ok p) : s.Checks rule data r ↔ s.checkLocal p data = r := by
  refine ⟨fun h => ?_, .locally hOrigin hPath⟩
  cases h with
  | embedded hOther => cases hOrigin.symm.trans hOther
  | locally _ hPath' hCheck =>
      obtain rfl := Except.ok.inj (hPath.symm.trans hPath')
      exact hCheck
  | external hOther => cases hOrigin.symm.trans hOther

theorem checks_iff_external (hOrigin : rule.origin.getD .embedded = .external) :
    s.Checks rule data r ↔ ∃ ix e, s.entry rule.schemaId.strip = .ok (ix, e) ∧ checkExternal ix e data = r := by
  refine ⟨fun h => ?_, fun ⟨_, _, hEntry, hCheck⟩ => .external hOrigin hEntry hCheck⟩
  cases h with
  | embedded hOther => cases hOrigin.symm.trans hOther
  | locally hOther => cases hOrigin.symm.trans hOther
  | external _ hEntry hCheck => exact ⟨_, _, hEntry, hCheck⟩

theorem Checks.locates (h : s.Checks rule data r) : s.Locates rule := by
  intro hLocal
  cases h with
  | embedded hOther => cases hLocal.symm.trans hOther
  | locally _ hPath => exact ⟨_, hPath⟩
  | external hOther => cases hLocal.symm.trans hOther

theorem finish_eq_error_iff :
    finish path expectFail ref r = .error f ↔ r = .error f ∧ f.isForeign = true := by
  cases r with
  | ok report => simp [finish]
  | error f' =>
      by_cases hReported : (f'.isDomain || f'.isAccess) = true
      · have hOwn : f'.isForeign = false := Failure.isForeign_eq_false_iff.mpr (Bool.or_eq_true_iff.mp hReported)
        simp only [finish, hReported, if_true, Except.error.injEq]
        refine ⟨nofun, ?_⟩
        rintro ⟨rfl, hForeign⟩
        cases hOwn.symm.trans hForeign
      · have hForeign : f'.isForeign = true := by
          simpa [Failure.isForeign_iff] using hReported
        simp only [finish, hReported, Bool.false_eq_true, if_false, Except.error.injEq]
        exact ⟨fun hSame => ⟨hSame, hSame ▸ hForeign⟩, fun h => h.1⟩

theorem withContent_eq_error_iff : s.withContent path ref use = .error f ↔
    ((Path.join s.root path).any (·.val == 0) = true ∧ f = .nulInPath) ∨
      ∃ data, s.files.read (Path.join s.root path) = .ok data ∧ use data = .error f := by
  unfold withContent
  by_cases hNul : (Path.join s.root path).any (·.val == 0) = true
  · simp [Files.read_of_nul hNul, hNul, Failure.isAccess, eq_comm]
  · cases hRead : s.files.read (Path.join s.root path) with
    | ok data => simp [hNul]
    | error f' =>
        have hAccess : f'.isAccess = true := (Files.failure_of_read hRead).resolve_left fun h => hNul h.1
        simp [hNul, hAccess]

/-- A plan comes to nothing without a look at its file, or goes on with the content and then fails as the
check does that its rule asks for. -/
theorem carryOut_validate (s : Setting) (path : Text) (rule : Mapping.Rule) (expectFail : Bool) :
    (¬ s.Locates rule ∧ ∃ result, s.carryOut (.validate path rule expectFail) = .ok result) ∨
    (s.Locates rule ∧ ∃ ref use, s.carryOut (.validate path rule expectFail) = s.withContent path ref use ∧
      ∀ data f, use data = .error f ↔ s.Checks rule data (.error f) ∧ f.isForeign = true) := by
  cases hOrigin : rule.origin.getD .embedded with
  | embedded =>
      simp only [carryOut, validateOne, hOrigin]
      have hLocated : s.Locates rule := fun hLocal => by cases hOrigin.symm.trans hLocal
      refine Or.inr ⟨hLocated, _, _, rfl, fun data f => ?_⟩
      rw [finish_eq_error_iff, checks_iff_embedded hOrigin]
  | locally =>
      cases hPath : s.schemaPath rule.schemaId with
      | error why =>
          simp only [carryOut, validateOne, hOrigin, hPath]
          refine Or.inl ⟨fun hLocated => ?_, _, rfl⟩
          obtain ⟨p, hPath'⟩ := hLocated hOrigin
          cases hPath.symm.trans hPath'
      | ok p =>
          simp only [carryOut, validateOne, hOrigin, hPath]
          refine Or.inr ⟨fun _ => ⟨p, hPath⟩, _, _, rfl, fun data f => ?_⟩
          rw [finish_eq_error_iff, checks_iff_locally hOrigin hPath]
  | external =>
      simp only [carryOut, validateOne, hOrigin]
      have hLocated : s.Locates rule := fun hLocal => by cases hOrigin.symm.trans hLocal
      refine Or.inr ⟨hLocated, _, _, rfl, fun data f => ?_⟩
      rw [checks_iff_external hOrigin]
      cases hEntry : s.entry rule.schemaId.strip with
      | error why => simp
      | ok found =>
          obtain ⟨ix, e⟩ := found
          simp [finish_eq_error_iff, and_assoc]

/-- A file fails in a suite exactly if it derails. -/
theorem carryOut_eq_error_iff : s.carryOut plan = .error f ↔ s.Derails plan f := by
  cases plan with
  | settled r => exact ⟨nofun, nofun⟩
  | validate path rule expectFail =>
      rcases s.carryOut_validate path rule expectFail with ⟨hUnseen, r, hDone⟩ | ⟨hLocated, ref, use, hSame, hUse⟩
      · rw [hDone]
        refine ⟨nofun, fun h => ?_⟩
        cases h with
        | name hLocated => exact absurd hLocated hUnseen
        | content _ hCheck => exact absurd hCheck.locates hUnseen
      · rw [hSame, withContent_eq_error_iff]
        constructor
        · rintro (⟨hNul, rfl⟩ | ⟨data, hRead, hFails⟩)
          · exact .name hLocated hNul
          · obtain ⟨hCheck, hForeign⟩ := (hUse data f).mp hFails
            exact .content hRead hCheck hForeign
        · intro h
          cases h with
          | name _ hNul => exact Or.inl ⟨hNul, rfl⟩
          | content hRead hCheck hForeign => exact Or.inr ⟨_, hRead, (hUse _ f).mpr ⟨hCheck, hForeign⟩⟩

theorem Derails.isForeign (h : s.Derails plan f) : f.isForeign = true := by
  cases h with
  | name => rfl
  | content _ _ hForeign => exact hForeign

/-- A suite that is not over before it begins makes a result for each plan and puts them in the order of their
paths. -/
theorem outcome_results_of_open (hOpen : (s.options.timeout.isInstant && plans.any (!·.isSettled)) = false) :
    (s.results plans).outcome = (plans.mapM s.carryOut).map fun rs => rs.mergeSort fun a b => a.path.le b.path := by
  unfold results
  simp only [hOpen, Bool.false_eq_true, if_false, Pool.run_open, Log.Traced.outcome_bind, Log.Traced.outcome_report]
  cases plans.mapM s.carryOut <;> rfl

theorem exists_of_results (h : (s.results plans).outcome = .ok files) :
    ∃ rs, plans.mapM s.carryOut = .ok rs ∧ files = rs.mergeSort fun a b => a.path.le b.path := by
  cases hOpen : s.options.timeout.isInstant && plans.any (!·.isSettled) with
  | true =>
      unfold results at h
      rw [hOpen] at h
      cases h
  | false =>
      rw [outcome_results_of_open hOpen] at h
      obtain ⟨rs, hAll, rfl⟩ := exists_of_map_ok h
      exact ⟨rs, hAll, rfl⟩

variable (hTime : s.options.timeout.isInstant = false)

include hTime

theorem outcome_results : (s.results plans).outcome =
    (plans.mapM s.carryOut).map fun rs => rs.mergeSort fun a b => a.path.le b.path :=
  outcome_results_of_open (by rw [hTime, Bool.false_and])

theorem endsUnless_results : EndsUnless (s.results plans).outcome plans s.Derails := by
  rw [outcome_results hTime]
  exact (endsUnless_mapM (fun _ _ => carryOut_eq_error_iff) fun _ _ => Derails.isForeign).map _

/-- There is one result for each plan. -/
theorem perm_of_results (h : (s.results plans).outcome = .ok files) :
    ∃ rs, files.Perm rs ∧ List.Forall₂ (fun plan r => s.carryOut plan = .ok r) plans rs := by
  rw [outcome_results hTime] at h
  obtain ⟨rs, hAll, rfl⟩ := exists_of_map_ok h
  exact ⟨rs, List.mergeSort_perm rs _, forall₂_of_mapM_ok hAll⟩

end Setting

section Run

open Log (Traced)

variable {α β : Type}

/-- The outcome of a chain by a name of its own. Where projections of two chains are compared, both chains are
carried out, and here that would read the schema of manifests; where results are, the chains are compared. -/
def resultOf (x : Traced α) : Except Failure α := x.outcome

theorem resultOf_bind (x : Traced α) (f : α → Traced β) :
    resultOf (x >>= f) = resultOf x >>= fun a => resultOf (f a) := Traced.outcome_bind x f

theorem resultOf_lift (x : Except Failure α) : resultOf (liftM x : Traced α) = x := rfl

theorem resultOf_report (es : List Log.Event) : resultOf (Traced.report es) = pure () := rfl

/-- What a suite makes out before it looks into any file: its manifests, what its run can see, and what is
done with each file. -/
def prepare (fs : Files) (offline : Bool) (o : Options) :
    Except Failure (Mapping.Repository × Setting × List Plan) := do
  let root ← repositoryRoot fs o.dataRoot
  let repo ← repository fs offline root o
  let paths ← discover fs root o.dataRoot o.exclude
  let index ← (indexFor fs o.resolution o.refDirs).outcome
  return (repo, ⟨fs, offline, root, o, repo.effective, index⟩, paths.map (Plan.ofPath o repo.effective))

/-- A run is made out first, and then it is what its plans come to. -/
theorem resultOf_run (fs : Files) (offline : Bool) (o : Options) :
    resultOf (run fs offline o) = prepare fs offline o >>= fun (repo, s, plans) =>
      (s.results plans).outcome.map fun files => ⟨s.root, o, repo, files⟩ := by
  unfold run prepare
  rw [resultOf_bind, resultOf_lift, bind_assoc]
  refine bind_congr fun root => ?_
  rw [resultOf_bind, resultOf_lift, bind_assoc]
  refine bind_congr fun repo => ?_
  rw [resultOf_bind, resultOf_report, pure_bind, resultOf_bind, resultOf_lift, bind_assoc]
  refine bind_congr fun paths => ?_
  rw [resultOf_bind, bind_assoc]
  refine bind_congr fun index => ?_
  rw [pure_bind, resultOf_bind]
  dsimp only
  cases Setting.results _ _ with
  | mk events outcome => cases outcome <;> rfl

theorem endsUnless_run {fs : Files} {offline : Bool} {o : Options} {repo : Mapping.Repository}
    (hPrepared : prepare fs offline o = .ok (repo, s, plans)) (hTime : s.options.timeout.isInstant = false) :
    EndsUnless (run fs offline o).outcome plans s.Derails := by
  have hRun : EndsUnless (resultOf (run fs offline o)) plans s.Derails := by
    rw [resultOf_run, hPrepared]
    exact (Setting.endsUnless_results hTime).map _
  exact hRun

end Run

open Schema.Batch (key schemaOf oneFile fourPaths twoWorkers anything)

/-- A schema, data that conform to it, and data with a text that is said to be a number. -/
def badScalar : Files where
  root := .directory [("s.json", .file anything), ("a.json", .file (Text.utf8 "[1]")),
    ("b.yaml", .file (Text.utf8 "n: !!int many"))]
  cwd := "/"

def rootSetting : Setting where
  files := badScalar
  offline := false
  root := "/"
  options := {
    dataRoot := "/", manifest := [], refDirs := [], skip := [], expectFail := [], exclude := [], strict := false
    failOnUnmapped := false, resolution := .preferId, pool := twoWorkers.pool, timeout := .whole 30 }
  manifest := {}
  index := none

/-- The plan to validate a file against that schema. -/
def planFor (path : Text) : Plan :=
  .validate path { pattern := "*", schemaId := "s.json", origin := some .locally } false

end Conform.Suite

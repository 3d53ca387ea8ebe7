import Conform.Proofs.Except
import Conform.Proofs.Suite.Classification

/-! Two runs of a suite that differ in the files that ought not to conform. A result is turned around only where
the check of the file comes to a report; a file that could not be checked has failed, whatever was expected of it.
Nothing else depends on what is expected. -/
namespace Conform.Suite

variable {s : Setting} {path : Text} {rule : Mapping.Rule} {expected expected' : Bool} {r r' : FileResult}
  {ref : SchemaRef} {data : Bytes}

namespace Setting

/-- Whether the check that a rule asks for comes to a report on the file. -/
def Reports (s : Setting) (path : Text) (rule : Mapping.Rule) : Prop :=
  ∃ data report, s.files.read (Path.join s.root path) = .ok data ∧ s.Checks rule data (.ok report)

/-- The two results for a file of which two different things may be expected. -/
inductive Turns (s : Setting) (path : Text) (rule : Mapping.Rule) (expected expected' : Bool) :
    FileResult → FileResult → Prop where
  | reported {data : Bytes} {report : Schema.Report} (ref : SchemaRef)
      (hRead : s.files.read (Path.join s.root path) = .ok data) (hCheck : s.Checks rule data (.ok report)) :
      Turns s path rule expected expected' (classify path expected ref report) (classify path expected' ref report)
  | failed (ref : SchemaRef) (why : Text) (hNone : ¬ s.Reports path rule) :
      Turns s path rule expected expected' (failed path ref why) (failed path ref why)

theorem related_finish {x : Except Failure Schema.Report} (hRead : s.files.read (Path.join s.root path) = .ok data)
    (hCheck : ∀ y, s.Checks rule data y ↔ x = y) :
    Related (s.Turns path rule expected expected') (finish path expected ref x) (finish path expected' ref x) := by
  cases x with
  | ok report => exact .ok (.reported ref hRead ((hCheck _).mpr rfl))
  | error f =>
      simp only [finish]
      split
      · refine .ok (.failed ref f.message ?_)
        rintro ⟨data', report, hRead', hReports⟩
        obtain rfl := Except.ok.inj (hRead.symm.trans hRead')
        cases (hCheck _).mp hReports
      · exact .error f

theorem related_withContent {use use' : Bytes → Except Failure FileResult}
    (hUse : ∀ data, s.files.read (Path.join s.root path) = .ok data →
      Related (s.Turns path rule expected expected') (use data) (use' data)) :
    Related (s.Turns path rule expected expected') (s.withContent path ref use) (s.withContent path ref use') := by
  unfold withContent
  cases hRead : s.files.read (Path.join s.root path) with
  | ok data => exact hUse data hRead
  | error f =>
      dsimp only
      split
      · refine .ok (.failed ref f.message ?_)
        rintro ⟨data, report, hRead', -⟩
        cases hRead.symm.trans hRead'
      · exact .error f

/-- Only the status of a report depends on what is expected of a file. -/
theorem related_validateOne (s : Setting) (path : Text) (rule : Mapping.Rule) (expected expected' : Bool) :
    Related (s.Turns path rule expected expected') (s.validateOne path rule expected)
      (s.validateOne path rule expected') := by
  cases hOrigin : rule.origin.getD .embedded with
  | embedded =>
      simp only [validateOne, hOrigin]
      exact related_withContent fun data hRead => related_finish hRead fun y => checks_iff_embedded hOrigin
  | locally =>
      cases hPath : s.schemaPath rule.schemaId with
      | error why =>
          simp only [validateOne, hOrigin, hPath]
          refine .ok (.failed _ why ?_)
          rintro ⟨data, report, -, hCheck⟩
          obtain ⟨p, hPath'⟩ := hCheck.locates hOrigin
          cases hPath.symm.trans hPath'
      | ok p =>
          simp only [validateOne, hOrigin, hPath]
          exact related_withContent fun data hRead => related_finish hRead fun y => checks_iff_locally hOrigin hPath
  | external =>
      simp only [validateOne, hOrigin]
      refine related_withContent fun data hRead => ?_
      cases hEntry : s.entry rule.schemaId.strip with
      | error why =>
          refine .ok (.failed _ why ?_)
          rintro ⟨data', report, -, hCheck⟩
          obtain ⟨ix, e, hEntry', -⟩ := (checks_iff_external hOrigin).mp hCheck
          cases hEntry.symm.trans hEntry'
      | ok found =>
          obtain ⟨ix, e⟩ := found
          refine related_finish hRead fun y => ?_
          rw [checks_iff_external hOrigin]
          simp [hEntry]

/-- Whether a file of a suite has a rule whose check of it comes to a report. -/
def Concludes (s : Setting) (path : Text) : Prop :=
  ∃ rule expected, Plan.ofPath s.options s.manifest path = .validate path rule expected ∧ s.Reports path rule

/-- What two results for a file have in common and where they differ, by the files that ought not to conform. -/
structure Compares (s : Setting) (expected expected' : Text → Bool) (r r' : FileResult) : Prop where
  path : r'.path = r.path
  schema : r'.schema = r.schema
  valid : r'.valid = r.valid
  /-- A result is the same as long as the same is expected of its file. -/
  same : expected r.path = expected' r.path → r' = r
  /-- A report is turned around when its file is no longer expected to conform. -/
  turned : s.Concludes r.path → expected r.path = false → expected' r.path = true →
    r.status = .pass ∧ r'.status = .unexpectedPass ∨ r.status = .fail ∧ r'.status = .expectedFail
  /-- Without a report there is nothing to turn around: a file with a rule has failed. -/
  kept : ¬ s.Concludes r.path → r' = r ∧ (r.status.isValidated = true → r.status = .fail)

variable {expects expects' : Text → Bool}

theorem Turns.compares (h : s.Turns path rule (expects path) (expects' path) r r')
    (hPlan : ∃ expected, Plan.ofPath s.options s.manifest path = .validate path rule expected) :
    s.Compares expects expects' r r' := by
  obtain ⟨b, hPlan⟩ := hPlan
  have hConcludes : s.Concludes path ↔ s.Reports path rule := by
    constructor
    · rintro ⟨rule', b', hPlan', hReports⟩
      obtain ⟨-, rfl, -⟩ := Plan.validate.inj (hPlan.symm.trans hPlan')
      exact hReports
    · exact fun hReports => ⟨rule, b, hPlan, hReports⟩
  cases h with
  | @reported data report ref hRead hCheck =>
      have hReports : s.Concludes path := hConcludes.mpr ⟨data, report, hRead, hCheck⟩
      have hPath : ∀ b, (classify path b ref report).path = path := fun b => (validated_classify path b ref report).1
      refine ⟨(hPath _).trans (hPath _).symm, ?_, ?_, ?_, ?_, ?_⟩
      · unfold classify
        cases report.valid <;> cases expects path <;> cases expects' path <;> rfl
      · unfold classify
        cases report.valid <;> cases expects path <;> cases expects' path <;> rfl
      · intro hSame
        rw [hPath] at hSame
        rw [hSame]
      · intro _ hFalse hTrue
        rw [hPath] at hFalse hTrue
        rw [hFalse, hTrue]
        unfold classify
        cases report.valid with
        | true => exact Or.inl ⟨rfl, rfl⟩
        | false => exact Or.inr ⟨rfl, rfl⟩
      · intro hNone
        rw [hPath] at hNone
        exact absurd hReports hNone
  | failed ref why hNone =>
      exact ⟨rfl, rfl, rfl, fun _ => rfl, fun hSome => absurd (hConcludes.mp hSome) hNone,
        fun _ => ⟨rfl, fun _ => rfl⟩⟩

/-- A result that is known without a look at its file stays as it is. -/
theorem compares_settled (hPlan : Plan.ofPath s.options s.manifest r.path = .settled r)
    (hStatus : r.status.isValidated = false) : s.Compares expects expects' r r where
  path := rfl
  schema := rfl
  valid := rfl
  same _ := rfl
  turned := by
    rintro ⟨rule, b, hPlan', -⟩
    cases hPlan.symm.trans hPlan'
  kept _ := ⟨rfl, fun hTrue => by cases hStatus.symm.trans hTrue⟩

end Setting

/-- A file without a rule is settled whatever is expected of it, and one with a rule keeps it. -/
theorem Plan.ofPath_cases (o : Options) (m : Mapping.Manifest) (path : Text) :
    (∃ r, r.path = path ∧ r.status.isValidated = false ∧
      ∀ patterns, ofPath { o with expectFail := patterns } m path = .settled r) ∨
    ∃ rule, ∀ patterns, ofPath { o with expectFail := patterns } m path =
      .validate path rule (Glob.acceptsAny patterns path) := by
  simp only [ofPath]
  split
  · exact Or.inl ⟨_, rfl, rfl, fun _ => rfl⟩
  · split
    · exact Or.inl ⟨_, rfl, rfl, fun _ => rfl⟩
    · next rule _ => exact Or.inr ⟨rule, fun _ => rfl⟩
    · exact Or.inl ⟨_, rfl, rfl, fun _ => rfl⟩

namespace Setting

/-- A setting in which other files are expected to fail. -/
def expecting (s : Setting) (patterns : List Text) : Setting :=
  { s with options := { s.options with expectFail := patterns } }

theorem carryOut_expecting (s : Setting) (patterns : List Text) (plan : Plan) :
    (s.expecting patterns).carryOut plan = s.carryOut plan := by
  cases plan with
  | settled r => rfl
  | validate path rule expected => rfl

/-- What comes of a file under two lists of patterns for files that ought not to conform. -/
theorem related_carryOut (s : Setting) (patterns : List Text) (path : Text) :
    Related (s.Compares (Glob.acceptsAny s.options.expectFail) (Glob.acceptsAny patterns))
      (s.carryOut (.ofPath s.options s.manifest path))
      ((s.expecting patterns).carryOut (.ofPath (s.expecting patterns).options s.manifest path)) := by
  rw [carryOut_expecting]
  rcases Plan.ofPath_cases s.options s.manifest path with ⟨r, rfl, hStatus, hPlan⟩ | ⟨rule, hPlan⟩
  · have hHere : Plan.ofPath s.options s.manifest r.path = .settled r := hPlan s.options.expectFail
    rw [hHere, expecting, hPlan patterns]
    exact .ok (compares_settled hHere hStatus)
  · have hHere : Plan.ofPath s.options s.manifest path =
        .validate path rule (Glob.acceptsAny s.options.expectFail path) :=
      hPlan s.options.expectFail
    rw [hHere, expecting, hPlan patterns]
    exact (s.related_validateOne path rule _ _).imp fun r r' hTurns => hTurns.compares ⟨_, hHere⟩

theorem isSettled_expecting (s : Setting) (patterns paths : List Text) :
    (paths.map (Plan.ofPath (s.expecting patterns).options s.manifest)).any (!·.isSettled) =
      (paths.map (Plan.ofPath s.options s.manifest)).any (!·.isSettled) := by
  rw [List.any_map, List.any_map]
  refine congrArg (paths.any ·) (funext fun path => congrArg not ?_)
  rcases Plan.ofPath_cases s.options s.manifest path with ⟨r, -, -, hPlan⟩ | ⟨rule, hPlan⟩
  · exact congrArg Plan.isSettled ((hPlan patterns).trans (hPlan s.options.expectFail).symm)
  · exact (congrArg Plan.isSettled (hPlan patterns)).trans (congrArg Plan.isSettled (hPlan s.options.expectFail)).symm

/-- A suite without time for its files ends before it begins. -/
theorem outcome_results_of_instant {plans : List Plan}
    (hOver : (s.options.timeout.isInstant && plans.any (!·.isSettled)) = true) :
    (s.results plans).outcome = .error (.suiteTimeout s.options.timeout.display) := by
  unfold results
  rw [if_pos hOver]
  rfl

/-- Two runs over the same files compare file by file. -/
theorem related_results (s : Setting) (patterns paths : List Text) :
    Related (List.Forall₂ (s.Compares (Glob.acceptsAny s.options.expectFail) (Glob.acceptsAny patterns)))
      (s.results (paths.map (Plan.ofPath s.options s.manifest))).outcome
      ((s.expecting patterns).results (paths.map (Plan.ofPath (s.expecting patterns).options s.manifest))).outcome := by
  have hSettled := s.isSettled_expecting patterns paths
  have hTime : (s.expecting patterns).options.timeout = s.options.timeout := rfl
  cases hOpen : s.options.timeout.isInstant && (paths.map (Plan.ofPath s.options s.manifest)).any (!·.isSettled) with
  | true =>
      rw [outcome_results_of_instant hOpen, outcome_results_of_instant (by rw [hSettled, hTime, hOpen])]
      exact .error _
  | false =>
      rw [outcome_results_of_open hOpen, outcome_results_of_open (by rw [hSettled, hTime, hOpen]), List.mapM_map,
        List.mapM_map]
      refine (Related.mapM fun path _ => s.related_carryOut patterns path).map fun rs rs' hAll => ?_
      refine forall₂_mergeSort hAll fun a b c d hAB hCD => ?_
      rw [hAB.path, hCD.path]

end Setting

/-- Two runs of a suite that differ in the files that ought not to conform fail alike, or come to results for the
same files in the same order. A result changes only for a file of which something else is expected, and only if
its check came to a report: then a pass becomes an unexpected pass and a failure an expected one. -/
theorem related_run (fs : Files) (offline : Bool) (o : Options) (patterns : List Text) :
    Related (fun a b => b.root = a.root ∧ b.repository = a.repository ∧
        ∃ index, (indexFor fs o.resolution o.refDirs).outcome = .ok index ∧
          List.Forall₂ (Setting.Compares ⟨fs, offline, a.root, o, a.repository.effective, index⟩
            (Glob.acceptsAny o.expectFail) (Glob.acceptsAny patterns)) a.files b.files)
      (resultOf (run fs offline o)) (resultOf (run fs offline { o with expectFail := patterns })) := by
  rw [resultOf_run, resultOf_run, prepare, prepare]
  simp only [bind_assoc]
  refine .bind_same fun root _ => .bind_same fun repo _ => .bind_same fun paths _ => .bind_same fun index hIndex => ?_
  rw [pure_bind, pure_bind]
  dsimp only
  let s : Setting := ⟨fs, offline, root, o, repo.effective, index⟩
  exact (s.related_results patterns paths).map fun files files' hAll => ⟨rfl, rfl, index, hIndex, hAll⟩

/-- A schema and a file that is no data at all. -/
def halfWritten : Setting := { rootSetting with
  files := ⟨.directory [("s.json", .file Schema.Batch.anything), ("a.json", .file (Text.utf8 "["))], "/"⟩ }

/-- A failure that was expected is not always reported as one. -/
theorem not_expectedFail_of_fail : ¬ ∀ (s : Setting) (path : Text) (rule : Mapping.Rule) (r r' : FileResult),
    s.validateOne path rule false = .ok r → s.validateOne path rule true = .ok r' → r.status = .fail →
      r'.status = .expectedFail := by
  intro h
  let rule : Mapping.Rule := { pattern := "*", schemaId := "s.json", origin := some .locally }
  have hFails : ∀ expected : Bool, ((halfWritten.validateOne "a.json" rule expected).toOption.any
      fun r => r.status = .fail) = true := by decide +kernel
  obtain ⟨r, hRun, hStatus⟩ := exists_of_any (hFails false)
  obtain ⟨r', hRun', hStatus'⟩ := exists_of_any (hFails true)
  have hExpected := h halfWritten "a.json" rule r r' hRun hRun' (of_decide_eq_true hStatus)
  cases hExpected.symm.trans (of_decide_eq_true hStatus')

end Conform.Suite

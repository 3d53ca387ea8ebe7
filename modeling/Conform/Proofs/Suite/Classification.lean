import Conform.Proofs.Mapping.Precedence
import Conform.Proofs.Mapping.Written
import Conform.Proofs.Suite.Run

/-! What is said of each file of a suite. Patterns that skip files and exclusions come first, then the rules; a
file that some rule names a schema for is validated, whatever comes of that. -/
namespace Conform

namespace Mapping

namespace Manifest

/-- Whether a manifest leaves a path out. -/
def Excludes (m : Manifest) (path : Text) : Prop := ∃ e ∈ m.exclusions, e.applies (Glob.normalPath path) = true

/-- Whether a manifest names a schema for a path, and not by blanks alone. -/
def Maps (m : Manifest) (path : Text) : Prop :=
  ∃ r ∈ m.rules, covers r.pattern (Glob.normalPath path) = true ∧ r.schemaId.strip ≠ []

/-- Whether the names of schemas have no blanks around them. -/
def HasTrimmedIds (m : Manifest) : Prop := ∀ r ∈ m.rules, r.schemaId.IsTrimmed

variable {m : Manifest} {path : Text}

theorem applies_eq_true_iff {r : Rule} (h : r.schemaId.IsTrimmed) :
    r.applies path = true ↔ covers r.pattern path = true ∧ r.schemaId.strip ≠ [] := by
  rw [Rule.applies, Bool.and_eq_true, h]
  simp

/-- What the answer for a path says of the exclusions and the rules. -/
theorem resolve_cases (h : m.HasTrimmedIds) (path : Text) :
    (∃ reason, m.resolve path = .excluded reason ∧ m.Excludes path) ∨
    (∃ r ∈ m.rules, m.resolve path = .mapped r ∧ ¬ m.Excludes path ∧ m.Maps path) ∨
    (m.resolve path = .unmatched ∧ ¬ m.Excludes path ∧ ¬ m.Maps path) := by
  unfold resolve
  dsimp only
  cases hExclusion : m.exclusions.reverse.find? (·.applies (Glob.normalPath path)) with
  | some e =>
      have hApplies := List.find?_some hExclusion
      exact Or.inl ⟨e.reason, rfl, e, List.mem_reverse.mp (List.mem_of_find?_eq_some hExclusion), hApplies⟩
  | none =>
      have hKept : ¬ m.Excludes path := by
        rintro ⟨e, hMem, hApplies⟩
        cases (find?_reverse_eq_none_iff.mp hExclusion e hMem).symm.trans hApplies
      cases hRule : m.rules.reverse.find? (·.applies (Glob.normalPath path)) with
      | some r =>
          have hMem := List.mem_reverse.mp (List.mem_of_find?_eq_some hRule)
          have hApplies := List.find?_some hRule
          exact Or.inr (Or.inl ⟨r, hMem, rfl, hKept, r, hMem, (applies_eq_true_iff (h r hMem)).mp hApplies⟩)
      | none =>
          refine Or.inr (Or.inr ⟨rfl, hKept, ?_⟩)
          rintro ⟨r, hMem, hMaps⟩
          have hNot := find?_reverse_eq_none_iff.mp hRule r hMem
          cases hNot.symm.trans ((applies_eq_true_iff (h r hMem)).mpr hMaps)

theorem hasTrimmedIds_builtin : HasTrimmedIds builtin := by
  unfold HasTrimmedIds
  decide +kernel

end Manifest

/-- The names of schemas in the manifest in effect have no blanks around them, wherever it comes from. -/
theorem Repository.hasTrimmedIds_of_load {fs : Files} {s : Schema.Compiled} {root manifest : Text} {r : Repository}
    (h : load fs s root manifest = .ok r) : r.effective.HasTrimmedIds := by
  rcases load_ok h with ⟨-, hEffective⟩ | ⟨path, bs, m, -, hEffective, -, hParse⟩
  · exact hEffective ▸ Manifest.hasTrimmedIds_builtin
  · obtain ⟨d, format, raw, -, hRaw, hRules, -⟩ := parse_ok hParse
    have hTidy := (Manifest.tidy_of_ofDocument hRaw).1
    rw [hEffective]
    intro rule hMem
    rcases List.mem_append.mp hMem with hBuiltin | hOwn
    · exact Manifest.hasTrimmedIds_builtin rule hBuiltin
    · exact (hTidy.rules rule (hRules ▸ hOwn)).schemaId

end Mapping

namespace Suite

open Mapping (Manifest)

/-- Whether a file was validated against a schema, or should have been. -/
def Status.isValidated : Status → Bool
  | pass | fail | expectedFail | unexpectedPass => true
  | skipped | unmapped => false

/-- Whether a file of a suite is not validated because somebody says so. -/
def Options.Skips (o : Options) (m : Manifest) (path : Text) : Prop :=
  Glob.acceptsAny o.skip path = true ∨ m.Excludes path

/-- What is to be said of a file, by what is in force for its path. -/
inductive Classified (o : Options) (m : Manifest) (path : Text) : Status → Prop where
  | skipped (hSkip : o.Skips m path) : Classified o m path .skipped
  | unmapped (hKept : ¬ o.Skips m path) (hNone : ¬ m.Maps path) : Classified o m path .unmapped
  | validated {status : Status} (hKept : ¬ o.Skips m path) (hMaps : m.Maps path)
      (hStatus : status.isValidated = true) : Classified o m path status

/-- The file that a plan is for. -/
def Plan.path : Plan → Text
  | settled r => r.path
  | validate path _ _ => path

variable {o : Options} {m : Manifest} {path : Text} {status : Status} {s : Setting} {plan : Plan} {r : FileResult}
  {rule : Mapping.Rule} {expectFail : Bool} {ref : SchemaRef} {rs : List FileResult}

namespace Classified

theorem skipped_iff (h : Classified o m path status) : status = .skipped ↔ o.Skips m path := by
  cases h with
  | skipped hSkip => exact iff_of_true rfl hSkip
  | unmapped hKept => exact iff_of_false nofun hKept
  | validated hKept _ hStatus => exact iff_of_false (fun hSame => by cases hSame ▸ hStatus) hKept

theorem unmapped_iff (h : Classified o m path status) : status = .unmapped ↔ ¬ o.Skips m path ∧ ¬ m.Maps path := by
  cases h with
  | skipped hSkip => exact iff_of_false nofun fun hNot => hNot.1 hSkip
  | unmapped hKept hNone => exact iff_of_true rfl ⟨hKept, hNone⟩
  | validated hKept hMaps hStatus =>
      exact iff_of_false (fun hSame => by cases hSame ▸ hStatus) fun hNot => hNot.2 hMaps

theorem isValidated_iff (h : Classified o m path status) :
    status.isValidated = true ↔ ¬ o.Skips m path ∧ m.Maps path := by
  cases h with
  | skipped hSkip => exact iff_of_false nofun fun hNot => hNot.1 hSkip
  | unmapped _ hNone => exact iff_of_false nofun fun hNot => hNone hNot.2
  | validated hKept hMaps hStatus => exact iff_of_true hStatus ⟨hKept, hMaps⟩

end Classified

theorem validated_classify (path : Text) (expectFail : Bool) (ref : SchemaRef) (report : Schema.Report) :
    (classify path expectFail ref report).path = path ∧
      (classify path expectFail ref report).status.isValidated = true := by
  unfold classify
  cases report.valid <;> cases expectFail <;> exact ⟨rfl, rfl⟩

namespace Setting

theorem validated_finish {x : Except Failure Schema.Report} (h : finish path expectFail ref x = .ok r) :
    r.path = path ∧ r.status.isValidated = true := by
  unfold finish at h
  cases x with
  | ok report => exact Except.ok.inj h ▸ validated_classify ..
  | error f =>
      dsimp only at h
      split at h
      · exact Except.ok.inj h ▸ ⟨rfl, rfl⟩
      · cases h

theorem validated_withContent {use : Bytes → Except Failure FileResult} (h : s.withContent path ref use = .ok r)
    (hUse : ∀ data r, use data = .ok r → r.path = path ∧ r.status.isValidated = true) :
    r.path = path ∧ r.status.isValidated = true := by
  unfold withContent at h
  split at h
  · exact hUse _ _ h
  · split at h
    · exact Except.ok.inj h ▸ ⟨rfl, rfl⟩
    · cases h

/-- A file that a schema belongs to comes out as validated, also if it cannot be read or has no schema after all. -/
theorem validated_of_validateOne (h : s.validateOne path rule expectFail = .ok r) :
    r.path = path ∧ r.status.isValidated = true := by
  unfold validateOne at h
  dsimp only at h
  split at h
  · exact validated_withContent h fun _ _ => validated_finish
  · split at h
    · exact Except.ok.inj h ▸ ⟨rfl, rfl⟩
    · exact validated_withContent h fun _ _ => validated_finish
  · refine validated_withContent h fun data r hUse => ?_
    split at hUse
    · exact Except.ok.inj hUse ▸ ⟨rfl, rfl⟩
    · exact validated_finish hUse

theorem path_of_carryOut (h : s.carryOut plan = .ok r) : r.path = plan.path := by
  cases plan with
  | settled r' => exact Except.ok.inj h ▸ rfl
  | validate path rule expectFail => exact (validated_of_validateOne h).1

end Setting

theorem Plan.path_ofPath (o : Options) (m : Manifest) (path : Text) : (ofPath o m path).path = path := by
  unfold ofPath
  split
  · rfl
  · split <;> rfl

/-- What comes of the plan for a file is what is to be said of it. -/
theorem Setting.classified_of_carryOut (hIds : m.HasTrimmedIds) (h : s.carryOut (.ofPath o m path) = .ok r) :
    Classified o m path r.status := by
  unfold Plan.ofPath at h
  cases hSkip : Glob.acceptsAny o.skip path with
  | true =>
      rw [hSkip, if_pos rfl] at h
      obtain rfl := Except.ok.inj h
      exact .skipped (Or.inl hSkip)
  | false =>
      rw [hSkip, if_neg Bool.false_ne_true] at h
      have hKept : ¬ m.Excludes path → ¬ o.Skips m path := fun hNot hSkips =>
        hSkips.elim (fun hTrue => Bool.false_ne_true (hSkip.symm.trans hTrue)) hNot
      rcases m.resolve_cases hIds path with ⟨reason, hAnswer, hExcludes⟩ | ⟨rule, -, hAnswer, hNot, hMaps⟩ |
        ⟨hAnswer, hNot, hNone⟩
      · rw [hAnswer] at h
        obtain rfl := Except.ok.inj h
        exact .skipped (Or.inr hExcludes)
      · rw [hAnswer] at h
        exact .validated (hKept hNot) hMaps (validated_of_validateOne h).2
      · rw [hAnswer] at h
        obtain rfl := Except.ok.inj h
        exact .unmapped (hKept hNot) hNone

namespace Summary

/-- The numbers of a summary add up, and those of the validated files count these files. -/
theorem total_ofResults (rs : List FileResult) :
    (ofResults rs).total = (ofResults rs).validated + (ofResults rs).skipped + (ofResults rs).unmapped ∧
      (ofResults rs).validated = rs.countP (·.status.isValidated) := by
  induction rs with
  | nil => exact ⟨rfl, rfl⟩
  | cons r rest ih =>
      obtain ⟨hTotal, hValidated⟩ := ih
      simp only [ofResults, validated, List.length_cons, List.countP_cons] at hTotal hValidated ⊢
      generalize rest.countP (·.status.isValidated) = count at hValidated ⊢
      cases r.status <;> simp [Status.isValidated] <;> omega

/-- The numbers are the same in whatever order the results are. -/
theorem ofResults_eq_of_perm {as bs : List FileResult} (h : as.Perm bs) : ofResults as = ofResults bs := by
  simp only [ofResults, h.length_eq, h.countP_eq]

end Summary

end Suite
end Conform

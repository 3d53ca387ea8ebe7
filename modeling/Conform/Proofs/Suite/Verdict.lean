import Conform.Proofs.Suite.Run
import Conform.Proofs.Text.Cutting
import Conform.Proofs.Text.Lacking

/-! The report on a suite beside the verdict that the suite ends with. A report is made of lines up to the one that
says how the suite came out, and of a section for each file that came out wrong. Its verdict goes by these files
alone, while that of the suite goes by the options as well. -/
namespace Conform

namespace Text

/-- A line with its end. -/
def ended (line : Text) : Text := line ++ "\n"

variable {lines : List Text}

theorem join_append_newline (h : lines ≠ []) : join "\n" lines ++ "\n" = lines.flatMap ended := by
  induction lines with
  | nil => exact absurd rfl h
  | cons line rest ih =>
      cases rest with
      | nil => exact (List.append_nil _).symm
      | cons next others =>
          have hJoin : join "\n" (line :: next :: others) = ended line ++ join "\n" (next :: others) := rfl
          rw [hJoin, List.flatMap_cons, ← ih (List.cons_ne_nil _ _)]
          exact List.append_assoc _ _ _

/-- Lines that were ended are found again, in front of what follows them. -/
theorem splitOn_ended (h : ∀ line ∈ lines, Lacks '\n' line) (rest : Text) :
    splitOn '\n' (lines.flatMap ended ++ rest) = lines ++ splitOn '\n' rest := by
  induction lines with
  | nil => rfl
  | cons line others ih =>
      obtain ⟨hLine, hOthers⟩ := List.forall_mem_cons.mp h
      have hWhole : (line :: others).flatMap ended ++ rest =
          line ++ Point.ofChar '\n' :: (others.flatMap ended ++ rest) := by
        exact (List.append_assoc (line ++ [Point.ofChar '\n']) _ _).trans (List.append_assoc line _ _)
      rw [hWhole, splitOn_append (by decide), splitOn_of_free hLine, ih hOthers]
      rfl

end Text

namespace Suite

variable {o : Outcome} {rs : List FileResult} {r : FileResult}

/-- Whether a file of the given status is a reason for a suite to fail. -/
def Options.faults (o : Options) : Status → Bool
  | .fail | .unexpectedPass => true
  | .unmapped => o.failOnUnmapped || o.strict
  | .skipped => o.strict
  | .pass | .expectedFail => false

theorem Summary.isClean_ofResults : (ofResults rs).isClean = true ↔ ∀ r ∈ rs, r.status ∉ Outcome.reported := by
  simp only [isClean, ofResults, Bool.and_eq_true, beq_iff_eq, List.countP_eq_zero, decide_eq_true_eq,
    Outcome.reported, List.mem_cons, List.not_mem_nil, or_false, not_or, ← forall₂_and, and_assoc]

namespace Outcome

/-- A suite fails if one of its files is a reason to. -/
theorem shouldFail_eq_true_iff : o.shouldFail = true ↔ ∃ r ∈ o.files, o.options.faults r.status = true := by
  have hCount : ∀ status : Status, 0 < o.files.countP (·.status = status) ↔ ∃ r ∈ o.files, r.status = status := by
    intro status
    rw [List.countP_pos_iff]
    simp
  simp only [shouldFail, summary, Summary.ofResults, Bool.or_eq_true, Bool.and_eq_true, decide_eq_true_eq, hCount]
  constructor
  · rintro (((⟨r, hMem, hStatus⟩ | ⟨r, hMem, hStatus⟩) | ⟨hOption, r, hMem, hStatus⟩) |
      ⟨hOption, ⟨r, hMem, hStatus⟩ | ⟨r, hMem, hStatus⟩⟩)
    all_goals exact ⟨r, hMem, by simp [Options.faults, *]⟩
  · rintro ⟨r, hMem, hFaults⟩
    cases hStatus : r.status <;> simp only [hStatus, Options.faults, Bool.or_eq_true] at hFaults
    · cases hFaults
    · exact Or.inl (Or.inl (Or.inl ⟨r, hMem, hStatus⟩))
    · cases hFaults
    · exact Or.inl (Or.inl (Or.inr ⟨r, hMem, hStatus⟩))
    · exact Or.inr ⟨hFaults, Or.inl ⟨r, hMem, hStatus⟩⟩
    · rcases hFaults with hUnmapped | hStrict
      · exact Or.inl (Or.inr ⟨hUnmapped, r, hMem, hStatus⟩)
      · exact Or.inr ⟨hStrict, Or.inr ⟨r, hMem, hStatus⟩⟩

/-- The numbers in a report with their labels. -/
def labelled (s : Summary) : List (Text × Nat) :=
  [("Total", s.total), ("Passed", s.passed), ("Failed", s.failed), ("Expected fail", s.expectedFail),
    ("Unexpected pass", s.unexpectedPass), ("Skipped", s.skipped), ("Unmapped", s.unmapped)]

/-- The lines of a report before the one that says how the suite came out. -/
def heading (s : Summary) : List Text :=
  let line (l : Text × Nat) : Text := "- " ++ l.1 ++ ": " ++ Text.ofNat l.2
  "# Validation Suite Results" :: "" :: ((labelled s).map line ++ [("" : Text)])

/-- The line that says how a suite came out. -/
def verdict (s : Summary) : Text := if s.isClean then "Suite passed" else "Suite has failures"

/-- The files that have a section in the report, in order. -/
def sectioned (o : Outcome) : List FileResult := o.files.filter fun r => reported.contains r.status

/-- What the report says of the suite as a whole. -/
def Says (o : Outcome) (line : Text) : Prop := (Text.splitOn '\n' o.markdown)[10]? = some line

theorem lacks_of_mem_heading {s : Summary} {line : Text} (h : line ∈ heading s) : Text.Lacks '\n' line := by
  have hLabels : ∀ label ∈ (labelled s).map Prod.fst, Text.Lacks '\n' label := by
    simp only [labelled, List.map_cons, List.map_nil, List.forall_mem_cons, List.not_mem_nil]
    refine ⟨?_, ?_, ?_, ?_, ?_, ?_, ?_, nofun⟩ <;> decide
  simp only [heading, List.mem_cons, List.mem_append, List.not_mem_nil, or_false] at h
  rcases h with rfl | rfl | hNumber | rfl
  · decide
  · decide
  · obtain ⟨l, hMem, rfl⟩ := List.mem_map.mp hNumber
    have hLabel := hLabels l.1 (List.mem_map_of_mem hMem)
    exact Text.lacks_append (Text.lacks_append (Text.lacks_append (by decide) hLabel) (by decide))
      (Text.lacks_ofNat (by decide) l.2)
  · decide

end Outcome

/-- The section on a file, as it stands in a report. -/
def FileResult.passage (r : FileResult) : Text := r.lines.flatMap Text.ended

namespace Outcome

theorem sectioned_eq_nil_iff : o.sectioned = [] ↔ o.summary.isClean = true := by
  rw [summary, Summary.isClean_ofResults, sectioned, List.filter_eq_nil_iff]
  simp

/-- A report is the lines up to the verdict and then the sections. -/
theorem markdown_eq (o : Outcome) : o.markdown =
    (heading o.summary ++ [verdict o.summary]).flatMap Text.ended ++ o.sectioned.flatMap FileResult.passage := by
  have hLines : o.markdown = Text.join "\n" (heading o.summary ++ verdict o.summary ::
      o.sectioned.flatMap FileResult.lines) ++ "\n" := by
    unfold markdown verdict
    dsimp only
    split
    · next hClean => rw [sectioned_eq_nil_iff.mpr hClean]; rfl
    · rfl
  rw [hLines, Text.join_append_newline (by simp [heading]), List.flatMap_append, List.flatMap_append,
    List.flatMap_cons, List.flatMap_singleton, List.flatMap_assoc, List.append_assoc]
  rfl

theorem says_iff {line : Text} : o.Says line ↔ line = verdict o.summary := by
  have hLines : ∀ line ∈ heading o.summary ++ [verdict o.summary], Text.Lacks '\n' line := by
    intro line hMem
    rcases List.mem_append.mp hMem with hHeading | hVerdict
    · exact lacks_of_mem_heading hHeading
    · rw [List.mem_singleton.mp hVerdict, verdict]
      split <;> decide
  rw [Says, markdown_eq, Text.splitOn_ended hLines, List.append_assoc]
  exact ⟨fun h => (Option.some.inj h).symm, fun h => h ▸ rfl⟩

theorem says_passed_iff : o.Says "Suite passed" ↔ ∀ r ∈ o.files, r.status ∉ reported := by
  rw [says_iff, ← Summary.isClean_ofResults, verdict]
  split
  · next hClean => exact iff_of_true rfl hClean
  · next hNot => exact iff_of_false (by decide) hNot

theorem mem_sectioned_iff : r ∈ o.sectioned ↔ r ∈ o.files ∧ r.status ∈ reported := by
  rw [sectioned, List.mem_filter, List.contains_iff_mem]

end Outcome

namespace Options

variable {o : Options} {status : Status}

theorem faults_of_reported (h : status ∈ Outcome.reported) (hNot : o.faults status = false) :
    status = .unmapped ∧ o.failOnUnmapped = false ∧ o.strict = false := by
  cases status <;> simp_all [faults, Outcome.reported]

theorem reported_of_faults (h : o.faults status = true) :
    status ∈ Outcome.reported ∨ status = .skipped ∧ o.strict = true := by
  cases status <;> simp_all [faults, Outcome.reported]

end Options

namespace Outcome

/-- A report passes over files that were skipped, even where that is not allowed. -/
theorem passed_and_shouldFail_iff : o.Says "Suite passed" ∧ o.shouldFail = true ↔
    o.options.strict = true ∧ (∃ r ∈ o.files, r.status = .skipped) ∧ ∀ r ∈ o.files, r.status ∉ reported := by
  rw [says_passed_iff, shouldFail_eq_true_iff]
  constructor
  · rintro ⟨hNone, r, hMem, hFaults⟩
    obtain ⟨hSkipped, hStrict⟩ := (Options.reported_of_faults hFaults).resolve_left (hNone r hMem)
    exact ⟨hStrict, ⟨r, hMem, hSkipped⟩, hNone⟩
  · rintro ⟨hStrict, ⟨r, hMem, hSkipped⟩, hNone⟩
    exact ⟨hNone, r, hMem, by rw [hSkipped]; exact hStrict⟩

/-- A report speaks of failures where there are files without a schema, even where these are allowed. -/
theorem not_passed_and_not_shouldFail_iff : ¬ o.Says "Suite passed" ∧ o.shouldFail = false ↔
    o.options.strict = false ∧ o.options.failOnUnmapped = false ∧ (∃ r ∈ o.files, r.status = .unmapped) ∧
      ∀ r ∈ o.files, r.status ≠ .fail ∧ r.status ≠ .unexpectedPass := by
  rw [says_passed_iff, Bool.eq_false_iff, ne_eq, shouldFail_eq_true_iff]
  simp only [not_forall, not_not, not_exists, not_and, Bool.not_eq_true]
  constructor
  · rintro ⟨⟨r, hMem, hReported⟩, hNone⟩
    obtain ⟨hStatus, hUnmapped, hStrict⟩ := Options.faults_of_reported hReported (hNone r hMem)
    refine ⟨hStrict, hUnmapped, ⟨r, hMem, hStatus⟩, fun r' hMem' => ?_⟩
    have hFree := hNone r' hMem'
    constructor
    · intro hFail
      rw [hFail] at hFree
      cases hFree
    · intro hPass
      rw [hPass] at hFree
      cases hFree
  · rintro ⟨hStrict, hUnmapped, ⟨r, hMem, hStatus⟩, hOthers⟩
    refine ⟨⟨r, hMem, by rw [hStatus]; decide⟩, fun r' hMem' => ?_⟩
    obtain ⟨hFail, hPass⟩ := hOthers r' hMem'
    cases hStatus' : r'.status <;> simp_all [Options.faults]

/-- What a report says beside what a suite comes to. The report goes by the files that came out wrong, and has a
section for each of them. So its verdict differs from that of the suite in two cases: where nothing is wrong but
that files were skipped, which a strict suite does not allow, and where nothing is wrong but that files have no
schema, which others may allow. -/
theorem markdown_verdict (o : Outcome) :
    (o.Says "Suite passed" ↔ ∀ r ∈ o.files, r.status ∉ reported) ∧
    (o.shouldFail = true ↔ ∃ r ∈ o.files, o.options.faults r.status = true) ∧
    (o.Says "Suite passed" ∧ o.shouldFail = true ↔
      o.options.strict = true ∧ (∃ r ∈ o.files, r.status = .skipped) ∧ ∀ r ∈ o.files, r.status ∉ reported) ∧
    (¬ o.Says "Suite passed" ∧ o.shouldFail = false ↔
      o.options.strict = false ∧ o.options.failOnUnmapped = false ∧ (∃ r ∈ o.files, r.status = .unmapped) ∧
        ∀ r ∈ o.files, r.status ≠ .fail ∧ r.status ≠ .unexpectedPass) ∧
    o.markdown = (heading o.summary ++ [verdict o.summary]).flatMap Text.ended ++
      o.sectioned.flatMap FileResult.passage ∧
    ∀ r ∈ o.files, o.options.faults r.status = true → (r ∈ o.sectioned ↔ r.status ≠ .skipped) := by
  refine ⟨says_passed_iff, shouldFail_eq_true_iff, passed_and_shouldFail_iff, not_passed_and_not_shouldFail_iff,
    o.markdown_eq, fun r hMem hFaults => ?_⟩
  rw [mem_sectioned_iff]
  constructor
  · rintro ⟨-, hReported⟩ hSkipped
    rw [hSkipped] at hReported
    exact absurd hReported (by decide)
  · exact fun hOther => ⟨hMem, (Options.reported_of_faults hFaults).resolve_right fun h => hOther h.1⟩

/-- A suite with one file, of which nothing is known but its status. -/
def single (strict : Bool) (status : Status) : Outcome where
  root := "/"
  options := { rootSetting.options with strict }
  repository := ⟨none, {}, []⟩
  files := [{ path := "a.json", status, valid := false }]

/-- A suite may come out well although its report says otherwise, and a strict one may fail while the report says
that it passed and has no section for the file that was skipped. -/
theorem not_says_passed_iff : ¬ ((single false .unmapped).Says "Suite passed" ↔ (single false .unmapped).shouldFail = false) ∧
    ¬ ((single true .skipped).Says "Suite passed" ↔ (single true .skipped).shouldFail = false) ∧
    (single true .skipped).sectioned = [] := by
  rw [says_iff, says_iff]
  decide

end Outcome
end Suite
end Conform

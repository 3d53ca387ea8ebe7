import Conform.Proofs.Path
import Conform.Proofs.Signatures.Detection
import Conform.Proofs.Text.Lower
import Mathlib.Algebra.Order.BigOperators.Group.List

/-! Scores of contents that grow. A mark for a part of a content is still there when more is put around it, so that
the sum of the weights does not fall. Only a capital sigma is in the way: its lower case depends on what is around. -/
namespace Conform.Signatures

variable {g : Signature} {p : Prepared} {before sample after : Text}

namespace Probe

variable {q : Probe} {id : Text} {m : Matcher}

/-- A mark for a part of a content, wherever it is, that weighs something. -/
structure Additive (q : Probe) : Prop where
  type : q.matcher.type = "contains"
  weight : q.matcher.weight.isPositive = true

theorem matcher_of_ofMatcher? (h : ofMatcher? id m = .ok (some q)) : q.matcher = m := by
  unfold ofMatcher? at h
  split_ifs at h
  · cases h; rfl
  · cases h; rfl
  · cases h; rfl
  · dsimp only at h
    split at h
    · cases h; rfl
    · split at h <;> cases h
  · cases h

theorem test_of_contains (h : ofMatcher? id m = .ok (some q)) (hType : q.matcher.type = "contains") :
    q.test = .contains (literal q.matcher) := by
  have hMatcher := matcher_of_ofMatcher? h
  rw [hMatcher] at hType ⊢
  rw [ofMatcher?, hType, beq_self_eq_true, if_pos rfl] at h
  cases h
  rfl

/-- Whether no sigma keeps a mark from staying where text is put around a sample: the mark is looked for as it is
written, or the sigmas of the sample keep their lower case, or the mark has none. -/
def Survives (q : Probe) (before sample after : Text) : Prop :=
  q.matcher.ignoreCase = true →
    Text.KeepsSigmas before after sample ∨ ∀ c ∈ literal q.matcher, c.isSmallSigma = false

theorem fires_of_survives (hTest : q.test = .contains (literal q.matcher)) (hSurvives : q.Survives before sample after)
    (h : q.fires sample sample.lower = true) :
    q.fires (before ++ sample ++ after) (before ++ sample ++ after).lower = true := by
  simp only [fires, hTest, Text.contains_iff] at h ⊢
  cases hCase : q.matcher.ignoreCase with
  | false =>
      rw [hCase] at h
      exact h.trans (List.infix_append before sample after)
  | true =>
      rw [hCase] at h
      rcases hSurvives hCase with hKept | hFree
      · exact h.trans (Text.infix_lower hKept)
      · exact Text.infix_lower_of_sigmaless hFree h before after

end Probe

namespace Match

variable {ms ms' : List Matcher} {x y : Double}

/-- A sum does not fall when further weights are put anywhere into it. -/
theorem place_foldl_add_le (h : ms.Sublist ms') (hWeights : ∀ m ∈ ms', m.weight.isPositive = true)
    (hNormal : y.Normal) (hX : 0 ≤ x.place) (hLe : x.place ≤ y.place) :
    (ms.foldl (fun z m => z.add m.weight) x).place ≤ (ms'.foldl (fun z m => z.add m.weight) y).place := by
  induction h generalizing x y with
  | slnil => exact hLe
  | cons m _ ih =>
      obtain ⟨hFirst, hRest⟩ := List.forall_mem_cons.mp hWeights
      have hWeight := (Double.isPositive_iff.mp hFirst).le
      exact ih hRest (Double.add_normal _ _) hX (hLe.trans (Double.place_le_add hNormal (hX.trans hLe) hWeight))
  | cons_cons m _ ih =>
      obtain ⟨hFirst, hRest⟩ := List.forall_mem_cons.mp hWeights
      have hWeight := (Double.isPositive_iff.mp hFirst).le
      exact ih hRest (Double.add_normal _ _) (Double.place_add_nonneg hX hWeight)
        (Double.place_add_mono hX hLe hWeight)

theorem place_scoreOf_le (h : ms.Sublist ms') (hWeights : ∀ m ∈ ms', m.weight.isPositive = true) :
    (scoreOf ms).place ≤ (scoreOf ms').place :=
  place_foldl_add_le h hWeights (Double.zero_normal false) Double.place_zero.ge le_rfl

theorem place_scoreOf_nonneg (hWeights : ∀ m ∈ ms, m.weight.isPositive = true) : 0 ≤ (scoreOf ms).place :=
  Double.place_zero.ge.trans (place_scoreOf_le (List.nil_sublist ms) hWeights)

end Match

namespace Prepared

theorem test_of_mem (h : p.Prepares g) {q : Probe} (hMem : q ∈ p.probes) (hType : q.matcher.type = "contains") :
    q.test = .contains (Probe.literal q.matcher) := by
  obtain ⟨os, hAll, hKept⟩ := filterMapM_ok_iff.mp h.probes
  rw [← hKept, List.reduceOption_mem_iff] at hMem
  obtain ⟨m, -, hMade⟩ := exists_left_of_forall₂ hAll hMem
  exact Probe.test_of_contains hMade hType

theorem fired_sublist (h : p.Prepares g) (hAdditive : ∀ q ∈ p.probes, q.Additive)
    (hSurvive : ∀ q ∈ p.probes, q.Survives before sample after) :
    (p.fired sample sample.lower).Sublist
      (p.fired (before ++ sample ++ after) (before ++ sample ++ after).lower) := by
  refine List.Sublist.map _ ?_
  have hStay : ∀ q ∈ p.probes, q.fires sample sample.lower = true →
      q.fires (before ++ sample ++ after) (before ++ sample ++ after).lower = true := fun q hMem =>
    Probe.fires_of_survives (test_of_mem h hMem (hAdditive q hMem).type) (hSurvive q hMem)
  have hAgain : p.probes.filter (·.fires sample sample.lower) =
      (p.probes.filter (·.fires (before ++ sample ++ after) (before ++ sample ++ after).lower)).filter
        (·.fires sample sample.lower) := by
    rw [List.filter_filter]
    refine List.filter_congr fun q hMem => ?_
    cases hFires : q.fires sample sample.lower with
    | false => rfl
    | true => rw [hStay q hMem hFires, Bool.and_self]
  rw [hAgain]
  exact List.filter_sublist

theorem weights_fired (hAdditive : ∀ q ∈ p.probes, q.Additive) {t u : Text} :
    ∀ m ∈ p.fired t u, m.weight.isPositive = true :=
  List.forall_mem_map.mpr fun q hMem => (hAdditive q (List.mem_filter.mp hMem).1).weight

theorem place_found_le (h : p.Prepares g) (hAdditive : ∀ q ∈ p.probes, q.Additive)
    (hSurvive : ∀ q ∈ p.probes, q.Survives before sample after) :
    (p.found sample).score.place ≤ (p.found (before ++ sample ++ after)).score.place :=
  Match.place_scoreOf_le (fired_sublist h hAdditive hSurvive) (weights_fired hAdditive)

theorem ne_nan_found (hAdditive : ∀ q ∈ p.probes, q.Additive) (t : Text) : (p.found t).score ≠ .nan := by
  have hNonneg : 0 ≤ (p.found t).score.place := Match.place_scoreOf_nonneg (weights_fired hAdditive)
  intro hNan
  simp [hNan, Double.place] at hNonneg

/-- If all marks are for parts of a content and weigh something, then putting text around a sample takes no mark
away, unless a capital sigma is in the way. So neither the exact sum of the weights nor the score falls, and what
qualified still does. -/
theorem found_grows (h : ofSignature? g = .ok (some p)) (hAdditive : ∀ q ∈ p.probes, q.Additive)
    (hSurvive : ∀ q ∈ p.probes, q.Survives before sample after) :
    (p.found sample).fired.Sublist (p.found (before ++ sample ++ after)).fired ∧
      ((p.found sample).fired.map (·.weight.value)).sum ≤
        ((p.found (before ++ sample ++ after)).fired.map (·.weight.value)).sum ∧
      (p.found sample).score.le (p.found (before ++ sample ++ after)).score = true ∧
      ∀ s path, p.qualifies s path sample = true → p.qualifies s path (before ++ sample ++ after) = true := by
  have hPrepares := prepares_of_ofSignature? h
  have hFired := fired_sublist hPrepares hAdditive hSurvive
  have hScore := place_found_le hPrepares hAdditive hSurvive
  refine ⟨hFired, (hFired.map _).sum_le_sum ?_, ?_, fun s path hQualifies => ?_⟩
  · refine List.forall_mem_map.mpr fun m hMem => Double.value_nonneg ?_
    exact (Double.isPositive_iff.mp (weights_fired hAdditive m hMem)).le
  · exact (Double.le_iff (ne_nan_found hAdditive _) (ne_nan_found hAdditive _)).mpr hScore
  · obtain ⟨hAllowed, hReached⟩ := Bool.and_eq_true_iff.mp hQualifies
    have hThreshold := (Double.ne_nan_of_le hReached).1
    rw [Double.le_iff hThreshold (ne_nan_found hAdditive _)] at hReached
    rw [qualifies, hAllowed, Bool.true_and, Double.le_iff hThreshold (ne_nan_found hAdditive _)]
    exact hReached.trans hScore

/-- A mark for the Greek word for a street, in any case. -/
def streetMark : Matcher := ⟨"contains", "ΟΔΟΣ", [], Match.one, true⟩

/-- The signature with that mark, as it is prepared. -/
def street : Prepared :=
  ⟨⟨"street", [], [], .zero, [], [], [streetMark], [], []⟩, Manifest.usualThreshold,
    [⟨streetMark, .contains (Probe.literal streetMark)⟩], []⟩

theorem prepared_street : ofSignature? street.signature = .ok (some street) := by
  have hProbes : street.signature.matchers.filterMapM (Probe.ofMatcher? street.signature.id) = .ok street.probes := rfl
  have hThreshold : street.signature.threshold.isPositive = false := by decide +kernel
  rw [ofSignature?, bind_of_ok hProbes, hThreshold]
  rfl

theorem additive_street : ∀ q ∈ street.probes, q.Additive :=
  List.forall_mem_singleton.mpr ⟨rfl, by decide +kernel⟩

theorem found_grows_street : ofSignature? street.signature = .ok (some street) ∧
    (∀ q ∈ street.probes, q.Additive) ∧ (∀ q ∈ street.probes, q.Survives "Η " "ΟΔΟΣ" " ΜΟΥ") ∧
    street.qualifies {} "f" "ΟΔΟΣ" = true ∧ street.qualifies {} "f" ("Η " ++ "ΟΔΟΣ" ++ " ΜΟΥ") = true := by
  have hApart : Text.KeepsSigmas "Η " " ΜΟΥ" "ΟΔΟΣ" :=
    Text.keepsSigmas_of_apart (show Text.meetsCased (Text.ofString "Η ").reverse = false by decide +kernel)
      (show Text.meetsCased (Text.ofString " ΜΟΥ") = false by decide +kernel) "ΟΔΟΣ"
  have hSurvive : ∀ q ∈ street.probes, q.Survives "Η " "ΟΔΟΣ" " ΜΟΥ" := fun _ _ _ => Or.inl hApart
  have hQualifies : street.qualifies {} "f" "ΟΔΟΣ" = true := by decide +kernel
  obtain ⟨-, -, -, hStill⟩ := found_grows prepared_street additive_street hSurvive
  exact ⟨prepared_street, additive_street, hSurvive, hQualifies, hStill {} "f" hQualifies⟩

/-- A letter behind the word gives its last letter another lower case, and the mark is gone. -/
theorem found_falls_street : ofSignature? street.signature = .ok (some street) ∧
    (∀ q ∈ street.probes, q.Additive) ∧
    (street.found "ΟΔΟΣ").score = Match.one ∧ street.qualifies {} "f" "ΟΔΟΣ" = true ∧
    (street.found ("ΟΔΟΣ" ++ "Α")).score = .zero ∧ street.qualifies {} "f" ("ΟΔΟΣ" ++ "Α") = false :=
  ⟨prepared_street, additive_street, by decide +kernel, by decide +kernel, by decide +kernel, by decide +kernel⟩

end Prepared
end Conform.Signatures

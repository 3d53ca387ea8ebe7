import Conform.Schema.Compiled
import Conform.Proofs.Document.Order
import Mathlib.Data.List.Lex
import Mathlib.Data.Prod.Lex

/-! Reports do not show in which order the findings were made. Findings are put in order by their paths, keywords
and messages, and these are all that the words of an issue depend on: findings that the order does not tell apart
read the same. -/
namespace Conform

theorem Text.lt_iff {s t : Text} : s.lt t = true ↔ s < t := by
  induction s generalizing t with
  | nil => cases t <;> simp [Text.lt]
  | cons a s ih =>
      cases t with
      | nil => simp [Text.lt]
      | cons b t =>
          rw [Text.lt, List.cons_lt_cons_iff]
          split
          · next hLess => simp [Fin.lt_def.mpr hLess]
          · next hNotLess =>
              split
              · next hMore => simp [(Fin.lt_def.mpr hMore).ne', (Fin.lt_def.mpr hMore).le]
              · next hNotMore =>
                  have hSame : a = b := Fin.ext (by omega)
                  simp [ih, hSame]

theorem Text.le_iff {s t : Text} : s.le t = true ↔ s ≤ t := by
  rw [Text.le, Bool.not_eq_true', ← Bool.not_eq_true, lt_iff, not_lt]

namespace Schema

namespace Finding

variable {f g : Finding} {fs gs : List Finding}

theorem ltPath_iff {p q : List Text} : ltPath p q = true ↔ p < q := by
  induction p generalizing q with
  | nil => cases q <;> simp [ltPath]
  | cons a p ih =>
      cases q with
      | nil => simp [ltPath]
      | cons b q =>
          rw [ltPath, List.cons_lt_cons_iff]
          split
          · next hSame => simp [ih, eq_of_beq hSame]
          · next hOther => simp [Text.lt_iff, ne_of_beq_false (Bool.eq_false_iff.mpr hOther)]

/-- What findings are put in order by. -/
def sortKey (f : Finding) : List Text ×ₗ Text ×ₗ Text := toLex (f.path, toLex (f.sortWord, f.message))

theorem le_iff : f.le g = true ↔ f.sortKey ≤ g.sortKey := by
  rw [le, sortKey, sortKey, Prod.Lex.toLex_le_toLex, Prod.Lex.toLex_le_toLex]
  dsimp only
  split
  · next hPath => simp [ltPath_iff, bne_iff_ne.mp hPath]
  · next hPath =>
      have hSame : f.path = g.path := by simpa using hPath
      split
      · next hWord => simp [Text.lt_iff, hSame, bne_iff_ne.mp hWord]
      · next hWord =>
          have hSameWord : f.sortWord = g.sortWord := by simpa using hWord
          simp [Text.le_iff, hSame, hSameWord]

theorem pairwise_mergeSort (fs : List Finding) : (fs.mergeSort le).Pairwise fun f g => f.sortKey ≤ g.sortKey := by
  refine (List.pairwise_mergeSort (fun f g h hFirst hSecond => ?_) (fun f g => ?_) fs).imp le_iff.mp
  · exact le_iff.mpr ((le_iff.mp hFirst).trans (le_iff.mp hSecond))
  · rw [Bool.or_eq_true, le_iff, le_iff]
    exact le_total f.sortKey g.sortKey

/-- The word for sorting is as good as the keyword wherever a message is made clearer: the word that stands for no
keyword is none of those. -/
theorem keyword_beq (h : f.sortWord = g.sortWord) {k : Text} (hOther : k ≠ Text.ofString "None") :
    (f.keyword == some k) = (g.keyword == some k) := by
  have hWord : ∀ f : Finding, (f.keyword == some k) = (f.sortWord == k) := by
    intro f
    rw [sortWord]
    cases f.keyword with
    | none => exact (beq_eq_false_iff_ne.mpr hOther.symm).symm
    | some word => rfl
  rw [hWord, hWord, h]

/-- Findings that the order does not tell apart give one issue. -/
theorem ofFinding_congr (h : f.sortKey = g.sortKey) : Issue.ofFinding f = Issue.ofFinding g := by
  obtain ⟨hPath, hRest⟩ := Prod.mk.inj (toLex.injective h)
  obtain ⟨hWord, hMessage⟩ := Prod.mk.inj (toLex.injective hRest)
  have hNot := keyword_beq hWord (k := "not") (by decide)
  have hAdditional := keyword_beq hWord (k := "additionalProperties") (by decide)
  simp only [Issue.ofFinding, Issue.improved, Option.bind_eq_bind, Option.bind_some, Option.pure_def, hPath, hMessage,
    hNot, hAdditional]

/-- In order, findings have the same keys whatever order they were made in. -/
theorem map_sortKey_mergeSort (h : fs.Perm gs) : (fs.mergeSort le).map sortKey = (gs.mergeSort le).map sortKey := by
  have hPerm : (fs.mergeSort le).Perm (gs.mergeSort le) :=
    (List.mergeSort_perm fs le).trans (h.trans (List.mergeSort_perm gs le).symm)
  refine (hPerm.map sortKey).eq_of_pairwise (fun _ _ _ _ => le_antisymm) ?_ ?_
  · exact List.pairwise_map.mpr (pairwise_mergeSort fs)
  · exact List.pairwise_map.mpr (pairwise_mergeSort gs)

end Finding

/-- Keys that are in order need not belong to the same findings, but they give the same issues. -/
theorem Report.ofFindings_congr {fs gs : List Finding} (h : fs.Perm gs) : ofFindings fs = ofFindings gs := by
  have hFactors : Function.FactorsThrough Issue.ofFinding Finding.sortKey := fun _ _ => Finding.ofFinding_congr
  have : Nonempty Issue := ⟨⟨[], [], none⟩⟩
  obtain ⟨read, hRead⟩ := (Function.factorsThrough_iff Issue.ofFinding).mp hFactors
  rw [ofFindings, ofFindings, hRead, ← List.map_map, ← List.map_map, Finding.map_sortKey_mergeSort h]

theorem Report.valid_ofFindings_iff {fs : List Finding} : (ofFindings fs).valid = true ↔ fs = [] := by
  rw [valid, ofFindings, List.isEmpty_iff, List.map_eq_nil_iff, ← List.length_eq_zero_iff, List.length_mergeSort,
    List.length_eq_zero_iff]

namespace Compiled

/-- A validation reports what the check has found, in an order that depends on the findings alone. -/
theorem validate_of_perm {fs gs : List Finding} (hPerm : fs.Perm gs) :
    (∀ (s t : Compiled) (d e : Document), (check s.context s.document d).all = .ok fs →
      (check t.context t.document e).all = .ok gs →
      s.validate d = .ok (.ofFindings fs) ∧ t.validate e = .ok (.ofFindings fs)) ∧
    Report.ofFindings fs = Report.ofFindings gs ∧
    ((Report.ofFindings fs).valid = true ↔ fs = []) ∧
    (∃ arranged : List Finding, arranged.Perm fs ∧ (arranged.Pairwise fun f g => f.sortKey ≤ g.sortKey) ∧
      (Report.ofFindings fs).issues = arranged.map Issue.ofFinding) ∧
    ∀ f g : Finding, f.sortKey = g.sortKey → Issue.ofFinding f = Issue.ofFinding g := by
  have hSame : Report.ofFindings fs = Report.ofFindings gs := Report.ofFindings_congr hPerm
  refine ⟨fun s t d e hLeft hRight => ⟨?_, ?_⟩, hSame, Report.valid_ofFindings_iff, ?_, ?_⟩
  · rw [validate, hLeft]
    rfl
  · rw [validate, hRight, hSame]
    rfl
  · exact ⟨fs.mergeSort Finding.le, List.mergeSort_perm fs _, Finding.pairwise_mergeSort fs, rfl⟩
  · exact fun f g => Finding.ofFinding_congr

/-- A schema with the given keywords. -/
def ofKeywords (ms : Members) : Compiled :=
  ⟨[], .object ms, ⟨.draft2020, .ofRoot (.ofLibrary .draft2020 []) ⟨.draft2020, .object ms⟩, false⟩⟩

/-- Two keywords are checked in the order in which they are written, and reported in one order. -/
theorem validate_of_perm_twoKeywords : ∃ (a b : Text × Document) (f g : Finding), [f, g].Perm [g, f] ∧
    (check (ofKeywords [a, b]).context (ofKeywords [a, b]).document (.int 1)).all = .ok [f, g] ∧
    (check (ofKeywords [b, a]).context (ofKeywords [b, a]).document (.int 1)).all = .ok [g, f] ∧
    (ofKeywords [a, b]).validate (.int 1) = (ofKeywords [b, a]).validate (.int 1) ∧
    (Report.ofFindings [f, g]).issues =
      [⟨"root", "2 was expected", none⟩, ⟨"root", "1 is not of type 'string'", none⟩] := by
  let a : Text × Document := ("type", .text "string")
  let b : Text × Document := ("const", .int 2)
  let f : Finding := ⟨[], some (Text.ofString "type"), "1 is not of type 'string'"⟩
  let g : Finding := ⟨[], some (Text.ofString "const"), "2 was expected"⟩
  have hPerm : [f, g].Perm [g, f] := .swap g f []
  have hLeft : (check (ofKeywords [a, b]).context (ofKeywords [a, b]).document (.int 1)).all = .ok [f, g] := by rfl
  have hRight : (check (ofKeywords [b, a]).context (ofKeywords [b, a]).document (.int 1)).all = .ok [g, f] := by rfl
  obtain ⟨hReports, hSame, -⟩ := validate_of_perm hPerm
  obtain ⟨hFirst, hSecond⟩ := hReports _ _ _ _ hLeft hRight
  have hOrder : [g, f].Pairwise fun f g => f.le g = true := by decide
  refine ⟨a, b, f, g, hPerm, hLeft, hRight, hFirst.trans hSecond.symm, ?_⟩
  rw [hSame, Report.ofFindings, List.mergeSort_of_pairwise hOrder]
  rfl

end Compiled
end Schema
end Conform

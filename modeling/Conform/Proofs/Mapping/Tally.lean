import Conform.Mapping.Resolver
import Mathlib.Data.List.Induction

/-! One resolver that is asked again and again. Each question is counted once more where its answer comes about, and
nothing else of a resolver changes, so an answer never depends on the questions before it and the tally is known from
the answers. -/
namespace Conform.Mapping

/-- Whether the answer is that the file is left out. -/
def Resolution.isExcluded : Resolution → Bool
  | excluded _ => true
  | _ => false

/-- Whether the answer names a schema. -/
def Resolution.isMapped (a : Resolution) : Bool := a.isMatched && !a.isExcluded

/-- What is written of an answer says whether the file is left out. -/
theorem Resolution.get?_excluded (a : Resolution) : a.toDocument.get? "excluded" = some (.bool a.isExcluded) := by
  have hOthers : ∀ k ∈ (["schema_id", "source", "rule"] : List Text), (Text.ofString "excluded" == k) = false := by
    decide +kernel
  simp only [List.forall_mem_cons] at hOthers
  obtain ⟨hSchema, hSource, hRule, -⟩ := hOthers
  cases a <;>
    simp [toDocument, toDocument.answer, Document.record, Document.get?, Members.get?, List.lookup_cons, isExcluded,
      hSchema, hSource, hRule]

/-- The tally after one more answer. -/
def Tally.count (t : Tally) : Resolution → Tally
  | .excluded _ => { t with evaluated := t.evaluated + 1, excluded := t.excluded + 1 }
  | .mapped _ => { t with evaluated := t.evaluated + 1, mapped := t.mapped + 1 }
  | .unmatched => { t with evaluated := t.evaluated + 1, unmapped := t.unmapped + 1 }

/-- Whether a tally is that of some answers. -/
structure Tally.Counts (t : Tally) (answers : List Resolution) : Prop where
  evaluated : t.evaluated = answers.length
  total : t.evaluated = t.mapped + t.unmapped + t.excluded
  mapped : t.mapped = answers.countP Resolution.isMapped
  unmapped : t.unmapped = answers.countP (!·.isMatched)
  excluded : t.excluded = answers.countP Resolution.isExcluded

theorem Tally.counts_nil : Counts {} [] := ⟨rfl, rfl, rfl, rfl, rfl⟩

theorem Tally.Counts.count {t : Tally} {answers : List Resolution} (h : t.Counts answers) (a : Resolution) :
    (t.count a).Counts (answers ++ [a]) where
  evaluated := by
    rw [List.length_append, ← h.evaluated]
    cases a <;> rfl
  total := by
    have hTotal := h.total
    cases a <;> simp only [Tally.count] <;> omega
  mapped := by
    rw [List.countP_append, ← h.mapped]
    cases a <;> rfl
  unmapped := by
    rw [List.countP_append, ← h.unmapped]
    cases a <;> rfl
  excluded := by
    rw [List.countP_append, ← h.excluded]
    cases a <;> rfl

namespace Resolver

variable {m : Manifest} {r : Resolver}

/-- A resolver that was asked nothing yet. -/
def fresh (m : Manifest) : Resolver := { manifest := m }

/-- One resolver is asked for some paths, one after the other. -/
def resolveEach (r : Resolver) : List Text → Resolver × List Resolution
  | [] => (r, [])
  | path :: rest =>
    let next := r.resolve path
    let others := next.1.resolveEach rest
    (others.1, next.2 :: others.2)

/-- Going through the rules from the last one comes to the last one that applies, and counts it. -/
theorem run_tryRules (path : Text) (rules : List Rule) (t : Tally) :
    (tryRules path rules).run t = match rules.find? (·.applies path) with
      | some rule => (.mapped rule, { t with mapped := t.mapped + 1 })
      | none => (.unmatched, { t with unmapped := t.unmapped + 1 }) := by
  induction rules with
  | nil => rfl
  | cons rule rest ih =>
      rw [tryRules, List.find?_cons, Rule.applies]
      cases covers rule.pattern path with
      | false => exact ih
      | true =>
          cases rule.schemaId.isEmpty with
          | true => exact ih
          | false => rfl

/-- A question is answered by the manifest alone, and counted by its answer. -/
theorem resolve_eq (r : Resolver) (path : Text) : r.resolve path =
    ({ r with tally := r.tally.count (r.manifest.resolve path) }, r.manifest.resolve path) := by
  unfold resolve answer Manifest.resolve
  simp only [StateT.run_bind, StateT.run_modify, pure_bind]
  cases r.manifest.exclusions.reverse.find? (·.applies (Glob.normalPath path)) with
  | some e => rfl
  | none =>
      dsimp only
      rw [run_tryRules]
      cases r.manifest.rules.reverse.find? (·.applies (Glob.normalPath path)) <;> rfl

/-- Answers are those of the manifest, and a resolver keeps its manifest. -/
theorem resolveEach_eq (r : Resolver) (paths : List Text) : r.resolveEach paths =
    ({ r with tally := (paths.map r.manifest.resolve).foldl Tally.count r.tally }, paths.map r.manifest.resolve) := by
  induction paths generalizing r with
  | nil => rfl
  | cons path rest ih => rw [resolveEach, resolve_eq, ih, List.map_cons, List.foldl_cons]

/-- Whatever was asked before, the tally is that of the answers. -/
theorem counts_resolveEach (m : Manifest) (paths : List Text) :
    ((fresh m).resolveEach paths).1.tally.Counts ((fresh m).resolveEach paths).2 := by
  rw [resolveEach_eq]
  induction paths using List.reverseRecOn with
  | nil => exact Tally.counts_nil
  | append_singleton before path ih =>
      rw [List.map_append, List.foldl_append]
      exact ih.count _

/-- A resolver answers as one that was asked nothing before, and after every question its tally is that of the answers
it has given: as many as there were questions, each mapped, unmatched or excluded. The number of exclusions rises with
the answers that say the file is left out, and with no others. -/
theorem history_counts (m : Manifest) (paths : List Text) :
    ((fresh m).resolveEach paths).2 = paths.map (fun path => ((fresh m).resolve path).2) ∧
    ((fresh m).resolveEach paths).1.tally.evaluated = paths.length ∧
    ((fresh m).resolveEach paths).1.tally.Counts ((fresh m).resolveEach paths).2 ∧
    ∀ path, (((fresh m).resolveEach paths).1.resolve path).2 = ((fresh m).resolve path).2 ∧
      ∃ excluded, ((fresh m).resolve path).2.toDocument.get? "excluded" = some (.bool excluded) ∧
        (((fresh m).resolveEach paths).1.resolve path).1.tally.excluded =
          ((fresh m).resolveEach paths).1.tally.excluded + excluded.toNat := by
  have hCounts := counts_resolveEach m paths
  have hAnswers : ((fresh m).resolveEach paths).2 = paths.map m.resolve :=
    congrArg Prod.snd (resolveEach_eq (fresh m) paths)
  have hSame : ((fresh m).resolveEach paths).1.manifest = m :=
    congrArg (·.1.manifest) (resolveEach_eq (fresh m) paths)
  have hFresh : ∀ path, ((fresh m).resolve path).2 = m.resolve path :=
    fun path => congrArg Prod.snd (resolve_eq (fresh m) path)
  refine ⟨?_, ?_, hCounts, fun path => ⟨?_, (m.resolve path).isExcluded, ?_, ?_⟩⟩
  · rw [hAnswers, funext hFresh]
  · rw [hCounts.evaluated, hAnswers, List.length_map]
  · rw [resolve_eq, hFresh, hSame]
  · rw [hFresh]
    exact Resolution.get?_excluded _
  · rw [resolve_eq, hSame]
    cases m.resolve path <;> rfl

end Resolver
end Conform.Mapping

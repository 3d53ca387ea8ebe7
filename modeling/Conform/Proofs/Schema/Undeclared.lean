import Conform.Proofs.Document
import Conform.Schema.Check

/-! No keyword looks at what a schema declares, so a schema finds the same without its declaration. -/
namespace Conform.Schema

open Members (get?_erase_ne has_erase_ne)

variable {e : Evaluator} {c : Context} {schema : Members} {keyword : Text}

namespace Rules

theorem listedCount_erase (h : keyword ≠ "$schema") :
    listedCount (Members.erase "$schema" schema) keyword = listedCount schema keyword := by
  simp only [listedCount, get?_erase_ne h]

theorem namesIn_erase (h : keyword ≠ "$schema") :
    namesIn (Members.erase "$schema" schema) keyword = namesIn schema keyword := by
  simp only [namesIn, get?_erase_ne h]

theorem extraMembers_erase (ms : Members) :
    extraMembers (Members.erase "$schema" schema) ms = extraMembers schema ms := by
  simp (disch := decide) only [extraMembers, namesIn_erase]

theorem extraMessage_erase (extras : List Text) :
    extraMessage (Members.erase "$schema" schema) extras = extraMessage schema extras := by
  simp (disch := decide) only [extraMessage, get?_erase_ne]

theorem listed_erase (h : keyword ≠ "$schema") :
    listed (Members.erase "$schema" schema) keyword = listed schema keyword := by
  simp only [listed, get?_erase_ne h]

theorem references_erase (early : Bool) :
    references c early (Members.erase "$schema" schema) = references c early schema := by
  simp (disch := decide) only [references, get?_erase_ne, has_erase_ne]

variable {α : Type} {x : Document} {inner : Context → Document → Except Failure (List α)}

theorem combined_erase :
    combined e c (Members.erase "$schema" schema) x inner = combined e c schema x inner := by
  simp (disch := decide) only [combined, List.flatMap_cons, listed_erase]
  rfl

theorem branches_erase :
    branches e c (Members.erase "$schema" schema) x inner = branches e c schema x inner := by
  simp (disch := decide) only [branches, branch, get?_erase_ne]

theorem fittingNames_erase (h : keyword ≠ "$schema") (ms : Members) :
    fittingNames e c (Members.erase "$schema" schema) ms keyword = fittingNames e c schema ms keyword := by
  simp only [fittingNames, get?_erase_ne h]

theorem fittingPlaces_erase (h : keyword ≠ "$schema") (items : List Document) :
    fittingPlaces e c (Members.erase "$schema" schema) items keyword =
      fittingPlaces e c schema items keyword := by
  simp only [fittingPlaces, get?_erase_ne h]

theorem leadingPlaces_erase (early : Bool) :
    leadingPlaces early (Members.erase "$schema" schema) = leadingPlaces early schema := by
  simp (disch := decide) only [leadingPlaces, get?_erase_ne, has_erase_ne, listed_erase]

/-- What a schema takes care of has nothing to do with its declaration. -/
theorem evaluatedNames_erase (early : Bool) (ms : Members) :
    evaluatedNames e c early (.object (Members.erase "$schema" schema)) ms =
      evaluatedNames e c early (.object schema) ms := by
  simp (disch := decide) only [evaluatedNames, references_erase, allNames, fittingNames_erase, propertyNamesOf,
    patternNames, dependentNames, combined_erase, branches_erase, get?_erase_ne]

theorem evaluatedPlaces_erase (early : Bool) (items : List Document) :
    evaluatedPlaces e c early (.object (Members.erase "$schema" schema)) items =
      evaluatedPlaces e c early (.object schema) items := by
  simp (disch := decide) only [evaluatedPlaces, references_erase, leadingPlaces_erase, fittingPlaces_erase,
    combined_erase, branches_erase]

end Rules

theorem Rule.check_erase (rule : Rule) (keyword : Text) (value x : Document) :
    rule.check e c keyword value (Members.erase "$schema" schema) x = rule.check e c keyword value schema x := by
  cases rule with
  | switchedLimit side =>
      cases side <;> simp (disch := decide) only [check, Rules.switchedLimit, get?_erase_ne]
  | items => simp (disch := decide) only [check, Rules.items, Rules.listedCount_erase]
  | additionalItems =>
      simp (disch := decide) only [check, Rules.additionalItems, get?_erase_ne, Rules.listedCount_erase]
  | contains => simp (disch := decide) only [check, Rules.contains, get?_erase_ne]
  | additionalProperties =>
      simp only [check, Rules.additionalProperties, Rules.extraMembers_erase, Rules.extraMessage_erase]
  | conditional =>
      have hBranch : ∀ fits : Bool, Members.get? (Members.erase "$schema" schema) (if fits then "then" else "else") =
          Members.get? schema (if fits then "then" else "else") :=
        fun fits => get?_erase_ne (by cases fits <;> decide) schema
      simp only [check, Rules.conditional, hBranch]
  | unevaluatedItems early => simp only [check, Rules.unevaluatedItems, Rules.evaluatedPlaces_erase]
  | unevaluatedProperties early =>
      simp only [check, Rules.unevaluatedProperties, Rules.evaluatedNames_erase]
  | _ => rfl

theorem Findings.forEach_filter {α : Type} {f : α → Findings} {p : α → Bool} {items : List α}
    (h : ∀ a ∈ items, p a = false → f a = .done) : forEach f (items.filter p) = forEach f items := by
  induction items with
  | nil => rfl
  | cons a rest ih =>
      have hRest := ih fun b hMem => h b (List.mem_cons_of_mem a hMem)
      by_cases hKept : p a = true
      · rw [List.filter_cons_of_pos hKept, forEach, forEach, hRest]
      · rw [List.filter_cons_of_neg hKept, forEach, h a List.mem_cons_self (by simpa using hKept), hRest]
        rfl

theorem Dialect.rule?_declaration (d : Dialect) : d.rule? "$schema" = none := by
  cases d <;> decide +kernel

theorem checkKeyword_erase (x : Document) :
    checkKeyword e c (Members.erase "$schema" schema) x = checkKeyword e c schema x := by
  funext m
  simp only [checkKeyword, Rule.check_erase]

/-- The keywords of a schema find the same without its declaration. -/
theorem checkKeywords_erase (listing : Dialect) (x : Document) :
    checkKeywords e listing c (Members.erase "$schema" schema) x = checkKeywords e listing c schema x := by
  have hRef : Members.get? (Members.erase "$schema" schema) "$ref" = Members.get? schema "$ref" :=
    get?_erase_ne (by decide) schema
  have hAll : Findings.forEach (checkKeyword e c schema x) (Members.erase "$schema" schema) =
      Findings.forEach (checkKeyword e c schema x) schema := by
    refine Findings.forEach_filter fun m _ hDeclaration => ?_
    have hName : m.1 = "$schema" := by simpa using hDeclaration
    rw [checkKeyword, hName, Dialect.rule?_declaration]
  unfold checkKeywords Dialect.keywords
  rw [hRef, checkKeyword_erase]
  split
  · split
    · exact hAll
    · exact hAll
    · rfl
  · exact hAll

end Conform.Schema

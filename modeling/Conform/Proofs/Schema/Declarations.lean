import Conform.Assets
import Conform.Proofs.Schema.Gate
import Conform.Proofs.Yaml.Undated

/-! What one declaration is taken for by the gate, by the compiler and by the listing. The gate asks whether one of two
markers is there, the compiler takes the first dialect of five that has its marker there, and the listing reads the
schema on its own, with dates. -/
namespace Conform

open Schema (Dialect Parsed)

variable {s : Text} {bs : Bytes} {d : Dialect}

namespace Schema

/-- The dialects that the gate is there for. -/
def Dialect.gated : List Dialect := [.draft7, .draft2020]

/-- Whether a declaration that passes the gate has no marker that is looked for before that of its dialect. -/
def IsUnmixed (s : Text) : Prop :=
  ¬ ("draft-04" : Text) <:+: s ∧ ¬ ("draft-06" : Text) <:+: s ∧
    (("draft-07" : Text) <:+: s ∨ ¬ ("2019-09" : Text) <:+: s)

theorem Parsed.checkDialect_some_iff : Parsed.checkDialect (some s) = .ok () ↔
    ("draft-07" : Text) <:+: s ∨ ("2020-12" : Text) <:+: s := by
  have hSupported : Parsed.supported.any (Text.contains · s) = true ↔
      ("draft-07" : Text) <:+: s ∨ ("2020-12" : Text) <:+: s := by
    simp [Parsed.supported, Text.contains_iff]
  rw [← hSupported, Parsed.checkDialect]
  split
  · next h => exact iff_of_true rfl h
  · next h => simp [h]

/-- The compiler takes the first dialect whose marker is there. -/
theorem Dialect.ofDeclaration_some (s : Text) : Dialect.ofDeclaration (some s) =
    if ("draft-04" : Text) <:+: s then .draft4
    else if ("draft-06" : Text) <:+: s then .draft6
    else if ("draft-07" : Text) <:+: s then .draft7
    else if ("2019-09" : Text) <:+: s then .draft2019
    else .draft2020 := by
  simp only [Dialect.ofDeclaration, Dialect.all, List.find?_cons, List.find?_nil, Dialect.marker, ← Text.contains_iff]
  cases Text.contains "draft-04" s
  · cases Text.contains "draft-06" s
    · cases Text.contains "draft-07" s
      · cases Text.contains "2019-09" s
        · cases Text.contains "2020-12" s <;> rfl
        · rfl
      · rfl
    · rfl
  · rfl

theorem Dialect.ofDeclaration_gated_iff (s : Text) :
    Dialect.ofDeclaration (some s) ∈ Dialect.gated ↔ IsUnmixed s := by
  rw [Dialect.ofDeclaration_some, IsUnmixed]
  split_ifs <;> simp_all [Dialect.gated]

end Schema

namespace Assets

/-- How a dialect is called in the listing. -/
def title? : Dialect → Option Text
  | .draft7 => some "Draft-07"
  | .draft2020 => some "Draft-2020-12"
  | _ => none

/-- Whether the listing takes the text for the declaration of the schema. -/
def Sees (bs : Bytes) (s : Text) : Prop := declaration? bs = .ok (some s)

/-- Whether the listing meets a value that is no text where others read the text. -/
inductive Hides (bs : Bytes) (s : Text) : Prop where
  | date {v : Yaml.Value} {m : Moment} (hRead : Yaml.Value.read true bs = .ok v)
      (hValue : v.get? "$schema" = some (.moment m)) (h : Yaml.Scalar.IsDate s)
  | bytes {v : Yaml.Value} {content : Bytes} (hRead : Yaml.Value.read true bs = .ok v)
      (hValue : v.get? "$schema" = some (.bytes content)) (h : s = content.textLossy)

/-- Whether the listing calls a schema by the name of a dialect. -/
def Names (bs : Bytes) (d : Dialect) : Prop := ∃ name, title? d = some name ∧ draftName bs = .ok name

theorem draftName_of_sees (h : Sees bs s) : draftName bs = .ok (if ("draft-07" : Text) <:+: s then "Draft-07"
    else if ("2020-12" : Text) <:+: s then "Draft-2020-12" else otherDraft) := by
  rw [draftName, bind_of_ok h]
  exact congrArg Except.ok (if_congr Text.contains_iff rfl (if_congr Text.contains_iff rfl rfl))

theorem names_iff_of_sees (h : Sees bs s) (hGate : Parsed.checkDialect (some s) = .ok ()) :
    Names bs (.ofDeclaration (some s)) ↔ Schema.IsUnmixed s := by
  have hMarked := Parsed.checkDialect_some_iff.mp hGate
  rw [Names, draftName_of_sees h, Dialect.ofDeclaration_some, Schema.IsUnmixed]
  split_ifs <;> simp_all [title?]

theorem declaration?_of_read {v : Yaml.Value} (hRead : Yaml.Value.read true bs = .ok v) :
    declaration? bs = .ok (match v.get? "$schema" with
      | some (.text t) => some t
      | _ => none) := by
  unfold declaration?
  generalize Yaml.Value.read true bs = read at hRead ⊢
  cases hRead
  rfl

/-- Where a schema is read in both ways, the declaration is seen, or something else is there. -/
theorem sees_or_hides_of_undated {v v' : Yaml.Value} (hRead : Yaml.Value.read true bs = .ok v) (h : v.Undated v')
    (hDeclared : (v'.toDocument.get? "$schema").bind Document.text? = some s) :
    Sees bs s ∨ declaration? bs = .ok none ∧ Hides bs s := by
  have hFound : Option.Rel (fun w d => ∃ w', w.Undated w' ∧ w'.toDocument = d) (v.get? "$schema")
      (v'.toDocument.get? "$schema") := Yaml.Value.get?_of_undated h (by decide) (by decide)
  have hSeen := declaration?_of_read hRead
  cases hDocument : v'.toDocument.get? "$schema" with
  | none =>
      rw [hDocument] at hDeclared
      cases hDeclared
  | some d =>
      cases hValue : v.get? "$schema" with
      | none =>
          rw [hDocument, hValue] at hFound
          cases hFound
      | some w =>
          rw [hDocument, hValue] at hFound
          rw [hValue] at hSeen
          obtain ⟨w', hUndated, hText⟩ : ∃ w', w.Undated w' ∧ w'.toDocument = d := by
            cases hFound with
            | some h => exact h
          obtain rfl : d = .text s := by
            rw [hDocument] at hDeclared
            cases d <;> first | exact congrArg _ (Option.some.inj hDeclared) | cases hDeclared
          rcases Yaml.Value.cases_of_text hUndated hText with rfl | ⟨m, rfl, hDate⟩ | ⟨content, rfl, hContent⟩
          · exact .inl hSeen
          · exact .inr ⟨hSeen, .date hRead hValue hDate⟩
          · exact .inr ⟨hSeen, .bytes hRead hValue hContent⟩

/-- What the gate reads as the declaration of a schema, the listing reads as well, unless it reads no text there, or
fails because of a date that does not exist. -/
theorem sees_or_hides (h : Parsed.rootDeclaration bs = some s) : Sees bs s ∨
    declaration? bs = .ok none ∧ Hides bs s ∨
    ∃ fault, declaration? bs = .error (.scalar fault) ∧
      ((Yaml.Value.read false bs).isOk = true → ∃ why, fault = .noSuchMoment why) := by
  have hCompares := Yaml.Value.compares_read bs
  rw [Parsed.rootDeclaration, Document.read?] at h
  cases hDated : Yaml.Value.read true bs with
  | ok v =>
      rw [hDated] at hCompares
      cases hPlain : Yaml.Value.read false bs with
      | error f =>
          rw [hPlain] at hCompares h
          cases hCompares
          cases h
      | ok v' =>
          rw [hPlain] at hCompares h
          cases hCompares with
          | ok hUndated => exact (sees_or_hides_of_undated hDated hUndated h).imp_right .inl
  | error f =>
      by_cases hMalformed : f = .malformed
      · obtain rfl := hMalformed
        rw [hDated] at hCompares
        cases hPlain : Yaml.Value.read false bs with
        | ok v' =>
            rw [hPlain] at hCompares
            cases hCompares
        | error f' =>
            rw [hPlain] at h
            cases f' with
            | malformed =>
                refine .inl ?_
                rw [Sees, declaration?, hDated]
                cases hJson : Json.read? bs with
                | none =>
                    rw [hJson] at h
                    cases h
                | some d =>
                    rw [hJson] at h
                    exact congrArg Except.ok h
            | _ => cases h
      · have hFails : declaration? bs = .error (.scalar f) := by
          rw [declaration?, hDated]
          cases f <;> first | rfl | exact absurd rfl hMalformed
        refine .inr (.inr ⟨f, hFails, fun hOk => ?_⟩)
        obtain ⟨v', hPlain⟩ := exists_of_isOk hOk
        rw [hDated, hPlain] at hCompares
        cases hCompares with
        | date why => exact ⟨why, rfl⟩

/-- What the gate, the compiler and the listing make of one declaration that passes the gate. The compiler takes one
of the two dialects that the gate is there for just if there is no marker that is looked for before, and the listing
calls the schema by the name of the compiler's dialect just if, besides, it sees the declaration. If it does not, there
is a date or a byte string where the others read a text, or a date that does not exist. -/
theorem names_dialect_iff (hDeclared : Parsed.rootDeclaration bs = some s)
    (hGate : Parsed.checkDialect (some s) = .ok ()) :
    (Dialect.ofDeclaration (some s) ∈ Dialect.gated ↔ Schema.IsUnmixed s) ∧
    (Names bs (.ofDeclaration (some s)) ↔ Schema.IsUnmixed s ∧ Sees bs s) ∧
    (¬ Sees bs s → draftName bs = .ok otherDraft ∧ Hides bs s ∨
      ∃ fault, draftName bs = .error (.scalar fault) ∧
        ((Yaml.Value.read false bs).isOk = true → ∃ why, fault = .noSuchMoment why)) := by
  have hUnseen : ∀ {x : Except Failure (Option Text)}, declaration? bs = x → (∀ t, x ≠ .ok (some t)) →
      draftName bs = x.bind fun _ => .ok otherDraft := by
    intro x hX hNone
    rw [draftName, hX]
    cases x with
    | error f => rfl
    | ok found =>
        cases found with
        | none => rfl
        | some t => exact absurd rfl (hNone t)
  have hOther : ∀ d, title? d ≠ some otherDraft := by
    intro d
    cases d <;> decide
  refine ⟨Dialect.ofDeclaration_gated_iff s, ?_, ?_⟩
  · rcases sees_or_hides hDeclared with hSees | ⟨hNone, -⟩ | ⟨fault, hFails, -⟩
    · rw [names_iff_of_sees hSees hGate]
      exact (and_iff_left hSees).symm
    · refine iff_of_false ?_ ?_
      · rintro ⟨name, hTitle, hName⟩
        rw [hUnseen hNone nofun] at hName
        exact hOther _ (hTitle.trans (congrArg some (Except.ok.inj hName).symm))
      · rintro ⟨-, hSees⟩
        cases hNone.symm.trans hSees
    · refine iff_of_false ?_ ?_
      · rintro ⟨name, -, hName⟩
        rw [hUnseen hFails nofun] at hName
        cases hName
      · rintro ⟨-, hSees⟩
        cases hFails.symm.trans hSees
  · intro hNot
    rcases sees_or_hides hDeclared with hSees | ⟨hNone, hHides⟩ | ⟨fault, hFails, hWhy⟩
    · exact absurd hSees hNot
    · exact .inl ⟨hUnseen hNone nofun, hHides⟩
    · exact .inr ⟨fault, hUnseen hFails nofun, hWhy⟩

/-- A schema in a supported dialect. -/
def plainSchema : Bytes := Text.utf8 ("$schema: " ++ Dialect.draft7.uri)

theorem names_dialect_iff_plainSchema : Parsed.rootDeclaration plainSchema = some Dialect.draft7.uri ∧
    Parsed.checkDialect (some Dialect.draft7.uri) = .ok () ∧
    Dialect.ofDeclaration (some Dialect.draft7.uri) ∈ Dialect.gated ∧
    Names plainSchema (.ofDeclaration (some Dialect.draft7.uri)) := by
  have hDeclared : Parsed.rootDeclaration plainSchema = some Dialect.draft7.uri := by decide +kernel
  have hGate := Parsed.checkDialect_some_iff.mpr (.inl (Text.contains_iff.mp
    (show Text.contains "draft-07" Dialect.draft7.uri = true by decide +kernel)))
  have hSees : (declaration? plainSchema).toOption = some (some Dialect.draft7.uri) := by decide +kernel
  have hUnmixed : Schema.IsUnmixed Dialect.draft7.uri := by
    simp only [Schema.IsUnmixed, ← Text.contains_iff]
    decide +kernel
  obtain ⟨hDialect, hNames, -⟩ := names_dialect_iff hDeclared hGate
  refine ⟨hDeclared, hGate, hDialect.mpr hUnmixed, hNames.mpr ⟨hUnmixed, ?_⟩⟩
  exact eq_ok_of_toOption hSees

/-- A declaration with the markers of two dialects. -/
def mixed : Text := "https://json-schema.org/draft-04/2020-12"

/-- A schema with such a declaration. -/
def mixedSchema : Bytes := Text.utf8 ("$schema: " ++ mixed)

/-- A declaration that has the form of a date. -/
def dated : Text := "2020-12-01"

/-- A schema with such a declaration. -/
def datedSchema : Bytes := Text.utf8 ("$schema: " ++ dated)

/-- What passes the gate may be compiled in an old dialect while the listing calls it by a new one, and what is
compiled in a new one may be nothing to the listing. -/
theorem not_names_of_checkDialect :
    (Parsed.rootDeclaration mixedSchema = some mixed ∧ Parsed.checkDialect (some mixed) = .ok () ∧
      Dialect.ofDeclaration (some mixed) = .draft4 ∧ draftName mixedSchema = .ok "Draft-2020-12") ∧
    (Parsed.rootDeclaration datedSchema = some dated ∧ Parsed.checkDialect (some dated) = .ok () ∧
      Dialect.ofDeclaration (some dated) = .draft2020 ∧ draftName datedSchema = .ok otherDraft) := by
  have hMixed : (draftName mixedSchema).toOption = some "Draft-2020-12" := by decide +kernel
  have hDated : (draftName datedSchema).toOption = some otherDraft := by decide +kernel
  have hGate : ∀ {s : Text}, Text.contains "2020-12" s = true → Parsed.checkDialect (some s) = .ok () := fun h =>
    Parsed.checkDialect_some_iff.mpr (.inr (Text.contains_iff.mp h))
  refine ⟨⟨?_, hGate ?_, ?_, eq_ok_of_toOption hMixed⟩, ?_, hGate ?_, ?_, eq_ok_of_toOption hDated⟩
  all_goals decide +kernel

end Assets
end Conform

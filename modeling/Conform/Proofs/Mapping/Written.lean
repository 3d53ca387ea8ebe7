import Conform.Mapping.Manifest
import Conform.Proofs.Mapping.Tuning

/-! Manifests as they are written. What is read from a document has no blanks around its texts, and such a
manifest is read again as it was written, whatever is set in it and whatever is not. -/
namespace Conform.Mapping

variable {path : Text} {d : Document}

namespace Condition

/-- Whether a condition is one that is read somewhere. -/
structure IsTidy (c : Condition) : Prop where
  field : c.field.IsTrimmed ∧ c.field ≠ []
  schemaId : c.schemaId.IsTrimmed

/-- What a condition is written into. -/
def slots (c : Condition) : List Slot :=
  [.value "field" (.text c.field), ("exists", c.isPresent.map .bool), .unlessNull "equals" c.equals,
    .text "schema_id" c.schemaId]

variable {c : Condition} {ms : Members}

theorem toDocument_eq (c : Condition) : c.toDocument = .object (Slot.members c.slots) := by
  obtain ⟨field, isPresent, equals, schemaId⟩ := c
  cases equals <;>
    simp only [toDocument, slots, Slot.members_cons, Slot.members_nil, Slot.member_value, Slot.member_option,
      Slot.member_unlessNull, Slot.member_text, List.append_assoc, List.append_nil, List.nil_append]

theorem nodup_slots (c : Condition) : (c.slots.map Prod.fst).Nodup :=
  (by decide : (["field", "exists", "equals", "schema_id"] : List Text).Nodup)

theorem plain_slots (path : Text) (h : c.IsTidy) :
    plain path (Slot.members c.slots) = .ok { c with schemaId := [] } := by
  unfold plain
  simp only [Slot.field_members c.nodup_slots]
  have hEquals : (c.slots.lookup ("equals" : Text)).join.getD .null = c.equals :=
    Slot.getD_unlessNull "equals" c.equals
  refine (bind_of_ok (Field.text_text _ h.field.1 h.field.2)).trans ?_
  refine (bind_of_ok (Field.bool?_map _ c.isPresent)).trans ?_
  rw [hEquals]
  rfl

/-- A condition on the content of a file has no schema of its own. -/
theorem ofContent_toDocument (path : Text) (h : c.IsTidy) (hNone : c.schemaId = []) :
    ofContent path c.toDocument = .ok c := by
  obtain ⟨field, isPresent, equals, schemaId⟩ := c
  obtain rfl : schemaId = [] := hNone
  rw [toDocument_eq]
  exact (bind_of_ok rfl).trans (plain_slots path h)

theorem ofDocument_toDocument (path : Text) (h : c.IsTidy) : ofDocument path c.toDocument = .ok c := by
  rw [toDocument_eq]
  refine (bind_of_ok rfl).trans ?_
  refine (bind_of_ok (plain_slots path h)).trans ?_
  rw [Slot.get?_members c.nodup_slots]
  exact bind_of_ok (Field.textOrEmpty_text _ "schema_id" h.schemaId)

theorem tidy_of_plain (h : plain path ms = .ok c) :
    c.IsTidy ∧ c.schemaId = [] ∧ c.equals = Field.member ms "equals" := by
  obtain ⟨field, hField, h⟩ := exists_of_bind_ok h
  obtain ⟨isPresent, -, h⟩ := exists_of_bind_ok h
  obtain rfl := Except.ok.inj h
  exact ⟨⟨Field.isTrimmed_of_text hField, rfl⟩, rfl, rfl⟩

/-- The value that a document asks for. -/
def wanted (d : Document) : Document := (d.get? "equals").getD .null

theorem tidy_of_ofContent (h : ofContent path d = .ok c) : c.IsTidy ∧ c.schemaId = [] ∧ c.equals = wanted d := by
  obtain ⟨ms, rfl, hRead⟩ := Field.exists_of_object h
  exact tidy_of_plain hRead

theorem tidy_of_ofDocument (h : ofDocument path d = .ok c) : c.IsTidy ∧ c.equals = wanted d := by
  obtain ⟨ms, rfl, hRead⟩ := Field.exists_of_object h
  obtain ⟨plain, hPlain, hRead⟩ := exists_of_bind_ok hRead
  obtain ⟨schemaId, hSchemaId, hRead⟩ := exists_of_bind_ok hRead
  obtain rfl := Except.ok.inj hRead
  obtain ⟨hTidy, -, hEquals⟩ := tidy_of_plain hPlain
  exact ⟨⟨hTidy.field, Field.isTrimmed_of_textOrEmpty hSchemaId⟩, hEquals⟩

end Condition

namespace Rule

structure IsTidy (r : Rule) : Prop where
  pattern : r.pattern.IsTrimmed ∧ r.pattern ≠ []
  schemaId : r.schemaId.IsTrimmed
  fallback : r.fallback.IsTrimmed
  conditions : ∀ c ∈ r.conditions, c.IsTidy

def slots (r : Rule) : List Slot :=
  [.value "pattern" (.text r.pattern), .text "schema_id" r.schemaId,
    ("inference_method", r.inference.map fun i => .text i.name), .text "fallback_schema" r.fallback,
    ("source", r.origin.map fun o => .text o.name), ("priority", r.priority.map fun p => .text p.name),
    .items "conditions" (r.conditions.map Condition.toDocument)]

variable {r : Rule}

theorem toDocument_eq (r : Rule) : r.toDocument = .object (Slot.members r.slots) := by
  simp [toDocument, slots]

theorem nodup_slots (r : Rule) : (r.slots.map Prod.fst).Nodup :=
  (by decide : (["pattern", "schema_id", "inference_method", "fallback_schema", "source", "priority",
    "conditions"] : List Text).Nodup)

theorem ofDocument_toDocument (path : Text) (h : r.IsTidy) : ofDocument path r.toDocument = .ok r := by
  rw [toDocument_eq]
  refine (bind_of_ok rfl).trans ?_
  simp only [Slot.field_members r.nodup_slots, Slot.get?_members r.nodup_slots]
  refine (bind_of_ok (Field.text_text _ h.pattern.1 h.pattern.2)).trans ?_
  refine (bind_of_ok (Field.textOrEmpty_text _ "schema_id" h.schemaId)).trans ?_
  refine (bind_of_ok (Field.word?_map _ (fun i => by cases i <;> decide) r.inference)).trans ?_
  refine (bind_of_ok (Field.textOrEmpty_text _ "fallback_schema" h.fallback)).trans ?_
  refine (bind_of_ok (Field.word?_map _ (fun o => by cases o <;> decide) r.origin)).trans ?_
  refine (bind_of_ok (Field.word?_map _ (fun p => by cases p <;> decide) r.priority)).trans ?_
  refine (bind_of_ok (Field.items_items _ "conditions" _)).trans ?_
  refine bind_of_ok (Field.each_map _ fun c hMem path => ?_)
  exact Condition.ofDocument_toDocument path (h.conditions c hMem)

/-- The values that the conditions of a rule ask for, as its document has them. -/
def wanted (d : Document) : List Document := (Field.listed d "conditions").map Condition.wanted

theorem tidy_of_ofDocument (h : ofDocument path d = .ok r) :
    r.IsTidy ∧ r.conditions.map Condition.equals = wanted d := by
  obtain ⟨ms, rfl, hRead⟩ := Field.exists_of_object h
  obtain ⟨pattern, hPattern, hRead⟩ := exists_of_bind_ok hRead
  obtain ⟨schemaId, hSchemaId, hRead⟩ := exists_of_bind_ok hRead
  obtain ⟨inference, -, hRead⟩ := exists_of_bind_ok hRead
  obtain ⟨fallback, hFallback, hRead⟩ := exists_of_bind_ok hRead
  obtain ⟨origin, -, hRead⟩ := exists_of_bind_ok hRead
  obtain ⟨priority, -, hRead⟩ := exists_of_bind_ok hRead
  obtain ⟨ds, hItems, hRead⟩ := exists_of_bind_ok hRead
  obtain ⟨conditions, hConditions, hRead⟩ := exists_of_bind_ok hRead
  obtain rfl := Except.ok.inj hRead
  refine ⟨⟨Field.isTrimmed_of_text hPattern, Field.isTrimmed_of_textOrEmpty hSchemaId,
    Field.isTrimmed_of_textOrEmpty hFallback, fun c hMem => ?_⟩, ?_⟩
  · obtain ⟨d, path, hItem⟩ := Field.exists_of_each hConditions hMem
    exact (Condition.tidy_of_ofDocument hItem).1
  · rw [wanted, ← Field.eq_listed_of_items hItems]
    exact Field.map_eq_of_each hConditions fun hItem => (Condition.tidy_of_ofDocument hItem).2

end Rule

namespace Exclusion

structure IsTidy (e : Exclusion) : Prop where
  pattern : e.pattern.IsTrimmed
  content : ∀ c ∈ e.content, c.IsTidy ∧ c.schemaId = []
  schemaId : e.schemaId.IsTrimmed
  reason : e.reason.IsTrimmed

def slots (e : Exclusion) : List Slot :=
  [.text "pattern" e.pattern, ("content_pattern", e.content.map Condition.toDocument),
    .text "exclude_schema" e.schemaId, .text "reason" e.reason, ("action", e.action.map fun a => .text a.name)]

variable {e : Exclusion}

theorem toDocument_eq (e : Exclusion) : e.toDocument = .object (Slot.members e.slots) := by
  simp [toDocument, slots]

theorem nodup_slots (e : Exclusion) : (e.slots.map Prod.fst).Nodup :=
  (by decide : (["pattern", "content_pattern", "exclude_schema", "reason", "action"] : List Text).Nodup)

theorem ofDocument_toDocument (path : Text) (h : e.IsTidy) : ofDocument path e.toDocument = .ok e := by
  rw [toDocument_eq]
  refine (bind_of_ok rfl).trans ?_
  simp only [Slot.field_members e.nodup_slots, Slot.get?_members e.nodup_slots]
  refine (bind_of_ok (Field.textOrEmpty_text _ "pattern" h.pattern)).trans ?_
  obtain ⟨pattern, content, schemaId, reason, action⟩ := e
  rcases content with _ | c
  on_goal 1 => refine (bind_of_ok (a := none) rfl).trans ?_
  on_goal 2 =>
    obtain ⟨hTidy, hNone⟩ := h.content c rfl
    have hContent :=
      congrArg (Except.map some) (Condition.ofContent_toDocument (path ++ ".content_pattern") hTidy hNone)
    refine (bind_of_ok (a := some c) hContent).trans ?_
  all_goals
    refine (bind_of_ok (Field.textOrEmpty_text _ "exclude_schema" h.schemaId)).trans ?_
    refine (bind_of_ok (Field.textOrEmpty_text _ "reason" h.reason)).trans ?_
    exact bind_of_ok (Field.word?_map _ (fun a => by cases a <;> decide) action)

/-- The value that the content condition of an exclusion asks for, as its document has it. -/
def wanted (d : Document) : Option Document :=
  match (d.get? "content_pattern").getD .null with
  | .null => none
  | d => some (Condition.wanted d)

theorem tidy_of_ofDocument (h : ofDocument path d = .ok e) :
    e.IsTidy ∧ e.content.map Condition.equals = wanted d := by
  obtain ⟨ms, rfl, hRead⟩ := Field.exists_of_object h
  obtain ⟨pattern, hPattern, hRead⟩ := exists_of_bind_ok hRead
  have hMember : ((Document.object ms).get? "content_pattern").getD .null = Field.member ms "content_pattern" := rfl
  dsimp only at hRead
  split at hRead
  all_goals
    rename_i hKind
    obtain ⟨content, hContent, hRead⟩ := exists_of_bind_ok hRead
    obtain ⟨schemaId, hSchemaId, hRead⟩ := exists_of_bind_ok hRead
    obtain ⟨reason, hReason, hRead⟩ := exists_of_bind_ok hRead
    obtain ⟨action, -, hRead⟩ := exists_of_bind_ok hRead
    obtain rfl := Except.ok.inj hRead
    have hPattern := Field.isTrimmed_of_textOrEmpty hPattern
    have hSchemaId := Field.isTrimmed_of_textOrEmpty hSchemaId
    have hReason := Field.isTrimmed_of_textOrEmpty hReason
  · obtain rfl := Except.ok.inj hContent
    rw [wanted, hMember, hKind]
    exact ⟨⟨hPattern, nofun, hSchemaId, hReason⟩, rfl⟩
  · obtain ⟨c, hCondition, rfl⟩ := exists_of_map_ok hContent
    obtain ⟨hTidy, hNone, hEquals⟩ := Condition.tidy_of_ofContent hCondition
    refine ⟨⟨hPattern, ?_, hSchemaId, hReason⟩, ?_⟩
    · intro c hMem
      exact Option.mem_some_iff.mp hMem ▸ ⟨hTidy, hNone⟩
    · rw [wanted, hMember]
      split
      · next hNull => exact absurd hNull hKind
      · exact congrArg some hEquals

end Exclusion

namespace Override

structure IsTidy (o : Override) : Prop where
  schemaId : o.schemaId.IsTrimmed ∧ o.schemaId ≠ []
  origin : o.origin.IsTrimmed
  path : o.path.IsTrimmed

def slots (o : Override) : List Slot :=
  [.value "schema_id" (.text o.schemaId), .text "source" o.origin, .text "path" o.path]

variable {o : Override}

theorem toDocument_eq (o : Override) : o.toDocument = .object (Slot.members o.slots) := by
  simp [toDocument, slots]

theorem nodup_slots (o : Override) : (o.slots.map Prod.fst).Nodup :=
  (by decide : (["schema_id", "source", "path"] : List Text).Nodup)

theorem ofDocument_toDocument (path : Text) (h : o.IsTidy) : ofDocument path o.toDocument = .ok o := by
  rw [toDocument_eq]
  refine (bind_of_ok rfl).trans ?_
  simp only [Slot.field_members o.nodup_slots, Slot.get?_members o.nodup_slots]
  refine (bind_of_ok (Field.text_text _ h.schemaId.1 h.schemaId.2)).trans ?_
  refine (bind_of_ok (Field.textOrEmpty_text _ "source" h.origin)).trans ?_
  exact bind_of_ok (Field.textOrEmpty_text _ "path" h.path)

theorem tidy_of_ofDocument (h : ofDocument path d = .ok o) : o.IsTidy := by
  obtain ⟨ms, rfl, hRead⟩ := Field.exists_of_object h
  obtain ⟨schemaId, hSchemaId, hRead⟩ := exists_of_bind_ok hRead
  obtain ⟨origin, hOrigin, hRead⟩ := exists_of_bind_ok hRead
  obtain ⟨location, hLocation, hRead⟩ := exists_of_bind_ok hRead
  obtain rfl := Except.ok.inj hRead
  exact ⟨Field.isTrimmed_of_text hSchemaId, Field.isTrimmed_of_textOrEmpty hOrigin,
    Field.isTrimmed_of_textOrEmpty hLocation⟩

end Override

namespace Tuning

/-- Whether settings are such as are read somewhere: only the confidence can be something else, a number that
is not finite. -/
def IsTidy (t : Tuning) : Prop := ∀ x ∈ t.minConfidence, x.isFinite = true

variable {t : Tuning}

theorem ofDocument_toMembers (h : t.IsTidy) : ofDocument (.object t.toMembers) = .ok t := by
  rw [toMembers_eq]
  refine (bind_of_ok rfl).trans ?_
  simp only [Slot.field_members t.nodup_slots]
  refine (bind_of_ok (Field.bool?_map _ t.inference)).trans ?_
  refine (bind_of_ok (Field.bool?_map _ t.fallbackToContent)).trans ?_
  refine (bind_of_ok (Field.bool?_map _ t.strict)).trans ?_
  refine (bind_of_ok (Field.bool?_map _ t.cacheInferences)).trans ?_
  refine (bind_of_ok (Field.bool?_map _ t.respectExclusions)).trans ?_
  refine (bind_of_ok (Field.bool?_map _ t.suggestExclusions)).trans ?_
  refine (bind_of_ok (Field.float?_map _ h)).trans ?_
  exact bind_of_ok (Field.int?_map _ t.maxSuggestions)

/-- Settings of which none is set are left out as a whole. -/
theorem ofDocument_toMembers_unless_empty (h : t.IsTidy) :
    ofDocument ((if t.toMembers.isEmpty then none else some (.object t.toMembers)).getD .null) = .ok t := by
  have hRead := ofDocument_toMembers h
  split
  · next hEmpty =>
      rw [List.isEmpty_iff.mp hEmpty] at hRead
      exact hRead
  · exact hRead

theorem tidy_of_ofDocument (h : ofDocument d = .ok t) : t.IsTidy := by
  cases d with
  | null =>
      obtain rfl : {} = t := Except.ok.inj h
      exact nofun
  | object ms =>
      obtain ⟨_, -, h⟩ := exists_of_bind_ok h
      obtain ⟨inference, -, h⟩ := exists_of_bind_ok h
      obtain ⟨fallback, -, h⟩ := exists_of_bind_ok h
      obtain ⟨strict, -, h⟩ := exists_of_bind_ok h
      obtain ⟨cache, -, h⟩ := exists_of_bind_ok h
      obtain ⟨respect, -, h⟩ := exists_of_bind_ok h
      obtain ⟨suggest, -, h⟩ := exists_of_bind_ok h
      obtain ⟨confidence, hConfidence, h⟩ := exists_of_bind_ok h
      obtain ⟨suggestions, -, h⟩ := exists_of_bind_ok h
      obtain rfl := Except.ok.inj h
      exact Field.isFinite_of_float? hConfidence
  | _ =>
      obtain ⟨_, hMembers, -⟩ := exists_of_bind_ok h
      cases hMembers

end Tuning

namespace Manifest

structure IsTidy (m : Manifest) : Prop where
  version : m.version.IsTrimmed
  tuning : m.tuning.IsTidy
  rules : ∀ r ∈ m.rules, r.IsTidy
  exclusions : ∀ e ∈ m.exclusions, e.IsTidy
  overrides : ∀ o ∈ m.overrides, o.IsTidy

def slots (m : Manifest) : List Slot :=
  [.value "version" (.text m.version),
    ("config", if m.tuning.toMembers.isEmpty then none else some (.object m.tuning.toMembers)),
    .items "mappings" (m.rules.map Rule.toDocument), .items "exclusions" (m.exclusions.map Exclusion.toDocument),
    .items "overrides" (m.overrides.map Override.toDocument)]

variable {m : Manifest}

theorem toDocument_eq (m : Manifest) : m.toDocument = .object (Slot.members m.slots) := by
  unfold toDocument slots
  dsimp only
  split <;> simp

theorem nodup_slots (m : Manifest) : (m.slots.map Prod.fst).Nodup :=
  (by decide : (["version", "config", "mappings", "exclusions", "overrides"] : List Text).Nodup)

theorem ofDocument_toDocument_of_tidy (h : m.IsTidy) : ofDocument m.toDocument = .ok m := by
  rw [toDocument_eq]
  refine (bind_of_ok rfl).trans ?_
  simp only [Slot.field_members m.nodup_slots]
  refine (bind_of_ok (Field.anyText_text _ h.version)).trans ?_
  refine (bind_of_ok (Tuning.ofDocument_toMembers_unless_empty h.tuning)).trans ?_
  refine (bind_of_ok (Field.items_items _ "mappings" _)).trans ?_
  refine (bind_of_ok (Field.each_map _ fun r hMem path => ?_)).trans ?_
  · exact Rule.ofDocument_toDocument path (h.rules r hMem)
  refine (bind_of_ok (Field.items_items _ "exclusions" _)).trans ?_
  refine (bind_of_ok (Field.each_map _ fun e hMem path => ?_)).trans ?_
  · exact Exclusion.ofDocument_toDocument path (h.exclusions e hMem)
  refine (bind_of_ok (Field.items_items _ "overrides" _)).trans ?_
  refine bind_of_ok (Field.each_map _ fun o hMem path => ?_)
  exact Override.ofDocument_toDocument path (h.overrides o hMem)

/-- The values that conditions ask for, as the document of a manifest has them: those of its rules and those of
its exclusions. -/
def wanted (d : Document) : List (List Document) × List (Option Document) :=
  ((Field.listed d "mappings").map Rule.wanted, (Field.listed d "exclusions").map Exclusion.wanted)

/-- The values that the conditions of a manifest ask for. -/
def asked (m : Manifest) : List (List Document) × List (Option Document) :=
  (m.rules.map fun r => r.conditions.map Condition.equals, m.exclusions.map fun e => e.content.map Condition.equals)

/-- A manifest is tidy if its parts are read somewhere, and it asks for what the document of its parts asks for. -/
theorem tidy_of_parts {ms : Members} {ruleItems exclusionItems overrideItems : List Document}
    (hVersion : m.version.IsTrimmed) (hTuning : Tuning.ofDocument (Field.member ms "config") = .ok m.tuning)
    (hRuleItems : Field.items "mappings" (Field.member ms "mappings") = .ok ruleItems)
    (hRules : Field.each "mappings" ruleItems Rule.ofDocument = .ok m.rules)
    (hExclusionItems : Field.items "exclusions" (Field.member ms "exclusions") = .ok exclusionItems)
    (hExclusions : Field.each "exclusions" exclusionItems Exclusion.ofDocument = .ok m.exclusions)
    (hOverrides : Field.each "overrides" overrideItems Override.ofDocument = .ok m.overrides) :
    m.IsTidy ∧ m.asked = wanted (.object ms) := by
  refine ⟨⟨hVersion, Tuning.tidy_of_ofDocument hTuning, ?_, ?_, ?_⟩, ?_⟩
  · intro r hMem
    obtain ⟨d, path, hItem⟩ := Field.exists_of_each hRules hMem
    exact (Rule.tidy_of_ofDocument hItem).1
  · intro e hMem
    obtain ⟨d, path, hItem⟩ := Field.exists_of_each hExclusions hMem
    exact (Exclusion.tidy_of_ofDocument hItem).1
  · intro o hMem
    obtain ⟨d, path, hItem⟩ := Field.exists_of_each hOverrides hMem
    exact Override.tidy_of_ofDocument hItem
  · rw [wanted, ← Field.eq_listed_of_items hRuleItems, ← Field.eq_listed_of_items hExclusionItems]
    exact congrArg₂ Prod.mk (Field.map_eq_of_each hRules fun hItem => (Rule.tidy_of_ofDocument hItem).2)
      (Field.map_eq_of_each hExclusions fun hItem => (Exclusion.tidy_of_ofDocument hItem).2)

theorem tidy_of_ofDocument (h : ofDocument d = .ok m) : m.IsTidy ∧ m.asked = wanted d := by
  cases d with
  | null =>
      obtain rfl : {} = m := Except.ok.inj h
      exact ⟨⟨rfl, nofun, nofun, nofun, nofun⟩, rfl⟩
  | object ms =>
      obtain ⟨ms, hMembers, h⟩ := exists_of_bind_ok h
      obtain rfl := Except.ok.inj hMembers
      dsimp only at h
      split at h
      all_goals
        obtain ⟨version, hVersion, h⟩ := exists_of_bind_ok h
        obtain ⟨tuning, hTuning, h⟩ := exists_of_bind_ok h
        obtain ⟨ruleItems, hRuleItems, h⟩ := exists_of_bind_ok h
        obtain ⟨rules, hRules, h⟩ := exists_of_bind_ok h
        obtain ⟨exclusionItems, hExclusionItems, h⟩ := exists_of_bind_ok h
        obtain ⟨exclusions, hExclusions, h⟩ := exists_of_bind_ok h
        obtain ⟨overrideItems, -, h⟩ := exists_of_bind_ok h
        obtain ⟨overrides, hOverrides, h⟩ := exists_of_bind_ok h
        obtain rfl := Except.ok.inj h
        refine tidy_of_parts ?_ hTuning hRuleItems hRules hExclusionItems hExclusions hOverrides
      · exact Except.ok.inj hVersion ▸ rfl
      · exact Field.isTrimmed_of_anyText hVersion
  | _ =>
      obtain ⟨_, hMembers, -⟩ := exists_of_bind_ok h
      cases hMembers

/-- A manifest that is read from a document is what its own document is read as, and the values that its
conditions ask for are carried through both as they are. -/
theorem ofDocument_toDocument_of_ofDocument (h : ofDocument d = .ok m) :
    ofDocument m.toDocument = .ok m ∧ m.asked = wanted d ∧ m.asked = wanted m.toDocument := by
  obtain ⟨hTidy, hAsked⟩ := tidy_of_ofDocument h
  have hAgain := ofDocument_toDocument_of_tidy hTidy
  exact ⟨hAgain, hAsked, (tidy_of_ofDocument hAgain).2⟩

/-- A manifest in which something of everything is set, some of it with blanks around it or to nothing. -/
def mixed : Document := .record [
  ("version", .string " 1.0.0"),
  ("config", .record [("strict_mode", .bool false), ("min_confidence", .int 1), ("max_suggestions", .null)]),
  ("mappings", .list [
    .record [("pattern", .string "*.yaml "), ("schema_id", .string "a"), ("source", .string ""),
      ("priority", .string "high"), ("conditions", .list [
        .record [("field", .string "kind"), ("equals", .list [.string " x ", .null, .float .nan])],
        .record [("field", .string "kind"), ("equals", .null), ("schema_id", .string " b ")]])],
    .record [("pattern", .string "*"), ("schema_id", .string " "), ("conditions", .null)]]),
  ("exclusions", .list [
    .record [("content_pattern", .record [("field", .string "kind"), ("equals", .record [])])],
    .record [("pattern", .string "tmp/"), ("action", .string "skip")]]),
  ("overrides", .list [.record [("schema_id", .string "a"), ("path", .string "a.yaml ")]])]

theorem ofDocument_toDocument_mixed : ∃ m, ofDocument mixed = .ok m ∧ ofDocument m.toDocument = .ok m ∧
    m.asked = ([[.list [.string " x ", .null, .float .nan], .null], []], [some (.record []), none]) := by
  obtain ⟨m, hRead⟩ := exists_of_isOk (x := ofDocument mixed) (by decide +kernel)
  obtain ⟨hAgain, hAsked, -⟩ := ofDocument_toDocument_of_ofDocument hRead
  exact ⟨m, hRead, hAgain, hAsked⟩

end Manifest
end Conform.Mapping

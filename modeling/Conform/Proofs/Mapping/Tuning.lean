import Conform.Mapping.Manifest
import Conform.Proofs.Mapping.Field

/-! Settings by their names. A manifest that sets a name decides it, whatever the value is, and one that does
not leaves it to the manifest below. -/
namespace Conform.Mapping.Tuning

variable {t : Tuning} {name : Text}

/-- The settings under their names, with no value where one is not set. -/
def slots (t : Tuning) : List Slot :=
  [("inference_enabled", t.inference.map .bool), ("fallback_to_content", t.fallbackToContent.map .bool),
    ("strict_mode", t.strict.map .bool), ("cache_inferences", t.cacheInferences.map .bool),
    ("respect_exclusions", t.respectExclusions.map .bool), ("auto_suggest_exclusions", t.suggestExclusions.map .bool),
    ("min_confidence", t.minConfidence.map .float), ("max_suggestions", t.maxSuggestions.map .int)]

/-- The names that a setting can have. -/
def names : List Text := (slots {}).map Prod.fst

/-- What is set under a name. -/
def setting? (t : Tuning) (name : Text) : Option Document := Members.get? t.toMembers name

theorem toMembers_eq (t : Tuning) : t.toMembers = Slot.members t.slots := by
  simp [toMembers, slots]

theorem nodup_slots (t : Tuning) : (t.slots.map Prod.fst).Nodup := (by decide : names.Nodup)

/-- No name stands twice, so what is set under one is found in its slot. -/
theorem setting?_eq (t : Tuning) (name : Text) : t.setting? name = (t.slots.lookup name).join := by
  rw [setting?, toMembers_eq, Slot.get?_members t.nodup_slots]

theorem map_orElse {α β : Type} (f : α → β) (a b : Option α) : (a <|> b).map f = (a.map f).or (b.map f) := by
  cases a <;> rfl

theorem slots_merge (base overlay : Tuning) : (base.merge overlay).slots =
    List.zipWith (fun low high => (low.1, high.2.or low.2)) base.slots overlay.slots := by
  simp only [slots, merge, map_orElse, List.zipWith]

theorem join_lookup_zipWith {low high : List Slot} (h : low.map Prod.fst = high.map Prod.fst)
    (name : Text) : ((List.zipWith (fun l h => (l.1, h.2.or l.2)) low high).lookup name).join =
      (high.lookup name).join.or (low.lookup name).join := by
  induction low generalizing high with
  | nil =>
      obtain rfl : high = [] := List.map_eq_nil_iff.mp h.symm
      rfl
  | cons l low ih =>
      cases high with
      | nil => cases h
      | cons u high =>
          obtain ⟨lowName, lowValue⟩ := l
          obtain ⟨highName, highValue⟩ := u
          obtain ⟨rfl, hRest⟩ := List.cons_eq_cons.mp h
          rw [List.zipWith_cons_cons, List.lookup_cons, List.lookup_cons, List.lookup_cons]
          cases name == lowName with
          | false => exact ih hRest
          | true => rfl

/-- Of two manifests the upper one decides a setting, if it sets it at all. -/
theorem setting?_merge (base overlay : Tuning) (name : Text) :
    (base.merge overlay).setting? name = (overlay.setting? name).or (base.setting? name) := by
  have hNames : base.slots.map Prod.fst = overlay.slots.map Prod.fst := rfl
  rw [setting?_eq, setting?_eq, setting?_eq, slots_merge]
  exact join_lookup_zipWith hNames name

/-- What a setting is after it has been read, if it is there and not null. The confidence is a float however
it was written, and everything else stays as it was. -/
inductive Reads (name : Text) : Document → Option Document → Prop where
  | unset : Reads name .null none
  | flag (b : Bool) : Reads name (.bool b) (some (.bool b))
  | whole (n : Int) (hName : name ≠ "min_confidence") : Reads name (.int n) (some (.int n))
  | float (x : Double) : Reads name (.float x) (some (.float x))
  | asFloat {n : Int} {x : Double} (hName : name = "min_confidence") (hFloat : Double.ofInt? n = some x) :
      Reads name (.int n) (some (.float x))

variable {path : Text} {d : Document}

theorem reads_of_bool? {b : Option Bool} (h : Field.bool? path d = .ok b) : Reads name d (b.map .bool) := by
  cases d with
  | null =>
      obtain rfl : none = b := Except.ok.inj h
      exact .unset
  | bool b' =>
      obtain rfl : some b' = b := Except.ok.inj h
      exact .flag b'
  | _ => cases h

theorem reads_of_int? {n : Option Int} (hName : name ≠ "min_confidence") (h : Field.int? path d = .ok n) :
    Reads name d (n.map .int) := by
  cases d with
  | null =>
      obtain rfl : none = n := Except.ok.inj h
      exact .unset
  | int n' =>
      obtain rfl : some n' = n := Except.ok.inj h
      exact .whole n' hName
  | _ => cases h

theorem reads_of_float? {x : Option Double} (hName : name = "min_confidence") (h : Field.float? path d = .ok x) :
    Reads name d (x.map .float) := by
  cases d with
  | null =>
      obtain rfl : none = x := Except.ok.inj h
      exact .unset
  | int n =>
      rw [Field.float?] at h
      cases hFloat : Double.ofInt? n with
      | none =>
          rw [hFloat] at h
          cases h
      | some x' =>
          rw [hFloat] at h
          obtain rfl : some x' = x := Except.ok.inj h
          exact .asFloat hName hFloat
  | float x' =>
      rw [Field.float?] at h
      split at h
      · obtain rfl : some x' = x := Except.ok.inj h
        exact .float x'
      · cases h
  | _ => cases h

/-- Every setting of a document is read. -/
theorem reads_of_ofDocument (h : ofDocument d = .ok t) (hName : name ∈ names) :
    Reads name ((d.get? name).getD .null) (t.setting? name) := by
  cases d with
  | null =>
      obtain rfl : {} = t := Except.ok.inj h
      exact .unset
  | object ms =>
      obtain ⟨_, hMembers, h⟩ := exists_of_bind_ok h
      obtain rfl := Except.ok.inj hMembers
      obtain ⟨inference, hInference, h⟩ := exists_of_bind_ok h
      obtain ⟨fallback, hFallback, h⟩ := exists_of_bind_ok h
      obtain ⟨strict, hStrict, h⟩ := exists_of_bind_ok h
      obtain ⟨cache, hCache, h⟩ := exists_of_bind_ok h
      obtain ⟨respect, hRespect, h⟩ := exists_of_bind_ok h
      obtain ⟨suggest, hSuggest, h⟩ := exists_of_bind_ok h
      obtain ⟨confidence, hConfidence, h⟩ := exists_of_bind_ok h
      obtain ⟨suggestions, hSuggestions, h⟩ := exists_of_bind_ok h
      obtain rfl := Except.ok.inj h
      rw [setting?_eq]
      simp only [names, slots, List.map_cons, List.map_nil, List.mem_cons, List.not_mem_nil, or_false] at hName
      rcases hName with rfl | rfl | rfl | rfl | rfl | rfl | rfl | rfl
      · exact reads_of_bool? hInference
      · exact reads_of_bool? hFallback
      · exact reads_of_bool? hStrict
      · exact reads_of_bool? hCache
      · exact reads_of_bool? hRespect
      · exact reads_of_bool? hSuggest
      · exact reads_of_float? rfl hConfidence
      · exact reads_of_int? (by decide) hSuggestions
  | _ =>
      obtain ⟨_, hMembers, -⟩ := exists_of_bind_ok h
      cases hMembers

end Conform.Mapping.Tuning

import Conform.Proofs.Double.Order
import Conform.Proofs.Except
import Conform.Proofs.Lookup
import Conform.Signatures.Manifest

/-! Signatures as they are written. What is empty, zero or not set is left out, and a missing field is read as just
that. So a signature that was read is written into one that is read as equal to it; only a zero may lose its sign. -/
namespace Conform

namespace Double

variable {x : Double}

/-- Whether two numbers are equal; zeros are, whatever their signs. -/
def Equal (x y : Double) : Prop := x.compare? y = some .eq

/-- A number as it comes back if zero is left out. -/
def unsigned (x : Double) : Double := if x.isZero then zero else x

theorem unsigned_equal (hFinite : x.isFinite = true) : x.unsigned.Equal x := by
  have hNumber : x ≠ nan := by
    rintro rfl
    cases hFinite
  unfold unsigned
  split
  · next hZero =>
      have hPlace : x.place = 0 := by
        cases x with
        | finite s m e =>
            obtain rfl : m = 0 := by simpa [isZero] using hZero
            simp [place, value]
        | _ => cases hZero
      rw [Equal, compare?_eq (by simp [zero]) hNumber, hPlace, place_zero, compare_eq_iff_eq.mpr rfl]
  · rw [Equal, compare?_eq hNumber hNumber, compare_eq_iff_eq.mpr rfl]

end Double

namespace Signatures

open Yaml (Value)

/-- A name and what is written under it, if anything is. -/
abbrev Slot := Text × Option Value

namespace Slot

def value (name : Text) (v : Value) : Slot := (name, some v)

def text (name t : Text) : Slot := (name, if t.isEmpty then none else some (.text t))

def texts (name : Text) (ts : List Text) : Slot := (name, if ts.isEmpty then none else some (.list (ts.map .text)))

def float (name : Text) (x : Double) : Slot := (name, if x.isZero then none else some (.float x))

def flag (name : Text) (b : Bool) : Slot := (name, if b then some (.bool true) else none)

def mapping (name : Text) (es : List (Value × Value)) : Slot := (name, if es.isEmpty then none else some (.mapping es))

/-- What is written for a slot. -/
def entry (s : Slot) : List (Value × Value) := (s.2.map fun v => (.text s.1, v)).toList

/-- What is written for slots. -/
def entries (slots : List Slot) : List (Value × Value) := slots.flatMap entry

variable {slots : List Slot}

@[simp] theorem entries_nil : entries [] = [] := rfl

@[simp] theorem entries_cons (s : Slot) (slots : List Slot) : entries (s :: slots) = s.entry ++ entries slots := rfl

@[simp] theorem entry_value (name : Text) (v : Value) : (value name v).entry = Signatures.entry name v := rfl

@[simp] theorem entry_text (name t : Text) : (text name t).entry = textEntry name t := by
  cases t <;> rfl

@[simp] theorem entry_texts (name : Text) (ts : List Text) : (texts name ts).entry = textsEntry name ts := by
  cases ts <;> rfl

@[simp] theorem entry_float (name : Text) (x : Double) : (float name x).entry = floatEntry name x := by
  unfold float floatEntry
  split <;> rfl

@[simp] theorem entry_flag (name : Text) (b : Bool) :
    (flag name b).entry = if b then Signatures.entry name (.bool true) else [] := by
  cases b <;> rfl

@[simp] theorem entry_mapping (name : Text) (es : List (Value × Value)) :
    (mapping name es).entry = if es.isEmpty then [] else Signatures.entry name (.mapping es) := by
  cases es <;> rfl

theorem get?_named (named : List (Text × Value)) (name : Text) :
    (Value.mapping (named.map fun e => (.text e.1, e.2))).get? name = named.lookup name := by
  induction named with
  | nil => rfl
  | cons e rest ih =>
      rw [Value.get?, List.map_cons, List.find?_cons, List.lookup_cons, BEq.comm (a := name)]
      dsimp only
      split
      · next hName =>
          rw [hName]
          rfl
      · next hOther =>
          rw [hOther]
          exact ih

/-- If no name stands twice, a field is what its slot holds. -/
theorem member_entries (h : (slots.map Prod.fst).Nodup) (name : Text) :
    Field.member (.mapping (entries slots)) name = (slots.lookup name).join.getD .null := by
  have hNamed : entries slots = (slots.flatMap fun s => (s.2.map fun v => (s.1, v)).toList).map
      fun e => (.text e.1, e.2) := by
    rw [List.map_flatMap]
    refine List.flatMap_congr fun s _ => ?_
    obtain ⟨name, held⟩ := s
    cases held <;> rfl
  rw [Field.member, hNamed, get?_named, lookup_slots h]

end Slot

namespace Field

variable {α : Type} {x : Double} {xs : List α}

/-! ### What is read back -/

theorem text_slot (path name t : Text) : text path ((Slot.text name t).2.getD .null) = .ok t := by
  cases t <;> rfl

theorem float_slot (path name : Text) (hFinite : x.isFinite = true) :
    float path ((Slot.float name x).2.getD .null) = .ok x.unsigned := by
  rw [Slot.float, Double.unsigned]
  split
  · rfl
  · exact if_pos hFinite

theorem bool_slot (path name : Text) (b : Bool) : bool path ((Slot.flag name b).2.getD .null) = .ok b := by
  cases b <;> rfl

theorem each_map {β : Type} {read : Text → Value → Except Failure α} {write : β → Value} {back : β → α} {bs : List β}
    (path : Text) (hRead : ∀ b ∈ bs, ∀ path, read path (write b) = .ok (back b)) :
    each path (bs.map write) read = .ok (bs.map back) := by
  apply mapM_zipIdx_ok
  exact List.forall₂_map_left_iff.mpr (List.forall₂_map_right_iff.mpr
    (List.forall₂_same.mpr fun b hMem i => hRead b hMem _))

theorem texts_slot (path name : Text) (ts : List Text) :
    texts path ((Slot.texts name ts).2.getD .null) = .ok ts := by
  have hEach : each path (ts.map Value.text) text = .ok (ts.map id) := each_map path fun _ _ _ => rfl
  cases ts with
  | nil => rfl
  | cons t rest => exact hEach.trans (congrArg _ (List.map_id _))

/-! ### What every field that is read has -/

theorem isFinite_of_float {path : Text} {v : Value} (h : float path v = .ok x) : x.isFinite = true := by
  cases v with
  | null =>
      obtain rfl := Except.ok.inj h
      rfl
  | int n =>
      rw [float] at h
      split at h
      · next hNumber => exact Double.isFinite_of_ofInt? (Except.ok.inj h ▸ hNumber)
      · cases h
  | float y =>
      rw [float] at h
      split at h
      · next hFinite => exact Except.ok.inj h ▸ hFinite
      · cases h
  | _ => cases h

theorem exists_of_each {path : Text} {vs : List Value} {read : Text → Value → Except Failure α}
    (h : each path vs read = .ok xs) {a : α} (hMem : a ∈ xs) : ∃ path v, read path v = .ok a := by
  obtain ⟨⟨v, i⟩, -, hRead⟩ := exists_of_mapM_ok h hMem
  exact ⟨_, v, hRead⟩

end Field

namespace Matcher

variable {m : Matcher} {path : Text} {v : Value}

/-- Equal in all fields. -/
structure Equal (a b : Matcher) : Prop where
  type : a.type = b.type
  value : a.value = b.value
  pattern : a.pattern = b.pattern
  weight : a.weight.Equal b.weight
  ignoreCase : a.ignoreCase = b.ignoreCase

/-- What a mark is written into. -/
def slots (m : Matcher) : List Slot :=
  [.value "type" (.text m.type), .text "value" m.value, .text "pattern" m.pattern, .float "weight" m.weight,
    .flag "ignore_case" m.ignoreCase]

theorem toValue_eq (m : Matcher) : m.toValue = .mapping (Slot.entries m.slots) := by
  simp [toValue, slots]

theorem nodup_slots (m : Matcher) : (m.slots.map Prod.fst).Nodup :=
  (by decide : (["type", "value", "pattern", "weight", "ignore_case"] : List Text).Nodup)

theorem ofValue_toValue (path : Text) (hFinite : m.weight.isFinite = true) :
    ofValue path m.toValue = .ok { m with weight := m.weight.unsigned } := by
  rw [toValue_eq]
  unfold ofValue
  simp only [Slot.member_entries m.nodup_slots]
  refine (bind_of_ok rfl).trans ?_
  refine (bind_of_ok rfl).trans ?_
  refine (bind_of_ok (Field.text_slot _ "value" m.value)).trans ?_
  refine (bind_of_ok (Field.text_slot _ "pattern" m.pattern)).trans ?_
  refine (bind_of_ok (Field.float_slot _ "weight" hFinite)).trans ?_
  exact bind_of_ok (Field.bool_slot _ "ignore_case" m.ignoreCase)

theorem isFinite_of_ofValue (h : ofValue path v = .ok m) : m.weight.isFinite = true := by
  obtain ⟨-, -, h⟩ := exists_of_bind_ok h
  obtain ⟨type, -, h⟩ := exists_of_bind_ok h
  obtain ⟨value, -, h⟩ := exists_of_bind_ok h
  obtain ⟨pattern, -, h⟩ := exists_of_bind_ok h
  obtain ⟨weight, hWeight, h⟩ := exists_of_bind_ok h
  obtain ⟨ignoreCase, -, h⟩ := exists_of_bind_ok h
  obtain rfl := Except.ok.inj h
  exact Field.isFinite_of_float hWeight

end Matcher

namespace Signature

variable {s : Signature} {source path : Text} {v : Value}

/-- Equal in all fields. -/
structure Equal (s t : Signature) : Prop where
  id : s.id = t.id
  category : s.category = t.category
  description : s.description = t.description
  threshold : s.threshold.Equal t.threshold
  aliases : s.aliases = t.aliases
  extensions : s.extensions = t.extensions
  matchers : List.Forall₂ Matcher.Equal s.matchers t.matchers
  metadata : s.metadata = t.metadata
  source : s.source = t.source

/-- What a signature is written into. -/
def slots (s : Signature) : List Slot :=
  [.value "id" (.text s.id), .value "category" (.text s.category), .text "description" s.description,
    .float "confidence_threshold" s.threshold, .texts "aliases" s.aliases, .texts "file_extensions" s.extensions,
    .value "matchers" (.list (s.matchers.map Matcher.toValue)), .mapping "metadata" s.metadata]

theorem toValue_eq (s : Signature) : s.toValue = .mapping (Slot.entries s.slots) := by
  simp [toValue, slots]

theorem nodup_slots (s : Signature) : (s.slots.map Prod.fst).Nodup :=
  (by decide : (["id", "category", "description", "confidence_threshold", "aliases", "file_extensions", "matchers",
    "metadata"] : List Text).Nodup)

/-- Whether the numbers of a signature are finite. -/
structure IsFinite (s : Signature) : Prop where
  threshold : s.threshold.isFinite = true
  weights : ∀ m ∈ s.matchers, m.weight.isFinite = true

/-- A signature without signs on its zeros. -/
def unsigned (s : Signature) : Signature :=
  { s with
    threshold := s.threshold.unsigned
    matchers := s.matchers.map fun m => { m with weight := m.weight.unsigned } }

theorem unsigned_equal (h : s.IsFinite) : s.unsigned.Equal s where
  id := rfl
  category := rfl
  description := rfl
  threshold := Double.unsigned_equal h.threshold
  aliases := rfl
  extensions := rfl
  matchers := List.forall₂_map_left_iff.mpr (List.forall₂_same.mpr fun m hMem =>
    ⟨rfl, rfl, rfl, Double.unsigned_equal (h.weights m hMem), rfl⟩)
  metadata := rfl
  source := rfl

theorem ofValue_toValue (source path : Text) (h : s.IsFinite) :
    ofValue source path s.toValue = .ok { s.unsigned with source } := by
  rw [toValue_eq]
  unfold ofValue
  simp only [Slot.member_entries s.nodup_slots]
  refine (bind_of_ok rfl).trans ?_
  refine (bind_of_ok rfl).trans ?_
  refine (bind_of_ok rfl).trans ?_
  refine (bind_of_ok (Field.text_slot _ "description" s.description)).trans ?_
  refine (bind_of_ok (Field.float_slot _ "confidence_threshold" h.threshold)).trans ?_
  refine (bind_of_ok (Field.texts_slot _ "aliases" s.aliases)).trans ?_
  refine (bind_of_ok (Field.texts_slot _ "file_extensions" s.extensions)).trans ?_
  refine (bind_of_ok rfl).trans ?_
  refine (bind_of_ok (Field.each_map _ fun m hMem path => Matcher.ofValue_toValue path (h.weights m hMem))).trans ?_
  obtain ⟨id, category, description, threshold, aliases, extensions, matchers, metadata, declared⟩ := s
  cases metadata <;> rfl

theorem isFinite_of_ofValue (h : ofValue source path v = .ok s) : s.IsFinite ∧ s.source = source := by
  obtain ⟨-, -, h⟩ := exists_of_bind_ok h
  obtain ⟨id, -, h⟩ := exists_of_bind_ok h
  obtain ⟨category, -, h⟩ := exists_of_bind_ok h
  obtain ⟨description, -, h⟩ := exists_of_bind_ok h
  obtain ⟨threshold, hThreshold, h⟩ := exists_of_bind_ok h
  obtain ⟨aliases, -, h⟩ := exists_of_bind_ok h
  obtain ⟨extensions, -, h⟩ := exists_of_bind_ok h
  obtain ⟨items, -, h⟩ := exists_of_bind_ok h
  obtain ⟨matchers, hMatchers, h⟩ := exists_of_bind_ok h
  obtain ⟨metadata, rfl⟩ : ∃ metadata,
      s = ⟨id, category, description, threshold, aliases, extensions, matchers, metadata, source⟩ := by
    split at h
    · exact ⟨_, (Except.ok.inj h).symm⟩
    · obtain ⟨metadata, -, h⟩ := exists_of_bind_ok h
      exact ⟨metadata, (Except.ok.inj h).symm⟩
  refine ⟨⟨Field.isFinite_of_float hThreshold, fun m hMem => ?_⟩, rfl⟩
  obtain ⟨path, v, hRead⟩ := Field.exists_of_each hMatchers hMem
  exact Matcher.isFinite_of_ofValue hRead

/-- What is written of a signature that was read is read again, whatever the path, and comes back equal to it. -/
theorem exists_equal_of_ofValue (h : ofValue source path v = .ok s) (path' : Text) :
    ∃ t, ofValue s.source path' s.toValue = .ok t ∧ t.Equal s := by
  obtain ⟨hFinite, -⟩ := isFinite_of_ofValue h
  exact ⟨s.unsigned, ofValue_toValue s.source path' hFinite, unsigned_equal hFinite⟩

/-- A signature with fields that are set, null, empty or missing, and with a zero that has a sign. -/
def mixed : Value :=
  .mapping [(.text "id", .text "a"), (.text "category", .null), (.text "confidence_threshold", .float (.neg .zero)),
    (.text "aliases", .list [.text "b", .null]), (.text "file_extensions", .list []), (.int 1, .text "ignored"),
    (.text "matchers", .list [
      .mapping [(.text "type", .text "contains"), (.text "value", .text "x"), (.text "weight", .int 2),
        (.text "ignore_case", .bool true)],
      .mapping [(.text "pattern", .text "y"), (.text "ignore_case", .bool false)]]),
    (.text "metadata", .mapping [(.int 1, .list [.null])])]

theorem exists_equal_of_ofValue_mixed : ∃ s, ofValue "f.yaml" "signatures[0]" mixed = .ok s ∧
    s.threshold.isNegative = true ∧ ∃ t, ofValue s.source "again" s.toValue = .ok t ∧ t.Equal s := by
  have hRun : (ofValue "f.yaml" "signatures[0]" mixed).toOption.any (·.threshold.isNegative) = true := by
    decide +kernel
  obtain ⟨s, hRead, hSign⟩ := exists_of_any hRun
  exact ⟨s, hRead, hSign, exists_equal_of_ofValue hRead "again"⟩

end Signature

end Signatures
end Conform

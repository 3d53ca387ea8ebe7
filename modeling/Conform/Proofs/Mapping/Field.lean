import Conform.Mapping.Field
import Conform.Proofs.Double
import Conform.Proofs.Except
import Conform.Proofs.Lookup
import Conform.Proofs.Text.Cutting

/-! Fields as they are written. A record is written slot by slot, and a slot that holds nothing is left out; from
what is written each field is read as it was. -/
namespace Conform.Mapping

/-- A name and what is written under it, if anything is. -/
abbrev Slot := Text × Option Document

namespace Slot

def value (name : Text) (d : Document) : Slot := (name, some d)

def text (name t : Text) : Slot := (name, if t.isEmpty then none else some (.text t))

def items (name : Text) (ds : List Document) : Slot := (name, if ds.isEmpty then none else some (.list ds))

/-- A slot for a document that is left out if it is null. -/
def unlessNull (name : Text) (d : Document) : Slot :=
  (name, match d with
    | .null => none
    | d => some d)

/-- What is written for a slot. -/
def member (s : Slot) : Members := Members.ofOption s.1 s.2

/-- The members that are written for slots. -/
def members (slots : List Slot) : Members := slots.flatMap member

variable {slots : List Slot}

@[simp] theorem members_nil : members [] = [] := rfl

@[simp] theorem members_cons (s : Slot) (slots : List Slot) : members (s :: slots) = s.member ++ members slots := rfl

@[simp] theorem ofOption_none (name : Text) : Members.ofOption name none = [] := rfl

@[simp] theorem ofOption_some (name : Text) (d : Document) :
    Members.ofOption name (some d) = Members.one name d := rfl

@[simp] theorem member_value (name : Text) (d : Document) : (value name d).member = Members.one name d := rfl

@[simp] theorem member_option (name : Text) (d : Option Document) : member (name, d) = Members.ofOption name d := rfl

@[simp] theorem member_text (name t : Text) : (text name t).member = Members.ofText name t := by
  cases t <;> rfl

@[simp] theorem member_items (name : Text) (ds : List Document) :
    (items name ds).member = Members.ofItems name ds := by
  cases ds <;> rfl

@[simp] theorem member_unlessNull (name : Text) (d : Document) : (unlessNull name d).member =
    match d with
    | .null => []
    | d => Members.one name d := by
  cases d <;> rfl

theorem getD_unlessNull (name : Text) (d : Document) : (unlessNull name d).2.getD .null = d := by
  cases d <;> rfl

/-- If no name stands twice, a member is what its slot holds. -/
theorem get?_members (h : (slots.map Prod.fst).Nodup) (name : Text) :
    Members.get? (members slots) name = (slots.lookup name).join :=
  lookup_slots h name

theorem field_members (h : (slots.map Prod.fst).Nodup) (name : Text) :
    Field.member (members slots) name = (slots.lookup name).join.getD .null := by
  rw [Field.member, get?_members h]

end Slot

namespace Field

variable {α : Type} {path t : Text} {d : Document} {ds : List Document} {xs : List α}

/-! ### What is read back -/

theorem anyText_text (path : Text) (hTrimmed : t.IsTrimmed) : anyText path (.text t) = .ok t :=
  congrArg Except.ok hTrimmed

theorem text_text (path : Text) (hTrimmed : t.IsTrimmed) (hSome : t ≠ []) : text path (.text t) = .ok t := by
  rw [text, anyText_text path hTrimmed]
  exact if_neg fun hEmpty => hSome (List.isEmpty_iff.mp hEmpty)

theorem textOrEmpty_text (path name : Text) (hTrimmed : t.IsTrimmed) :
    textOrEmpty path (Slot.text name t).2 = .ok t := by
  cases t with
  | nil => rfl
  | cons p rest => exact anyText_text path hTrimmed

theorem bool?_map (path : Text) (b : Option Bool) : bool? path ((b.map .bool).getD .null) = .ok b := by
  cases b <;> rfl

theorem int?_map (path : Text) (n : Option Int) : int? path ((n.map .int).getD .null) = .ok n := by
  cases n <;> rfl

theorem float?_map (path : Text) {x : Option Double} (hFinite : ∀ v ∈ x, v.isFinite = true) :
    float? path ((x.map .float).getD .null) = .ok x := by
  cases x with
  | none => rfl
  | some v => exact if_pos (hFinite v rfl)

theorem word?_map {words : List (Text × α)} {name : α → Text} (path : Text)
    (hWords : ∀ a, name a ≠ [] ∧ words.lookup (name a) = some a) (a : Option α) :
    word? words path ((a.map fun a => Document.text (name a)).getD .null) = .ok a := by
  cases a with
  | none => rfl
  | some a =>
      obtain ⟨hSome, hLookup⟩ := hWords a
      simp [word?, hSome, hLookup]

theorem items_items (path name : Text) (ds : List Document) :
    items path ((Slot.items name ds).2.getD .null) = .ok ds := by
  cases ds <;> rfl

theorem each_map {read : Text → Document → Except Failure α} {write : α → Document} (path : Text)
    (hRead : ∀ x ∈ xs, ∀ path, read path (write x) = .ok x) : each path (xs.map write) read = .ok xs := by
  apply mapM_zipIdx_ok
  exact List.forall₂_map_left_iff.mpr (List.forall₂_same.mpr fun x hMem i => hRead x hMem _)

/-! ### What every field that is read has -/

theorem exists_of_object {f : Members → Except Failure α} {a : α} (h : (object path d >>= f) = .ok a) :
    ∃ ms, d = .object ms ∧ f ms = .ok a := by
  cases d with
  | object ms => exact ⟨ms, rfl, h⟩
  | _ => cases h

theorem isTrimmed_of_anyText (h : anyText path d = .ok t) : t.IsTrimmed := by
  cases d with
  | text u =>
      obtain rfl : u.strip = t := Except.ok.inj h
      exact Text.isTrimmed_strip u
  | _ => cases h

theorem isTrimmed_of_text (h : text path d = .ok t) : t.IsTrimmed ∧ t ≠ [] := by
  obtain ⟨u, hText, h⟩ := exists_of_bind_ok h
  split at h
  · cases h
  · next hSome =>
      obtain rfl : u = t := Except.ok.inj h
      exact ⟨isTrimmed_of_anyText hText, by simpa using hSome⟩

theorem isTrimmed_of_textOrEmpty {d : Option Document} (h : textOrEmpty path d = .ok t) : t.IsTrimmed := by
  cases d with
  | none =>
      obtain rfl : [] = t := Except.ok.inj h
      rfl
  | some d => exact isTrimmed_of_anyText h

theorem isFinite_of_float? {x : Option Double} (h : float? path d = .ok x) : ∀ v ∈ x, v.isFinite = true := by
  rintro v rfl
  cases d with
  | int n =>
      rw [float?] at h
      split at h
      · next hFloat =>
          obtain rfl := Option.some.inj (Except.ok.inj h)
          exact Double.isFinite_of_ofInt? hFloat
      · cases h
  | float y =>
      rw [float?] at h
      split at h
      · next hFinite => exact Option.some.inj (Except.ok.inj h) ▸ hFinite
      · cases h
  | _ => cases h

/-- The items of a list that an object may hold. -/
def listed (d : Document) (name : Text) : List Document :=
  match (d.get? name).getD .null with
  | .list ds => ds
  | _ => []

theorem eq_listed_of_items {ms : Members} {name : Text} (h : items path (member ms name) = .ok ds) :
    ds = listed (.object ms) name := by
  have hMember : ((Document.object ms).get? name).getD .null = member ms name := rfl
  rw [listed, hMember]
  cases hItems : member ms name with
  | null | list =>
      rw [hItems] at h
      exact (Except.ok.inj h).symm
  | _ =>
      rw [hItems] at h
      cases h

section Each

variable {read : Text → Document → Except Failure α} (h : each path ds read = .ok xs)

include h

theorem forall₂_of_each : List.Forall₂ (fun d x => ∃ path, read path d = .ok x) ds xs := by
  have hRead : List.Forall₂ (fun e x => read (path ++ "[" ++ Text.ofNat e.2 ++ "]") e.1 = .ok x) ds.zipIdx xs :=
    forall₂_of_mapM_ok h
  rw [← List.zipIdx_map_fst 0 ds, List.forall₂_map_left_iff]
  exact hRead.imp fun _ _ hItem => ⟨_, hItem⟩

theorem exists_of_each {x : α} (hMem : x ∈ xs) : ∃ d path, read path d = .ok x := by
  obtain ⟨d, -, path, hItem⟩ := exists_left_of_forall₂ (forall₂_of_each h) hMem
  exact ⟨d, path, hItem⟩

theorem map_eq_of_each {β : Type} {f : α → β} {g : Document → β}
    (hItem : ∀ {path d x}, read path d = .ok x → f x = g d) : xs.map f = ds.map g := by
  rw [← List.forall₂_eq_eq_eq, List.forall₂_map_left_iff, List.forall₂_map_right_iff]
  exact (forall₂_of_each h).flip.imp fun _ _ ⟨_, hRead⟩ => hItem hRead

end Each

end Field
end Conform.Mapping

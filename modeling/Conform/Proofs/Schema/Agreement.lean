import Conform.Schema.Evaluator
import Mathlib.Data.List.Forall2

/-! Agreement of two checks. Two computations agree if they fail in ways that are borne together or
succeed with related results, and two streams of findings agree if they find the same and stop, if at
all, with failures that are borne together. The combinators that rules are made of preserve both. -/
namespace Conform

/-- How a reference that a check followed was dead, if that is the failure. -/
def Failure.deadEnd? : Failure → Option (Bool × Unresolved)
  | .deadEnd named why => some (named, why)
  | _ => none

theorem Failure.eq_deadEnd {f : Failure} {named : Bool} {why : Unresolved} (h : f.deadEnd? = some (named, why)) :
    f = .deadEnd named why := by
  cases f <;> cases h
  rfl

/-- Whether a check can meet the failure by itself, without a reference that leads nowhere. -/
def Failure.isLocal : Failure → Bool
  | .unreadableReference | .resourceGone _ | .segmentNotNumber _ | .noParts _ | .unknownType _ | .badPattern
  | .tooLarge | .notWhole | .unsuitable | .endless => true
  | _ => false

namespace Schema

variable {α β γ δ : Type} {bearable : Failure → Failure → Prop}

/-- Whether two computations fail with failures that are borne together, or succeed with related
results. -/
def Agree (bearable : Failure → Failure → Prop) (related : α → β → Prop) :
    Except Failure α → Except Failure β → Prop
  | .ok a, .ok b => related a b
  | .error f, .error g => bearable f g
  | _, _ => False

namespace Agree

variable {R : α → β → Prop} {S : γ → δ → Prop} {x : Except Failure α} {y : Except Failure β}

theorem bind {f : α → Except Failure γ} {g : β → Except Failure δ} (h : Agree bearable R x y)
    (hNext : ∀ a b, R a b → Agree bearable S (f a) (g b)) : Agree bearable S (x >>= f) (y >>= g) := by
  cases x <;> cases y
  · exact h
  · exact h.elim
  · exact h.elim
  · exact hNext _ _ h

theorem pure {a : α} {b : β} (h : R a b) : Agree bearable R (pure a) (pure b) := h

theorem error {f g : Failure} (h : bearable f g) :
    Agree bearable R (.error f : Except Failure α) (.error g : Except Failure β) := h

theorem mono {R' : α → β → Prop} (h : Agree bearable R x y) (hImp : ∀ a b, R a b → R' a b) :
    Agree bearable R' x y := by
  cases x <;> cases y
  · exact h
  · exact h
  · exact h
  · exact hImp _ _ h

theorem map {f : α → γ} {g : β → δ} (h : Agree bearable R x y)
    (hNext : ∀ a b, R a b → S (f a) (g b)) : Agree bearable S (x.map f) (y.map g) := by
  cases x <;> cases y
  · exact h
  · exact h
  · exact h
  · exact hNext _ _ h

theorem refl {z : Except Failure α} (h : ∀ f, z = .error f → bearable f f) :
    Agree bearable Eq z z := by
  cases z with
  | error f => exact h f rfl
  | ok a => rfl

theorem eq {z z' : Except Failure α} (hSame : ∀ f g, bearable f g → f = g)
    (h : Agree bearable Eq z z') : z = z' := by
  cases z <;> cases z'
  · exact congrArg _ (hSame _ _ h)
  · exact h.elim
  · exact h.elim
  · exact congrArg _ h

theorem bearable_of_error {T : α → α → Prop} {z : Except Failure α} {f : Failure}
    (h : Agree bearable T z z) (hError : z = .error f) : bearable f f := by
  subst hError
  exact h

/-- Agreement item by item is agreement on the whole list. -/
theorem mapM_zip {f : α → Except Failure γ} {g : β → Except Failure δ} {as : List α} {bs : List β}
    (h : List.Forall₂ (fun a b => Agree bearable S (f a) (g b)) as bs) :
    Agree bearable (List.Forall₂ S) (as.mapM f) (bs.mapM g) := by
  induction h with
  | nil => exact List.Forall₂.nil
  | cons hHead _ ih =>
      simp only [List.mapM_cons]
      refine hHead.bind fun c d hSame => ?_
      exact ih.bind fun cs ds hTail => List.Forall₂.cons hSame hTail

theorem mapM {f g : α → Except Failure γ} {items : List α}
    (h : ∀ a ∈ items, Agree bearable Eq (f a) (g a)) :
    Agree bearable Eq (items.mapM f) (items.mapM g) := by
  refine (mapM_zip (List.forall₂_same.mpr h)).mono fun cs ds hAll => ?_
  rwa [List.forall₂_eq_eq_eq] at hAll

theorem foldlM {f : β → α → Except Failure β} {g : γ → α → Except Failure γ} {T : β → γ → Prop}
    {items : List α} (h : ∀ b c, T b c → ∀ a ∈ items, Agree bearable T (f b a) (g c a)) {b : β} {c : γ}
    (hStart : T b c) : Agree bearable T (items.foldlM f b) (items.foldlM g c) := by
  induction items generalizing b c with
  | nil => exact pure hStart
  | cons a rest ih =>
      rw [List.foldlM_cons, List.foldlM_cons]
      exact (h b c hStart a List.mem_cons_self).bind fun b c hNext =>
        ih (fun b c hBoth a hA => h b c hBoth a (List.mem_cons_of_mem _ hA)) hNext

theorem filterM {f g : α → Except Failure Bool} {items : List α}
    (h : ∀ a ∈ items, Agree bearable Eq (f a) (g a)) :
    Agree bearable Eq (items.filterM f) (items.filterM g) := by
  suffices hAux : ∀ acc, Agree bearable Eq (items.filterAuxM f acc) (items.filterAuxM g acc) by
    exact (hAux []).bind fun _ _ hSame => pure (congrArg List.reverse hSame)
  induction items with
  | nil => exact fun acc => pure rfl
  | cons a rest ih =>
      intro acc
      refine (h a List.mem_cons_self).bind fun b c hSame => ?_
      subst hSame
      exact ih (fun b hb => h b (List.mem_cons_of_mem a hb)) _

theorem forM {f g : α → Except Failure Unit} {items : List α}
    (h : ∀ a ∈ items, Agree bearable Eq (f a) (g a)) : Agree bearable Eq (items.forM f) (items.forM g) := by
  induction items with
  | nil => exact pure rfl
  | cons a rest ih =>
      exact (h a List.mem_cons_self).bind fun _ _ _ => ih fun b hMem => h b (List.mem_cons_of_mem a hMem)

theorem ok_iff (h : Agree bearable R x y) : (∃ a, x = .ok a) ↔ ∃ b, y = .ok b := by
  cases x <;> cases y
  · exact ⟨nofun, nofun⟩
  · exact h.elim
  · exact h.elim
  · exact ⟨fun _ => ⟨_, rfl⟩, fun _ => ⟨_, rfl⟩⟩

end Agree

namespace Findings

/-- Whether two streams of findings find the same, and stop, if at all, with failures that are borne
together. -/
inductive Agree (bearable : Failure → Failure → Prop) : Findings → Findings → Prop where
  | done : Agree bearable done done
  | found (f : Finding) {rest rest' : Unit → Findings} (h : Agree bearable (rest ()) (rest' ())) :
      Agree bearable (found f rest) (found f rest')
  | stopped {why why' : Failure} (h : bearable why why') : Agree bearable (stopped why) (stopped why')

namespace Agree

variable {f g f' g' : Findings}

theorem one (x : Finding) : Agree bearable (Findings.one x) (Findings.one x) := found x done

theorem violation (keyword message : Text) :
    Agree bearable (Schema.violation keyword message) (Schema.violation keyword message) := one _

theorem violationIf (failed : Bool) (keyword message : Text) :
    Agree bearable (Schema.violationIf failed keyword message)
      (Schema.violationIf failed keyword message) := by
  cases failed
  · exact done
  · exact one _

theorem append {next next' : Unit → Findings} (h : Agree bearable f g)
    (hNext : Agree bearable (next ()) (next' ())) : Agree bearable (f.append next) (g.append next') := by
  induction h with
  | done => exact hNext
  | found x _ ih => exact found x ih
  | stopped h => exact stopped h

theorem forEach {check check' : α → Findings} {items : List α}
    (h : ∀ a ∈ items, Agree bearable (check a) (check' a)) :
    Agree bearable (Findings.forEach check items) (Findings.forEach check' items) := by
  induction items with
  | nil => exact done
  | cons a rest ih =>
      exact (h a List.mem_cons_self).append (ih fun b hb => h b (List.mem_cons_of_mem a hb))

theorem under (step : Text) (h : Agree bearable f g) :
    Agree bearable (f.under step) (g.under step) := by
  induction h with
  | done => exact done
  | found x _ ih => exact found _ ih
  | stopped h => exact stopped h

theorem ofExcept {x y : Except Failure Findings} (h : Schema.Agree bearable (Agree bearable) x y) :
    Agree bearable (Findings.ofExcept x) (Findings.ofExcept y) := by
  cases x <;> cases y
  · exact stopped h
  · exact h.elim
  · exact h.elim
  · exact h

theorem all (h : Agree bearable f g) : Schema.Agree bearable Eq f.all g.all := by
  induction h with
  | done => rfl
  | found x _ ih => exact ih.map fun _ _ hSame => congrArg (x :: ·) hSame
  | stopped h => exact h

theorem first? (h : Agree bearable f g) : Schema.Agree bearable Eq f.first? g.first? := by
  cases h with
  | done => rfl
  | found x _ => rfl
  | stopped h => exact h

theorem isClean (h : Agree bearable f g) : Schema.Agree bearable Eq f.isClean g.isClean :=
  h.first?.map fun _ _ hSame => congrArg _ hSame

theorem eq (hSame : ∀ f g, bearable f g → f = g) (h : Agree bearable f g) : f = g := by
  induction h with
  | done => rfl
  | @found x rest rest' _ ih =>
      congr 1
      funext u
      exact ih
  | stopped h => exact congrArg _ (hSame _ _ h)

end Agree
end Findings

theorem overParts_agree {value : Document} {check check' : List Document → Findings}
    (hUnsuitable : bearable .unsuitable .unsuitable)
    (h : ∀ ds, parts? value = some ds → (check ds).Agree bearable (check' ds)) :
    (overParts value check).Agree bearable (overParts value check') := by
  unfold overParts
  cases hParts : parts? value with
  | none => exact .stopped hUnsuitable
  | some ds => exact h ds hParts

theorem overMembers_agree {value : Document} {check check' : Members → Findings}
    (hUnsuitable : bearable .unsuitable .unsuitable)
    (h : ∀ ms, value = .object ms → (check ms).Agree bearable (check' ms)) :
    (overMembers value check).Agree bearable (overMembers value check') := by
  cases value with
  | object ms => exact h ms rfl
  | _ => exact .stopped hUnsuitable

end Schema
end Conform

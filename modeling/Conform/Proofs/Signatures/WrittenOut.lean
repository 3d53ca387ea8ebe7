import Conform.Proofs.Signatures.Expression

/-! Expressions with their flags written out: the flags of a group of flags alone are put around each of the
alternatives that it holds for. Nothing else about the expression changes. -/
namespace Conform.Signatures

namespace Expr

def append : Expr → Expr → Expr
  | done, e => e
  | atom a next, e => atom a (next.append e)
  | quantifier q next, e => quantifier q (next.append e)
  | bar next, e => bar (next.append e)
  | flags c next, e => flags c (next.append e)
  | group o body next, e => group o body (next.append e)

/-- Alternatives with bars between them. -/
def ofAlternatives (first : Expr) : List Expr → Expr
  | [] => first
  | e :: others => first.append (bar (ofAlternatives e others))

/-- The alternatives, the first and the others, with the flags among them written out around what they hold
for. -/
def alternatives : Expr → Expr × List Expr
  | done => (done, [])
  | atom a next => (atom a next.alternatives.1, next.alternatives.2)
  | quantifier q next => (quantifier q next.alternatives.1, next.alternatives.2)
  | bar next => (done, next.alternatives.1 :: next.alternatives.2)
  | flags c next =>
      (group (.under c) next.alternatives.1 done, next.alternatives.2.map fun e => group (.under c) e done)
  | group o body next =>
      (group o (ofAlternatives body.alternatives.1 body.alternatives.2) next.alternatives.1,
        next.alternatives.2)

/-- The expression with all flags written out but those at the very start. -/
def writtenOut : Expr → Expr
  | flags c next => flags c next.writtenOut
  | e => ofAlternatives e.alternatives.1 e.alternatives.2

end Expr

variable {e : Expr}

section Texts

theorem text_append (e e' : Expr) : (e.append e').text = e.text ++ e'.text := by
  induction e with
  | done => rfl
  | atom a next ih | quantifier q next ih | bar next ih | flags c next ih | group o body next _ ih =>
      simp only [Expr.append, Expr.text, ih, List.append_assoc, List.cons_append]

theorem text_ofAlternatives (first : Expr) (others : List Expr) :
    (Expr.ofAlternatives first others).text = Text.join "|" (first.text :: others.map Expr.text) := by
  induction others generalizing first with
  | nil => rfl
  | cons e others ih =>
      rw [Expr.ofAlternatives, text_append, Expr.text, ih]
      simp only [List.map_cons, Text.join, List.append_assoc]
      rfl

theorem text_under (c : Change) (e : Expr) :
    (Expr.group (.under c) e .done).text = "(?" ++ c.text ++ ":" ++ e.text ++ ")" := by
  simp only [Expr.text, Opening.text, List.append_assoc]
  rfl

end Texts

section Alternatives

theorem forall_ofAlternatives {P : Expr → Prop} (hAppend : ∀ e e', P e → P e' → P (e.append (.bar e')))
    {first : Expr} {others : List Expr} (hFirst : P first) (hOthers : ∀ e ∈ others, P e) :
    P (Expr.ofAlternatives first others) := by
  induction others generalizing first with
  | nil => exact hFirst
  | cons e others ih =>
      obtain ⟨hNext, hOthers⟩ := List.forall_mem_cons.mp hOthers
      exact hAppend first _ hFirst (ih hNext hOthers)

theorem flagGroups_append (e e' : Expr) : (e.append e').flagGroups = e.flagGroups ++ e'.flagGroups := by
  induction e with
  | done => rfl
  | atom a next ih | quantifier q next ih | bar next ih => exact ih
  | flags c next ih => exact congrArg (c :: ·) ih
  | group o body next _ ih => simp only [Expr.append, Expr.flagGroups, ih, List.append_assoc]

theorem flagGroups_ofAlternatives {alternatives : Expr × List Expr}
    (h : alternatives.1.flagGroups = [] ∧ ∀ e ∈ alternatives.2, e.flagGroups = []) :
    (Expr.ofAlternatives alternatives.1 alternatives.2).flagGroups = [] :=
  forall_ofAlternatives (P := fun e => e.flagGroups = [])
    (fun e e' h h' => by rw [flagGroups_append, h]; exact h') h.1 h.2

theorem flagGroups_alternatives (e : Expr) :
    e.alternatives.1.flagGroups = [] ∧ ∀ e' ∈ e.alternatives.2, e'.flagGroups = [] := by
  induction e with
  | done => exact ⟨rfl, nofun⟩
  | atom a next ih | quantifier q next ih => exact ih
  | bar next ih => exact ⟨rfl, List.forall_mem_cons.mpr ih⟩
  | flags c next ih =>
      refine ⟨?_, List.forall_mem_map.mpr fun e hMem => ?_⟩
      · simp only [Expr.alternatives, Expr.flagGroups, ih.1, List.append_nil]
      · simp only [Expr.flagGroups, ih.2 e hMem, List.append_nil]
  | group o body next ihBody ih =>
      refine ⟨?_, ih.2⟩
      simp only [Expr.alternatives, Expr.flagGroups, flagGroups_ofAlternatives ihBody, ih.1, List.append_nil]

theorem isReadable_append (e e' : Expr) : (e.append e').isReadable = (e.isReadable && e'.isReadable) := by
  induction e with
  | done => rfl
  | atom a next ih | quantifier q next ih | bar next ih | flags c next ih => exact ih
  | group o body next _ ih => cases o <;> simp only [Expr.append, Expr.isReadable, ih, Bool.and_assoc]

theorem isReadable_ofAlternatives {alternatives : Expr × List Expr}
    (h : alternatives.1.isReadable = true ∧ ∀ e ∈ alternatives.2, e.isReadable = true) :
    (Expr.ofAlternatives alternatives.1 alternatives.2).isReadable = true :=
  forall_ofAlternatives (P := fun e => e.isReadable = true)
    (fun e e' h h' => by rw [isReadable_append, h]; exact h') h.1 h.2

theorem startsOptional_ofAlternatives (e : Expr) :
    (Expr.ofAlternatives e.alternatives.1 e.alternatives.2).startsOptional = e.startsOptional := by
  cases e with
  | done => rfl
  | atom a next | quantifier q next | flags c next | group o body next =>
      cases hOthers : next.alternatives.2 <;> simp only [Expr.alternatives, hOthers] <;> rfl
  | bar next => rfl

theorem isReadable_alternatives (h : e.isReadable = true) :
    e.alternatives.1.isReadable = true ∧ ∀ e' ∈ e.alternatives.2, e'.isReadable = true := by
  induction e with
  | done => exact ⟨rfl, nofun⟩
  | atom a next ih | quantifier q next ih => exact ih h
  | bar next ih => exact ⟨rfl, List.forall_mem_cons.mpr (ih h)⟩
  | flags c next ih =>
      refine ⟨?_, List.forall_mem_map.mpr fun e hMem => ?_⟩
      · simp only [Expr.alternatives, Expr.isReadable, (ih h).1, Bool.and_self]
      · simp only [Expr.isReadable, (ih h).2 e hMem, Bool.and_self]
  | group o body next ihBody ih =>
      obtain ⟨hBody, hNext, hOptional⟩ := isReadable_group h
      refine ⟨?_, (ih hNext).2⟩
      have hJoined := isReadable_ofAlternatives (ihBody hBody)
      cases o with
      | capture =>
          simp only [Expr.alternatives, Expr.isReadable, startsOptional_ofAlternatives, hOptional rfl, hJoined,
            (ih hNext).1, Bool.not_false, Bool.and_self]
      | named | plain | under | look =>
          simp only [Expr.alternatives, Expr.isReadable, hJoined, (ih hNext).1, Bool.and_self]

theorem literals_append_bar (e e' : Expr) : (e.append (.bar e')).literals = e.literals := by
  induction e with
  | atom a next ih => cases a <;> simp only [Expr.append, Expr.literals, ih]
  | done | quantifier | bar | flags | group => rfl

theorem literals_alternatives (e : Expr) : e.alternatives.1.literals = e.literals := by
  induction e with
  | atom a next ih => cases a <;> simp only [Expr.alternatives, Expr.literals, ih]
  | done | quantifier | bar | flags | group => rfl

theorem isPattern_append_bar (repeatable : Bool) (e e' : Expr) :
    (e.append (.bar e')).isPattern repeatable = (e.isPattern repeatable && e'.isPattern false) := by
  induction e generalizing repeatable with
  | done => rfl
  | atom a next ih =>
      simp only [Expr.append, Expr.isPattern, literals_append_bar, ih, Bool.and_assoc]
  | quantifier q next ih | bar next ih | flags c next ih | group o body next _ ih =>
      simp only [Expr.append, Expr.isPattern, ih, Bool.and_assoc]

theorem isPattern_ofAlternatives {alternatives : Expr × List Expr}
    (h : alternatives.1.isPattern false = true ∧ ∀ e ∈ alternatives.2, e.isPattern false = true) :
    (Expr.ofAlternatives alternatives.1 alternatives.2).isPattern false = true :=
  forall_ofAlternatives (P := fun e => e.isPattern false = true)
    (fun e e' h h' => by rw [isPattern_append_bar, h, h']; rfl) h.1 h.2

theorem isPattern_alternatives {repeatable : Bool} (h : e.isPattern repeatable = true) :
    e.alternatives.1.isPattern repeatable = true ∧ ∀ e' ∈ e.alternatives.2, e'.isPattern false = true := by
  induction e generalizing repeatable with
  | done => exact ⟨rfl, nofun⟩
  | atom a next ih =>
      rw [Expr.isPattern, Bool.and_eq_true] at h
      refine ⟨?_, (ih h.2).2⟩
      rw [Expr.alternatives, Expr.isPattern, literals_alternatives, h.1, (ih h.2).1]
      rfl
  | quantifier q next ih =>
      rw [Expr.isPattern, Bool.and_eq_true] at h
      refine ⟨?_, (ih h.2).2⟩
      rw [Expr.alternatives, Expr.isPattern, h.1, (ih h.2).1]
      rfl
  | bar next ih => exact ⟨rfl, List.forall_mem_cons.mpr (ih h)⟩
  | flags c next ih =>
      rw [Expr.isPattern, Bool.and_eq_true] at h
      refine ⟨?_, List.forall_mem_map.mpr fun e hMem => ?_⟩
      · simp only [Expr.alternatives, Expr.isPattern, Opening.isApart, h.1, (ih h.2).1, Bool.and_self]
      · simp only [Expr.isPattern, Opening.isApart, h.1, (ih h.2).2 e hMem, Bool.and_self]
  | group o body next ihBody ih =>
      simp only [Expr.isPattern, Bool.and_eq_true] at h
      obtain ⟨⟨hApart, hBody⟩, hNext⟩ := h
      refine ⟨?_, (ih hNext).2⟩
      simp only [Expr.alternatives, Expr.isPattern, hApart, isPattern_ofAlternatives (ihBody hBody), (ih hNext).1,
        Bool.and_self]

end Alternatives

section Lead

/-- The text of the groups of flags at the start. -/
def leadText (e : Expr) : Text := e.lead.flatMap fun c => "(?" ++ (c.text ++ [Point.ofChar ')'])

theorem leadText_append (e : Expr) : leadText e ++ e.afterLead.text = e.text := by
  induction e with
  | flags c next ih =>
      rw [Expr.text, ← ih]
      simp only [leadText, Expr.lead, Expr.afterLead, List.flatMap_cons, List.append_assoc, List.cons_append,
        List.nil_append]
  | done | atom | quantifier | bar | group => rfl

theorem isReadable_afterLead (h : e.isReadable = true) : e.afterLead.isReadable = true := by
  induction e with
  | flags c next ih => exact ih h
  | done | atom | quantifier | bar | group => exact h

theorem writtenOut_eq (e : Expr) : e.writtenOut.text =
    leadText e ++ (Expr.ofAlternatives e.afterLead.alternatives.1 e.afterLead.alternatives.2).text := by
  induction e with
  | flags c next ih =>
      rw [Expr.writtenOut, Expr.text, ih]
      simp only [leadText, Expr.lead, Expr.afterLead, List.flatMap_cons, List.append_assoc, List.cons_append,
        List.nil_append]
  | done | atom | quantifier | bar | group => rfl

end Lead

section WrittenOut

theorem isReadable_writtenOut (h : e.isReadable = true) : e.writtenOut.isReadable = true := by
  induction e with
  | flags c next ih => exact ih h
  | done | atom | quantifier | bar | group => exact isReadable_ofAlternatives (isReadable_alternatives h)

theorem isPattern_writtenOut (h : e.isPattern false = true) : e.writtenOut.isPattern false = true := by
  induction e with
  | flags c next ih =>
      rw [Expr.isPattern, Bool.and_eq_true] at h
      rw [Expr.writtenOut, Expr.isPattern, h.1, ih h.2]
      rfl
  | done | atom | quantifier | bar | group => exact isPattern_ofAlternatives (isPattern_alternatives h)

theorem lead_eq_nil_of_flagGroups (h : e.flagGroups = []) : e.lead = [] := by
  cases e with
  | flags c next => cases h
  | done | atom | quantifier | bar | group => rfl

theorem flagGroups_writtenOut_of_lead (h : e.lead = []) :
    e.writtenOut.lead = [] ∧ e.writtenOut.flagGroups = [] := by
  have hNone := flagGroups_ofAlternatives (flagGroups_alternatives e)
  cases e with
  | flags c next => cases h
  | done | atom | quantifier | bar | group => exact ⟨lead_eq_nil_of_flagGroups hNone, hNone⟩

/-- The groups of flags that are left are those at the start. -/
theorem flagGroups_writtenOut (e : Expr) : e.writtenOut.lead = e.lead ∧ e.writtenOut.flagGroups = e.lead := by
  induction e with
  | flags c next ih => exact ⟨congrArg (c :: ·) ih.1, congrArg (c :: ·) ih.2⟩
  | done | atom | quantifier | bar | group => exact flagGroups_writtenOut_of_lead rfl

theorem flagGroups_afterLead (e : Expr) : e.flagGroups = e.lead ++ e.afterLead.flagGroups := by
  induction e with
  | flags c next ih => exact congrArg (c :: ·) ih
  | done | atom | quantifier | bar | group => rfl

end WrittenOut

end Conform.Signatures

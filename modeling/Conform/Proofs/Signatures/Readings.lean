import Conform.Proofs.Signatures.FlagScope
import Conform.Proofs.Signatures.Unambiguous

/-! Under which flags the atoms of an expression stand. There are two readings. In the one a group of flags alone
holds for the rest of the group around it, later alternatives included; in the other flags hold for the whole
expression, where they stand at its very start, or for the body of their own group. With its flags written out
an expression is in the second reading what it was in the first. -/
namespace Conform.Signatures

open Pattern (Flags)

/-- What an expression is read as: its atoms with the flags that they match under, and no groups of flags
alone. -/
inductive Marked where
  | done
  | atom (f : Flags) (a : Atom) (next : Marked)
  | quantifier (q : Quantifier) (next : Marked)
  | bar (next : Marked)
  | group (o : Opening) (body next : Marked)

namespace Marked

def append : Marked → Marked → Marked
  | done, m => m
  | atom f a next, m => atom f a (next.append m)
  | quantifier q next, m => quantifier q (next.append m)
  | bar next, m => bar (next.append m)
  | group o body next, m => group o body (next.append m)

def captures : Marked → List Opening
  | done => []
  | atom _ _ next | quantifier _ next | bar next => next.captures
  | group o body next => (if o.isCapture then [o] else []) ++ body.captures ++ next.captures

end Marked

namespace Expr

def isBarFree : Expr → Bool
  | done => true
  | atom _ next | quantifier _ next | flags _ next | group _ _ next => next.isBarFree
  | bar _ => false

/-- The reading under which a group of flags alone holds up to the end of the group around it, over bars, and
the flags outside a group are the same behind it as before it. -/
def marked (f : Flags) : Expr → Marked
  | done => .done
  | atom a next => .atom f a (next.marked f)
  | quantifier q next => .quantifier q (next.marked f)
  | bar next => .bar (next.marked f)
  | flags c next => next.marked (c.apply f)
  | group o body next => .group o (body.marked (o.flags f)) (next.marked f)

/-- The reading under which flags hold for the body of their own group alone. A group under flags is either one
of what is read, or an added one: this stands for its body, which must be a part of one alternative, and neither
it nor what follows it may lose what a quantifier repeats. -/
inductive Inlines : Flags → Expr → Marked → Prop where
  | done {f : Flags} : Inlines f .done .done
  | atom {f : Flags} {a : Atom} {next : Expr} {m : Marked} (h : Inlines f next m) :
      Inlines f (.atom a next) (.atom f a m)
  | quantifier {f : Flags} {q : Quantifier} {next : Expr} {m : Marked} (h : Inlines f next m) :
      Inlines f (.quantifier q next) (.quantifier q m)
  | bar {f : Flags} {next : Expr} {m : Marked} (h : Inlines f next m) : Inlines f (.bar next) (.bar m)
  | group {f : Flags} {o : Opening} {body next : Expr} {m m' : Marked} (hBody : Inlines (o.flags f) body m)
      (hNext : Inlines f next m') : Inlines f (.group o body next) (.group o m m')
  | added {f : Flags} {c : Change} {body next : Expr} {m m' : Marked} (hBody : Inlines (c.apply f) body m)
      (hNext : Inlines f next m') (hBar : body.isBarFree = true) (hFirst : body.startsQuantifier = false)
      (hSecond : next.startsQuantifier = false) : Inlines f (.group (.under c) body next) (m.append m')

/-- The reading of a whole expression: groups of flags alone stand at the very start only, and only switch on
what then holds for all of it. -/
inductive ReadAs : Flags → Expr → Marked → Prop where
  | flags {f : Flags} {c : Change} {next : Expr} {m : Marked} (hOff : c.off = [])
      (h : ReadAs (c.apply f) next m) : ReadAs f (.flags c next) m
  | inlines {f : Flags} {e : Expr} {m : Marked} (h : Inlines f e m) : ReadAs f e m

end Expr

variable {e e' : Expr} {f : Flags} {m m' : Marked}

namespace Marked

theorem append_assoc (m m' m'' : Marked) : (m.append m').append m'' = m.append (m'.append m'') := by
  induction m with
  | done => rfl
  | atom f a next ih => exact congrArg (atom f a) ih
  | quantifier q next ih => exact congrArg (quantifier q) ih
  | bar next ih => exact congrArg bar ih
  | group o body next _ ih => exact congrArg (group o body) ih

theorem append_done (m : Marked) : m.append done = m := by
  induction m with
  | done => rfl
  | atom f a next ih => exact congrArg (atom f a) ih
  | quantifier q next ih => exact congrArg (quantifier q) ih
  | bar next ih => exact congrArg bar ih
  | group o body next _ ih => exact congrArg (group o body) ih

theorem captures_append (m m' : Marked) : (m.append m').captures = m.captures ++ m'.captures := by
  induction m with
  | done => rfl
  | atom f a next ih | quantifier q next ih | bar next ih => exact ih
  | group o body next _ ih => simp only [append, captures, ih, List.append_assoc]

end Marked

section Readings

theorem isBarFree_alternatives (e : Expr) :
    e.alternatives.1.isBarFree = true ∧ ∀ e' ∈ e.alternatives.2, e'.isBarFree = true := by
  induction e with
  | done => exact ⟨rfl, nofun⟩
  | atom a next ih | quantifier q next ih | group o body next _ ih => exact ih
  | bar next ih => exact ⟨rfl, List.forall_mem_cons.mpr ih⟩
  | flags c next ih => exact ⟨rfl, List.forall_mem_map.mpr fun _ _ => rfl⟩

theorem captures_marked (e : Expr) (f : Flags) : (e.marked f).captures = e.captures := by
  induction e generalizing f with
  | done => rfl
  | atom a next ih | quantifier q next ih | bar next ih | flags c next ih => exact ih _
  | group o body next ihBody ih => simp only [Expr.marked, Marked.captures, Expr.captures, ihBody, ih]

/-- The groups that capture are those of what is read, in their order. -/
theorem Expr.Inlines.captures (h : Expr.Inlines f e m) : e.captures = m.captures := by
  induction h with
  | done => rfl
  | atom _ ih | quantifier _ ih | bar _ ih => exact ih
  | group _ _ ihBody ih => simp only [Expr.captures, Marked.captures, ihBody, ih]
  | added _ _ _ _ _ ihBody ih =>
      simp only [Expr.captures, Opening.isCapture, Marked.captures_append, ihBody, ih]
      rfl

theorem Expr.ReadAs.captures (h : Expr.ReadAs f e m) : e.captures = m.captures := by
  induction h with
  | flags _ _ ih => exact ih
  | inlines h => exact h.captures

/-- Where alternatives are read one by one, they are read as a whole. -/
theorem Expr.Inlines.append_bar (h : Expr.Inlines f e m) (h' : Expr.Inlines f e' m') :
    Expr.Inlines f (e.append (.bar e')) (m.append (.bar m')) := by
  induction h with
  | done => exact .bar h'
  | atom _ ih => exact .atom (ih h')
  | quantifier _ ih => exact .quantifier (ih h')
  | bar _ ih => exact .bar (ih h')
  | group hBody _ _ ih => exact .group hBody (ih h')
  | @added f c body next _ _ hBody _ hBar hFirst hSecond _ ih =>
      rw [Marked.append_assoc]
      refine .added hBody (ih h') hBar hFirst ?_
      cases next with
      | quantifier q next => cases hSecond
      | done | atom | bar | flags | group => rfl

/-- How alternatives are read, each apart from the others. -/
inductive ReadApart (f : Flags) : Expr → List Expr → Marked → Prop where
  | last {first : Expr} {m : Marked} (h : Expr.Inlines f first m) : ReadApart f first [] m
  | more {first e : Expr} {others : List Expr} {m m' : Marked} (h : Expr.Inlines f first m)
      (hRest : ReadApart f e others m') : ReadApart f first (e :: others) (m.append (.bar m'))

variable {first : Expr} {others : List Expr}

namespace ReadApart

theorem inlines (h : ReadApart f first others m) : Expr.Inlines f (Expr.ofAlternatives first others) m := by
  induction h with
  | last h => exact h
  | more h _ ih => exact h.append_bar ih

/-- What is put in front of the first alternative makes no difference to the others. -/
theorem map_first {first' : Expr} {k : Marked → Marked}
    (hFirst : ∀ m, Expr.Inlines f first m → Expr.Inlines f first' (k m))
    (hAppend : ∀ m m', k (m.append m') = (k m).append m') (h : ReadApart f first others m) :
    ReadApart f first' others (k m) := by
  cases h with
  | last h => exact .last (hFirst _ h)
  | more h hRest =>
      rw [hAppend]
      exact .more (hFirst _ h) hRest

theorem bar (h : ReadApart f first others m) : ReadApart f .done (first :: others) (.bar m) :=
  .more .done h

/-- Flags that hold for all alternatives can be written out around each of them. -/
theorem under (c : Change) (h : ReadApart (c.apply f) first others m)
    (hFirst : first.isBarFree = true ∧ first.isPattern false = true)
    (hOthers : ∀ e ∈ others, e.isBarFree = true ∧ e.isPattern false = true) :
    ReadApart f (.group (.under c) first .done) (others.map fun e => .group (.under c) e .done) m := by
  have hAdded : ∀ {e : Expr} {m : Marked}, Expr.Inlines (c.apply f) e m →
      e.isBarFree = true ∧ e.isPattern false = true → Expr.Inlines f (.group (.under c) e .done) m := by
    intro e m h ⟨hBar, hPattern⟩
    have hGroup := Expr.Inlines.added h .done hBar (startsQuantifier_of_isPattern hPattern) rfl
    rwa [Marked.append_done] at hGroup
  induction h with
  | last h => exact .last (hAdded h hFirst)
  | more h _ ih =>
      obtain ⟨hNext, hOthers⟩ := List.forall_mem_cons.mp hOthers
      exact .more (hAdded h hFirst) (ih hNext hOthers)

end ReadApart

/-- The alternatives with the flags written out are read as the expression itself is. -/
theorem readApart_alternatives {repeatable : Bool} (hPattern : e.isPattern repeatable = true) (f : Flags) :
    ReadApart f e.alternatives.1 e.alternatives.2 (e.marked f) := by
  induction e generalizing f repeatable with
  | done => exact .last .done
  | atom a next ih =>
      rw [Expr.isPattern, Bool.and_eq_true] at hPattern
      exact (ih hPattern.2 f).map_first (k := .atom f a) (fun _ => .atom) fun _ _ => rfl
  | quantifier q next ih =>
      rw [Expr.isPattern, Bool.and_eq_true] at hPattern
      exact (ih hPattern.2 f).map_first (k := .quantifier q) (fun _ => .quantifier) fun _ _ => rfl
  | bar next ih => exact (ih hPattern f).bar
  | flags c next ih =>
      rw [Expr.isPattern, Bool.and_eq_true] at hPattern
      have hAlternatives := isPattern_alternatives hPattern.2
      have hBarFree := isBarFree_alternatives next
      exact (ih hPattern.2 (c.apply f)).under c ⟨hBarFree.1, hAlternatives.1⟩
        fun e hMem => ⟨hBarFree.2 e hMem, hAlternatives.2 e hMem⟩
  | group o body next ihBody ih =>
      simp only [Expr.isPattern, Bool.and_eq_true] at hPattern
      have hBody := (ihBody hPattern.1.2 (o.flags f)).inlines
      exact (ih hPattern.2 f).map_first (k := .group o (body.marked (o.flags f))) (fun _ => .group hBody)
        fun _ _ => rfl

theorem readAs_writtenOut (hPattern : e.isPattern false = true) (hLead : ∀ c ∈ e.lead, c.off = []) (f : Flags) :
    Expr.ReadAs f e.writtenOut (e.marked f) := by
  induction e generalizing f with
  | flags c next ih =>
      obtain ⟨hOff, hLead⟩ := List.forall_mem_cons.mp hLead
      rw [Expr.isPattern, Bool.and_eq_true] at hPattern
      exact .flags hOff (ih hPattern.2 hLead (c.apply f))
  | done | atom | quantifier | bar | group => exact .inlines (readApart_alternatives hPattern f).inlines

end Readings

/-- What is made of an expression is read, in one way only, as the expression itself is: the same alternatives,
groups and atoms, and each atom under the same flags. -/
theorem readAs_scopeFlags (hPattern : e.isPattern false = true) (hLead : ∀ c ∈ e.lead, c.off = []) :
    ∃ s : Expr, s.isPattern false = true ∧ s.text = scopeFlags e.text ∧
      (∀ s' : Expr, s'.isPattern false = true → s'.text = scopeFlags e.text → s' = s) ∧
      s.captures = e.captures ∧ ∀ f, Expr.ReadAs f s (e.marked f) := by
  have hText := scopeFlags_text (isReadable_of_isPattern hPattern)
  have hRead := readAs_writtenOut hPattern hLead
  refine ⟨e.writtenOut, isPattern_writtenOut hPattern, hText.symm, fun s' hPattern' hText' => ?_, ?_, hRead⟩
  · exact text_injective hPattern' (isPattern_writtenOut hPattern) (hText'.trans hText)
  · rw [(hRead {}).captures, captures_marked]

/-- The expression `(?i)x(?-i)(y)|z`. -/
def offInside : Expr :=
  .flags (.switchOn .ignoreCase) (.letter 'x' (by decide) (.flags (.switchOff .ignoreCase)
    (.group .capture (.letter 'y' (by decide) .done) (.bar (.letter 'z' (by decide) .done)))))

theorem readAs_scopeFlags_offInside :
    offInside.text = ("(?i)x(?-i)(y)|z" : Text) ∧ offInside.isPattern false = true ∧
      (∀ c ∈ offInside.lead, c.off = []) ∧ ∃ s : Expr, s.isPattern false = true ∧
        s.text = scopeFlags offInside.text ∧
        (∀ s' : Expr, s'.isPattern false = true → s'.text = scopeFlags offInside.text → s' = s) ∧
        s.captures = offInside.captures ∧ ∀ f, Expr.ReadAs f s (offInside.marked f) :=
  have hLead : ∀ c ∈ offInside.lead, c.off = [] := List.forall_mem_singleton.mpr rfl
  ⟨by decide, by decide, hLead, readAs_scopeFlags (by decide) hLead⟩

example : scopeFlags "(?i)x(?-i)(y)|z" = ("(?i)x(?-i:(y))|(?-i:z)" : Text) := by decide +kernel

end Conform.Signatures

import Conform.Schema.Index
import Mathlib.Tactic.Tauto

/-! What a scan of directories comes to. A scan is a fold that stops at the first conflict, yet
whether it stops and what it collects depend only on the set of the schemas that it meets. -/
namespace Conform.Schema

namespace Visit

/-- The schema that was met, if it was one. -/
def entry? : Visit → Option Entry
  | found e => some e
  | passedOver .. => none
  | blocked _ => none

def isBlocked : Visit → Bool
  | blocked _ => true
  | _ => false

end Visit

namespace Index

variable {fs : Files} {dirs dirs' : List Text} {seed ix ix' : Index} {strip : Bool}
  {e a b : Entry} {id : Text} {vs : List Visit}

/-- The schemas among what a scan meets. -/
def entriesOf (vs : List Visit) : List Entry := vs.filterMap Visit.entry?

/-- The schemas that take part in a scan, in the order of the walk; those of the seed come first. -/
def participants (fs : Files) (dirs : List Text) (seed : Index) (strip : Bool) : List Entry :=
  seed.entries ++ entriesOf (visits fs dirs strip)

/-- Whether two schemas have one name and different canonical texts. -/
def Conflicting (es : List Entry) : Prop :=
  ∃ a ∈ es, ∃ b ∈ es, a.id = b.id ∧ a.normalized ≠ b.normalized

/-- Whether every directory is there, and every file in it is found to be a schema or is passed
over. A directory that is not there is met as something that blocks the scan. -/
def Readable (fs : Files) (dirs : List Text) (strip : Bool) : Prop :=
  ∀ v ∈ visits fs dirs strip, v.isBlocked = false

/-- No two entries have one name. -/
def Distinct (ix : Index) : Prop := (ix.entries.map Entry.id).Nodup

/-- Whether two indexes have the same names, and the same canonical texts under them. -/
def SameContents (ix ix' : Index) : Prop :=
  ∀ id, (ix.get? id).map Entry.normalized = (ix'.get? id).map Entry.normalized

/-- Whether `dirs'` has all of `dirs`, in whatever order and number, and in its further directories
only copies of schemas that take part in the scan of `dirs` anyhow. -/
structure AddsOnlyCopies (fs : Files) (seed : Index) (strip : Bool) (dirs dirs' : List Text) :
    Prop where
  keeps : dirs ⊆ dirs'
  copies : ∀ raw ∈ dirs', raw ∉ dirs → ∀ e ∈ entriesOf (visitDirectory fs strip raw),
    ∃ a ∈ participants fs dirs seed strip, a.id = e.id ∧ a.normalized = e.normalized

theorem get?_eq_some_of_mem (hDistinct : ix.Distinct) (hMem : e ∈ ix.entries) :
    ix.get? e.id = some e := by
  obtain ⟨entries⟩ := ix
  simp only [Distinct, get?] at *
  induction entries with
  | nil => cases hMem
  | cons first rest ih =>
      simp only [List.map_cons, List.nodup_cons] at hDistinct
      rcases List.mem_cons.mp hMem with rfl | hMem
      · simp
      · have hNe : first.id ≠ e.id := fun h => hDistinct.1 (h ▸ List.mem_map_of_mem hMem)
        rw [List.find?_cons_of_neg (by simpa using hNe)]
        exact ih hDistinct.2 hMem

theorem mem_of_get? (h : ix.get? id = some e) : e ∈ ix.entries ∧ e.id = id :=
  ⟨List.mem_of_find?_eq_some h, by simpa using List.find?_some h⟩

/-- One addition: a name that is new goes to the end, a copy changes nothing, and only another
canonical text under a known name is refused. -/
theorem add_cases (ix : Index) (e : Entry) :
    (ix.get? e.id = none ∧ ix.add e = .ok ⟨ix.entries ++ [e]⟩) ∨
    (∃ old, ix.get? e.id = some old ∧ old.normalized = e.normalized ∧ ix.add e = .ok ix) ∨
    (∃ old, ix.get? e.id = some old ∧ old.normalized ≠ e.normalized ∧
      ix.add e = .error (.referenceConflict e.id e.path old.path)) := by
  cases hOld : ix.get? e.id with
  | none => exact Or.inl ⟨rfl, by simp [add, hOld]⟩
  | some old =>
      by_cases hSame : old.normalized = e.normalized
      · exact Or.inr (Or.inl ⟨old, rfl, hSame, by simp [add, hOld, hSame]⟩)
      · exact Or.inr (Or.inr ⟨old, rfl, hSame, by simp [add, hOld, hSame]⟩)

/-- What an addition does to the index as a map: the first entry of a name stays. -/
theorem get?_add (h : ix.add e = .ok ix') (id : Text) :
    ix'.get? id = (ix.get? id).or ([e].find? (·.id == id)) := by
  rcases add_cases ix e with ⟨_, hAdd⟩ | ⟨old, hOld, _, hAdd⟩ | ⟨_, _, _, hAdd⟩
  · obtain rfl : ⟨ix.entries ++ [e]⟩ = ix' := Except.ok.inj (hAdd.symm.trans h)
    simp [get?, List.find?_append]
  · obtain rfl : ix = ix' := Except.ok.inj (hAdd.symm.trans h)
    by_cases hId : e.id = id
    · subst hId
      simp [hOld]
    · simp [List.find?_cons_of_neg, hId]
  · rw [hAdd] at h
    cases h

theorem entriesOf_cons (v : Visit) (vs : List Visit) :
    entriesOf (v :: vs) = v.entry?.toList ++ entriesOf vs := by
  cases hEntry : v.entry? <;> simp [entriesOf, hEntry]

/-- A step over a visit that is no obstacle is an addition of its schema, if there is one. -/
theorem accept_cases {v : Visit} (hOpen : v.isBlocked = false) (ix : Index) :
    (∃ e, v.entry? = some e ∧ ix.accept v = ix.add e) ∨
    (v.entry? = none ∧ ix.accept v = .ok ix) := by
  cases v with
  | found e => exact Or.inl ⟨e, rfl, rfl⟩
  | passedOver path reason => exact Or.inr ⟨rfl, rfl⟩
  | blocked f => cases hOpen

/-- A fold over visits that succeeds finds under each name the first schema that has it. -/
theorem get?_foldlM (hOpen : ∀ v ∈ vs, v.isBlocked = false)
    (hRun : vs.foldlM accept ix = .ok ix') (id : Text) :
    ix'.get? id = (ix.get? id).or ((entriesOf vs).find? (·.id == id)) := by
  induction vs generalizing ix with
  | nil =>
      obtain rfl : ix = ix' := Except.ok.inj hRun
      simp [entriesOf]
  | cons v vs ih =>
      have hRest := fun w hw => hOpen w (List.mem_cons_of_mem v hw)
      rw [List.foldlM_cons] at hRun
      cases hStep : ix.accept v with
      | error f =>
          rw [hStep] at hRun
          cases hRun
      | ok middle =>
          rw [hStep] at hRun
          rw [ih hRest hRun, entriesOf_cons, List.find?_append]
          rcases accept_cases (hOpen v List.mem_cons_self) ix with ⟨e, hEntry, hAccept⟩ | ⟨hNone, hAccept⟩
          · rw [get?_add (hAccept ▸ hStep) id, hEntry, Option.toList_some, Option.or_assoc]
          · rw [hAccept] at hStep
            obtain rfl : ix = middle := Except.ok.inj hStep
            simp [hNone]

/-- A fold over visits that are no obstacles either succeeds or meets a conflict between two schemas
that take part. -/
theorem foldlM_cases (hOpen : ∀ v ∈ vs, v.isBlocked = false) (ix : Index) :
    (∃ ix', vs.foldlM accept ix = .ok ix') ∨
    ((∃ id path existing, vs.foldlM accept ix = .error (.referenceConflict id path existing)) ∧
      Conflicting (ix.entries ++ entriesOf vs)) := by
  induction vs generalizing ix with
  | nil => exact Or.inl ⟨ix, rfl⟩
  | cons v vs ih =>
      have hRest := fun w hw => hOpen w (List.mem_cons_of_mem v hw)
      rw [List.foldlM_cons, entriesOf_cons]
      rcases accept_cases (hOpen v List.mem_cons_self) ix with ⟨e, hEntry, hAccept⟩ | ⟨hNone, hAccept⟩
      · rw [hAccept, hEntry]
        rcases add_cases ix e with ⟨_, hAdd⟩ | ⟨old, _, _, hAdd⟩ | ⟨old, hOld, hDiffer, hAdd⟩
        · rw [hAdd]
          simpa [bind, Except.bind] using ih hRest ⟨ix.entries ++ [e]⟩
        · rw [hAdd]
          refine (ih hRest ix).imp id fun ⟨hError, x, hx, y, hy, hConflict⟩ => ⟨hError, x, ?_, y, ?_, hConflict⟩
          · grind
          · grind
        · rw [hAdd]
          obtain ⟨hMem, hId⟩ := mem_of_get? hOld
          exact Or.inr ⟨⟨e.id, e.path, old.path, rfl⟩, old, by simp [hMem], e, by simp, hId, hDiffer⟩
      · rw [hAccept, hNone]
        simpa [bind, Except.bind] using ih hRest ix

/-- Additions keep names distinct, so a scan's result is a map. -/
theorem Distinct.add (hDistinct : ix.Distinct) (h : ix.add e = .ok ix') : ix'.Distinct := by
  rcases add_cases ix e with ⟨hNew, hAdd⟩ | ⟨_, _, _, hAdd⟩ | ⟨_, _, _, hAdd⟩
  · obtain rfl : ⟨ix.entries ++ [e]⟩ = ix' := Except.ok.inj (hAdd.symm.trans h)
    have hFresh : ∀ x ∈ ix.entries, x.id ≠ e.id := by
      simpa [get?, List.find?_eq_none] using hNew
    simpa [Distinct, List.nodup_append] using ⟨hDistinct, hFresh⟩
  · obtain rfl : ix = ix' := Except.ok.inj (hAdd.symm.trans h)
    exact hDistinct
  · rw [hAdd] at h
    cases h

theorem Distinct.foldlM (hOpen : ∀ v ∈ vs, v.isBlocked = false) (hDistinct : ix.Distinct)
    (hRun : vs.foldlM accept ix = .ok ix') : ix'.Distinct := by
  induction vs generalizing ix with
  | nil =>
      obtain rfl : ix = ix' := Except.ok.inj hRun
      exact hDistinct
  | cons v vs ih =>
      rw [List.foldlM_cons] at hRun
      cases hStep : ix.accept v with
      | error f =>
          rw [hStep] at hRun
          cases hRun
      | ok middle =>
          rw [hStep] at hRun
          refine ih (fun w hw => hOpen w (List.mem_cons_of_mem v hw)) ?_ hRun
          rcases accept_cases (hOpen v List.mem_cons_self) ix with ⟨e, _, hAccept⟩ | ⟨_, hAccept⟩
          · exact hDistinct.add (hAccept ▸ hStep)
          · rw [hAccept] at hStep
            obtain rfl : ix = middle := Except.ok.inj hStep
            exact hDistinct

/-- Every schema that a successful fold meets has a copy in the result. -/
theorem copy_of_foldlM (hOpen : ∀ v ∈ vs, v.isBlocked = false)
    (hRun : vs.foldlM accept ix = .ok ix') (hMem : e ∈ entriesOf vs) :
    ∃ c, ix'.get? e.id = some c ∧ c.normalized = e.normalized := by
  induction vs generalizing ix with
  | nil => cases hMem
  | cons v vs ih =>
      have hRest := fun w hw => hOpen w (List.mem_cons_of_mem v hw)
      rw [List.foldlM_cons] at hRun
      cases hStep : ix.accept v with
      | error f =>
          rw [hStep] at hRun
          cases hRun
      | ok middle =>
          rw [hStep] at hRun
          rw [entriesOf_cons, List.mem_append, Option.mem_toList] at hMem
          rcases hMem with hHere | hLater
          · -- The step itself makes or finds the copy, and what follows keeps it.
            obtain ⟨c, hCopy, hSame⟩ : ∃ c, middle.get? e.id = some c ∧ c.normalized = e.normalized := by
              obtain rfl : v = .found e := by cases v <;> simp_all [Visit.entry?]
              have hAdd : ix.add e = .ok middle := hStep
              rcases add_cases ix e with ⟨hNew, _⟩ | ⟨old, hOld, hSame, _⟩ | ⟨_, _, _, hError⟩
              · exact ⟨e, by simp [get?_add hAdd, hNew], rfl⟩
              · exact ⟨old, by simp [get?_add hAdd, hOld], hSame⟩
              · rw [hError] at hAdd
                cases hAdd
            exact ⟨c, by rw [get?_foldlM hRest hRun, hCopy, Option.some_or], hSame⟩
          · exact ih hRest hRun hLater

/-- A scan that succeeds was not in the way of anything that it met. -/
theorem readable_of_scan (hScan : scan fs dirs seed strip = .ok ix) : Readable fs dirs strip := by
  have hRun : ∀ (vs : List Visit) (ix ix' : Index), vs.foldlM accept ix = .ok ix' →
      ∀ v ∈ vs, v.isBlocked = false := by
    intro vs
    induction vs with
    | nil => exact fun _ _ _ => nofun
    | cons v vs ih =>
        intro ix ix' hRun
        rw [List.foldlM_cons] at hRun
        cases hStep : ix.accept v with
        | error f =>
            rw [hStep] at hRun
            cases hRun
        | ok middle =>
            rw [hStep] at hRun
            refine List.forall_mem_cons.mpr ⟨?_, ih middle ix' hRun⟩
            cases v with
            | blocked f => cases hStep
            | _ => rfl
  exact hRun _ _ _ hScan

theorem mem_entriesOf : e ∈ entriesOf vs ↔ .found e ∈ vs := by
  rw [entriesOf, List.mem_filterMap]
  constructor
  · rintro ⟨v, hMem, hEntry⟩
    cases v with
    | found a => exact Option.some.inj hEntry ▸ hMem
    | _ => cases hEntry
  · exact fun hMem => ⟨.found e, hMem, rfl⟩

section Scan

variable (hSeed : seed.Distinct) (hRead : Readable fs dirs strip)

include hRead in
/-- A scan that succeeds keeps the first schema of each name. -/
theorem get?_scan (hScan : scan fs dirs seed strip = .ok ix) (id : Text) :
    ix.get? id = (participants fs dirs seed strip).find? (·.id == id) := by
  rw [get?_foldlM hRead hScan, participants, List.find?_append]
  rfl

include hSeed hRead in
theorem copy_of_scan (hScan : scan fs dirs seed strip = .ok ix)
    (hMem : e ∈ participants fs dirs seed strip) :
    ∃ c, ix.get? e.id = some c ∧ c.normalized = e.normalized := by
  rcases List.mem_append.mp hMem with hHere | hMet
  · have hKept : ix.get? e.id = some e := by
      rw [get?_foldlM hRead hScan, get?_eq_some_of_mem hSeed hHere, Option.some_or]
    exact ⟨e, hKept, rfl⟩
  · exact copy_of_foldlM hRead hScan hMet

include hSeed hRead in
theorem mem_participants_of_scan (hScan : scan fs dirs seed strip = .ok ix) (hMem : e ∈ ix.entries) :
    e ∈ participants fs dirs seed strip := by
  have hFound := get?_eq_some_of_mem (hSeed.foldlM hRead hScan) hMem
  rw [get?_scan hRead hScan] at hFound
  exact List.mem_of_find?_eq_some hFound

include hSeed hRead in
theorem not_conflicting_of_scan (hScan : scan fs dirs seed strip = .ok ix) :
    ¬ Conflicting (participants fs dirs seed strip) := by
  rintro ⟨a, ha, b, hb, hId, hDiffer⟩
  obtain ⟨c, hA, hSameA⟩ := copy_of_scan hSeed hRead hScan ha
  obtain ⟨d, hB, hSameB⟩ := copy_of_scan hSeed hRead hScan hb
  obtain rfl : c = d := Option.some.inj (hA.symm.trans (hId ▸ hB))
  exact hDiffer (hSameA.symm.trans hSameB)

include hSeed hRead in
/-- A scan succeeds unless two of the schemas that take part are in conflict. -/
theorem scan_ok_iff :
    (∃ ix, scan fs dirs seed strip = .ok ix) ↔ ¬ Conflicting (participants fs dirs seed strip) := by
  refine ⟨fun ⟨ix, hScan⟩ => not_conflicting_of_scan hSeed hRead hScan, fun hPeace => ?_⟩
  rcases foldlM_cases hRead seed with hOk | ⟨_, hConflict⟩
  · exact hOk
  · exact absurd hConflict hPeace

end Scan

theorem entriesOf_visits (dirs : List Text) :
    entriesOf (visits fs dirs strip) = dirs.flatMap fun raw => entriesOf (visitDirectory fs strip raw) := by
  simp [entriesOf, visits, List.filterMap_flatMap]

/-- Each schema that takes part in one of two scans has a copy in the other. -/
theorem AddsOnlyCopies.copy (h : AddsOnlyCopies fs seed strip dirs dirs') :
    (∀ e ∈ participants fs dirs seed strip, e ∈ participants fs dirs' seed strip) ∧
    ∀ e ∈ participants fs dirs' seed strip, ∃ a ∈ participants fs dirs seed strip,
      a.id = e.id ∧ a.normalized = e.normalized := by
  constructor
  · intro e he
    simp only [participants, entriesOf_visits, List.mem_append, List.mem_flatMap] at he ⊢
    exact he.imp id fun ⟨raw, hRaw, hEntry⟩ => ⟨raw, h.keeps hRaw, hEntry⟩
  · intro e he
    rw [participants, entriesOf_visits, List.mem_append, List.mem_flatMap] at he
    rcases he with hHere | ⟨raw, hRaw, hEntry⟩
    · exact ⟨e, List.mem_append_left _ hHere, rfl, rfl⟩
    · by_cases hOld : raw ∈ dirs
      · refine ⟨e, List.mem_append_right _ ?_, rfl, rfl⟩
        rw [entriesOf_visits]
        exact List.mem_flatMap.mpr ⟨raw, hOld, hEntry⟩
      · exact h.copies raw hRaw hOld e hEntry

theorem AddsOnlyCopies.conflicting_iff (h : AddsOnlyCopies fs seed strip dirs dirs') :
    Conflicting (participants fs dirs' seed strip) ↔ Conflicting (participants fs dirs seed strip) := by
  obtain ⟨hKeep, hCopy⟩ := h.copy
  constructor
  · rintro ⟨a, ha, b, hb, hId, hDiffer⟩
    obtain ⟨c, hc, hIdC, hSameC⟩ := hCopy a ha
    obtain ⟨d, hd, hIdD, hSameD⟩ := hCopy b hb
    exact ⟨c, hc, d, hd, by rw [hIdC, hIdD, hId], by rwa [hSameC, hSameD]⟩
  · rintro ⟨a, ha, b, hb, hConflict⟩
    exact ⟨a, hKeep a ha, b, hKeep b hb, hConflict⟩

/-- A scan fails exactly if two of the schemas that take part share a name and differ, and otherwise
it keeps the first of each name. So neither the order nor the number of the directories matters, nor
do further directories with copies, except for which of several copies is kept. -/
theorem scan_outcome (hSeed : seed.Distinct) (hRead : Readable fs dirs strip) :
    ((∃ id path existing, scan fs dirs seed strip = .error (.referenceConflict id path existing)) ↔
      Conflicting (participants fs dirs seed strip)) ∧
    ((∃ ix, scan fs dirs seed strip = .ok ix) ↔ ¬ Conflicting (participants fs dirs seed strip)) ∧
    (∀ ix, scan fs dirs seed strip = .ok ix →
      ix.Distinct ∧ ∀ id, ix.get? id = (participants fs dirs seed strip).find? (·.id == id)) ∧
    ∀ dirs', Readable fs dirs' strip → AddsOnlyCopies fs seed strip dirs dirs' →
      ((∃ ix', scan fs dirs' seed strip = .ok ix') ↔ ∃ ix, scan fs dirs seed strip = .ok ix) ∧
      ∀ ix ix', scan fs dirs seed strip = .ok ix → scan fs dirs' seed strip = .ok ix' →
        SameContents ix ix' := by
  refine ⟨⟨?_, ?_⟩, scan_ok_iff hSeed hRead, ?_, ?_⟩
  · rintro ⟨id, path, existing, hError⟩
    refine Classical.byContradiction fun hPeace => ?_
    obtain ⟨ix, hOk⟩ := (scan_ok_iff hSeed hRead).mpr hPeace
    rw [hOk] at hError
    cases hError
  · intro hConflict
    rcases foldlM_cases hRead seed with ⟨ix, hOk⟩ | ⟨hError, _⟩
    · exact absurd hConflict (not_conflicting_of_scan hSeed hRead hOk)
    · exact hError
  · intro ix hScan
    exact ⟨hSeed.foldlM hRead hScan, get?_scan hRead hScan⟩
  · intro dirs' hRead' hAdds
    refine ⟨by rw [scan_ok_iff hSeed hRead', scan_ok_iff hSeed hRead, hAdds.conflicting_iff], ?_⟩
    intro ix ix' hScan hScan' id
    obtain ⟨hKeep, hCopy⟩ := hAdds.copy
    -- Both maps answer with some first copy, and all copies of one name have one text.
    cases hFirst : ix.get? id with
    | some a =>
        obtain ⟨hMem, rfl⟩ := mem_of_get? hFirst
        have hPart : a ∈ participants fs dirs seed strip :=
          List.mem_of_find?_eq_some ((get?_scan hRead hScan a.id).symm.trans hFirst)
        obtain ⟨c, hFound, hSame⟩ := copy_of_scan hSeed hRead' hScan' (hKeep a hPart)
        simp [hFound, hSame]
    | none =>
        have hNone : ix'.get? id = none := by
          rw [get?_scan hRead' hScan', List.find?_eq_none]
          intro e he hId
          obtain ⟨a, ha, hIdA, _⟩ := hCopy e he
          obtain ⟨c, hFound, _⟩ := copy_of_scan hSeed hRead hScan ha
          rw [hIdA, show e.id = id by simpa using hId, hFirst] at hFound
          cases hFound
        simp [hNone]

/-- Two directories with one schema each, which are copies of each other up to their declarations. -/
def twoCopies : Files where
  root := .directory [
    ("one", .directory [("a.json", .file (Text.utf8 "\x7b\"$id\": \"https://x/a\"\x7d"))]),
    ("two", .directory [
      ("copy.yaml", .file (Text.utf8 "$schema: http://json-schema.org/draft-07/schema#\n$id: https://x/a"))])]
  cwd := "/"

theorem scan_outcome_twoCopies : Distinct empty ∧ Readable twoCopies ["one", "two"] true ∧
    AddsOnlyCopies twoCopies empty true ["one", "two"] ["two", "one", "two"] ∧
    ∃ ix ix', scan twoCopies ["one", "two"] empty true = .ok ix ∧
      scan twoCopies ["two", "one", "two"] empty true = .ok ix' ∧ SameContents ix ix' := by
  have hOpen : (visits twoCopies ["two", "one", "two"] true).all (!·.isBlocked) = true := by
    decide +kernel
  have hOk : (scan twoCopies ["one", "two"] empty true).isOk = true := by decide +kernel
  have hSeed : Distinct empty := List.nodup_nil
  have hRead' : Readable twoCopies ["two", "one", "two"] true := by
    intro v hv
    simpa using List.all_eq_true.mp hOpen v hv
  have hRead : Readable twoCopies ["one", "two"] true := by
    intro v hv
    obtain ⟨raw, hRaw, hMet⟩ := List.mem_flatMap.mp hv
    refine hRead' v (List.mem_flatMap.mpr ⟨raw, ?_, hMet⟩)
    simp only [List.mem_cons, List.not_mem_nil, or_false] at hRaw ⊢
    tauto
  have hAdds : AddsOnlyCopies twoCopies empty true ["one", "two"] ["two", "one", "two"] := by
    refine ⟨by simp, fun raw hRaw hNew => ?_⟩
    simp only [List.mem_cons, List.not_mem_nil, or_false] at hRaw hNew
    tauto
  obtain ⟨_, _, _, hMore⟩ := scan_outcome hSeed hRead
  obtain ⟨hSucceeds, hSame⟩ := hMore ["two", "one", "two"] hRead' hAdds
  cases hScan : scan twoCopies ["one", "two"] empty true with
  | error f =>
      rw [hScan] at hOk
      cases hOk
  | ok ix =>
      obtain ⟨ix', hScan'⟩ := hSucceeds.mpr ⟨ix, hScan⟩
      exact ⟨hSeed, hRead, hAdds, ix, ix', rfl, hScan', hSame ix ix' hScan hScan'⟩

end Index
end Conform.Schema

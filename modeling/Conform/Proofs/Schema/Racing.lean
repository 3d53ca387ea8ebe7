import Conform.Proofs.Schema.Batch
import Conform.Proofs.Schema.Sharing

/-! Calls that race for one schema. Whatever comes in between their steps, a name that stands in the catalog
keeps its schema, and a call has its answer from the schema that stands there. -/
namespace Conform.Schema

namespace Register

variable {σ : Type} {c c' c'' : Register σ} {name path : Text} {s : σ}

/-- Whether all that stands in a register stands in another one under the same names. -/
def Keeps (c c' : Register σ) : Prop := ∀ name s, c.compiled.lookup name = some s → c'.compiled.lookup name = some s

theorem Keeps.refl (c : Register σ) : Keeps c c := fun _ _ h => h

theorem Keeps.trans (h : Keeps c c') (h' : Keeps c' c'') : Keeps c c'' := fun name s hHere => h' name s (h name s hHere)

theorem lookup_enter (c : Register σ) (name path : Text) (s : σ) :
    (c.enter name path s).1.compiled.lookup name = some (c.enter name path s).2 := by
  unfold enter
  cases hOld : c.compiled.lookup name with
  | some old => exact hOld
  | none => simp [List.lookup_append, hOld]

/-- What is entered takes the place of nothing. -/
theorem keeps_enter (c : Register σ) (name path : Text) (s : σ) : Keeps c (c.enter name path s).1 := by
  intro other old hHere
  unfold enter
  cases c.compiled.lookup name with
  | some _ => exact hHere
  | none => simp [List.lookup_append, hHere]

/-- What stands in a register stood there before, or is what was entered under that name. -/
theorem lookup_of_enter {other : Text} {own : σ} (h : (c.enter other path own).1.compiled.lookup name = some s) :
    c.compiled.lookup name = some s ∨ name = other ∧ own = s := by
  unfold enter at h
  cases hOld : c.compiled.lookup other with
  | some old =>
      rw [hOld] at h
      exact Or.inl h
  | none =>
      rw [hOld, List.lookup_append] at h
      rcases Option.or_eq_some_iff.mp h with hHere | ⟨-, hNew⟩
      · exact Or.inl hHere
      · obtain ⟨rfl, rfl⟩ : name = other ∧ s = own := by simpa using mem_of_lookup hNew
        exact Or.inr ⟨rfl, rfl⟩

end Register

namespace Sharing

open Register (Keeps)

/-- What stands in the catalog after a step stood there before, or is what the step has entered. -/
theorem keeps_change (x : Shared) (p : Point) : Keeps x.catalog (p.change x) := by
  cases p with
  | enter errand name path copy => exact Register.keeps_enter x.catalog name path copy
  | _ => exact Keeps.refl _

/-- The call that a schema is compiled for. -/
def Errand.call (name : Text) : Errand → Call
  | one data => .schema name data
  | all .. => .populate

/-- The call that has come to a point. -/
def Point.call : Point → Call
  | seek name data | locate name data | consult name data | ask name data | note name data _ => .schema name data
  | read errand name _ | compile errand name _ _ | enter errand name _ _ => errand.call name
  | check name data _ => .schema name (some data)
  | list | close .. => .populate

/-- Whether an answer to a call is made from the schema that stands in a catalog. -/
inductive Agrees (c : Register Copy) : Call → Answer → Prop where
  | schema {name : Text} {copy : Copy} (hBound : c.compiled.lookup name = some copy) :
      Agrees c (.schema name none) (.schema copy)
  | report {name : Text} {data : Document} {copy : Copy} {r : Report} (hBound : c.compiled.lookup name = some copy)
      (hRun : copy.schema.validate data = .ok r) : Agrees c (.schema name (some data)) (.report copy r)
  | count (n : Nat) : Agrees c .populate (.count n)

/-- Whether the schema that data are about to be validated against stands in a catalog. -/
def Point.Sound (c : Register Copy) : Point → Prop
  | check name _ copy => c.compiled.lookup name = some copy
  | _ => True

/-- What is known of a call by how far it has come. -/
def Fits (c : Register Copy) (call : Call) : Pool.Stage Point Failure Answer → Prop
  | .waiting => True
  | .working p => p.call = call ∧ p.Sound c
  | .ended (.ok a) => Agrees c call a
  | .ended (.error _) => True

variable {c c' : Register Copy} {call : Call} {name : Text} {copy : Copy} {errand : Errand}
  {stage : Pool.Stage Point Failure Answer} {here : Surroundings} {x : Shared} {p : Point}

theorem Agrees.mono {a : Answer} (h : Agrees c call a) (hKeeps : Keeps c c') : Agrees c' call a := by
  cases h with
  | schema hBound => exact .schema (hKeeps _ _ hBound)
  | report hBound hRun => exact .report (hKeeps _ _ hBound) hRun
  | count n => exact .count n

theorem Fits.mono (h : Fits c call stage) (hKeeps : Keeps c c') : Fits c' call stage := by
  cases stage with
  | waiting => trivial
  | working p =>
      obtain ⟨hCall, hSound⟩ := h
      refine ⟨hCall, ?_⟩
      cases p with
      | check name data copy => exact hKeeps name copy hSound
      | _ => trivial
  | ended r =>
      cases r with
      | error why => trivial
      | ok a => exact Agrees.mono h hKeeps

theorem fits_forward (rest listed : List (Text × Text)) (count : Nat) :
    Fits c .populate (.ofStep (Errand.forward rest listed count)) := by
  cases rest with
  | nil => exact ⟨rfl, trivial⟩
  | cons entry rest => exact ⟨rfl, trivial⟩

theorem fits_having (errand : Errand) (hBound : c.compiled.lookup name = some copy) :
    Fits c (errand.call name) (.ofStep (errand.having name copy)) := by
  cases errand with
  | all rest listed count => exact fits_forward ..
  | one data =>
      cases data with
      | none => exact .schema hBound
      | some d => exact ⟨rfl, hBound⟩

theorem fits_lacking (f : Failure) : Fits c (errand.call name) (.ofStep (errand.lacking f)) := by
  cases errand with
  | one data => trivial
  | all rest listed count =>
      rw [Errand.lacking]
      split
      · exact fits_forward ..
      · trivial

/-- Wherever a call is, its next step takes it to where it belongs. -/
theorem fits_goOn (hSound : p.Sound x.catalog) : Fits (p.change x) p.call (.ofStep (p.goOn here x)) := by
  cases p with
  | seek name data =>
      rw [Point.goOn]
      split
      · next hBound => exact fits_having (.one data) hBound
      · exact ⟨rfl, trivial⟩
  | locate name data =>
      rw [Point.goOn]
      split <;> exact ⟨rfl, trivial⟩
  | consult name data =>
      rw [Point.goOn]
      split <;> exact ⟨rfl, trivial⟩
  | ask name data => exact ⟨rfl, trivial⟩
  | note name data known => exact ⟨rfl, trivial⟩
  | read errand name path =>
      rw [Point.goOn]
      split
      · exact ⟨rfl, trivial⟩
      · exact fits_lacking _
  | compile errand name path bs =>
      rw [Point.goOn]
      split
      · exact ⟨rfl, trivial⟩
      · exact fits_lacking _
  | enter errand name path copy => exact fits_having errand (Register.lookup_enter ..)
  | check name data copy =>
      rw [Point.goOn]
      cases hRun : copy.schema.validate data with
      | error f => trivial
      | ok r => exact .report hSound hRun
  | list => exact fits_forward ..
  | close listed count => exact .count count

/-! ### Copies -/

/-- The copy that a call has in hand. -/
def held : Pool.Stage Point Failure Answer → Option Copy
  | .working (.enter _ _ _ copy) => some copy
  | .working (.check _ _ copy) => some copy
  | .ended (.ok (.schema copy)) => some copy
  | .ended (.ok (.report copy _)) => some copy
  | _ => none

theorem held_forward (rest listed : List (Text × Text)) (count : Nat) :
    held (.ofStep (Errand.forward rest listed count)) = none := by
  cases rest <;> rfl

theorem held_having {other : Copy} (h : held (.ofStep (errand.having name copy)) = some other) : copy = other := by
  cases errand with
  | all rest listed count => cases (held_forward ..).symm.trans h
  | one data => cases data <;> exact Option.some.inj h

theorem held_lacking (f : Failure) : held (.ofStep (errand.lacking f)) = none := by
  cases errand with
  | one data => rfl
  | all rest listed count =>
      rw [Errand.lacking]
      split
      · exact held_forward ..
      · rfl

/-- What stands in the catalog after a step stood there before, or the call had it in hand. -/
theorem bound_change (h : (p.change x).compiled.lookup name = some copy) :
    x.catalog.compiled.lookup name = some copy ∨ held (.working p) = some copy := by
  cases p with
  | enter errand other path own => exact (Register.lookup_of_enter h).imp_right fun hNew => congrArg some hNew.2
  | _ => exact Or.inl h

/-- What a call has in hand after a step it has just compiled, or had in hand before, or found in the catalog. -/
theorem held_goOn (h : held (.ofStep (p.goOn here x)) = some copy) : copy.time = x.time ∨
    held (.working p) = some copy ∨ ∃ name, (p.change x).compiled.lookup name = some copy := by
  cases p with
  | seek name data =>
      rw [Point.goOn] at h
      split at h
      · next hBound => exact Or.inr (Or.inr ⟨name, held_having h ▸ hBound⟩)
      · cases h
  | locate name data =>
      rw [Point.goOn] at h
      split at h <;> cases h
  | consult name data =>
      rw [Point.goOn] at h
      split at h <;> cases h
  | ask name data => cases h
  | note name data known => cases h
  | read errand name path =>
      rw [Point.goOn] at h
      split at h
      · cases h
      · cases (held_lacking _).symm.trans h
  | compile errand name path bs =>
      rw [Point.goOn] at h
      split at h
      · obtain rfl := Option.some.inj h
        exact Or.inl rfl
      · cases (held_lacking _).symm.trans h
  | enter errand name path own =>
      exact Or.inr (Or.inr ⟨name, held_having h ▸ Register.lookup_enter x.catalog name path own⟩)
  | check name data own =>
      rw [Point.goOn] at h
      cases hRun : own.schema.validate data with
      | error f =>
          rw [hRun] at h
          cases h
      | ok r =>
          rw [hRun] at h
          exact Or.inr (Or.inl h)
  | list => cases (held_forward ..).symm.trans h
  | close listed count => cases h

variable {world : Nat → Surroundings} {pool : Pool} {calls : List Call} {cancelled : Bool}
  {s s' : Pool.State Call Shared Point Failure Answer}

/-- Throughout a run every copy is older than the time that it is. So a schema that is compiled now is another copy
than all that stand in the catalog and all that some call has in hand. -/
theorem older_of_runs (h : Pool.Runs pool (worker world) (.start cancelled x calls) s)
    (hStart : ∀ name copy, x.catalog.compiled.lookup name = some copy → copy.time < x.time) :
    (∀ name copy, s.shared.catalog.compiled.lookup name = some copy → copy.time < s.shared.time) ∧
      ∀ job ∈ s.jobs, ∀ copy, held job.2 = some copy → copy.time < s.shared.time := by
  refine h.invariant
    (I := fun x => ∀ name copy, x.catalog.compiled.lookup name = some copy → copy.time < x.time)
    (P := fun _ x _ stage => ∀ copy, held stage = some copy → copy.time < x.time) hStart ?_ ?_ ?_ ?_ ?_
  · intro job hJob copy hHeld
    obtain ⟨call, -, rfl⟩ := List.mem_map.mp hJob
    cases hHeld
  · intro c x call _ copy hHeld
    cases c <;> cases call <;> cases hHeld
  · intro c x call p hBound hOwn
    have hChange : ∀ name copy, (p.change x).compiled.lookup name = some copy → copy.time < x.time := by
      intro name copy hHere
      rcases bound_change hHere with hBefore | hHeld
      · exact hBound name copy hBefore
      · exact hOwn copy hHeld
    refine ⟨fun name copy hHere => Nat.lt_succ_of_lt (hChange name copy hHere), fun copy hHeld => ?_⟩
    rcases held_goOn hHeld with hNow | hBefore | ⟨name, hHere⟩
    · exact hNow ▸ Nat.lt_succ_self _
    · exact Nat.lt_succ_of_lt (hOwn copy hBefore)
    · exact Nat.lt_succ_of_lt (hChange name copy hHere)
  · exact fun c x p call stage hOwn copy hHeld => Nat.lt_succ_of_lt (hOwn copy hHeld)
  · exact fun c x call stage hOwn => hOwn

theorem keeps_of_runs (h : Pool.Runs pool (worker world) s s') : Keeps s.shared.catalog s'.shared.catalog :=
  (h.invariant (I := fun x => Keeps s.shared.catalog x.catalog) (P := fun _ _ _ _ => True) (Keeps.refl _)
    (fun _ _ => trivial) (fun _ _ _ _ => trivial) (fun _ x _ p hKeeps _ => ⟨hKeeps.trans (keeps_change x p), trivial⟩)
    (fun _ _ _ _ _ _ => trivial) fun _ _ _ _ _ => trivial).1

/-- Every call fits what stands in the catalog, throughout a run. -/
theorem fits_of_runs (h : Pool.Runs pool (worker world) (.start cancelled x calls) s) :
    ∀ job ∈ s.jobs, Fits s.shared.catalog job.1 job.2 := by
  refine (h.invariant (I := fun _ => True) (P := fun _ x call stage => Fits x.catalog call stage)
    trivial ?_ ?_ ?_ ?_ ?_).2
  · intro job hJob
    obtain ⟨call, -, rfl⟩ := List.mem_map.mp hJob
    trivial
  · intro c x call _
    cases c with
    | true => trivial
    | false =>
        cases call with
        | schema name data => exact ⟨rfl, trivial⟩
        | populate => exact ⟨rfl, trivial⟩
  · rintro c x _ p - ⟨rfl, hSound⟩
    exact ⟨trivial, fits_goOn hSound⟩
  · exact fun c x p call stage hFits => hFits.mono (keeps_change x p)
  · exact fun c x call stage hFits => hFits

/-- The copy that an answer is or is made from. -/
def Answer.copy? : Answer → Option Copy
  | schema copy | report copy _ => some copy
  | count _ => none

/-- Whether some call for a name is over and came away with a copy. -/
def Gives (s : Pool.State Call Shared Point Failure Answer) (name : Text) (copy : Copy) : Prop :=
  ∃ data a, (Call.schema name data, .ended (.ok a)) ∈ s.jobs ∧ a.copy? = some copy

theorem bound_of_gives (h : Pool.Runs pool (worker world) (.start cancelled x calls) s) (hGives : Gives s name copy) :
    s.shared.catalog.compiled.lookup name = some copy := by
  obtain ⟨data, a, hJob, hCopy⟩ := hGives
  have hAgrees : Agrees s.shared.catalog (.schema name data) a := fits_of_runs h _ hJob
  cases hAgrees with
  | schema hBound => exact Option.some.inj hCopy ▸ hBound
  | report hBound _ => exact Option.some.inj hCopy ▸ hBound

/-- Whatever many calls do at the same time, a name that stands in the catalog keeps its copy for good, every
answer is made from the copy that stands under its name, and so all calls for one name come away with one copy. -/
theorem one_copy_per_name (hFirst : Pool.Runs pool (worker world) (.start cancelled x calls) s)
    (hLater : Pool.Runs pool (worker world) s s') :
    (∀ name copy, s.shared.catalog.compiled.lookup name = some copy →
      s'.shared.catalog.compiled.lookup name = some copy) ∧
    (∀ call a, (call, .ended (.ok a)) ∈ s.jobs → Agrees s.shared.catalog call a) ∧
    ∀ name copy copy', Gives s name copy → Gives s' name copy' → copy = copy' := by
  have hKeeps := keeps_of_runs hLater
  refine ⟨hKeeps, fun call a hJob => fits_of_runs hFirst _ hJob, fun name copy copy' hGives hGives' => ?_⟩
  have hBound := hKeeps name copy (bound_of_gives hFirst hGives)
  have hBound' := bound_of_gives (hFirst.trans hLater) hGives'
  exact Option.some.inj (hBound.symm.trans hBound')

theorem gives_of_held {data : Option Document} (hJob : (Call.schema name data, stage) ∈ s.jobs)
    (hEnded : stage.isEnded = true) (hHeld : held stage = some copy) : Gives s name copy := by
  cases stage with
  | ended r =>
      cases r with
      | error why => cases hHeld
      | ok a =>
          refine ⟨data, a, hJob, ?_⟩
          cases a with
          | schema | report => exact hHeld
          | count n => cases hHeld
  | _ => cases hEnded

/-- A provider of one schema, which is asked for twice. -/
def alpha : Nat → Surroundings := fun _ =>
  ⟨⟨fun path => if path == Text.ofString "a.yaml" then some Batch.anything else none, [("alpha", "a.yaml")]⟩, false⟩

def twice : List Call := [.schema "alpha" none, .schema "alpha" none]

/-- Two calls that have both compiled the schema before either has entered it come away with one copy. -/
theorem one_copy_per_name_twice : ∃ pool s s', Pool.Runs pool (worker alpha) (.start false ⟨⟨[], [], none⟩, 0⟩ twice) s ∧
    Pool.Runs pool (worker alpha) s s' ∧
    (∃ job ∈ s.jobs, ∃ job' ∈ s.jobs, ∃ copy copy', held job.2 = some copy ∧ held job'.2 = some copy' ∧
      copy.time ≠ copy'.time) ∧
    ∃ copy, Gives s' "alpha" copy ∧ ∀ job ∈ s'.jobs, job.2.isEnded = true ∧ held job.2 = some copy := by
  let pool : Pool := ⟨2, by decide⟩
  let start : Pool.State Call Shared Point Failure Answer := .start false ⟨⟨[], [], none⟩, 0⟩ twice
  have hRace : ((start.follow pool (worker alpha) (List.replicate 8 [0, 1]).flatten).any fun s =>
      (s.jobs.map fun job => (held job.2).map Copy.time) == [some 12, some 13] &&
      (s.follow pool (worker alpha) [0, 1]).any fun s' =>
        s'.jobs.all fun job => job.2.isEnded && (held job.2).isSome) = true := by decide +kernel
  obtain ⟨s, hStart, hRace⟩ := (Option.any_eq_true ..).mp hRace
  obtain ⟨hTimes, hRace⟩ := Bool.and_eq_true_iff.mp hRace
  obtain ⟨s', hRest, hEnds⟩ := (Option.any_eq_true ..).mp hRace
  have hFirst := Pool.runs_of_follow hStart
  have hLater := Pool.runs_of_follow hRest
  have hItems : s'.jobs.map Prod.fst = twice := Pool.Runs.items_eq (hFirst.trans hLater)
  have hHeld : ∀ t ∈ [some 12, some 13], ∃ job ∈ s.jobs, (held job.2).map Copy.time = t := fun t hTime =>
    List.mem_map.mp ((beq_iff_eq.mp hTimes).symm ▸ hTime)
  obtain ⟨job, hJob, hNow⟩ := hHeld (some 12) (by simp)
  obtain ⟨job', hJob', hNow'⟩ := hHeld (some 13) (by simp)
  obtain ⟨copy, hCopy, hTime⟩ := Option.map_eq_some_iff.mp hNow
  obtain ⟨copy', hCopy', hTime'⟩ := Option.map_eq_some_iff.mp hNow'
  have hGives : ∀ job ∈ s'.jobs, job.2.isEnded = true ∧ ∃ copy, held job.2 = some copy ∧ Gives s' "alpha" copy := by
    rintro ⟨call, stage⟩ hJob
    obtain ⟨hEnded, hHeld⟩ := Bool.and_eq_true_iff.mp (List.all_eq_true.mp hEnds _ hJob)
    obtain ⟨copy, hHeld⟩ := Option.isSome_iff_exists.mp hHeld
    have hCall : call ∈ twice := hItems ▸ List.mem_map_of_mem hJob
    obtain rfl : call = .schema "alpha" none := by simpa [twice] using hCall
    exact ⟨hEnded, copy, hHeld, gives_of_held hJob hEnded hHeld⟩
  have hSome : Call.schema "alpha" none ∈ s'.jobs.map Prod.fst := hItems ▸ List.mem_cons_self
  obtain ⟨last, hLast, -⟩ := List.mem_map.mp hSome
  obtain ⟨-, own, -, hOwn⟩ := hGives last hLast
  obtain ⟨-, -, hOne⟩ := one_copy_per_name (hFirst.trans hLater) .refl
  refine ⟨pool, s, s', hFirst, hLater, ⟨job, hJob, job', hJob', copy, copy', hCopy, hCopy', by omega⟩, own, hOwn, ?_⟩
  intro job hJob
  obtain ⟨hEnded, other, hHeld, hOther⟩ := hGives job hJob
  exact ⟨hEnded, hOne _ _ _ hOther hOwn ▸ hHeld⟩

end Sharing
end Conform.Schema

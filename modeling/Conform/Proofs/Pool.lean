import Conform.Pool
import Mathlib.Algebra.GroupWithZero.Nat
import Mathlib.Data.List.Basic
import Mathlib.Logic.Relation

/-! Runs of a pool, step by step. Workers take items when they are free, their steps come in any order,
and at any time somebody may call the run off. What a run comes to is what every order of the steps
comes to, so statements about runs are made for all of them at once. -/
namespace Conform.Pool

/-- What a worker does with an item, cut at the places where other workers may come in between. -/
structure Worker (α σ π ε β : Type) where
  /-- Where the work on an item begins. -/
  first : α → π
  /-- A step from a point, given whether the run was called off and what all workers share: what they
  share afterwards, and the next point or the result. -/
  step : Bool → σ → π → σ × (π ⊕ Except ε β)

/-- How far the job for an item has come. -/
inductive Stage (π ε β : Type) where
  | waiting
  | working (point : π)
  | ended (result : Except (Stop ε) β)

/-- A pool in the middle of a run. -/
structure State (α σ π ε β : Type) where
  cancelled : Bool
  shared : σ
  /-- The items with their jobs. -/
  jobs : List (α × Stage π ε β)

variable {α σ π ε β : Type}

namespace Stage

/-- The stage after a step. -/
def ofStep : π ⊕ Except ε β → Stage π ε β
  | .inl p => working p
  | .inr r => ended (r.mapError .failed)

def isWorking : Stage π ε β → Bool
  | working _ => true
  | _ => false

def isEnded : Stage π ε β → Bool
  | ended _ => true
  | _ => false

/-- The result that a job has come to. -/
def result? : Stage π ε β → Option β
  | ended (.ok r) => some r
  | _ => none

/-- The stage of a job whose item a worker has just taken. What was called off is not begun. -/
def taken (w : Worker α σ π ε β) (cancelled : Bool) (a : α) : Stage π ε β :=
  if cancelled then ended (.error .cancelled) else working (w.first a)

end Stage

namespace State

/-- A pool before anything was done. -/
def start (cancelled : Bool) (shared : σ) (items : List α) : State α σ π ε β :=
  ⟨cancelled, shared, items.map (·, .waiting)⟩

/-- How many workers have something to do. -/
def busy (s : State α σ π ε β) : Nat := s.jobs.countP (·.2.isWorking)

/-- Whether the run is over with these results, in the order of the items. -/
def Returns (s : State α σ π ε β) (rs : List β) : Prop :=
  s.jobs.map Prod.snd = rs.map fun r => .ended (.ok r)

/-- Whether the run will have no results, and why. -/
def Stops (s : State α σ π ε β) (why : Stop ε) : Prop := ∃ a, (a, .ended (.error why)) ∈ s.jobs

end State

/-- A step of a run: somebody calls it off, a free worker takes an item, or a worker goes on. -/
inductive Step (pool : Pool) (w : Worker α σ π ε β) : State α σ π ε β → State α σ π ε β → Prop where
  | callOff (s : State α σ π ε β) : Step pool w s { s with cancelled := true }
  | take {c : Bool} {x : σ} {before after : List (α × Stage π ε β)} {a : α}
      (hFree : State.busy ⟨c, x, before ++ (a, .waiting) :: after⟩ < pool.workers) :
      Step pool w ⟨c, x, before ++ (a, .waiting) :: after⟩ ⟨c, x, before ++ (a, .taken w c a) :: after⟩
  | work {c : Bool} {x : σ} {before after : List (α × Stage π ε β)} {a : α} {p : π} :
      Step pool w ⟨c, x, before ++ (a, .working p) :: after⟩
        ⟨c, (w.step c x p).1, before ++ (a, .ofStep (w.step c x p).2) :: after⟩

/-- Whether a worker that nobody comes in between gets from a point to a result, and what is shared then. -/
inductive Worker.Completes (w : Worker α σ π ε β) (c : Bool) : σ → π → σ → Except ε β → Prop where
  | last {x : σ} {p : π} {r : Except ε β} (hStep : (w.step c x p).2 = .inr r) : Completes w c x p (w.step c x p).1 r
  | next {x y : σ} {p q : π} {r : Except ε β} (hStep : (w.step c x p).2 = .inl q)
      (hRest : Completes w c (w.step c x p).1 q y r) : Completes w c x p y r

/-- Any number of steps. -/
abbrev Runs (pool : Pool) (w : Worker α σ π ε β) : State α σ π ε β → State α σ π ε β → Prop :=
  Relation.ReflTransGen (Step pool w)

variable {pool : Pool} {w : Worker α σ π ε β} {s s' : State α σ π ε β} {rs : List β}

/-- Jobs change, items do not. -/
theorem Step.items_eq (h : Step pool w s s') : s'.jobs.map Prod.fst = s.jobs.map Prod.fst := by
  cases h <;> simp

theorem Runs.items_eq (h : Runs pool w s s') : s'.jobs.map Prod.fst = s.jobs.map Prod.fst := by
  induction h with
  | refl => rfl
  | tail _ last ih => exact last.items_eq.trans ih

theorem Step.of_eq {c : Bool} {x : σ} {p : π} {next : π ⊕ Except ε β} (h : (w.step c x p).2 = next) {a : α}
    {before after : List (α × Stage π ε β)} :
    Step pool w ⟨c, x, before ++ (a, .working p) :: after⟩
      ⟨c, (w.step c x p).1, before ++ (a, .ofStep next) :: after⟩ := h ▸ .work

/-- The state after a step of the job at some place, if that job can do one. -/
def State.advance (pool : Pool) (w : Worker α σ π ε β) (s : State α σ π ε β) (place : Nat) : Option (State α σ π ε β) :=
  match s.jobs[place]? with
  | some (a, .waiting) =>
    if s.busy < pool.workers then some { s with jobs := s.jobs.set place (a, .taken w s.cancelled a) } else none
  | some (a, .working p) =>
    let next := w.step s.cancelled s.shared p
    some { s with shared := next.1, jobs := s.jobs.set place (a, .ofStep next.2) }
  | _ => none

theorem step_of_advance {place : Nat} (h : s.advance pool w place = some s') : Step pool w s s' := by
  obtain ⟨c, x, jobs⟩ := s
  unfold State.advance at h
  cases hJob : jobs[place]? with
  | none =>
      rw [hJob] at h
      cases h
  | some job =>
      obtain ⟨before, after, rfl, hSet⟩ : ∃ before after, jobs = before ++ job :: after ∧
          ∀ job', jobs.set place job' = before ++ job' :: after := by
        obtain ⟨hPlace, hHere⟩ := List.getElem?_eq_some_iff.mp hJob
        have hSet : ∀ job', jobs.set place job' = jobs.take place ++ job' :: jobs.drop (place + 1) := fun job' =>
          List.set_eq_take_append_cons_drop.trans (if_pos hPlace)
        exact ⟨_, _, by rw [← hSet, ← hHere, List.set_getElem_self], hSet⟩
      obtain ⟨a, stage⟩ := job
      rw [hJob] at h
      simp only [hSet] at h
      cases stage with
      | waiting =>
          dsimp only at h
          split at h
          · next hFree =>
              obtain rfl := Option.some.inj h
              exact .take hFree
          · cases h
      | working p =>
          obtain rfl := Option.some.inj h
          exact .work
      | ended r => cases h

/-- The state after steps of the jobs at some places, one after the other. -/
def State.follow (pool : Pool) (w : Worker α σ π ε β) (s : State α σ π ε β) (places : List Nat) :
    Option (State α σ π ε β) :=
  places.foldlM (State.advance pool w) s

theorem runs_of_follow {places : List Nat} (h : s.follow pool w places = some s') : Runs pool w s s' := by
  unfold State.follow at h
  induction places generalizing s with
  | nil =>
      obtain rfl := Option.some.inj h
      exact .refl
  | cons place rest ih =>
      rw [List.foldlM_cons] at h
      obtain ⟨next, hStep, hRest⟩ := Option.bind_eq_some_iff.mp h
      exact .head (step_of_advance hStep) (ih hRest)

/-- A worker may be left alone until its item is done. -/
theorem Worker.Completes.runs {c : Bool} {x y : σ} {p : π} {r : Except ε β} (h : w.Completes c x p y r) {a : α}
    {before after : List (α × Stage π ε β)} :
    Runs pool w ⟨c, x, before ++ (a, .working p) :: after⟩
      ⟨c, y, before ++ (a, .ended (r.mapError .failed)) :: after⟩ := by
  induction h with
  | last hStep => exact .single (.of_eq hStep)
  | next hStep _ ih => exact .head (.of_eq hStep) ih

/-- A run of one item is what its worker does alone. -/
theorem Worker.Completes.runs_start {x y : σ} {a : α} {r : Except ε β} (h : w.Completes false x (w.first a) y r)
    (pool : Pool) : Runs pool w (.start false x [a]) ⟨false, y, [(a, .ended (r.mapError .failed))]⟩ := by
  have hFree : State.busy (⟨false, x, [] ++ (a, .waiting) :: []⟩ : State α σ π ε β) < pool.workers := pool.workers_pos
  have hTake : Step pool w ⟨false, x, [] ++ (a, .waiting) :: []⟩ ⟨false, x, [] ++ (a, .working (w.first a)) :: []⟩ :=
    .take hFree
  exact .head hTake h.runs

/-- Properties of what the workers share, and of jobs with what they share, that hold at first and that no step of
any worker ends, hold throughout a run. -/
theorem Runs.invariant {I : σ → Prop} {P : Bool → σ → α → Stage π ε β → Prop} (h : Runs pool w s s')
    (hShared : I s.shared) (hStart : ∀ job ∈ s.jobs, P s.cancelled s.shared job.1 job.2)
    (hTaken : ∀ c x a, P c x a .waiting → P c x a (.taken w c a))
    (hWork : ∀ c x a p, I x → P c x a (.working p) →
      I (w.step c x p).1 ∧ P c (w.step c x p).1 a (.ofStep (w.step c x p).2))
    (hOthers : ∀ c x p a stage, P c x a stage → P c (w.step c x p).1 a stage)
    (hOff : ∀ c x a stage, P c x a stage → P true x a stage) :
    I s'.shared ∧ ∀ job ∈ s'.jobs, P s'.cancelled s'.shared job.1 job.2 := by
  induction h with
  | refl => exact ⟨hShared, hStart⟩
  | @tail middle last _ step ih =>
      obtain ⟨hShared, hJobs⟩ := ih
      cases step with
      | callOff => exact ⟨hShared, fun job hJob => hOff _ _ _ _ (hJobs job hJob)⟩
      | @take c x before after a =>
          refine ⟨hShared, fun job hJob => ?_⟩
          rcases List.mem_append.mp hJob with hBefore | hRest
          · exact hJobs job (List.mem_append_left _ hBefore)
          · rcases List.mem_cons.mp hRest with rfl | hAfter
            · exact hTaken c x a (hJobs (a, .waiting) (by simp))
            · exact hJobs job (List.mem_append_right _ (List.mem_cons_of_mem _ hAfter))
      | @work c x before after a p =>
          obtain ⟨hNext, hDone⟩ := hWork c x a p hShared (hJobs (a, .working p) (by simp))
          refine ⟨hNext, fun job hJob => ?_⟩
          rcases List.mem_append.mp hJob with hBefore | hRest
          · exact hOthers c x p _ _ (hJobs job (List.mem_append_left _ hBefore))
          · rcases List.mem_cons.mp hRest with rfl | hAfter
            · exact hDone
            · exact hOthers c x p _ _ (hJobs job (List.mem_append_right _ (List.mem_cons_of_mem _ hAfter)))

/-- A property of jobs that they have at first, and that each step keeps, is one of all jobs throughout a
run. It may come to hold because the run was called off, but not cease to. -/
theorem Runs.forall_jobs {P : Bool → α → Stage π ε β → Prop} (h : Runs pool w s s')
    (hStart : ∀ job ∈ s.jobs, P s.cancelled job.1 job.2) (hTaken : ∀ c a, P c a .waiting → P c a (.taken w c a))
    (hWork : ∀ c x a p, P c a (.working p) → P c a (.ofStep (w.step c x p).2))
    (hOff : ∀ c a stage, P c a stage → P true a stage) :
    ∀ job ∈ s'.jobs, P s'.cancelled job.1 job.2 :=
  (h.invariant (I := fun _ => True) (P := fun c _ => P c) trivial hStart (fun c _ => hTaken c)
    (fun c x a p _ hJob => ⟨trivial, hWork c x a p hJob⟩) (fun _ _ _ _ _ => id) fun c _ => hOff c).2

/-- A run that was called off beforehand begins no job. -/
theorem Runs.refused {x : σ} {items : List α} (h : Runs pool w (.start true x items) s) :
    ∀ job ∈ s.jobs, job.2 = .waiting ∨ job.2 = .ended (.error .cancelled) := by
  have hAll : ∀ job ∈ s.jobs, s.cancelled = true ∧ (job.2 = .waiting ∨ job.2 = .ended (.error .cancelled)) := by
    refine h.forall_jobs (P := fun c _ stage => c = true ∧ (stage = .waiting ∨ stage = .ended (.error .cancelled)))
      ?_ ?_ ?_ ?_
    · intro job hJob
      obtain ⟨a, -, rfl⟩ := List.mem_map.mp hJob
      exact ⟨rfl, Or.inl rfl⟩
    · rintro c a ⟨rfl, -⟩
      exact ⟨rfl, Or.inr rfl⟩
    · rintro c x a p ⟨-, hStage | hStage⟩ <;> cases hStage
    · exact fun c a stage hStage => ⟨rfl, hStage.2⟩
  exact fun job hJob => (hAll job hJob).2

section Progress

variable (rank : π → Nat)

/-- How many steps a job may still take, if each step of a worker lowers the rank of its point. -/
def Stage.remaining (w : Worker α σ π ε β) (a : α) : Stage π ε β → Nat
  | .waiting => rank (w.first a) + 2
  | .working p => rank p + 1
  | .ended _ => 0

/-- How many steps a run may still take. -/
def State.remaining (w : Worker α σ π ε β) (s : State α σ π ε β) : Nat :=
  (s.jobs.map fun job => job.2.remaining rank w job.1).sum

variable {rank} (hRank : ∀ c x p q, (w.step c x p).2 = .inl q → rank q < rank p)

include hRank in
/-- As long as a job is not over, some worker can do something. -/
theorem exists_step (pool : Pool) {job : α × Stage π ε β} (hJob : job ∈ s.jobs) (hOpen : job.2.isEnded = false) :
    ∃ s', Step pool w s s' ∧ s'.cancelled = s.cancelled ∧ s'.remaining rank w < s.remaining rank w := by
  obtain ⟨c, x, jobs⟩ := s
  by_cases hWorking : ∃ a p, (a, Stage.working p) ∈ jobs
  · obtain ⟨a, p, hMem⟩ := hWorking
    obtain ⟨before, after, rfl⟩ := List.append_of_mem hMem
    refine ⟨_, .work, rfl, ?_⟩
    have hLess : (Stage.ofStep (w.step c x p).2).remaining rank w a < rank p + 1 := by
      cases hStep : (w.step c x p).2 with
      | inl q => exact Nat.succ_lt_succ (hRank c x p q hStep)
      | inr r => exact Nat.succ_pos _
    simpa [State.remaining, Stage.remaining] using hLess
  · -- Nobody is busy, so there is a worker for the job, which waits.
    obtain ⟨a, stage⟩ := job
    have hIdle : State.busy (⟨c, x, jobs⟩ : State α σ π ε β) = 0 := by
      refine List.countP_eq_zero.mpr fun other hOther hBusy => hWorking ?_
      obtain ⟨b, stage⟩ := other
      cases stage with
      | working p => exact ⟨b, p, hOther⟩
      | _ => cases hBusy
    cases stage with
    | working p => exact absurd ⟨a, p, hJob⟩ hWorking
    | ended r => cases hOpen
    | waiting =>
        obtain ⟨before, after, rfl⟩ := List.append_of_mem hJob
        refine ⟨_, .take (hIdle ▸ pool.workers_pos), rfl, ?_⟩
        have hLess : (Stage.taken w c a).remaining rank w a < rank (w.first a) + 2 := by
          cases c
          · exact Nat.lt_succ_self _
          · exact Nat.succ_pos _
        simpa [State.remaining, Stage.remaining] using hLess

include hRank in
/-- Every run can be carried on to its end, without its being called off. -/
theorem exists_end (pool : Pool) (s : State α σ π ε β) :
    ∃ s', Runs pool w s s' ∧ s'.cancelled = s.cancelled ∧ ∀ job ∈ s'.jobs, job.2.isEnded = true := by
  induction hLeft : s.remaining rank w using Nat.strongRecOn generalizing s with
  | ind n ih =>
      by_cases hOver : ∀ job ∈ s.jobs, job.2.isEnded = true
      · exact ⟨s, .refl, rfl, hOver⟩
      · push Not at hOver
        obtain ⟨job, hJob, hOpen⟩ := hOver
        obtain ⟨next, hStep, hSame, hLess⟩ := exists_step hRank pool hJob (Bool.eq_false_iff.mpr hOpen)
        obtain ⟨s', hRuns, hSame', hOver⟩ := ih _ (hLeft ▸ hLess) next rfl
        exact ⟨s', .head hStep hRuns, hSame'.trans hSame, hOver⟩

end Progress

/-- A run that is over has results unless some job ended without one. -/
theorem State.returns_of_isEnded (hOver : ∀ job ∈ s.jobs, job.2.isEnded = true) (hNone : ∀ why, ¬ s.Stops why) :
    ∃ rs, s.Returns rs := by
  obtain ⟨c, x, jobs⟩ := s
  simp only [State.Stops, State.Returns] at hOver hNone ⊢
  induction jobs with
  | nil => exact ⟨[], rfl⟩
  | cons job rest ih =>
      obtain ⟨hJob, hRest⟩ := List.forall_mem_cons.mp hOver
      obtain ⟨rs, hResults⟩ := ih hRest fun why ⟨a, hMem⟩ => hNone why ⟨a, List.mem_cons_of_mem _ hMem⟩
      obtain ⟨a, stage⟩ := job
      cases stage with
      | ended r =>
          cases r with
          | error why => exact absurd ⟨a, List.mem_cons_self⟩ (hNone why)
          | ok r => exact ⟨r :: rs, by simp [hResults]⟩
      | _ => cases hJob

theorem State.returns_of_isSome (h : ∀ job ∈ s.jobs, job.2.result?.isSome = true) :
    s.Returns (s.jobs.filterMap (·.2.result?)) := by
  obtain ⟨c, x, jobs⟩ := s
  simp only [State.Returns] at h ⊢
  induction jobs with
  | nil => rfl
  | cons job rest ih =>
      obtain ⟨hJob, hRest⟩ := List.forall_mem_cons.mp h
      obtain ⟨a, stage⟩ := job
      match stage, hJob with
      | .ended (.ok r), _ =>
        have hFirst : ((a, .ended (.ok r)) :: rest : List (α × Stage π ε β)).filterMap (·.2.result?) =
            r :: rest.filterMap (·.2.result?) := List.filterMap_cons_some rfl
        rw [hFirst, List.map_cons, List.map_cons, ih hRest]

/-- Where there are results, each stands at the place of its item. -/
theorem State.Returns.forall₂ {P : α → Stage π ε β → Prop} (h : s.Returns rs)
    (hJobs : ∀ job ∈ s.jobs, P job.1 job.2) :
    List.Forall₂ (fun a r => P a (.ended (.ok r))) (s.jobs.map Prod.fst) rs := by
  obtain ⟨c, x, jobs⟩ := s
  simp only [State.Returns] at h hJobs ⊢
  induction jobs generalizing rs with
  | nil =>
      cases rs with
      | nil => exact .nil
      | cons r rs => cases h
  | cons job rest ih =>
      cases rs with
      | nil => cases h
      | cons r rs =>
          obtain ⟨hJob, hRest⟩ := List.forall_mem_cons.mp hJobs
          obtain ⟨a, stage⟩ := job
          obtain ⟨rfl, hTail⟩ := List.cons_eq_cons.mp h
          exact .cons hJob (ih hTail hRest)

/-- A run that nobody calls off does every job, and its first failure is that of some item. -/
theorem run_open (pool : Pool) (job : α → Except ε β) (items : List α) :
    pool.run false job items = (items.mapM job).mapError .failed := by
  unfold run
  simp only [Bool.false_eq_true, if_false]
  induction items with
  | nil => rfl
  | cons a rest ih =>
      rw [List.mapM_cons, List.mapM_cons, ih]
      cases job a with
      | error e => rfl
      | ok b => cases rest.mapM job <;> rfl

end Conform.Pool

import Conform.Failure

/-!
Pools of workers and deadlines. Jobs are independent of each other, so a run is described by its
results alone: they stand in the order of the items, whichever worker is done first.
-/
namespace Conform

/-- A span of time in seconds. -/
inductive Seconds where
  | whole (n : Int)
  | fraction (x : Double)

namespace Seconds

def display : Seconds → Text
  | whole n => Text.ofInt n
  | fraction x => x.display

def isPositive : Seconds → Bool
  | whole n => 0 < n
  | fraction x => !x.le .zero

/-- Whether the span is over before any worker can have done anything: it is not a millionth of a
second, and what is no number counts so too. -/
def isInstant : Seconds → Bool
  | whole n => n ≤ 0
  | fraction x => !Double.le (.ofDecimal false 1 (-6)) x

/-- Refuses a span that is not positive. -/
def checkPositive (s : Seconds) : Except Failure Unit :=
  if s.isPositive then .ok () else .error (.notPositive .timeout)

/-- Waits for work for this long; none stands for work that never ends. -/
def await {α : Type} (s : Seconds) (work : Option α) : Except Failure α := do
  s.checkPositive
  match work with
  | some a => return a
  | none => throw (.timeout s.display)

end Seconds

/-- A number of workers. -/
structure Pool where
  workers : Nat
  workers_pos : 0 < workers

namespace Pool

/-- Why a run of jobs has no results. -/
inductive Stop (ε : Type) where
  /-- The run was called off before the job began. -/
  | cancelled
  /-- A job failed. -/
  | failed (e : ε)

/-- A pool with a positive number of workers; a failure names the setting that gave the number. -/
def ofWorkers (setting : Quantity) (n : Int) : Except Failure Pool :=
  if h : 0 < n then .ok ⟨n.toNat, by omega⟩ else .error (.notPositive setting)

variable {α β ε : Type}

/-- Does a job for each item, unless all of it was called off. The first failure ends the run. -/
def run (_pool : Pool) (cancelled : Bool) (job : α → Except ε β) (items : List α) :
    Except (Stop ε) (List β) :=
  items.mapM fun item =>
    if cancelled then .error .cancelled else (job item).mapError .failed

end Pool
end Conform

/-
SealedScript/Schedule.lean

Timers.  A task is armed for a moment and either repeats at a fixed interval,
forever or a given number of times, or fires once.  Moments are nanoseconds
since the start.  The scheduler only keeps the armed tasks; whoever runs them
takes out those that are due and puts back those that go on.
-/
import SealedScript.Program

namespace SealedScript

/-- How a task was armed. -/
inductive Trigger where
  | every (interval : Nat)
  | once (moment : Nat)
  deriving DecidableEq, Repr, Inhabited

/-- An armed timer.  `runsLeft` is `none` for a task that fires forever. -/
structure Task where
  id : Nat
  action : Stmt
  trigger : Trigger
  nextRun : Nat
  runsLeft : Option Nat
  deriving Repr, Inhabited

namespace Task

/-- The task after one firing, and whether it goes on.  The next moment follows
from the planned one and not from the moment of the firing, so a period does not
drift. -/
def tick (t : Task) : Bool × Task :=
  match t.trigger with
  | .once _ => (false, t)
  | .every interval =>
    match t.runsLeft with
    | none => (true, { t with nextRun := t.nextRun + interval })
    | some n =>
      if n - 1 = 0 then (false, { t with runsLeft := some 0 })
      else (true, { t with runsLeft := some (n - 1), nextRun := t.nextRun + interval })

/-- A firing changes a task but not its number. -/
theorem id_tick (t : Task) : t.tick.2.id = t.id := by
  unfold tick
  split
  · rfl
  · split
    · rfl
    · split
      · rfl
      · rfl

/-- Whether the whole run ends when this task does not go on: only a counted
repeating task ends it. -/
def halts (t : Task) : Bool :=
  match t.trigger with
  | .once _ => false
  | .every _ => t.runsLeft.isSome

/-- Whether `a` fires before `b`: earlier moments first, then earlier tasks. -/
def before (a b : Task) : Bool :=
  a.nextRun < b.nextRun || (a.nextRun == b.nextRun && a.id ≤ b.id)

end Task

/-- The armed tasks and the number that the next one gets.  The first number is one, so
they all fit into 32 bits as long as fewer than 2^32 - 1 tasks have been armed. -/
structure Scheduler where
  tasks : List Task := []
  nextId : Nat := 1
  deriving Repr, Inhabited

namespace Scheduler

/-- Arms a task; the result also tells its number. -/
def add (s : Scheduler) (action : Stmt) (trigger : Trigger) (nextRun : Nat) (runsLeft : Option Nat) :
    Nat × Scheduler :=
  (s.nextId, { tasks := s.tasks ++ [⟨s.nextId, action, trigger, nextRun, runsLeft⟩], nextId := s.nextId + 1 })

/-- Arms a repeating task at the moment `now`. -/
def addEvery (s : Scheduler) (now : Nat) (action : Stmt) (interval : Nat) (runs : Option Nat) : Nat × Scheduler :=
  s.add action (.every interval) (now + interval) runs

/-- Arms a task that fires once. -/
def addOnce (s : Scheduler) (action : Stmt) (moment : Nat) : Nat × Scheduler :=
  s.add action (.once moment) moment (some 1)

/-- Disarms a task; the result also tells whether it was armed. -/
def cancel (s : Scheduler) (id : Nat) : Bool × Scheduler :=
  (s.tasks.any (·.id == id), { s with tasks := s.tasks.filter (·.id != id) })

/-- Disarms all tasks. -/
def clear (s : Scheduler) : Scheduler := { s with tasks := [] }

/-- The earliest moment at which a task is due. -/
def nextWakeup (s : Scheduler) : Option Nat := (s.tasks.map Task.nextRun).min?

/-- Takes out the tasks that are due, in the order in which they fire. -/
def takeReady (s : Scheduler) (now : Nat) : List Task × Scheduler :=
  ((s.tasks.filter (·.nextRun ≤ now)).mergeSort Task.before,
   { s with tasks := s.tasks.filter fun t => !decide (t.nextRun ≤ now) })

/-- Puts a task back. -/
def putBack (s : Scheduler) (t : Task) : Scheduler := { s with tasks := s.tasks ++ [t] }

end Scheduler

end SealedScript

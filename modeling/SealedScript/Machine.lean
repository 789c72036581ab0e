/-
SealedScript/Machine.lean

The machine that runs programs: everything that a statement can read or change,
and actions on it.  An action ends with a value, with an error of the program,
with a clock that cannot hold a deadline, or without an answer because it was
not given enough steps; in every case the machine is left as it was when the
action ended.

The global scope is a field of its own, so there is always one.
-/
import SealedScript.CallStack
import SealedScript.Console
import SealedScript.Library
import SealedScript.Schedule
import SealedScript.Settings

namespace SealedScript

/-- What is worth reporting although the run goes on. -/
inductive Notice where
  | strayReturn
  | taskFailed (task : Nat) (error : RuntimeError)
  deriving DecidableEq, Repr

/-- The state of a run.

* `clock` counts nanoseconds from the start, and `drift` is what a look at it
  costs; `wallOrigin` is the moment of the start on the wall clock.
* `inTask` holds while the body of a task runs. -/
structure Machine where
  globals : Scope := []
  locals : CallStack := .empty
  functions : Table FunctionDef := []
  heap : Heap := {}
  console : Console := {}
  cipher : Cipher := Cipher.standard Cipher.defaultKey Cipher.defaultIV
  libraries : Registry := Registry.standard
  scheduler : Scheduler := {}
  maxDepth : Nat := 256
  inTask : Bool := false
  clock : Nat := 0
  drift : Nat := 0
  wallOrigin : Int := 0
  notices : Array Notice := #[]

/-- How an action ends. -/
inductive Outcome (α : Type) where
  | done (value : α)
  | failed (error : RuntimeError)
  | clockOverflow
  | unfinished

/-- Something the machine does. -/
def Action (α : Type) : Type := Machine → Outcome α × Machine

namespace Action

variable {α β : Type}

/-- Ends with a value and changes nothing. -/
@[always_inline, inline] def pure (a : α) : Action α := fun m => (.done a, m)

/-- One action after another, unless the first one ends without a value. -/
@[always_inline, inline] def bind (x : Action α) (f : α → Action β) : Action β := fun m =>
  match x m with
  | (.done a, m) => f a m
  | (.failed e, m) => (.failed e, m)
  | (.clockOverflow, m) => (.clockOverflow, m)
  | (.unfinished, m) => (.unfinished, m)

@[always_inline] instance : Monad Action where
  pure := Action.pure
  bind := Action.bind

theorem bind_done {x : Action α} {f : α → Action β} {m m' : Machine} {a : α} (hx : x m = (.done a, m')) :
    (x >>= f) m = f a m' := by
  show Action.bind x f m = _
  simp only [Action.bind, hx]

theorem bind_failed {x : Action α} {f : α → Action β} {m m' : Machine} {e : RuntimeError}
    (hx : x m = (.failed e, m')) : (x >>= f) m = (.failed e, m') := by
  show Action.bind x f m = _
  simp only [Action.bind, hx]

/-- Ends with an error. -/
@[inline] def fail (e : RuntimeError) : Action α := fun m => (.failed e, m)

/-- Ends without an answer. -/
@[inline] def outOfSteps : Action α := fun m => (.unfinished, m)

/-- The value of a computation that may fail. -/
@[inline] def ofExcept : Except RuntimeError α → Action α
  | .ok a => pure a
  | .error e => fail e

/-- Something read off the machine. -/
@[inline] def reads (f : Machine → α) : Action α := fun m => (.done (f m), m)

/-- A change of the machine. -/
@[inline] def changes (f : Machine → Machine) : Action Unit := fun m => (.done (), f m)

/-- A computation on the heap that may fail. -/
@[inline] def onHeap (f : Heap → Except RuntimeError (α × Heap)) : Action α := fun m =>
  match f m.heap with
  | .ok (a, heap) => (.done a, { m with heap := heap })
  | .error e => (.failed e, m)

/-- A change of the heap that yields something. -/
@[inline] def withHeap (f : Heap → α × Heap) : Action α := fun m =>
  let (a, heap) := f m.heap
  (.done a, { m with heap := heap })

end Action

namespace Machine

/-- A machine with the given settings. -/
def ofSettings (s : Settings) : Machine := { cipher := s.cipher, maxDepth := s.maxCallDepth }

/-- The number of active calls. -/
def depth (m : Machine) : Nat := m.locals.depth

/-- Reports something. -/
def notice (m : Machine) (n : Notice) : Machine := { m with notices := m.notices.push n }

/-- Writes a line on the console. -/
def printLine (m : Machine) (text : String) : Machine := { m with console := m.console.printLine text }

/-- Lets time pass. -/
def wait (m : Machine) (nanoseconds : Nat) : Machine := { m with clock := m.clock + nanoseconds }

/-- Disarms all tasks. -/
def cancelTasks (m : Machine) : Machine := { m with scheduler := m.scheduler.clear }

/-- The present moment of the wall clock, in nanoseconds from the beginning of
1970. -/
def wall (m : Machine) : Int := m.wallOrigin + m.clock

end Machine

end SealedScript

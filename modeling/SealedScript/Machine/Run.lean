/-
SealedScript/Machine/Run.lean

Whole runs.  Statements are executed in order up to the first error.  A run then
goes on with the timers: the machine sleeps until the next task is due and fires
what is due, until nothing is armed or a counted task has made its last run.
-/
import SealedScript.Machine.Evaluate
import SealedScript.Program.Parser

namespace SealedScript

/-- How a run ends. -/
inductive RunEnd where
  | completed
  | halted
  deriving DecidableEq, Repr

namespace Action

/-- Executes statements outside any function. -/
def execute (steps : Nat) : List Stmt → Action Unit
  | [] => pure ()
  | stmt :: rest => do
    runTopLevel steps stmt
    execute steps rest

/-- Executes the program that a text denotes; if it denotes none, nothing is
executed. -/
def executeSource (steps : Nat) (source : String) (m : Machine) :
    Except SourceError (Outcome Unit) × Machine :=
  match parseProgram source with
  | .error e => (.error e, m)
  | .ok program =>
    let (outcome, m) := execute steps program m
    (.ok outcome, m)

/-- Sleeps until a moment, unless it has passed. -/
def sleepUntil (moment : Nat) : Action Unit := changes fun m => { m with clock := max m.clock moment }

/-! ### Turns

A run is made of turns: one for each statement, and after them one for each time
that the timers are served.  A turn that ends the run says how. -/

/-- A statement as a turn.  If it fails all tasks are disarmed. -/
def statementTurn (steps : Nat) (stmt : Stmt) : Action (Option RunEnd) := fun m =>
  match runTopLevel steps stmt m with
  | (.done (), m) => (.done none, m)
  | (.failed (.halted _), m) => (.done (some .halted), m)
  | (.failed e, m) => (.failed e, m.cancelTasks)
  | (.clockOverflow, m) => (.clockOverflow, m)
  | (.unfinished, m) => (.unfinished, m)

/-- Sleeps until a task is due and fires what is due then.  The run has ended if
none is armed, and if a counted task has made its last run. -/
def timerTurn (steps : Nat) : Action (Option RunEnd) := do
  match ← reads (·.scheduler.nextWakeup) with
  | none => pure (some .completed)
  | some moment =>
    sleepUntil moment
    let now ← reads Machine.clock
    match ← runDue steps now with
    | some _ => pure (some .halted)
    | none => pure none

/-- Serves the timers until the run has ended. -/
def runTimers : Nat → Action RunEnd
  | 0 => outOfSteps
  | steps + 1 => do
    match ← timerTurn steps with
    | some ended => pure ended
    | none => runTimers steps

/-- Runs a program. -/
def runProgram (steps : Nat) : List Stmt → Action RunEnd
  | [] => runTimers steps
  | stmt :: rest => do
    match ← statementTurn steps stmt with
    | some ended => pure ended
    | none => runProgram steps rest

/-- Calls a function of the program from outside. -/
def callFunction (steps : Nat) (name : String) (args : List Value) : Action Value := do
  let f ← functionFor name args.length
  invoke steps f args

end Action

/-- More steps than any program takes that ends within a lifetime. -/
def ampleSteps : Nat := Nat.pow 2 62

end SealedScript

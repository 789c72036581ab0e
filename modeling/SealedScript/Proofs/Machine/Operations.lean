/-
SealedScript/Proofs/Machine/Operations.lean

What a host can have the machine do, in one type: run statements, evaluate an
expression, call a function, arm a timer, fire tasks, wait for a line, execute a
program.  An operation can be run and it can be watched, and both are the same
run.

Main results: `Operation.plain_watch`, and `Law.operation`, by which the
operations obey every law.
-/
import SealedScript.Proofs.Machine.Law

namespace SealedScript

/-- What a host can have the machine do, by the type of the result. -/
inductive Operation : Type → Type where
  | statement (stmt : Stmt) : Operation Flow
  | topLevel (stmt : Stmt) : Operation Unit
  | block (stmts : List Stmt) : Operation Flow
  | expression (expr : Expr) (reading : Reading) : Operation Value
  | call (name : String) (args : List Value) : Operation Value
  | arm (time : Value) (unit : Option String) (times : Option Value) (action : Stmt) : Operation Nat
  | dueTasks (moment : Nat) : Operation (Option Nat)
  | line (prompt : String) : Operation String
  | program (stmts : List Stmt) : Operation Unit

namespace Watched

/-- Executes statements outside any function. -/
def execute (steps : Nat) : List Stmt → Watched Unit
  | [] => pure ()
  | stmt :: rest => do
    runTopLevel steps stmt
    execute steps rest

theorem plain_execute (steps : Nat) (stmts : List Stmt) :
    plain (execute steps stmts) = Action.execute steps stmts := by
  induction stmts with
  | nil => rfl
  | cons stmt rest ih =>
    simp only [execute, Action.execute, plain_bind, (agreement steps).runTopLevel, ih]

end Watched

namespace Operation

variable {α : Type}

/-- The operation as an action of the machine. -/
def run (steps : Nat) : Operation α → Action α
  | statement stmt => .runStmt steps stmt
  | topLevel stmt => .runTopLevel steps stmt
  | block stmts => .runBlock steps stmts
  | expression expr reading => .evaluate steps expr reading
  | call name args => .callFunction steps name args
  | arm time unit times action => .schedule time unit times action
  | dueTasks moment => .runDue steps moment
  | line prompt => .awaitLine steps prompt
  | program stmts => .execute steps stmts

/-- The operation with a record of what it passes through. -/
def watch (steps : Nat) : Operation α → Watched α
  | statement stmt => .runStmt steps stmt
  | topLevel stmt => .runTopLevel steps stmt
  | block stmts => .runBlock steps stmts
  | expression expr reading => .evaluate steps expr reading
  | call name args => do
    let f ← Watched.act .step (.functionFor name args.length)
    Watched.invoke steps f args
  | arm time unit times action => .act .step (.schedule time unit times action)
  | dueTasks moment => .runDue steps moment
  | line prompt => .awaitLine steps prompt
  | program stmts => .execute steps stmts

/-- The record is one of the run. -/
theorem plain_watch (steps : Nat) (op : Operation α) : (op.watch steps).plain = op.run steps := by
  have agree := Watched.agreement steps
  cases op with
  | statement stmt => exact agree.runStmt stmt
  | topLevel stmt => exact agree.runTopLevel stmt
  | block stmts => exact agree.runBlock stmts
  | expression expr reading => exact agree.evaluate expr reading
  | call name args => simp only [watch, run, Action.callFunction, Watched.plain_bind, Watched.plain_act,
      agree.invoke]
  | arm time unit times action => rfl
  | dueTasks moment => exact agree.runDue moment
  | line prompt => exact agree.awaitLine prompt
  | program stmts => exact Watched.plain_execute steps stmts

theorem watch_outcome (steps : Nat) (op : Operation α) (m : Machine) :
    (op.watch steps m).outcome = (op.run steps m).1 :=
  congrArg Prod.fst (congrFun (op.plain_watch steps) m)

theorem watch_machine (steps : Nat) (op : Operation α) (m : Machine) :
    (op.watch steps m).machine = (op.run steps m).2 :=
  congrArg Prod.snd (congrFun (op.plain_watch steps) m)

end Operation

/-- Machines that a host comes to by operations one after another, however each of
them ends. -/
inductive Machine.Reaches (m : Machine) : Machine → Prop
  | here : m.Reaches m
  | next {α : Type} {m' : Machine} (op : Operation α) (steps : Nat) :
      m.Reaches m' → m.Reaches (op.run steps m').2

namespace Law

variable {Q : Machine → Ending → List Moment → Machine → Prop} {α : Type}

theorem execute (law : Law Q) (steps : Nat) (stmts : List Stmt) :
    Obeys Q (Watched.execute steps stmts) := by
  induction stmts with
  | nil => exact law.body.pure _
  | cons stmt rest ih => exact law.body.bind ((law.obeyed steps).runTopLevel stmt) fun _ => ih

/-- **Every operation obeys every law.** -/
theorem operation (law : Law Q) (steps : Nat) (op : Operation α) : Obeys Q (op.watch steps) := by
  have all := law.obeyed steps
  cases op with
  | statement stmt => exact all.runStmt stmt
  | topLevel stmt => exact all.runTopLevel stmt
  | block stmts => exact all.runBlock stmts
  | expression expr reading => exact all.evaluate expr reading
  | call name args =>
    exact law.body.bind (law.body.quiet (Action.quiet_functionFor name args.length)) fun f => all.invoke f args
  | arm time unit times action => exact law.body.act (Action.isBodyStep_schedule time unit times action)
  | dueTasks moment => exact all.runDue moment
  | line prompt => exact all.awaitLine prompt
  | program stmts => exact law.execute steps stmts

/-- What a law says of the run of an operation, without its record. -/
theorem run_operation {P : Machine → Ending → Machine → Prop} (law : Law fun m ending _ m' => P m ending m')
    (steps : Nat) (op : Operation α) (m : Machine) :
    P m (op.run steps m).1.ending (op.run steps m).2 := by
  have h := law.operation steps op m
  rw [op.watch_outcome, op.watch_machine] at h
  exact h

end Law

end SealedScript

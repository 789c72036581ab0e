/-
SealedScript/Machine/Evaluate.lean

Running programs.  Every function here takes a number of steps and ends without
an answer when it runs out of them; each goes on with one step less, so they are
defined by recursion on that number, and an answer does not depend on how many
steps were left.

Tasks that fall due while a program runs are fired before each statement, after
each turn of a loop and while a statement waits for a line.  A task sees the
global scope only: the scopes of the calls it interrupts are set aside and put
back afterwards.  While a task runs no other task is fired.
-/
import SealedScript.Machine.Methods
import SealedScript.Machine.Timers
import SealedScript.Machine.Variables
import SealedScript.Value.Operators

namespace SealedScript

/-- How a statement ends: it goes on to the next one, or returns from the call. -/
inductive Flow where
  | next
  | returned (value : Value)
  deriving Repr

namespace Action

/-! ### Single steps -/

/-- The list that an indexed value has to be. -/
def listOf : Value → Action ListId
  | .list id => pure id
  | v => fail (.typeMismatch s!"cannot index into {v.typeName}")

/-- The place that an index denotes in a list of the given length. -/
def placeOf (index : Value) (length : Nat) : Action Nat := do
  let n ← ofExcept index.index
  match Heap.position? n length with
  | some i => pure i
  | none => fail (.indexOutOfRange n length)

/-- The element at a place; `length` is what the failure tells. -/
def elementAt (id : ListId) (i length : Nat) : Action Value := fun m =>
  match (m.heap.elements id)[i]? with
  | some v => (.done v, m)
  | none => (.failed (.indexOutOfRange (Int64.ofNat i) length), m)

/-- The new value of something that is assigned to: the right-hand side, or the
old value combined with it. -/
def assigned (op : AssignOp) (old : Action Value) (rhs : Value) : Action Value :=
  match op.operator? with
  | none => pure rhs
  | some op => do
    let current ← old
    onHeap (·.apply op current rhs)

/-- Writes an element and yields it. -/
def setElement (id : ListId) (i : Nat) (v : Value) : Action Value := fun m =>
  if i < m.heap.length id then (.done v, { m with heap := m.heap.modifyList id (·.setIfInBounds i v) })
  else (.failed (.indexOutOfRange (Int64.ofNat i) (m.heap.length id)), m)

/-- Assigns to an element. -/
def assignElement (id : ListId) (i : Nat) (op : AssignOp) (rhs : Value) : Action Value := do
  let old : Action Value := fun m => elementAt id i (m.heap.length id) m
  let v ← assigned op old rhs
  setElement id i v

/-- Counts a variable up or down. -/
def stepVariable (target : VarRef) (step : Step) (yieldsOld : Bool) : Action Value := do
  let (old, wasEncrypted) ← readOpened target.name
  let new ← ofExcept (old.step step)
  let _ ← store target.name new (target.encrypted || wasEncrypted)
  pure (if yieldsOld then old else new)

/-- The function with this name, which takes this many arguments. -/
def functionFor (name : String) (count : Nat) : Action FunctionDef := fun m =>
  match Table.find? m.functions name with
  | none => (.failed (.undefinedFunction name), m)
  | some f =>
    if f.params.length = count then (.done f, m)
    else (.failed (.arityMismatch f.name f.params.length count), m)

/-- The scope of a call: parameters with their arguments. -/
def callScope (f : FunctionDef) (args : List Value) : Scope :=
  (f.params.zip args).foldl (fun scope (name, v) => Table.insert scope name ⟨v, false⟩) []

/-- An action in a scope of its own, which is gone afterwards however it ends. -/
@[inline] def inScope {α : Type} (scope : Scope) (x : Action α) : Action α := fun m =>
  let (outcome, m) := x { m with locals := m.locals.push scope }
  (outcome, { m with locals := m.locals.pop })

/-- An action for a call, unless too many calls are active. -/
@[inline] def inCall {α : Type} (f : FunctionDef) (args : List Value) (x : Action α) : Action α := fun m =>
  let depth := m.depth + 1
  if m.maxDepth < depth then (.failed (.stackOverflow depth m.maxDepth), m)
  else inScope (callScope f args) x m

/-- Whether a condition with this value holds. -/
@[inline] def truthy (v : Value) : Action Bool := reads (·.heap.truthy v)

/-- The prompt of a statement that reads a line. -/
def promptText : Value → Action String
  | .text s => pure s
  | v => fail (.typeMismatch s!"input prompt must be a string, got {v.typeName}")

/-- The moment at which tasks are due, if one is due and none is running. -/
def dueMoment : Action (Option Nat) := fun m =>
  if m.inTask then (.done none, m)
  else match m.scheduler.nextWakeup with
    | none => (.done none, m)
    | some moment =>
      let m := m.wait m.drift
      (.done (if moment ≤ m.clock then some m.clock else none), m)

/-- One read from the console, which waits no longer than until the next task is
due. -/
def readLine (prompt : String) : Action Answer := fun m =>
  let limit := if m.inTask then none else m.scheduler.nextWakeup.map (· - m.clock)
  let (answer, elapsed, console) := m.console.read prompt limit
  (.done answer, { m with console := console }.wait elapsed)

/-- The value that a call yields. -/
def resultOf : Flow → Value
  | .next => .nil
  | .returned v => v

/-! ### Expressions, statements and tasks -/

mutual

/-- Evaluates an expression. -/
def evaluate : Nat → Expr → Reading → Action Value
  | 0, _, _ => outOfSteps
  | steps + 1, expr, reading =>
    match expr with
    | .literal value => pure value.toValue
    | .list items => do
      let values ← evaluateAll steps items reading
      withHeap (·.newList values.toArray)
    | .variable target => read target.name reading
    | .assign target .set value => do
      let v ← evaluate steps value reading
      store target.name v target.encrypted
    | .assign target op value => do
      let rhs ← evaluate steps value reading
      let (old, wasEncrypted) ← readOpened target.name
      let v ← assigned op (pure old) rhs
      store target.name v (target.encrypted || wasEncrypted)
    | .assignElement target index op value => do
      let id ← listOf (← evaluate steps target reading)
      let length ← reads (·.heap.length id)
      let i ← placeOf (← evaluate steps index reading) length
      let rhs ← evaluate steps value reading
      assignElement id i op rhs
    | .element target index => do
      let id ← listOf (← evaluate steps target reading)
      let length ← reads (·.heap.length id)
      let i ← placeOf (← evaluate steps index reading) length
      elementAt id i length
    | .binary op lhs rhs => do
      let l ← evaluate steps lhs reading
      let r ← evaluate steps rhs reading
      onHeap (·.apply op l r)
    | .not operand => do
      let v ← evaluate steps operand reading
      let b ← truthy v
      pure (.bool !b)
    | .step target step yieldsOld => stepVariable target step yieldsOld
    | .call name args => do
      let f ← functionFor name args.length
      let values ← evaluateAll steps args reading
      invoke steps f values
    | .method target name args => do
      let v ← evaluate steps target reading
      let values ← evaluateAll steps args reading
      callMethod v name values

/-- Evaluates expressions from left to right. -/
def evaluateAll : Nat → List Expr → Reading → Action (List Value)
  | 0, _, _ => outOfSteps
  | _ + 1, [], _ => pure []
  | steps + 1, expr :: rest, reading => do
    let v ← evaluate steps expr reading
    let values ← evaluateAll steps rest reading
    pure (v :: values)

/-- Calls a function with evaluated arguments. -/
def invoke : Nat → FunctionDef → List Value → Action Value
  | 0, _, _ => outOfSteps
  | steps + 1, f, args => do
    let flow ← inCall f args (runBlock steps f.body)
    pure (resultOf flow)

/-- Runs statements until one returns. -/
def runBlock : Nat → List Stmt → Action Flow
  | 0, _ => outOfSteps
  | _ + 1, [] => pure .next
  | steps + 1, stmt :: rest => do
    match ← runStmt steps stmt with
    | .next => runBlock steps rest
    | .returned v => pure (.returned v)

/-- Runs a statement, after the tasks that are due. -/
def runStmt : Nat → Stmt → Action Flow
  | 0, _ => outOfSteps
  | steps + 1, stmt => do
    serveTasks steps
    match stmt with
    | .print value => do
      let v ← evaluate steps value .sealed
      changes fun m => m.printLine (m.heap.text v)
      pure .next
    | .conditional condition yes no => do
      let v ← evaluate steps condition .opened
      if ← truthy v then runBlock steps yes else runBlock steps (no.getD [])
    | .forLoop start condition step body => do
      let _ ← evaluate steps start .opened
      forLoop steps condition step body
    | .whileLoop condition body => whileLoop steps condition body
    | .input prompt target => do
      let prompt ← promptText (← evaluate steps prompt .opened)
      let line ← awaitLine steps prompt
      let v ← withHeap (·.place (Datum.ofText line))
      let _ ← store target.name v target.encrypted
      pure .next
    | .function name params body => do
      changes fun m => { m with functions := Table.insert m.functions name ⟨name, params, body⟩ }
      pure .next
    | .giveBack none => pure (.returned .nil)
    | .giveBack (some value) => do
      let v ← evaluate steps value .opened
      pure (.returned v)
    | .useLibrary name => do
      useLibrary name
      pure .next
    | .trigger time unit times action => do
      let moment ← evaluate steps time .opened
      let count ← match times with
        | none => pure none
        | some times => do
          let v ← evaluate steps times .opened
          pure (some v)
      let _ ← schedule moment unit count action
      pure .next
    | .expression value => do
      let _ ← evaluate steps value .opened
      pure .next

/-- Goes on with a counting loop. -/
def forLoop : Nat → Expr → Expr → List Stmt → Action Flow
  | 0, _, _, _ => outOfSteps
  | steps + 1, condition, step, body => do
    let v ← evaluate steps condition .opened
    if ← truthy v then
      match ← runBlock steps body with
      | .returned v => pure (.returned v)
      | .next =>
        let _ ← evaluate steps step .opened
        serveTasks steps
        forLoop steps condition step body
    else pure .next

/-- Goes on with a conditional loop. -/
def whileLoop : Nat → Expr → List Stmt → Action Flow
  | 0, _, _ => outOfSteps
  | steps + 1, condition, body => do
    let v ← evaluate steps condition .opened
    if ← truthy v then
      match ← runBlock steps body with
      | .returned v => pure (.returned v)
      | .next =>
        serveTasks steps
        whileLoop steps condition body
    else pure .next

/-- Waits for a line, and fires the tasks that fall due meanwhile. -/
def awaitLine : Nat → String → Action String
  | 0, _ => outOfSteps
  | steps + 1, prompt => do
    match ← readLine prompt with
    | .line text => pure text
    | .ended => fail (.input "end of input")
    | .failed what => fail (.input what)
    | .timedOut =>
      serveTasks steps
      awaitLine steps prompt

/-- Runs a statement outside any function, where nothing can be returned. -/
def runTopLevel : Nat → Stmt → Action Unit
  | 0, _ => outOfSteps
  | steps + 1, stmt => do
    match ← runStmt steps stmt with
    | .next => pure ()
    | .returned _ =>
      changes (·.notice .strayReturn)
      fail .returnOutsideFunction

/-- Fires the tasks that are due, unless one is running.  A run ends when a
counted task has made its last run. -/
def serveTasks : Nat → Action Unit
  | 0 => outOfSteps
  | steps + 1 => do
    match ← dueMoment with
    | none => pure ()
    | some moment =>
      match ← runDue steps moment with
      | none => pure ()
      | some id => fail (.halted id)

/-- Fires the tasks that are due at a moment, in the global scope.  The result is
the counted task that has made its last run, if one has. -/
def runDue : Nat → Nat → Action (Option Nat)
  | 0, _ => outOfSteps
  | steps + 1, moment => fun m =>
    let locals := m.locals
    let inTask := m.inTask
    let (ready, scheduler) := m.scheduler.takeReady moment
    let (outcome, m) := fire steps ready { m with locals := .empty, inTask := true, scheduler := scheduler }
    (outcome, { m with locals := locals, inTask := inTask })

/-- Fires tasks one after another.  One that fails is reported and dropped; when
one ends the run the rest are armed again as they were. -/
def fire : Nat → List Task → Action (Option Nat)
  | 0, _ => outOfSteps
  | _ + 1, [] => pure none
  | steps + 1, task :: rest => fun m =>
    match runTopLevel steps task.action m with
    | (.failed e, m) => fire steps rest (m.notice (.taskFailed task.id e))
    | (.clockOverflow, m) => (.clockOverflow, m)
    | (.unfinished, m) => (.unfinished, m)
    | (.done (), m) =>
      match task.tick with
      | (true, again) =>
        if again.nextRun < clockHorizon then
          fire steps rest { m with scheduler := m.scheduler.putBack again }
        else (.clockOverflow, m)
      | (false, ended) =>
        if ended.halts then (.done (some task.id), { m with scheduler := rest.foldl Scheduler.putBack m.scheduler })
        else fire steps rest m

end

end Action

end SealedScript

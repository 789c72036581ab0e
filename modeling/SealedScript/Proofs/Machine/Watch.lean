/-
SealedScript/Proofs/Machine/Watch.lean

Runs with everything they pass through.  An action of the machine says how it
ends and what it leaves behind; many facts are about what happens in between,
such as how many calls are ever active at once, or what is ever stored.  So the
same run is given here once more with a record: for each single step what it
was and the machine after it, and so too for the begin and the end of each call
and of each interruption by tasks.

Nothing is added but the record.  Main result: forgetting the record gives back
the run (`Watched.Agreement`), for every construct and every number of steps.
-/
import SealedScript.Machine.Run

namespace SealedScript

/-! ### Records -/

/-- A call for a line: the prompt, and the machine that makes it. -/
structure Call where
  prompt : String
  before : Machine

/-- What a step of a run was.  Steps that no statement asks about are alike. -/
inductive Event where
  | step
  | asked (call : Call)
  | stored (name : String) (value : Value) (encrypted : Bool)
  | bound (library : String)
  | entered (f : FunctionDef)
  | left
  | parked
  | fired (task : Task)
  | resumed

/-- A step of a run and the machine after it. -/
structure Moment where
  event : Event
  machine : Machine

/-- How a watched run ends, the machine then, and the moments in order. -/
structure Visit (α : Type) where
  outcome : Outcome α
  machine : Machine
  moments : List Moment

/-- The outcome with another value. -/
def Outcome.map {α β : Type} (g : α → β) : Outcome α → Outcome β
  | .done a => .done (g a)
  | .failed e => .failed e
  | .clockOverflow => .clockOverflow
  | .unfinished => .unfinished

/-- Something the machine does, watched. -/
def Watched (α : Type) : Type := Machine → Visit α

namespace Machine

/-- The machine with the scope of a call on top. -/
def enter (m : Machine) (scope : Scope) : Machine := { m with locals := m.locals.push scope }

/-- The machine without the scope of the innermost call. -/
def leave (m : Machine) : Machine := { m with locals := m.locals.pop }

/-- The machine as tasks see it: without the scopes of the calls they interrupt,
and with the tasks that are due taken out. -/
def park (m : Machine) (scheduler : Scheduler) : Machine :=
  { m with locals := .empty, inTask := true, scheduler := scheduler }

/-- The machine with what was set aside of `before` put back. -/
def resume (m before : Machine) : Machine :=
  { m with locals := before.locals, inTask := before.inTask }

end Machine

namespace Watched

variable {α β : Type}

/-- Forgets the record. -/
def plain (x : Watched α) : Action α := fun m => ((x m).outcome, (x m).machine)

/-! ### Building watched runs -/

def pure (a : α) : Watched α := fun m => ⟨.done a, m, []⟩

/-- One run after another; `caught` says how a failure of the first one goes on. -/
def attempt (x : Watched α) (caught : RuntimeError → Watched β) (next : α → Watched β) : Watched β :=
  fun m =>
    let v := x m
    let follow (y : Watched β) : Visit β :=
      ⟨(y v.machine).outcome, (y v.machine).machine, v.moments ++ (y v.machine).moments⟩
    match v.outcome with
    | .done a => follow (next a)
    | .failed e => follow (caught e)
    | .clockOverflow => ⟨.clockOverflow, v.machine, v.moments⟩
    | .unfinished => ⟨.unfinished, v.machine, v.moments⟩

section Attempt

variable {x : Watched α} {caught : RuntimeError → Watched β} {next : α → Watched β} {m : Machine}

theorem attempt_done {a : α} (h : (x m).outcome = .done a) :
    attempt x caught next m
      = ⟨(next a (x m).machine).outcome, (next a (x m).machine).machine,
          (x m).moments ++ (next a (x m).machine).moments⟩ := by
  simp only [attempt, h]

theorem attempt_failed {e : RuntimeError} (h : (x m).outcome = .failed e) :
    attempt x caught next m
      = ⟨(caught e (x m).machine).outcome, (caught e (x m).machine).machine,
          (x m).moments ++ (caught e (x m).machine).moments⟩ := by
  simp only [attempt, h]

theorem attempt_clockOverflow (h : (x m).outcome = .clockOverflow) :
    attempt x caught next m = ⟨.clockOverflow, (x m).machine, (x m).moments⟩ := by
  simp only [attempt, h]

theorem attempt_unfinished (h : (x m).outcome = .unfinished) :
    attempt x caught next m = ⟨.unfinished, (x m).machine, (x m).moments⟩ := by
  simp only [attempt, h]

end Attempt

/-- Stops with what an action that changes nothing ends with. -/
def stop (outcome : Outcome α) : Watched α := fun m => ⟨outcome, m, []⟩

def bind (x : Watched α) (f : α → Watched β) : Watched β := attempt x (fun e => stop (.failed e)) f

instance : Monad Watched where
  pure := Watched.pure
  bind := Watched.bind

/-- A run whose value is then another one. -/
theorem bind_pure_apply (x : Watched α) (g : α → β) (m : Machine) :
    (x >>= fun a => pure (g a)) m = ⟨(x m).outcome.map g, (x m).machine, (x m).moments⟩ := by
  show attempt x (fun e => stop (.failed e)) (fun a => pure (g a)) m = _
  rcases houtcome : (x m).outcome with a | e | - | -
  · rw [attempt_done houtcome]
    simp only [pure, List.append_nil, Outcome.map]
  · rw [attempt_failed houtcome]
    simp only [stop, List.append_nil, Outcome.map]
  · rw [attempt_clockOverflow houtcome, Outcome.map]
  · rw [attempt_unfinished houtcome, Outcome.map]

/-- What was recorded of the first run stays in the record. -/
theorem moments_bind (x : Watched α) (f : α → Watched β) (m : Machine) :
    ∃ t, ((x >>= f) m).moments = (x m).moments ++ t := by
  have hbind : (x >>= f) m = attempt x (fun e => stop (.failed e)) f m := rfl
  rcases houtcome : (x m).outcome with a | e | - | -
  · rw [hbind, attempt_done houtcome]
    exact ⟨_, rfl⟩
  · rw [hbind, attempt_failed houtcome]
    exact ⟨_, rfl⟩
  · rw [hbind, attempt_clockOverflow houtcome]
    exact ⟨[], (List.append_nil _).symm⟩
  · rw [hbind, attempt_unfinished houtcome]
    exact ⟨[], (List.append_nil _).symm⟩

/-- A single step. -/
def act (event : Event) (x : Action α) : Watched α := fun m => ⟨(x m).1, (x m).2, [⟨event, (x m).2⟩]⟩

/-- The step that writes a variable. -/
def store (name : String) (value : Value) (encrypt : Bool) : Watched Value :=
  act (.stored name value encrypt) (.store name value encrypt)

/-- The step that asks for a line. -/
def readLine (prompt : String) : Watched Answer := fun m => act (.asked ⟨prompt, m⟩) (.readLine prompt) m

/-- A run for a call, unless too many calls are active. -/
def inCall (f : FunctionDef) (args : List Value) (x : Watched α) : Watched α := fun m =>
  -- a call that is refused has no scope, so there is none to take away either
  if m.maxDepth < m.depth + 1 then stop (.failed (.stackOverflow (m.depth + 1) m.maxDepth)) m
  else
    let inner := m.enter (Action.callScope f args)
    let v := x inner
    ⟨v.outcome, v.machine.leave, ⟨.entered f, inner⟩ :: v.moments ++ [⟨.left, v.machine.leave⟩]⟩

/-- A run in the global scope, as a task. -/
def apart (scheduler : Scheduler) (x : Watched α) : Watched α := fun m =>
  let inner := m.park scheduler
  let v := x inner
  ⟨v.outcome, v.machine.resume m, ⟨.parked, inner⟩ :: v.moments ++ [⟨.resumed, v.machine.resume m⟩]⟩

/-- Counts a variable up or down. -/
def stepVariable (target : VarRef) (step : Step) (yieldsOld : Bool) : Watched Value := do
  let (old, wasEncrypted) ← act .step (.readOpened target.name)
  let new ← act .step (.ofExcept (old.step step))
  let _ ← store target.name new (target.encrypted || wasEncrypted)
  pure (if yieldsOld then old else new)

/-- Arms a task again, for a moment that the clock has to hold. -/
def rearm (task : Task) : Watched Unit :=
  act .step fun m =>
    if task.nextRun < clockHorizon then (.done (), { m with scheduler := m.scheduler.putBack task })
    else (.clockOverflow, m)

/-- Arms the tasks again that were not fired, and tells which one ended the run. -/
def rearmAll (tasks : List Task) (ended : Nat) : Watched (Option Nat) :=
  act .step fun m => (.done (some ended), { m with scheduler := tasks.foldl Scheduler.putBack m.scheduler })

/-! ### Expressions, statements and tasks -/

mutual

def evaluate : Nat → Expr → Reading → Watched Value
  | 0, _, _ => stop .unfinished
  | steps + 1, expr, reading =>
    match expr with
    | .literal value => pure value.toValue
    | .list items => do
      let values ← evaluateAll steps items reading
      act .step (.withHeap (·.newList values.toArray))
    | .variable target => act .step (.read target.name reading)
    | .assign target .set value => do
      let v ← evaluate steps value reading
      store target.name v target.encrypted
    | .assign target op value => do
      let rhs ← evaluate steps value reading
      let (old, wasEncrypted) ← act .step (.readOpened target.name)
      let v ← act .step (.assigned op (.pure old) rhs)
      store target.name v (target.encrypted || wasEncrypted)
    | .assignElement target index op value => do
      let id ← act .step (.listOf (← evaluate steps target reading))
      let length ← act .step (.reads (·.heap.length id))
      let i ← act .step (.placeOf (← evaluate steps index reading) length)
      let rhs ← evaluate steps value reading
      act .step (.assignElement id i op rhs)
    | .element target index => do
      let id ← act .step (.listOf (← evaluate steps target reading))
      let length ← act .step (.reads (·.heap.length id))
      let i ← act .step (.placeOf (← evaluate steps index reading) length)
      act .step (.elementAt id i length)
    | .binary op lhs rhs => do
      let l ← evaluate steps lhs reading
      let r ← evaluate steps rhs reading
      act .step (.onHeap (·.apply op l r))
    | .not operand => do
      let v ← evaluate steps operand reading
      let b ← act .step (.truthy v)
      pure (.bool !b)
    | .step target step yieldsOld => stepVariable target step yieldsOld
    | .call name args => do
      let f ← act .step (.functionFor name args.length)
      let values ← evaluateAll steps args reading
      invoke steps f values
    | .method target name args => do
      let v ← evaluate steps target reading
      let values ← evaluateAll steps args reading
      act .step (.callMethod v name values)

def evaluateAll : Nat → List Expr → Reading → Watched (List Value)
  | 0, _, _ => stop .unfinished
  | _ + 1, [], _ => pure []
  | steps + 1, expr :: rest, reading => do
    let v ← evaluate steps expr reading
    let values ← evaluateAll steps rest reading
    pure (v :: values)

def invoke : Nat → FunctionDef → List Value → Watched Value
  | 0, _, _ => stop .unfinished
  | steps + 1, f, args => do
    let flow ← inCall f args (runBlock steps f.body)
    pure (Action.resultOf flow)

def runBlock : Nat → List Stmt → Watched Flow
  | 0, _ => stop .unfinished
  | _ + 1, [] => pure .next
  | steps + 1, stmt :: rest => do
    match ← runStmt steps stmt with
    | .next => runBlock steps rest
    | .returned v => pure (.returned v)

def runStmt : Nat → Stmt → Watched Flow
  | 0, _ => stop .unfinished
  | steps + 1, stmt => do
    serveTasks steps
    match stmt with
    | .print value => do
      let v ← evaluate steps value .sealed
      act .step (.changes fun m => m.printLine (m.heap.text v))
      pure .next
    | .conditional condition yes no => do
      let v ← evaluate steps condition .opened
      if ← act .step (.truthy v) then runBlock steps yes else runBlock steps (no.getD [])
    | .forLoop start condition step body => do
      let _ ← evaluate steps start .opened
      forLoop steps condition step body
    | .whileLoop condition body => whileLoop steps condition body
    | .input prompt target => do
      let prompt ← act .step (.promptText (← evaluate steps prompt .opened))
      let line ← awaitLine steps prompt
      let v ← act .step (.withHeap (·.place (Datum.ofText line)))
      let _ ← store target.name v target.encrypted
      pure .next
    | .function name params body => do
      act .step (.changes fun m => { m with functions := Table.insert m.functions name ⟨name, params, body⟩ })
      pure .next
    | .giveBack none => pure (.returned .nil)
    | .giveBack (some value) => do
      let v ← evaluate steps value .opened
      pure (.returned v)
    | .useLibrary name => do
      act (.bound name) (.useLibrary name)
      pure .next
    | .trigger time unit times action => do
      let moment ← evaluate steps time .opened
      let count ← match times with
        | none => pure none
        | some times => do
          let v ← evaluate steps times .opened
          pure (some v)
      let _ ← act .step (.schedule moment unit count action)
      pure .next
    | .expression value => do
      let _ ← evaluate steps value .opened
      pure .next

def forLoop : Nat → Expr → Expr → List Stmt → Watched Flow
  | 0, _, _, _ => stop .unfinished
  | steps + 1, condition, step, body => do
    let v ← evaluate steps condition .opened
    if ← act .step (.truthy v) then
      match ← runBlock steps body with
      | .returned v => pure (.returned v)
      | .next =>
        let _ ← evaluate steps step .opened
        serveTasks steps
        forLoop steps condition step body
    else pure .next

def whileLoop : Nat → Expr → List Stmt → Watched Flow
  | 0, _, _ => stop .unfinished
  | steps + 1, condition, body => do
    let v ← evaluate steps condition .opened
    if ← act .step (.truthy v) then
      match ← runBlock steps body with
      | .returned v => pure (.returned v)
      | .next =>
        serveTasks steps
        whileLoop steps condition body
    else pure .next

def awaitLine : Nat → String → Watched String
  | 0, _ => stop .unfinished
  | steps + 1, prompt => do
    match ← readLine prompt with
    | .line text => pure text
    | .ended => stop (.failed (.input "end of input"))
    | .failed what => stop (.failed (.input what))
    | .timedOut =>
      serveTasks steps
      awaitLine steps prompt

def runTopLevel : Nat → Stmt → Watched Unit
  | 0, _ => stop .unfinished
  | steps + 1, stmt => do
    match ← runStmt steps stmt with
    | .next => pure ()
    | .returned _ =>
      act .step (.changes (·.notice .strayReturn))
      stop (.failed .returnOutsideFunction)

def serveTasks : Nat → Watched Unit
  | 0 => stop .unfinished
  | steps + 1 => do
    match ← act .step Action.dueMoment with
    | none => pure ()
    | some moment =>
      match ← runDue steps moment with
      | none => pure ()
      | some id => stop (.failed (.halted id))

def runDue : Nat → Nat → Watched (Option Nat)
  | 0, _ => stop .unfinished
  | steps + 1, moment => fun m =>
    apart (m.scheduler.takeReady moment).2 (fire steps (m.scheduler.takeReady moment).1) m

def fire : Nat → List Task → Watched (Option Nat)
  | 0, _ => stop .unfinished
  | _ + 1, [] => pure none
  | steps + 1, task :: rest => do
    act (.fired task) (.pure ())
    attempt (runTopLevel steps task.action)
      (fun e => do
        act .step (.changes (·.notice (.taskFailed task.id e)))
        fire steps rest)
      (fun _ =>
        match task.tick with
        | (true, again) => do
          rearm again
          fire steps rest
        | (false, ended) => if ended.halts then rearmAll rest task.id else fire steps rest)

end

/-! ### Forgetting the record -/

@[simp] theorem plain_pure (a : α) : plain (pure a) = Action.pure a := rfl

@[simp] theorem plain_act (event : Event) (x : Action α) : plain (act event x) = x := rfl

@[simp] theorem plain_readLine (prompt : String) : plain (readLine prompt) = Action.readLine prompt := rfl

@[simp] theorem plain_stop (outcome : Outcome α) :
    plain (stop outcome : Watched α) = fun m => (outcome, m) := rfl

theorem plain_attempt (x : Watched α) (caught : RuntimeError → Watched β) (next : α → Watched β)
    (m : Machine) :
    plain (attempt x caught next) m = match plain x m with
      | (.done a, m) => plain (next a) m
      | (.failed e, m) => plain (caught e) m
      | (.clockOverflow, m) => (.clockOverflow, m)
      | (.unfinished, m) => (.unfinished, m) := by
  simp only [plain, attempt]
  rcases (x m).outcome <;> rfl

@[simp] theorem plain_bind (x : Watched α) (f : α → Watched β) :
    plain (x >>= f) = plain x >>= fun a => plain (f a) := by
  funext m
  exact plain_attempt x (fun e => stop (.failed e)) f m

@[simp] theorem plain_ite (b : Bool) (x y : Watched α) :
    plain (if b then x else y) = if b then plain x else plain y := by
  cases b <;> rfl

theorem plain_inCall (f : FunctionDef) (args : List Value) (x : Watched α) :
    plain (inCall f args x) = Action.inCall f args (plain x) := by
  funext m
  simp only [plain, inCall, Action.inCall]
  split <;> rfl

theorem plain_stepVariable (target : VarRef) (step : Step) (yieldsOld : Bool) :
    plain (stepVariable target step yieldsOld) = Action.stepVariable target step yieldsOld := by
  simp only [stepVariable, store, plain_bind, plain_act, plain_pure, Action.stepVariable]

/-- Without their records the watched runs are the runs of the machine. -/
structure Agreement (steps : Nat) : Prop where
  evaluate : ∀ expr reading, plain (evaluate steps expr reading) = Action.evaluate steps expr reading
  evaluateAll : ∀ exprs reading,
    plain (evaluateAll steps exprs reading) = Action.evaluateAll steps exprs reading
  invoke : ∀ f args, plain (invoke steps f args) = Action.invoke steps f args
  runBlock : ∀ stmts, plain (runBlock steps stmts) = Action.runBlock steps stmts
  runStmt : ∀ stmt, plain (runStmt steps stmt) = Action.runStmt steps stmt
  forLoop : ∀ condition step body,
    plain (forLoop steps condition step body) = Action.forLoop steps condition step body
  whileLoop : ∀ condition body,
    plain (whileLoop steps condition body) = Action.whileLoop steps condition body
  awaitLine : ∀ prompt, plain (awaitLine steps prompt) = Action.awaitLine steps prompt
  runTopLevel : ∀ stmt, plain (runTopLevel steps stmt) = Action.runTopLevel steps stmt
  serveTasks : plain (serveTasks steps) = Action.serveTasks steps
  runDue : ∀ moment, plain (runDue steps moment) = Action.runDue steps moment
  fire : ∀ tasks, plain (fire steps tasks) = Action.fire steps tasks

section Agreement

variable {steps : Nat} (ih : Agreement steps)
include ih

theorem plain_evaluate (expr : Expr) (reading : Reading) :
    plain (evaluate (steps + 1) expr reading) = Action.evaluate (steps + 1) expr reading := by
  cases expr with
  | assign target op value =>
    cases op <;>
      simp only [evaluate, Action.evaluate, store, plain_bind, plain_act, ih.evaluate]
  | step target step yieldsOld => exact plain_stepVariable target step yieldsOld
  | _ =>
    simp only [evaluate, Action.evaluate, plain_bind, plain_act, plain_pure, ih.evaluate,
      ih.evaluateAll, ih.invoke]

theorem plain_evaluateAll (exprs : List Expr) (reading : Reading) :
    plain (evaluateAll (steps + 1) exprs reading) = Action.evaluateAll (steps + 1) exprs reading := by
  cases exprs <;>
    simp only [evaluateAll, Action.evaluateAll, plain_bind, plain_pure, ih.evaluate, ih.evaluateAll]

theorem plain_invoke (f : FunctionDef) (args : List Value) :
    plain (invoke (steps + 1) f args) = Action.invoke (steps + 1) f args := by
  simp only [invoke, Action.invoke, plain_bind, plain_pure, plain_inCall, ih.runBlock]

theorem plain_runBlock (stmts : List Stmt) :
    plain (runBlock (steps + 1) stmts) = Action.runBlock (steps + 1) stmts := by
  cases stmts with
  | nil => rfl
  | cons stmt rest =>
    simp only [runBlock, Action.runBlock, plain_bind, ih.runStmt]
    congr 1
    funext flow
    cases flow <;> simp only [plain_pure, ih.runBlock]

theorem plain_runStmt (stmt : Stmt) :
    plain (runStmt (steps + 1) stmt) = Action.runStmt (steps + 1) stmt := by
  cases stmt with
  | giveBack value =>
    cases value <;>
      simp only [runStmt, Action.runStmt, plain_bind, plain_pure, ih.evaluate, ih.serveTasks]
  | trigger time unit times action =>
    cases times <;>
      simp only [runStmt, Action.runStmt, plain_bind, plain_act, plain_pure, ih.evaluate, ih.serveTasks]
  | _ =>
    simp only [runStmt, Action.runStmt, store, plain_bind, plain_act, plain_pure, plain_ite, ih.evaluate,
      ih.serveTasks, ih.runBlock, ih.forLoop, ih.whileLoop, ih.awaitLine]

theorem plain_forLoop (condition step : Expr) (body : List Stmt) :
    plain (forLoop (steps + 1) condition step body)
      = Action.forLoop (steps + 1) condition step body := by
  simp only [forLoop, Action.forLoop, plain_bind, plain_act, plain_pure, plain_ite, ih.evaluate,
    ih.runBlock]
  congr 1
  funext v
  congr 1
  funext b
  cases b with
  | false => rfl
  | true =>
    simp only [if_true]
    congr 1
    funext flow
    cases flow <;> simp only [plain_bind, plain_pure, ih.evaluate, ih.serveTasks, ih.forLoop]

theorem plain_whileLoop (condition : Expr) (body : List Stmt) :
    plain (whileLoop (steps + 1) condition body) = Action.whileLoop (steps + 1) condition body := by
  simp only [whileLoop, Action.whileLoop, plain_bind, plain_act, plain_pure, plain_ite, ih.evaluate,
    ih.runBlock]
  congr 1
  funext v
  congr 1
  funext b
  cases b with
  | false => rfl
  | true =>
    simp only [if_true]
    congr 1
    funext flow
    cases flow <;> simp only [plain_bind, plain_pure, ih.serveTasks, ih.whileLoop]

theorem plain_awaitLine (prompt : String) :
    plain (awaitLine (steps + 1) prompt) = Action.awaitLine (steps + 1) prompt := by
  simp only [awaitLine, Action.awaitLine, plain_bind, plain_readLine]
  congr 1
  funext answer
  cases answer with
  | timedOut => simp only [plain_bind, ih.serveTasks, ih.awaitLine]
  | _ => rfl

theorem plain_runTopLevel (stmt : Stmt) :
    plain (runTopLevel (steps + 1) stmt) = Action.runTopLevel (steps + 1) stmt := by
  simp only [runTopLevel, Action.runTopLevel, plain_bind, ih.runStmt]
  congr 1
  funext flow
  cases flow with
  | next => rfl
  | returned v => simp only [plain_bind, plain_act, plain_stop]; rfl

theorem plain_serveTasks : plain (serveTasks (steps + 1)) = Action.serveTasks (steps + 1) := by
  simp only [serveTasks, Action.serveTasks, plain_bind, plain_act]
  congr 1
  funext due
  cases due with
  | none => rfl
  | some moment =>
    simp only [plain_bind, ih.runDue]
    congr 1
    funext ended
    cases ended <;> rfl

theorem plain_runDue (moment : Nat) :
    plain (runDue (steps + 1) moment) = Action.runDue (steps + 1) moment := by
  funext m
  simp only [Action.runDue, ← ih.fire]
  rfl

theorem plain_fire (tasks : List Task) :
    plain (fire (steps + 1) tasks) = Action.fire (steps + 1) tasks := by
  cases tasks with
  | nil => rfl
  | cons task rest =>
    funext m
    simp only [fire, Action.fire, plain_bind, plain_act]
    show plain (attempt _ _ _) m = _
    rw [plain_attempt, ih.runTopLevel]
    split <;> rename_i heq <;> rw [heq]
    · -- the task has run: it goes on, ends the run, or is gone
      rcases task.tick with ⟨goesOn, again⟩
      cases goesOn with
      | true =>
        simp only [plain_bind, ih.fire, rearm]
        show Action.bind _ _ _ = _
        -- the next moment may be one that the clock cannot hold
        by_cases hfits : again.nextRun < clockHorizon
        · simp only [Action.bind, hfits, if_true]
          rfl
        · simp only [Action.bind, hfits, if_false]
          rfl
      | false =>
        simp only [plain_ite, ih.fire]
        split <;> rfl
    · -- the task has failed: it is reported and the others go on
      simp only [plain_bind, plain_act, ih.fire]
      rfl

end Agreement

theorem agreement (steps : Nat) : Agreement steps := by
  induction steps with
  | zero => constructor <;> intros <;> rfl
  | succ steps ih =>
    exact ⟨plain_evaluate ih, plain_evaluateAll ih, plain_invoke ih, plain_runBlock ih,
      plain_runStmt ih, plain_forLoop ih, plain_whileLoop ih, plain_awaitLine ih,
      plain_runTopLevel ih, plain_serveTasks ih, plain_runDue ih, plain_fire ih⟩

/-- Where no task is due, nothing is fired; only the clock may have gone on. -/
theorem serveTasks_none_due {m m' : Machine} (h : Action.dueMoment m = (.done none, m')) (steps : Nat) :
    serveTasks (steps + 1) m = ⟨.done (), m', [⟨.step, m'⟩]⟩ := by
  have hdue : (act .step Action.dueMoment) m = ⟨.done none, m', [⟨.step, m'⟩]⟩ := by rw [act, h]
  have hdone : (act .step Action.dueMoment m).outcome = .done none := by rw [hdue]
  rw [serveTasks]
  show attempt _ _ _ m = _
  rw [attempt_done hdone, hdue]
  rfl

end Watched

theorem Action.serveTasks_none_due {m m' : Machine} (h : Action.dueMoment m = (.done none, m')) (steps : Nat) :
    Action.serveTasks (steps + 1) m = (.done (), m') := by
  rw [← (Watched.agreement (steps + 1)).serveTasks, Watched.plain, Watched.serveTasks_none_due h]

end SealedScript

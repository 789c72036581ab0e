/-
SealedScript/Proofs/Machine/Law.lean

From single steps to whole runs.  A law is a property of runs that holds of
single steps, is kept when one run follows another, when a run becomes the body
of a call or is made apart from the calls it interrupts, and when the failure of
a task is caught.  Whatever the program, its runs obey every law.

The induction over the evaluator is made here once; a fact about all runs is
then a law, which is checked on the single steps.  Where tasks make a
difference, a fact is only a law of bodies: it is checked on the steps of
statements and expressions, on the points at which tasks are served, and on the waits
for a line.

Main results: `BodyLaw.obeyed`, `Law.obeyed`, and `law_path`, by which the record
of a run has no gaps.
-/
import SealedScript.Proofs.Machine.Steps

namespace SealedScript

/-! ### Endings of runs -/

theorem Outcome.done_or_ended {α : Type} (outcome : Outcome α) :
    (∃ a, outcome = .done a) ∨ outcome.ending ≠ .done := by
  cases outcome with
  | done a => exact .inl ⟨a, rfl⟩
  | failed | clockOverflow | unfinished => exact .inr nofun

/-- What is not done is not followed by anything. -/
theorem Watched.bind_ended {α β : Type} {x : Watched α} {f : α → Watched β} {m : Machine}
    (h : (x m).outcome.ending ≠ .done) :
    ∃ outcome, (x >>= f) m = ⟨outcome, (x m).machine, (x m).moments⟩ ∧ outcome.ending = (x m).outcome.ending := by
  have hbind : (x >>= f) m = attempt x (fun e => stop (.failed e)) f m := rfl
  rcases houtcome : (x m).outcome with a | e | - | -
  · rw [houtcome] at h
    exact absurd rfl h
  · rw [hbind, attempt_failed houtcome]
    exact ⟨.failed e, by simp only [stop, List.append_nil], rfl⟩
  · rw [hbind, attempt_clockOverflow houtcome]
    exact ⟨.clockOverflow, rfl, rfl⟩
  · rw [hbind, attempt_unfinished houtcome]
    exact ⟨.unfinished, rfl, rfl⟩

/-! ### Laws -/

/-- A property of runs that is decided by their single steps.  A run is given by
the machine before it, its ending, its moments and the machine after it. -/
structure Law (Q : Machine → Ending → List Moment → Machine → Prop) : Prop where
  still : ∀ {m ending}, ending.isCipher = false → Q m ending [] m
  step : ∀ {event m ending m'}, SingleStep event m ending m' → event.Tells m m' → Q m ending [⟨event, m'⟩] m'
  follow : ∀ {m t m' ending t' m''}, Q m .done t m' → Q m' ending t' m'' → Q m ending (t ++ t') m''
  call : ∀ {m f args ending t m'}, m.depth < m.maxDepth →
    Q (m.enter (Action.callScope f args)) ending t m' →
    Q m ending (⟨.entered f, m.enter (Action.callScope f args)⟩ :: t ++ [⟨.left, m'.leave⟩]) m'.leave
  apart : ∀ {m scheduler ending t m'}, Q (m.park scheduler) ending t m' →
    Q m ending (⟨.parked, m.park scheduler⟩ :: t ++ [⟨.resumed, m'.resume m⟩]) (m'.resume m)
  caught : ∀ {m e t m' i}, Q m (.failed e) t m' →
    Q m .done (t ++ [⟨.step, m'.notice (.taskFailed i e)⟩]) (m'.notice (.taskFailed i e))

/-- A property of the runs of statements and expressions, apart from the tasks that
are served and the lines that are waited for in between. -/
structure BodyLaw (Q : Machine → Ending → List Moment → Machine → Prop) : Prop where
  still : ∀ {m ending}, ending.isCipher = false → Q m ending [] m
  step : ∀ {event m ending m'}, BodyStep event m ending m' → Q m ending [⟨event, m'⟩] m'
  follow : ∀ {m t m' ending t' m''}, Q m .done t m' → Q m' ending t' m'' → Q m ending (t ++ t') m''
  call : ∀ {m f args ending t m'}, m.depth < m.maxDepth →
    Q (m.enter (Action.callScope f args)) ending t m' →
    Q m ending (⟨.entered f, m.enter (Action.callScope f args)⟩ :: t ++ [⟨.left, m'.leave⟩]) m'.leave

/-- A law of all runs is one of bodies. -/
theorem Law.body {Q : Machine → Ending → List Moment → Machine → Prop} (law : Law Q) : BodyLaw Q :=
  ⟨law.still, fun h => law.step h.single (Event.tells_of_prints h.asksNone h.prints), law.follow, law.call⟩

/-- A watched run that has the property wherever it begins. -/
def Obeys {α : Type} (Q : Machine → Ending → List Moment → Machine → Prop) (x : Watched α) : Prop :=
  ∀ m, Q m (x m).outcome.ending (x m).moments (x m).machine

namespace BodyLaw

open Watched

variable {Q : Machine → Ending → List Moment → Machine → Prop} {α β : Type}

/-! ### How runs are built -/

section

variable (law : BodyLaw Q)
include law

theorem pure (a : α) : Obeys Q (Watched.pure a) := fun _ => law.still rfl

theorem stop {outcome : Outcome α} (h : outcome.ending.isCipher = false) :
    Obeys Q (Watched.stop outcome) := fun _ => law.still h

theorem act {event : Event} {x : Action α} (h : Action.IsBodyStep event x) : Obeys Q (act event x) :=
  fun m => law.step (h m)

theorem quiet {x : Action α} (h : Action.Quiet x) : Obeys Q (Watched.act .step x) :=
  law.act h.isBodyStep

theorem bind {x : Watched α} {f : α → Watched β} (hx : Obeys Q x) (hf : ∀ a, Obeys Q (f a)) :
    Obeys Q (x >>= f) := by
  intro m
  have h := hx m
  obtain ⟨a, hdone⟩ | hended := (x m).outcome.done_or_ended
  · have hbind : (x >>= f) m = _ := attempt_done hdone
    rw [hdone] at h
    rw [hbind]
    exact law.follow h (hf a _)
  · -- what ends the run is passed on without a step of its own
    obtain ⟨outcome, hbind, hending⟩ := bind_ended (f := f) hended
    rw [hbind, hending]
    exact h

theorem inCall {f : FunctionDef} {args : List Value} {x : Watched α} (hx : Obeys Q x) :
    Obeys Q (inCall f args x) := by
  intro m
  unfold Watched.inCall
  split
  · exact law.still rfl
  · exact law.call (by omega) (hx _)

theorem store (name : String) (value : Value) (encrypt : Bool) :
    Obeys Q (Watched.store name value encrypt) :=
  law.act (Action.isBodyStep_store name value encrypt)

theorem stepVariable (target : VarRef) (step : Step) (yieldsOld : Bool) :
    Obeys Q (stepVariable target step yieldsOld) := by
  refine law.bind (law.act (Action.isBodyStep_readOpened target.name)) fun (old, wasEncrypted) => ?_
  refine law.bind (law.quiet (Action.quiet_ofExcept (Action.ordinary_step old step))) fun new => ?_
  exact law.bind (law.store target.name new _) fun _ => law.pure _

end

/-! ### Expressions and statements -/

/-- The property for every construct, with the given number of steps. -/
structure Obeyed (Q : Machine → Ending → List Moment → Machine → Prop) (steps : Nat) : Prop where
  evaluate : ∀ expr reading, Obeys Q (evaluate steps expr reading)
  evaluateAll : ∀ exprs reading, Obeys Q (evaluateAll steps exprs reading)
  invoke : ∀ f args, Obeys Q (invoke steps f args)
  runBlock : ∀ stmts, Obeys Q (runBlock steps stmts)
  runStmt : ∀ stmt, Obeys Q (runStmt steps stmt)
  forLoop : ∀ condition step body, Obeys Q (forLoop steps condition step body)
  whileLoop : ∀ condition body, Obeys Q (whileLoop steps condition body)
  awaitLine : ∀ prompt, Obeys Q (awaitLine steps prompt)
  runTopLevel : ∀ stmt, Obeys Q (runTopLevel steps stmt)

section

variable (law : BodyLaw Q) {steps : Nat} (ih : Obeyed Q steps) (served : Obeys Q (serveTasks steps))
include law ih

theorem evaluate_succ (expr : Expr) (reading : Reading) : Obeys Q (evaluate (steps + 1) expr reading) := by
  cases expr with
  | literal value => exact law.pure _
  | list items =>
    exact law.bind (ih.evaluateAll items reading) fun values => law.quiet (Action.quiet_withHeap _)
  | «variable» target => exact law.act (Action.isBodyStep_read target.name reading)
  | assign target op value =>
    cases op with
    | set => exact law.bind (ih.evaluate value reading) fun v => law.store target.name v _
    | _ =>
      -- the compound forms read the old value, and that is where a cipher can refuse
      refine law.bind (ih.evaluate value reading) fun rhs => ?_
      refine law.bind (law.act (Action.isBodyStep_readOpened target.name)) fun (old, wasEncrypted) => ?_
      refine law.bind (law.quiet (Action.quiet_assigned _ rhs (Action.quiet_pure old))) fun v => ?_
      exact law.store target.name v _
  | assignElement target index op value =>
    refine law.bind (ih.evaluate target reading) fun list => ?_
    refine law.bind (law.quiet (Action.quiet_listOf list)) fun id => ?_
    refine law.bind (law.quiet (Action.quiet_reads _)) fun length => ?_
    refine law.bind (ih.evaluate index reading) fun place => ?_
    refine law.bind (law.quiet (Action.quiet_placeOf place length)) fun i => ?_
    exact law.bind (ih.evaluate value reading) fun rhs =>
      law.quiet (Action.quiet_assignElement id i op rhs)
  | element target index =>
    refine law.bind (ih.evaluate target reading) fun list => ?_
    refine law.bind (law.quiet (Action.quiet_listOf list)) fun id => ?_
    refine law.bind (law.quiet (Action.quiet_reads _)) fun length => ?_
    refine law.bind (ih.evaluate index reading) fun place => ?_
    exact law.bind (law.quiet (Action.quiet_placeOf place length)) fun i =>
      law.quiet (Action.quiet_elementAt id i length)
  | binary op lhs rhs =>
    refine law.bind (ih.evaluate lhs reading) fun l => ?_
    exact law.bind (ih.evaluate rhs reading) fun r =>
      law.quiet (Action.quiet_onHeap fun heap => Action.ordinary_apply heap op l r)
  | not operand =>
    refine law.bind (ih.evaluate operand reading) fun v => ?_
    exact law.bind (law.quiet (Action.quiet_reads _)) fun b => law.pure _
  | step target step yieldsOld => exact law.stepVariable target step yieldsOld
  | call name args =>
    refine law.bind (law.quiet (Action.quiet_functionFor name args.length)) fun f => ?_
    exact law.bind (ih.evaluateAll args reading) fun values => ih.invoke f values
  | method target name args =>
    refine law.bind (ih.evaluate target reading) fun v => ?_
    exact law.bind (ih.evaluateAll args reading) fun values =>
      law.quiet (Action.quiet_callMethod v name values)

theorem evaluateAll_succ (exprs : List Expr) (reading : Reading) :
    Obeys Q (evaluateAll (steps + 1) exprs reading) := by
  cases exprs with
  | nil => exact law.pure _
  | cons expr rest =>
    refine law.bind (ih.evaluate expr reading) fun v => ?_
    exact law.bind (ih.evaluateAll rest reading) fun values => law.pure _

theorem invoke_succ (f : FunctionDef) (args : List Value) : Obeys Q (invoke (steps + 1) f args) :=
  law.bind (law.inCall (ih.runBlock f.body)) fun _ => law.pure _

theorem runBlock_succ (stmts : List Stmt) : Obeys Q (runBlock (steps + 1) stmts) := by
  cases stmts with
  | nil => exact law.pure _
  | cons stmt rest =>
    refine law.bind (ih.runStmt stmt) fun flow => ?_
    cases flow with
    | next => exact ih.runBlock rest
    | returned v => exact law.pure _

include served in
theorem runStmt_succ (stmt : Stmt) : Obeys Q (runStmt (steps + 1) stmt) := by
  refine law.bind served fun _ => ?_
  cases stmt with
  | print value =>
    refine law.bind (ih.evaluate value .sealed) fun v => ?_
    exact law.bind (law.quiet (Action.quiet_printLine _)) fun _ => law.pure _
  | conditional condition yes no =>
    refine law.bind (ih.evaluate condition .opened) fun v => ?_
    refine law.bind (law.quiet (Action.quiet_reads _)) fun b => ?_
    cases b with
    | true => exact ih.runBlock yes
    | false => exact ih.runBlock (no.getD [])
  | forLoop start condition step body =>
    exact law.bind (ih.evaluate start .opened) fun _ => ih.forLoop condition step body
  | whileLoop condition body => exact ih.whileLoop condition body
  | input prompt target =>
    refine law.bind (ih.evaluate prompt .opened) fun v => ?_
    refine law.bind (law.quiet (Action.quiet_promptText v)) fun text => ?_
    refine law.bind (ih.awaitLine text) fun line => ?_
    refine law.bind (law.quiet (Action.quiet_withHeap _)) fun v => ?_
    exact law.bind (law.store target.name v target.encrypted) fun _ => law.pure _
  | function name params body =>
    exact law.bind (law.act (Action.isBodyStep_define name params body)) fun _ => law.pure _
  | giveBack value =>
    cases value with
    | none => exact law.pure _
    | some value => exact law.bind (ih.evaluate value .opened) fun v => law.pure _
  | useLibrary name =>
    exact law.bind (law.act (Action.isBodyStep_useLibrary name)) fun _ => law.pure _
  | trigger time unit times action =>
    refine law.bind (ih.evaluate time .opened) fun moment => ?_
    have hschedule (count : Option Value) :=
      law.bind (law.act (Action.isBodyStep_schedule moment unit count action)) fun _ => law.pure Flow.next
    cases times with
    | none => exact law.bind (law.pure none) hschedule
    | some times =>
      exact law.bind (ih.evaluate times .opened) fun v => law.bind (law.pure (some v)) hschedule
  | expression value => exact law.bind (ih.evaluate value .opened) fun _ => law.pure _

include served in
theorem forLoop_succ (condition step : Expr) (body : List Stmt) :
    Obeys Q (forLoop (steps + 1) condition step body) := by
  refine law.bind (ih.evaluate condition .opened) fun v => ?_
  refine law.bind (law.quiet (Action.quiet_reads _)) fun b => ?_
  cases b with
  | false => exact law.pure _
  | true =>
    refine law.bind (ih.runBlock body) fun flow => ?_
    cases flow with
    | returned v => exact law.pure _
    | next =>
      refine law.bind (ih.evaluate step .opened) fun _ => ?_
      exact law.bind served fun _ => ih.forLoop condition step body

include served in
theorem whileLoop_succ (condition : Expr) (body : List Stmt) :
    Obeys Q (whileLoop (steps + 1) condition body) := by
  refine law.bind (ih.evaluate condition .opened) fun v => ?_
  refine law.bind (law.quiet (Action.quiet_reads _)) fun b => ?_
  cases b with
  | false => exact law.pure _
  | true =>
    refine law.bind (ih.runBlock body) fun flow => ?_
    cases flow with
    | returned v => exact law.pure _
    | next => exact law.bind served fun _ => ih.whileLoop condition body

theorem runTopLevel_succ (stmt : Stmt) : Obeys Q (runTopLevel (steps + 1) stmt) := by
  refine law.bind (ih.runStmt stmt) fun flow => ?_
  cases flow with
  | next => exact law.pure _
  | returned v => exact law.bind (law.act Action.isBodyStep_strayReturn) fun _ => law.stop rfl

/-- With one step more, given how tasks are served and lines are waited for. -/
theorem obeyed_succ (served : Obeys Q (serveTasks steps))
    (awaited : ∀ prompt, Obeys Q (awaitLine (steps + 1) prompt)) : Obeyed Q (steps + 1) :=
  ⟨law.evaluate_succ ih, law.evaluateAll_succ ih, law.invoke_succ ih, law.runBlock_succ ih,
    law.runStmt_succ ih served, law.forLoop_succ ih served, law.whileLoop_succ ih served,
    awaited, law.runTopLevel_succ ih⟩

end

/-- Where a single call for a line has the property, and what comes between two of them, a
wait for a line has it too. -/
theorem awaitLine_succ (law : BodyLaw Q) {steps : Nat} {prompt : String} (asked : Obeys Q (readLine prompt))
    (served : Obeys Q (serveTasks steps)) (ih : Obeys Q (Watched.awaitLine steps prompt)) :
    Obeys Q (Watched.awaitLine (steps + 1) prompt) := by
  refine law.bind asked fun answer => ?_
  cases answer with
  | line text => exact law.pure _
  | ended => exact law.stop rfl
  | failed what => exact law.stop rfl
  | timedOut => exact law.bind served fun _ => ih

theorem awaitLine (law : BodyLaw Q) (asked : ∀ prompt, Obeys Q (readLine prompt))
    (served : ∀ steps, Obeys Q (serveTasks steps)) (steps : Nat) (prompt : String) :
    Obeys Q (Watched.awaitLine steps prompt) := by
  induction steps with
  | zero => exact law.stop rfl
  | succ steps ih => exact law.awaitLine_succ (asked prompt) (served steps) ih

/-- Where the firing of tasks has the property, serving them has it too. -/
theorem serveTasks_succ (law : BodyLaw Q) {steps : Nat} (due : ∀ moment, Obeys Q (runDue steps moment)) :
    Obeys Q (Watched.serveTasks (steps + 1)) := by
  refine law.bind (law.quiet Action.quiet_dueMoment) fun moment => ?_
  cases moment with
  | none => exact law.pure _
  | some moment =>
    refine law.bind (due moment) fun ended => ?_
    cases ended with
    | none => exact law.pure _
    | some id => exact law.stop rfl

theorem serveTasks (law : BodyLaw Q) (due : ∀ steps moment, Obeys Q (runDue steps moment)) (steps : Nat) :
    Obeys Q (Watched.serveTasks steps) := by
  cases steps with
  | zero => exact law.stop rfl
  | succ steps => exact law.serveTasks_succ (due steps)

theorem obeyed_zero (law : BodyLaw Q) : Obeyed Q 0 := by
  constructor <;> intros <;> exact law.stop rfl

/-- **Every body obeys every law of bodies** that holds wherever tasks are served and
lines are waited for. -/
theorem obeyed (law : BodyLaw Q) (served : ∀ steps, Obeys Q (Watched.serveTasks steps))
    (awaited : ∀ steps prompt, Obeys Q (Watched.awaitLine steps prompt)) (steps : Nat) : Obeyed Q steps := by
  induction steps with
  | zero => exact law.obeyed_zero
  | succ steps ih => exact law.obeyed_succ ih (served steps) (awaited (steps + 1))

end BodyLaw

namespace Law

open Watched

variable {Q : Machine → Ending → List Moment → Machine → Prop} {α β : Type}

/-! ### Tasks -/

section

variable (law : Law Q)
include law

theorem readLine (prompt : String) : Obeys Q (readLine prompt) :=
  fun m => law.step (.quiet (Action.alike_readLine prompt m) rfl) ⟨rfl, rfl⟩

/-- Tasks that are armed again. -/
theorem rearmed {m : Machine} (tasks : List Task) :
    let m' := { m with scheduler := tasks.foldl Scheduler.putBack m.scheduler }
    Q m .done [⟨.step, m'⟩] m' :=
  law.step (.rearmed tasks) (.of_eq rfl)

theorem rearm (task : Task) : Obeys Q (rearm task) := by
  intro m
  by_cases hfits : task.nextRun < clockHorizon
  · simp only [Watched.rearm, Watched.act, hfits, if_true]
    exact law.rearmed [task]
  · simp only [Watched.rearm, Watched.act, hfits, if_false]
    exact law.step (.quiet (.refl m) rfl) (.refl m)

theorem rearmAll (tasks : List Task) (ended : Nat) : Obeys Q (rearmAll tasks ended) :=
  fun _ => law.rearmed tasks

/-- The failure of a task ends the task only. -/
theorem attemptTask {x : Watched Unit} {id : Nat} {next : Watched β} {after : Unit → Watched β}
    (hx : Obeys Q x) (hnext : Obeys Q next) (hafter : ∀ u, Obeys Q (after u)) :
    Obeys Q (attempt x
      (fun e => do
        Watched.act .step (.changes (·.notice (.taskFailed id e)))
        next) after) := by
  intro m
  have h := hx m
  rcases houtcome : (x m).outcome with u | e | - | - <;> rw [houtcome] at h
  · rw [attempt_done houtcome]
    exact law.follow h (hafter u _)
  · -- the failure is caught, and the run goes on as if the task had ended well
    rw [attempt_failed houtcome]
    have hcaught := law.follow (law.caught (i := id) h) (hnext _)
    rw [List.append_assoc] at hcaught
    exact hcaught
  · rw [attempt_clockOverflow houtcome]
    exact h
  · rw [attempt_unfinished houtcome]
    exact h

end

/-- The property for every construct and for tasks, with the given number of steps. -/
structure Obeyed (Q : Machine → Ending → List Moment → Machine → Prop) (steps : Nat) : Prop
    extends BodyLaw.Obeyed Q steps where
  serveTasks : Obeys Q (serveTasks steps)
  runDue : ∀ moment, Obeys Q (runDue steps moment)
  fire : ∀ tasks, Obeys Q (fire steps tasks)

section

variable (law : Law Q) {steps : Nat} (ih : Obeyed Q steps)
include law ih

theorem runDue_succ (moment : Nat) : Obeys Q (runDue (steps + 1) moment) :=
  fun m => law.apart (ih.fire (m.scheduler.takeReady moment).1 _)

theorem fire_succ (tasks : List Task) : Obeys Q (fire (steps + 1) tasks) := by
  cases tasks with
  | nil => exact law.body.pure _
  | cons task rest =>
    refine law.body.bind (fun m => law.step (.quiet (.refl m) rfl) (.refl m)) fun _ => ?_
    refine law.attemptTask (ih.runTopLevel task.action) (ih.fire rest) fun _ => ?_
    rcases task.tick with ⟨goesOn, after⟩
    cases goesOn with
    | true => exact law.body.bind (law.rearm after) fun _ => ih.fire rest
    | false =>
      -- a counted task that is through ends the run, another one only itself
      dsimp only
      split
      · exact law.rearmAll rest task.id
      · exact ih.fire rest

end

/-- **Every run obeys every law**, whatever it runs and however many steps it is
given. -/
theorem obeyed (law : Law Q) (steps : Nat) : Obeyed Q steps := by
  induction steps with
  | zero =>
    refine { law.body.obeyed_zero with serveTasks := ?_, runDue := ?_, fire := ?_ } <;> intros <;>
      exact law.body.stop rfl
  | succ steps ih =>
    have awaited (prompt : String) : Obeys Q (awaitLine (steps + 1) prompt) :=
      law.body.awaitLine_succ (law.readLine prompt) ih.serveTasks (ih.awaitLine prompt)
    exact { law.body.obeyed_succ ih.toObeyed ih.serveTasks awaited with
      serveTasks := law.body.serveTasks_succ ih.runDue, runDue := law.runDue_succ ih, fire := law.fire_succ ih }

end Law

/-! ### Records are complete -/

/-- What can lie between two machines of a record that follow each other. -/
inductive Transition : Machine → Moment → Prop
  | step {event : Event} {m m' : Machine} {ending : Ending} :
      SingleStep event m ending m' → Transition m ⟨event, m'⟩
  | entered {m : Machine} (f : FunctionDef) (args : List Value) :
      m.depth < m.maxDepth → Transition m ⟨.entered f, m.enter (Action.callScope f args)⟩
  | left {m : Machine} : Transition m ⟨.left, m.leave⟩
  | parked {m : Machine} (scheduler : Scheduler) : Transition m ⟨.parked, m.park scheduler⟩
  | resumed {m : Machine} (before : Machine) : Transition m ⟨.resumed, m.resume before⟩
  | reported {m : Machine} (id : Nat) (e : RuntimeError) :
      Transition m ⟨.step, m.notice (.taskFailed id e)⟩

/-- Moments that lead from one machine to another without a gap. -/
def Path : Machine → List Moment → Machine → Prop
  | m, [], m' => m' = m
  | m, k :: t, m' => Transition m k ∧ Path k.machine t m'

theorem Path.append {t t' : List Moment} {m m' m'' : Machine} (h : Path m t m') (h' : Path m' t' m'') :
    Path m (t ++ t') m'' := by
  induction t generalizing m with
  | nil =>
    cases h
    exact h'
  | cons k t ih => exact ⟨h.1, ih h.2⟩

theorem Path.snoc {t : List Moment} {m m' : Machine} {k : Moment} (h : Path m t m') (hk : Transition m' k) :
    Path m (t ++ [k]) k.machine :=
  h.append ⟨hk, rfl⟩

/-- The moments of a run lead from its beginning to its end. -/
theorem law_path : Law fun m _ t m' => Path m t m' where
  still _ := rfl
  step h _ := ⟨.step h, rfl⟩
  follow h h' := h.append h'
  call hlimit h := Path.snoc (t := _ :: _) ⟨.entered _ _ hlimit, h⟩ .left
  apart h := Path.snoc (t := _ :: _) ⟨.parked _, h⟩ (.resumed _)
  caught h := h.snoc (.reported _ _)

end SealedScript

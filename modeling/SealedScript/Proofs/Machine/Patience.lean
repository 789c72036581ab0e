/-
SealedScript/Proofs/Machine/Patience.lean

What a run comes to does not depend on how many steps it is given, once they
suffice.  With one step more a run is the same, record and all, unless it was cut
off; so runs of one thing agree as soon as they end.

The induction over the evaluator is made once, on pairs of runs that agree where
the first one ends (`Watched.Extends`).  So one can speak of what an expression comes
to without naming a number of steps (`Expr.ComesTo`), and it comes to one thing only.
Main results: `Watched.eq_of_le`, `Expr.ComesTo.unique`.
-/
import SealedScript.Proofs.Machine.Watch

namespace SealedScript

namespace Watched

variable {α β : Type}

/-- A second run is like the first one, unless the first one was cut off. -/
def Extends (x y : Watched α) : Prop := ∀ m, (x m).outcome = .unfinished ∨ y m = x m

/-! ### How runs are built -/

theorem Extends.refl (x : Watched α) : Extends x x := fun _ => .inr rfl

theorem Extends.cutOff (y : Watched α) : Extends (stop .unfinished) y := fun _ => .inl rfl

theorem Extends.trans {x y z : Watched α} (h : Extends x y) (h' : Extends y z) : Extends x z := by
  intro m
  rcases h m with hcut | hsame
  · exact .inl hcut
  · rcases h' m with hcut' | hsame'
    · exact .inl (by rw [← hsame, hcut'])
    · exact .inr (hsame'.trans hsame)

theorem Extends.attempt {x y : Watched α} {caught caught' : RuntimeError → Watched β}
    {next next' : α → Watched β} (h : Extends x y) (hcaught : ∀ e, Extends (caught e) (caught' e))
    (hnext : ∀ a, Extends (next a) (next' a)) :
    Extends (Watched.attempt x caught next) (Watched.attempt y caught' next') := by
  intro m
  rcases h m with hcut | hsame
  · exact .inl (by rw [attempt_unfinished hcut])
  · rcases houtcome : (x m).outcome with a | e | - | -
    · rw [attempt_done houtcome, attempt_done (hsame ▸ houtcome), hsame]
      rcases hnext a (x m).machine with hcut | hsame'
      · exact .inl hcut
      · exact .inr (by rw [hsame'])
    · rw [attempt_failed houtcome, attempt_failed (hsame ▸ houtcome), hsame]
      rcases hcaught e (x m).machine with hcut | hsame'
      · exact .inl hcut
      · exact .inr (by rw [hsame'])
    · rw [attempt_clockOverflow houtcome, attempt_clockOverflow (hsame ▸ houtcome), hsame]
      exact .inr rfl
    · exact .inl (by rw [attempt_unfinished houtcome])

theorem Extends.bind {x y : Watched α} {f g : α → Watched β} (h : Extends x y)
    (hnext : ∀ a, Extends (f a) (g a)) : Extends (x >>= f) (y >>= g) :=
  h.attempt (fun _ => .refl _) hnext

/-- The same step before both. -/
theorem Extends.after {x : Watched α} {f g : α → Watched β} (hnext : ∀ a, Extends (f a) (g a)) :
    Extends (x >>= f) (x >>= g) := (Extends.refl x).bind hnext

theorem Extends.inCall {x y : Watched α} (h : Extends x y) (f : FunctionDef) (args : List Value) :
    Extends (inCall f args x) (inCall f args y) := by
  intro m
  unfold Watched.inCall
  split
  · exact .inr rfl
  · rcases h (m.enter (Action.callScope f args)) with hcut | hsame
    · exact .inl hcut
    · exact .inr (by simp only [hsame])

theorem Extends.apart {x y : Watched α} (h : Extends x y) (scheduler : Scheduler) :
    Extends (apart scheduler x) (apart scheduler y) := by
  intro m
  unfold Watched.apart
  rcases h (m.park scheduler) with hcut | hsame
  · exact .inl hcut
  · exact .inr (by simp only [hsame])

/-! ### Expressions, statements and tasks -/

/-- With one step more every construct does the same, unless it was cut off. -/
structure Steady (steps : Nat) : Prop where
  evaluate : ∀ expr reading, Extends (evaluate steps expr reading) (evaluate (steps + 1) expr reading)
  evaluateAll : ∀ exprs reading,
    Extends (evaluateAll steps exprs reading) (evaluateAll (steps + 1) exprs reading)
  invoke : ∀ f args, Extends (invoke steps f args) (invoke (steps + 1) f args)
  runBlock : ∀ stmts, Extends (runBlock steps stmts) (runBlock (steps + 1) stmts)
  runStmt : ∀ stmt, Extends (runStmt steps stmt) (runStmt (steps + 1) stmt)
  forLoop : ∀ condition step body,
    Extends (forLoop steps condition step body) (forLoop (steps + 1) condition step body)
  whileLoop : ∀ condition body, Extends (whileLoop steps condition body) (whileLoop (steps + 1) condition body)
  awaitLine : ∀ prompt, Extends (awaitLine steps prompt) (awaitLine (steps + 1) prompt)
  runTopLevel : ∀ stmt, Extends (runTopLevel steps stmt) (runTopLevel (steps + 1) stmt)
  serveTasks : Extends (serveTasks steps) (serveTasks (steps + 1))
  runDue : ∀ moment, Extends (runDue steps moment) (runDue (steps + 1) moment)
  fire : ∀ tasks, Extends (fire steps tasks) (fire (steps + 1) tasks)

section Steady

variable {steps : Nat} (ih : Steady steps)
include ih

theorem steady_evaluate (expr : Expr) (reading : Reading) :
    Extends (evaluate (steps + 1) expr reading) (evaluate (steps + 2) expr reading) := by
  cases expr with
  | literal | «variable» | step => exact .refl _
  | list items => exact (ih.evaluateAll items reading).bind fun _ => .refl _
  | assign target op value =>
    cases op with
    | _ => exact (ih.evaluate value reading).bind fun _ => .refl _
  | assignElement target index op value =>
    refine (ih.evaluate target reading).bind fun list => .after fun id => .after fun length => ?_
    refine (ih.evaluate index reading).bind fun place => .after fun i => ?_
    exact (ih.evaluate value reading).bind fun _ => .refl _
  | element target index =>
    refine (ih.evaluate target reading).bind fun list => .after fun id => .after fun length => ?_
    exact (ih.evaluate index reading).bind fun _ => .refl _
  | binary op lhs rhs =>
    exact (ih.evaluate lhs reading).bind fun _ => (ih.evaluate rhs reading).bind fun _ => .refl _
  | not operand => exact (ih.evaluate operand reading).bind fun _ => .refl _
  | call name args =>
    exact .after fun f => (ih.evaluateAll args reading).bind fun values => ih.invoke f values
  | method target name args =>
    exact (ih.evaluate target reading).bind fun _ => (ih.evaluateAll args reading).bind fun _ => .refl _

theorem steady_evaluateAll (exprs : List Expr) (reading : Reading) :
    Extends (evaluateAll (steps + 1) exprs reading) (evaluateAll (steps + 2) exprs reading) := by
  cases exprs with
  | nil => exact .refl _
  | cons expr rest =>
    exact (ih.evaluate expr reading).bind fun _ => (ih.evaluateAll rest reading).bind fun _ => .refl _

theorem steady_invoke (f : FunctionDef) (args : List Value) :
    Extends (invoke (steps + 1) f args) (invoke (steps + 2) f args) :=
  ((ih.runBlock f.body).inCall f args).bind fun _ => .refl _

theorem steady_runBlock (stmts : List Stmt) :
    Extends (runBlock (steps + 1) stmts) (runBlock (steps + 2) stmts) := by
  cases stmts with
  | nil => exact .refl _
  | cons stmt rest =>
    refine (ih.runStmt stmt).bind fun flow => ?_
    cases flow with
    | next => exact ih.runBlock rest
    | returned v => exact .refl _

theorem steady_runStmt (stmt : Stmt) : Extends (runStmt (steps + 1) stmt) (runStmt (steps + 2) stmt) := by
  refine ih.serveTasks.bind fun _ => ?_
  cases stmt with
  | print value => exact (ih.evaluate value .sealed).bind fun _ => .refl _
  | conditional condition yes no =>
    refine (ih.evaluate condition .opened).bind fun v => .after fun b => ?_
    cases b with
    | true => exact ih.runBlock yes
    | false => exact ih.runBlock (no.getD [])
  | forLoop start condition step body =>
    exact (ih.evaluate start .opened).bind fun _ => ih.forLoop condition step body
  | whileLoop condition body => exact ih.whileLoop condition body
  | input prompt target =>
    refine (ih.evaluate prompt .opened).bind fun v => .after fun text => ?_
    exact (ih.awaitLine text).bind fun _ => .refl _
  | function | useLibrary => exact .refl _
  | giveBack value =>
    cases value with
    | none => exact .refl _
    | some value => exact (ih.evaluate value .opened).bind fun _ => .refl _
  | trigger time unit times action =>
    refine (ih.evaluate time .opened).bind fun moment => ?_
    cases times with
    | none => exact .refl _
    | some times => exact (ih.evaluate times .opened).bind fun _ => .refl _
  | expression value => exact (ih.evaluate value .opened).bind fun _ => .refl _

theorem steady_forLoop (condition step : Expr) (body : List Stmt) :
    Extends (forLoop (steps + 1) condition step body) (forLoop (steps + 2) condition step body) := by
  refine (ih.evaluate condition .opened).bind fun v => .after fun b => ?_
  cases b with
  | false => exact .refl _
  | true =>
    refine (ih.runBlock body).bind fun flow => ?_
    cases flow with
    | returned v => exact .refl _
    | next =>
      refine (ih.evaluate step .opened).bind fun _ => ?_
      exact ih.serveTasks.bind fun _ => ih.forLoop condition step body

theorem steady_whileLoop (condition : Expr) (body : List Stmt) :
    Extends (whileLoop (steps + 1) condition body) (whileLoop (steps + 2) condition body) := by
  refine (ih.evaluate condition .opened).bind fun v => .after fun b => ?_
  cases b with
  | false => exact .refl _
  | true =>
    refine (ih.runBlock body).bind fun flow => ?_
    cases flow with
    | returned v => exact .refl _
    | next => exact ih.serveTasks.bind fun _ => ih.whileLoop condition body

theorem steady_awaitLine (prompt : String) :
    Extends (awaitLine (steps + 1) prompt) (awaitLine (steps + 2) prompt) := by
  refine .after fun answer => ?_
  cases answer with
  | line | ended | failed => exact .refl _
  | timedOut => exact ih.serveTasks.bind fun _ => ih.awaitLine prompt

theorem steady_runTopLevel (stmt : Stmt) :
    Extends (runTopLevel (steps + 1) stmt) (runTopLevel (steps + 2) stmt) :=
  (ih.runStmt stmt).bind fun _ => .refl _

theorem steady_serveTasks : Extends (serveTasks (steps + 1)) (serveTasks (steps + 2)) := by
  refine .after fun due => ?_
  cases due with
  | none => exact .refl _
  | some moment => exact (ih.runDue moment).bind fun _ => .refl _

theorem steady_runDue (moment : Nat) : Extends (runDue (steps + 1) moment) (runDue (steps + 2) moment) :=
  fun m => (ih.fire (m.scheduler.takeReady moment).1).apart (m.scheduler.takeReady moment).2 m

theorem steady_fire (tasks : List Task) : Extends (fire (steps + 1) tasks) (fire (steps + 2) tasks) := by
  cases tasks with
  | nil => exact .refl _
  | cons task rest =>
    refine .after fun _ => (ih.runTopLevel task.action).attempt (fun e => ?_) fun _ => ?_
    · exact .after fun _ => ih.fire rest
    · rcases task.tick with ⟨goesOn, after⟩
      cases goesOn with
      | true => exact .after fun _ => ih.fire rest
      | false =>
        cases hhalts : after.halts with
        | true =>
          simp only [hhalts, if_true]
          exact .refl _
        | false =>
          simp only [hhalts, Bool.false_eq_true, if_false]
          exact ih.fire rest

end Steady

theorem steady (steps : Nat) : Steady steps := by
  induction steps with
  | zero => constructor <;> intros <;> exact .cutOff _
  | succ steps ih =>
    exact ⟨steady_evaluate ih, steady_evaluateAll ih, steady_invoke ih, steady_runBlock ih, steady_runStmt ih,
      steady_forLoop ih, steady_whileLoop ih, steady_awaitLine ih, steady_runTopLevel ih,
      steady_serveTasks ih, steady_runDue ih, steady_fire ih⟩

/-! ### Enough steps -/

/-- **A run that has ended is the same with more steps.** -/
theorem eq_of_le {x : Nat → Watched α} (h : ∀ steps, Extends (x steps) (x (steps + 1))) {steps more : Nat}
    (hle : steps ≤ more) {m : Machine} (hends : (x steps m).outcome ≠ .unfinished) : x more m = x steps m := by
  have hextends : Extends (x steps) (x more) := by
    induction hle with
    | refl => exact .refl _
    | step _ ih => exact ih.trans (h _)
  exact (hextends m).resolve_left hends

end Watched

/-! ### What an expression comes to -/

/-- With steps enough, and however many, an expression is evaluated to this outcome and leaves this
machine. -/
def Expr.ComesTo (expr : Expr) (reading : Reading) (m : Machine) (outcome : Outcome Value) (m' : Machine) : Prop :=
  ∃ enough, ∀ steps, enough ≤ steps → Action.evaluate steps expr reading m = (outcome, m')

namespace Expr.ComesTo

variable {expr : Expr} {reading : Reading} {m m₁ m₂ : Machine} {outcome outcome' : Outcome Value}

/-- One run that ends tells what all longer ones come to. -/
theorem of_evaluate (steps : Nat) (h : Action.evaluate steps expr reading m = (outcome, m₁))
    (hends : outcome ≠ .unfinished) : expr.ComesTo reading m outcome m₁ := by
  rw [← (Watched.agreement steps).evaluate, Watched.plain] at h
  obtain ⟨rfl, rfl⟩ := Prod.mk.inj h
  refine ⟨steps, fun more hle => ?_⟩
  rw [← (Watched.agreement more).evaluate, Watched.plain,
    Watched.eq_of_le (fun steps => (Watched.steady steps).evaluate expr reading) hle hends]

theorem unique (h : expr.ComesTo reading m outcome m₁) (h' : expr.ComesTo reading m outcome' m₂) :
    outcome = outcome' ∧ m₁ = m₂ := by
  obtain ⟨enough, hruns⟩ := h
  obtain ⟨enough', hruns'⟩ := h'
  have hrun := hruns (max enough enough') (Nat.le_max_left _ _)
  rw [hruns' (max enough enough') (Nat.le_max_right _ _)] at hrun
  obtain ⟨rfl, rfl⟩ := Prod.mk.inj hrun
  exact ⟨rfl, rfl⟩

end Expr.ComesTo

end SealedScript

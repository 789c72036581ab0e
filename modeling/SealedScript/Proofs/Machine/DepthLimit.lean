/-
SealedScript/Proofs/Machine/DepthLimit.lean

The limit for calls.  A run in which timers play no part looks at the limit at one place
only, where a call begins, and there the limit makes a difference at most by an error.  No
construct of the language catches that error, so it ends the run.  A run that does not end
so therefore goes the same way under every higher limit; and one that does has then one
call more than the limit allows.

With timers that would not hold, since the failure of a task is caught: the run goes on
without the task.

Main results: `Watched.untimed`, the induction over the evaluator, and
`higher_limit_changes_nothing`.
-/
import SealedScript.Proofs.Machine.Timerless

namespace SealedScript

/-! ### Untimed runs -/

namespace Watched

variable {α β : Type}

/-- A call for which there is room. -/
theorem inCall_of_lt {f : FunctionDef} {args : List Value} {x : Watched α} {m : Machine} (h : m.depth < m.maxDepth) :
    inCall f args x m =
      ⟨(x (m.enter (Action.callScope f args))).outcome, (x (m.enter (Action.callScope f args))).machine.leave,
        ⟨.entered f, m.enter (Action.callScope f args)⟩ :: (x (m.enter (Action.callScope f args))).moments
          ++ [⟨.left, (x (m.enter (Action.callScope f args))).machine.leave⟩]⟩ := by
  rw [inCall, if_neg (by omega)]

/-- What there is to say of a run from a machine without timers: no timer is ever armed,
the active calls are kept, and the run ends because too many calls are active or goes the
same way under every higher limit. -/
structure UntimedFrom (x : Watched α) (m : Machine) : Prop where
  timerless : (x m).machine.Timerless
  moments : ∀ k ∈ (x m).moments, k.machine.Timerless
  calls : m.SameCalls (x m).machine
  limit : (x m).outcome = .failed m.overflow ∨
    ((x m).outcome.ending.isOverflow = false ∧ ∀ limit, m.maxDepth ≤ limit →
      x.plain (m.withLimit limit) = ((x m).outcome, (x m).machine.withLimit limit))

/-- A run that ends as another one does, without a value. -/
theorem UntimedFrom.passedOn {x : Watched α} {y : Watched β} {m : Machine} (h : UntimedFrom x m) {outcome : Outcome β}
    (hrun : y m = ⟨outcome, (x m).machine, (x m).moments⟩) (hending : outcome.ending = (x m).outcome.ending)
    (hplain : ∀ m₁ m₂, x.plain m₁ = ((x m).outcome, m₂) → y.plain m₁ = (outcome, m₂)) : UntimedFrom y m := by
  refine ⟨hrun ▸ h.timerless, hrun ▸ h.moments, hrun ▸ h.calls, ?_⟩
  rw [hrun]
  rcases h.limit with hoverflow | ⟨hfits, hsame⟩
  · rw [hoverflow] at hending
    cases outcome with
    | failed e =>
      injection hending with he
      exact .inl (congrArg _ he)
    | done | clockOverflow | unfinished => cases hending
  · exact .inr ⟨hending ▸ hfits, fun limit hle => hplain _ _ (hsame limit hle)⟩

/-- A run in which timers play no part, from wherever they play none. -/
def Untimed (x : Watched α) : Prop := ∀ m, m.Timerless → UntimedFrom x m

namespace Untimed

/-! ### How untimed runs are built -/

theorem stop {outcome : Outcome α} (h : outcome.ending.isOverflow = false) : Untimed (Watched.stop outcome) :=
  fun m hm => ⟨hm, fun _ hk => absurd hk List.not_mem_nil, .refl m, .inr ⟨h, fun _ _ => rfl⟩⟩

theorem pure (a : α) : Untimed (Watched.pure a) :=
  have hfits : (Outcome.done a).ending.isOverflow = false := rfl
  stop hfits

theorem act {event : Event} {x : Action α} (hcalm : x.IsCalm) (hunlimited : x.Unlimited) :
    Untimed (Watched.act event x) := by
  intro m hm
  obtain ⟨htimerless, hcalls, hfits⟩ := hcalm m
  refine ⟨htimerless hm, fun k hk => ?_, hcalls, .inr ⟨hfits, fun limit _ => hunlimited m limit⟩⟩
  rw [List.mem_singleton.mp hk]
  exact htimerless hm

theorem readLine (prompt : String) : Untimed (Watched.readLine prompt) := by
  intro m hm
  have h : UntimedFrom (Watched.act (.asked ⟨prompt, m⟩) (.readLine prompt)) m :=
    act (Action.isCalm_readLine prompt) (Action.unlimited_readLine prompt) m hm
  exact ⟨h.timerless, h.moments, h.calls, h.limit⟩

theorem quiet {x : Action α} (hquiet : x.Quiet) (huniform : x.Uniform) : Untimed (Watched.act .step x) :=
  act hquiet.isCalm huniform.unlimited

/-- One run after another; the second one has to be untimed only for what the first one
can end with. -/
theorem bindFrom {x : Watched α} {f : α → Watched β} (hx : Untimed x)
    (hf : ∀ a m, m.Timerless → (x m).outcome = .done a → Untimed (f a)) : Untimed (x >>= f) := by
  intro m hm
  have h := hx m hm
  have hbind : (x >>= f) m = attempt x (fun e => Watched.stop (.failed e)) f m := rfl
  have hplain (m₁ : Machine) :
      (x >>= f).plain m₁ = Action.bind x.plain (fun a => (f a).plain) m₁ := by
    rw [plain_bind]
    rfl
  rcases houtcome : (x m).outcome with a | e | - | -
  · have h' := hf a m hm houtcome (x m).machine h.timerless
    rw [attempt_done houtcome] at hbind
    refine ⟨hbind ▸ h'.timerless, ?_, hbind ▸ h.calls.trans h'.calls, ?_⟩
    · rw [hbind]
      exact List.forall_mem_append.2 ⟨h.moments, h'.moments⟩
    · rw [hbind]
      rcases h'.limit with hoverflow | ⟨hfits, hsame⟩
      · exact .inl (by rw [hoverflow, h.calls.overflow_eq])
      · -- neither run overflows, so a higher limit changes neither
        refine .inr ⟨hfits, fun limit hle => ?_⟩
        have hfirst := (h.limit.resolve_left (by simp [houtcome])).2 limit hle
        rw [hplain, Action.bind, hfirst, houtcome]
        exact hsame limit (h.calls.2.1 ▸ hle)
  · rw [attempt_failed houtcome] at hbind
    simp only [Watched.stop, List.append_nil] at hbind
    refine h.passedOn hbind (by rw [houtcome]; rfl) fun m₁ m₂ h₁ => ?_
    rw [hplain, Action.bind, h₁, houtcome]
  · rw [attempt_clockOverflow houtcome] at hbind
    refine h.passedOn hbind (by rw [houtcome]; rfl) fun m₁ m₂ h₁ => ?_
    rw [hplain, Action.bind, h₁, houtcome]
  · rw [attempt_unfinished houtcome] at hbind
    refine h.passedOn hbind (by rw [houtcome]; rfl) fun m₁ m₂ h₁ => ?_
    rw [hplain, Action.bind, h₁, houtcome]

theorem bind {x : Watched α} {f : α → Watched β} (hx : Untimed x) (hf : ∀ a, Untimed (f a)) :
    Untimed (x >>= f) :=
  hx.bindFrom fun a _ _ _ => hf a

/-- The one place where the limit is looked at. -/
theorem inCall {x : Watched α} (hx : Untimed x) (f : FunctionDef) (args : List Value) :
    Untimed (Watched.inCall f args x) := by
  intro m hm
  rcases Nat.lt_or_ge m.depth m.maxDepth with hroom | hfull
  · have hrun : Watched.inCall f args x m = _ := inCall_of_lt hroom
    have hinner : (m.enter (Action.callScope f args)).Timerless := ⟨hm.idle, hm.functions⟩
    have h := hx _ hinner
    have hafter : (x (m.enter (Action.callScope f args))).machine.leave.Timerless :=
      ⟨h.timerless.idle, h.timerless.functions⟩
    refine ⟨hrun ▸ hafter, ?_, hrun ▸ h.calls.leave, ?_⟩
    · rw [hrun]
      exact List.forall_mem_append.2
        ⟨List.forall_mem_cons.2 ⟨hinner, h.moments⟩, List.forall_mem_singleton.2 hafter⟩
    · rw [hrun]
      rcases h.limit with hoverflow | ⟨hfits, hsame⟩
      · exact .inl (by rw [hoverflow, Machine.overflow_enter hroom])
      · refine .inr ⟨hfits, fun limit hle => ?_⟩
        have hhigher : (m.withLimit limit).depth < (m.withLimit limit).maxDepth := Nat.lt_of_lt_of_le hroom hle
        obtain ⟨houtcome, hmachine⟩ := Prod.mk.inj (hsame limit hle)
        rw [Watched.plain, inCall_of_lt hhigher]
        exact Prod.ext houtcome (congrArg Machine.leave hmachine)
  · -- too many calls are active
    have hrun : Watched.inCall f args x m = ⟨.failed m.overflow, m, []⟩ := by
      rw [Watched.inCall, if_pos (by omega), Machine.overflow, Nat.max_eq_left hfull]
      rfl
    refine ⟨hrun ▸ hm, ?_, hrun ▸ .refl m, .inl (by rw [hrun])⟩
    rw [hrun]
    exact fun _ hk => absurd hk List.not_mem_nil

theorem store (name : String) (value : Value) (encrypt : Bool) : Untimed (Watched.store name value encrypt) :=
  act (Action.isCalm_store name value encrypt) (Action.unlimited_store name value encrypt)

theorem readOpened (name : String) : Untimed (Watched.act .step (.readOpened name)) :=
  act (Action.isCalm_readOpened name) (Action.unlimited_readOpened name)

theorem truthy (v : Value) : Untimed (Watched.act .step (.truthy v)) :=
  quiet (Action.quiet_reads _) (Action.uniform_readsHeap (·.truthy v))

theorem stepVariable (target : VarRef) (step : Step) (yieldsOld : Bool) :
    Untimed (Watched.stepVariable target step yieldsOld) := by
  refine (readOpened target.name).bind fun (old, wasEncrypted) => ?_
  have hstep : (Action.ofExcept (old.step step)).Quiet := Action.quiet_ofExcept (Action.ordinary_step old step)
  refine (quiet hstep (Action.uniform_ofExcept _)).bind fun new => ?_
  exact (store target.name new _).bind fun _ => pure _

end Untimed

/-! ### Expressions and statements -/

/-- Nothing is armed, so nothing is fired. -/
theorem serveTasks_idle (steps : Nat) {m : Machine} (h : m.scheduler.tasks = []) :
    serveTasks (steps + 1) m = ⟨.done (), m, [⟨.step, m⟩]⟩ :=
  serveTasks_none_due (Action.dueMoment_idle h) steps

theorem untimed_serveTasks (steps : Nat) : Untimed (serveTasks steps) := by
  cases steps with
  | zero => exact .stop rfl
  | succ steps =>
    intro m hm
    have hrun := serveTasks_idle steps hm.idle
    refine ⟨hrun ▸ hm, ?_, hrun ▸ .refl m, .inr ⟨hrun ▸ rfl, fun limit _ => ?_⟩⟩
    · rw [hrun]
      exact List.forall_mem_singleton.2 hm
    · have hhigher : (m.withLimit limit).scheduler.tasks = [] := hm.idle
      rw [Watched.plain, serveTasks_idle steps hhigher, hrun]

/-- The same for every construct, with the given number of steps. -/
structure AllUntimed (steps : Nat) : Prop where
  evaluate : ∀ expr reading, Untimed (evaluate steps expr reading)
  evaluateAll : ∀ exprs reading, Untimed (evaluateAll steps exprs reading)
  invoke : ∀ f args, Stmt.armNothing f.body = true → Untimed (invoke steps f args)
  runBlock : ∀ stmts, Stmt.armNothing stmts = true → Untimed (runBlock steps stmts)
  runStmt : ∀ stmt, stmt.armsNothing = true → Untimed (runStmt steps stmt)
  forLoop : ∀ condition step body, Stmt.armNothing body = true → Untimed (forLoop steps condition step body)
  whileLoop : ∀ condition body, Stmt.armNothing body = true → Untimed (whileLoop steps condition body)
  awaitLine : ∀ prompt, Untimed (awaitLine steps prompt)
  runTopLevel : ∀ stmt, stmt.armsNothing = true → Untimed (runTopLevel steps stmt)

section AllUntimed

variable {steps : Nat} (ih : AllUntimed steps)
include ih

theorem untimed_evaluate (expr : Expr) (reading : Reading) : Untimed (evaluate (steps + 1) expr reading) := by
  cases expr with
  | literal value => exact .pure _
  | list items =>
    exact (ih.evaluateAll items reading).bind fun values =>
      .quiet (Action.quiet_withHeap _) (Action.uniform_withHeap _)
  | «variable» target =>
    exact .act (Action.isCalm_read target.name reading) (Action.unlimited_read target.name reading)
  | assign target op value =>
    cases op with
    | set => exact (ih.evaluate value reading).bind fun v => .store target.name v _
    | _ =>
      refine (ih.evaluate value reading).bind fun rhs => ?_
      refine (Untimed.readOpened target.name).bind fun (old, wasEncrypted) => ?_
      refine .bind (.quiet (Action.quiet_assigned _ rhs (Action.quiet_pure old))
        (Action.uniform_assigned _ (Action.uniform_pure old) rhs)) fun v => ?_
      exact .store target.name v _
  | assignElement target index op value =>
    refine (ih.evaluate target reading).bind fun list => ?_
    refine .bind (.quiet (Action.quiet_listOf list) (Action.uniform_listOf list)) fun id => ?_
    refine .bind (.quiet (Action.quiet_reads _) (Action.uniform_readsHeap (·.length id))) fun length => ?_
    refine (ih.evaluate index reading).bind fun place => ?_
    refine .bind (.quiet (Action.quiet_placeOf place length) (Action.uniform_placeOf place length)) fun i => ?_
    exact (ih.evaluate value reading).bind fun rhs =>
      .quiet (Action.quiet_assignElement id i op rhs) (Action.uniform_assignElement id i op rhs)
  | element target index =>
    refine (ih.evaluate target reading).bind fun list => ?_
    refine .bind (.quiet (Action.quiet_listOf list) (Action.uniform_listOf list)) fun id => ?_
    refine .bind (.quiet (Action.quiet_reads _) (Action.uniform_readsHeap (·.length id))) fun length => ?_
    refine (ih.evaluate index reading).bind fun place => ?_
    refine .bind (.quiet (Action.quiet_placeOf place length) (Action.uniform_placeOf place length)) fun i => ?_
    exact .quiet (Action.quiet_elementAt id i length) (Action.uniform_elementAt id i length)
  | binary op lhs rhs =>
    refine (ih.evaluate lhs reading).bind fun l => (ih.evaluate rhs reading).bind fun r => ?_
    exact .quiet (Action.quiet_onHeap fun heap => Action.ordinary_apply heap op l r) (Action.uniform_onHeap _)
  | not operand => exact (ih.evaluate operand reading).bind fun v => (Untimed.truthy v).bind fun b => .pure _
  | step target step yieldsOld => exact .stepVariable target step yieldsOld
  | call name args =>
    refine .bindFrom (.act (Action.quiet_functionFor name args.length).isCalm
      (Action.unlimited_functionFor name args.length)) fun f m hm hfound => ?_
    exact (ih.evaluateAll args reading).bind fun values => ih.invoke f values (hm.functionFor hfound)
  | method target name args =>
    refine (ih.evaluate target reading).bind fun v => (ih.evaluateAll args reading).bind fun values => ?_
    exact .quiet (Action.quiet_callMethod v name values) (Action.uniform_callMethod v name values)

theorem untimed_evaluateAll (exprs : List Expr) (reading : Reading) :
    Untimed (evaluateAll (steps + 1) exprs reading) := by
  cases exprs with
  | nil => exact .pure _
  | cons expr rest =>
    exact (ih.evaluate expr reading).bind fun v => (ih.evaluateAll rest reading).bind fun values => .pure _

theorem untimed_invoke (f : FunctionDef) (args : List Value) (hbody : Stmt.armNothing f.body = true) :
    Untimed (invoke (steps + 1) f args) :=
  ((ih.runBlock f.body hbody).inCall f args).bind fun _ => .pure _

theorem untimed_runBlock (stmts : List Stmt) (h : Stmt.armNothing stmts = true) :
    Untimed (runBlock (steps + 1) stmts) := by
  cases stmts with
  | nil => exact .pure _
  | cons stmt rest =>
    simp only [Stmt.armNothing, Bool.and_eq_true] at h
    refine (ih.runStmt stmt h.1).bind fun flow => ?_
    cases flow with
    | next => exact ih.runBlock rest h.2
    | returned v => exact .pure _

theorem untimed_runStmt (stmt : Stmt) (h : stmt.armsNothing = true) : Untimed (runStmt (steps + 1) stmt) := by
  refine (untimed_serveTasks steps).bind fun _ => ?_
  cases stmt with
  | print value =>
    refine (ih.evaluate value .sealed).bind fun v => ?_
    exact .bind (.quiet (Action.quiet_printLine _) (Action.uniform_printLine (·.text v))) fun _ => .pure _
  | conditional condition yes no =>
    have hbranches : Stmt.armNothing yes = true ∧ Stmt.armNothing (no.getD []) = true := by
      cases no with
      | none => exact ⟨h, rfl⟩
      | some no => simpa only [Stmt.armsNothing, Bool.and_eq_true, Option.getD_some] using h
    refine (ih.evaluate condition .opened).bind fun v => (Untimed.truthy v).bind fun b => ?_
    cases b with
    | true => exact ih.runBlock yes hbranches.1
    | false => exact ih.runBlock (no.getD []) hbranches.2
  | forLoop start condition step body =>
    exact (ih.evaluate start .opened).bind fun _ => ih.forLoop condition step body h
  | whileLoop condition body => exact ih.whileLoop condition body h
  | input prompt target =>
    refine (ih.evaluate prompt .opened).bind fun v => ?_
    refine .bind (.quiet (Action.quiet_promptText v) (Action.uniform_promptText v)) fun text => ?_
    refine (ih.awaitLine text).bind fun line => ?_
    refine .bind (.quiet (Action.quiet_withHeap _) (Action.uniform_withHeap _)) fun v => ?_
    exact (Untimed.store target.name v target.encrypted).bind fun _ => .pure _
  | function name params body =>
    exact .bind (.act (Action.isCalm_define ⟨name, params, body⟩ h) (Action.unlimited_define ⟨name, params, body⟩))
      fun _ => .pure _
  | giveBack value =>
    cases value with
    | none => exact .pure _
    | some value => exact (ih.evaluate value .opened).bind fun v => .pure _
  | useLibrary name =>
    exact .bind (.act (Action.isCalm_useLibrary name) (Action.unlimited_useLibrary name)) fun _ => .pure _
  | trigger time unit times action => cases h
  | expression value => exact (ih.evaluate value .opened).bind fun v => .pure _

theorem untimed_forLoop (condition step : Expr) (body : List Stmt) (h : Stmt.armNothing body = true) :
    Untimed (forLoop (steps + 1) condition step body) := by
  refine (ih.evaluate condition .opened).bind fun v => (Untimed.truthy v).bind fun b => ?_
  cases b with
  | false => exact .pure _
  | true =>
    refine (ih.runBlock body h).bind fun flow => ?_
    cases flow with
    | returned v => exact .pure _
    | next =>
      refine (ih.evaluate step .opened).bind fun _ => (untimed_serveTasks steps).bind fun _ => ?_
      exact ih.forLoop condition step body h

theorem untimed_whileLoop (condition : Expr) (body : List Stmt) (h : Stmt.armNothing body = true) :
    Untimed (whileLoop (steps + 1) condition body) := by
  refine (ih.evaluate condition .opened).bind fun v => (Untimed.truthy v).bind fun b => ?_
  cases b with
  | false => exact .pure _
  | true =>
    refine (ih.runBlock body h).bind fun flow => ?_
    cases flow with
    | returned v => exact .pure _
    | next => exact (untimed_serveTasks steps).bind fun _ => ih.whileLoop condition body h

theorem untimed_awaitLine (prompt : String) : Untimed (awaitLine (steps + 1) prompt) := by
  refine (Untimed.readLine prompt).bind fun answer => ?_
  cases answer with
  | line text => exact .pure _
  | ended | failed => exact .stop rfl
  | timedOut => exact (untimed_serveTasks steps).bind fun _ => ih.awaitLine prompt

theorem untimed_runTopLevel (stmt : Stmt) (h : stmt.armsNothing = true) : Untimed (runTopLevel (steps + 1) stmt) := by
  refine (ih.runStmt stmt h).bind fun flow => ?_
  cases flow with
  | next => exact .pure _
  | returned v => exact .bind (.act Action.isCalm_strayReturn fun _ _ => rfl) fun _ => .stop rfl

end AllUntimed

/-- **Where timers play no part, every run is untimed.** -/
theorem untimed (steps : Nat) : AllUntimed steps := by
  induction steps with
  | zero => constructor <;> intros <;> exact .stop rfl
  | succ steps ih =>
    exact ⟨untimed_evaluate ih, untimed_evaluateAll ih, untimed_invoke ih, untimed_runBlock ih, untimed_runStmt ih,
      untimed_forLoop ih, untimed_whileLoop ih, untimed_awaitLine ih, untimed_runTopLevel ih⟩

theorem untimed_execute (steps : Nat) (stmts : List Stmt) (h : Stmt.armNothing stmts = true) :
    Untimed (execute steps stmts) := by
  induction stmts with
  | nil => exact .pure _
  | cons stmt rest ih =>
    simp only [Stmt.armNothing, Bool.and_eq_true] at h
    exact ((untimed steps).runTopLevel stmt h.1).bind fun _ => ih h.2

end Watched

/-- **A higher limit for calls changes nothing in a run that fits.**  A program that arms
nothing is executed by a machine in which timers play no part.  Unless too many calls are
active at some moment, it ends in the same way under every higher limit, and leaves the
same machine but for the limit.  If too many calls are active and the execution began
outside all calls, the error tells the limit and one call more. -/
theorem higher_limit_changes_nothing (program : List Stmt) (hprogram : Stmt.armNothing program = true) (m : Machine)
    (hm : m.Timerless) (steps : Nat) :
    ((∀ depth limit, (Action.execute steps program m).1 ≠ .failed (.stackOverflow depth limit)) →
      ∀ limit, m.maxDepth ≤ limit →
        Action.execute steps program { m with maxDepth := limit } =
          ((Action.execute steps program m).1, { (Action.execute steps program m).2 with maxDepth := limit })) ∧
    (m.depth = 0 → ∀ depth limit, (Action.execute steps program m).1 = .failed (.stackOverflow depth limit) →
      depth = m.maxDepth + 1 ∧ limit = m.maxDepth) := by
  have huntimed := (Watched.untimed_execute steps program hprogram m hm).limit
  rw [← Watched.plain_execute]
  constructor
  · intro hfits limit hle
    rcases huntimed with hoverflow | ⟨-, hsame⟩
    · exact absurd hoverflow (hfits _ _)
    · exact hsame limit hle
  · intro houtside depth limit hfailed
    rcases huntimed with hoverflow | ⟨hordinary, -⟩
    · rw [Machine.overflow_of_depth_eq_zero houtside] at hoverflow
      have herror := hoverflow.symm.trans hfailed
      simp only [Outcome.failed.injEq, RuntimeError.stackOverflow.injEq] at herror
      exact ⟨herror.1.symm, herror.2.symm⟩
    · rw [show (Watched.execute steps program m).outcome = _ from hfailed] at hordinary
      cases hordinary

/-- A function that calls itself once if its argument is true, and a call of it. -/
def callTwice : List Stmt :=
  [.function "f" ["again"]
    [.conditional (.variable ⟨"again", false⟩) [.expression (.call "f" [.literal (.bool false)])] none],
   .expression (.call "f" [.literal (.bool true)])]

/-- Two calls are active at most, which fits in two as in seven, and not in one. -/
theorem callTwice_under_limits :
    Stmt.armNothing callTwice = true ∧
    (Action.execute 13 callTwice { maxDepth := 2 }).1 = .done () ∧
    Action.execute 13 callTwice { maxDepth := 7 }
      = (.done (), { (Action.execute 13 callTwice { maxDepth := 2 }).2 with maxDepth := 7 }) ∧
    (Action.execute 13 callTwice { maxDepth := 1 }).1 = .failed (.stackOverflow 2 1) := by
  have htimerless (limit : Nat) : Machine.Timerless { maxDepth := limit } := ⟨rfl, nofun⟩
  have hfits : (Action.execute 13 callTwice { maxDepth := 2 }).1 = .done () := rfl
  have hexceeds : ∃ depth limit,
      (Action.execute 13 callTwice { maxDepth := 1 }).1 = .failed (.stackOverflow depth limit) := ⟨_, _, rfl⟩
  refine ⟨rfl, hfits, ?_, ?_⟩
  · have hsame := (higher_limit_changes_nothing callTwice rfl { maxDepth := 2 } (htimerless 2) 13).1
      (by rw [hfits]; exact nofun) 7 (by decide)
    rw [hfits] at hsame
    exact hsame
  · obtain ⟨depth, limit, hfailed⟩ := hexceeds
    obtain ⟨rfl, rfl⟩ := (higher_limit_changes_nothing callTwice rfl { maxDepth := 1 } (htimerless 1) 13).2
      rfl depth limit hfailed
    exact hfailed

end SealedScript

/-
SealedScript/Proofs/Machine/Transparency.lean

Encryption makes no difference to what is computed.  A program that only computes
is run next to the same program without marks, from a machine and from the same
machine with its encrypted variables opened; the simulation goes construct by
construct, by induction on the number of steps.

Main result: `encryption_transparent`.
-/
import SealedScript.Proofs.Machine.Opening
import SealedScript.Proofs.Machine.Operations

namespace SealedScript

open Watched

/-- The simulation for every construct, with the given number of steps.  The value
of a clause is not used, so it may differ. -/
structure Simulated (key iv : Block) (steps : Nat) : Prop where
  evaluate : ∀ expr, expr.assignsNowhere = true →
    Sim key iv Eq (evaluate steps expr .opened) (evaluate steps expr.unmarked .opened)
  evaluateAll : ∀ exprs, Expr.assignNowhere exprs = true →
    Sim key iv Eq (evaluateAll steps exprs .opened) (evaluateAll steps (Expr.unmarkedAll exprs) .opened)
  clause : ∀ expr, expr.isClause = true →
    Sim key iv (fun _ _ => True) (Watched.evaluate steps expr .opened)
      (Watched.evaluate steps expr.unmarked .opened)
  invoke : ∀ f args, Stmt.compute f.body = true →
    Sim key iv Eq (invoke steps f args) (invoke steps f.unmarked args)
  runBlock : ∀ stmts, Stmt.compute stmts = true →
    Sim key iv Eq (runBlock steps stmts) (runBlock steps (Stmt.unmarkedAll stmts))
  runStmt : ∀ stmt, stmt.computes = true →
    Sim key iv Eq (runStmt steps stmt) (runStmt steps stmt.unmarked)
  forLoop : ∀ condition step body, condition.assignsNowhere = true → step.isClause = true →
    Stmt.compute body = true →
    Sim key iv Eq (forLoop steps condition step body)
      (forLoop steps condition.unmarked step.unmarked (Stmt.unmarkedAll body))
  whileLoop : ∀ condition body, condition.assignsNowhere = true → Stmt.compute body = true →
    Sim key iv Eq (whileLoop steps condition body)
      (whileLoop steps condition.unmarked (Stmt.unmarkedAll body))
  serveTasks : Sim key iv Eq (serveTasks steps) (serveTasks steps)

namespace Simulated

variable {key iv : Block}

theorem stepVariable (target : VarRef) (step : Step) (yieldsOld : Bool) :
    Sim key iv Eq (Watched.stepVariable target step yieldsOld)
      (Watched.stepVariable target.unmarked step yieldsOld) := by
  refine Sim.bind (Sim.readOpened target.name) ?_
  rintro ⟨old, wasEncrypted⟩ ⟨old', _⟩ ⟨rfl, rfl⟩
  refine Sim.bind (Sim.act (Action.quiet_ofExcept (Action.ordinary_step old' step))
    (Action.uniform_ofExcept _)) ?_
  rintro new _ rfl
  exact Sim.bind (Sim.store target.name new _) fun _ _ _ => Sim.pure rfl

theorem truthy (v : Value) :
    Sim key iv Eq (Watched.act .step (.truthy v)) (Watched.act .step (.truthy v)) :=
  Sim.act (Action.quiet_reads _) (Action.uniform_readsHeap (·.truthy v))

section

variable {steps : Nat} (ih : Simulated key iv steps)
include ih

/-! ### Expressions -/

theorem evaluate_succ (expr : Expr) (h : expr.assignsNowhere = true) :
    Sim key iv Eq (Watched.evaluate (steps + 1) expr .opened)
      (Watched.evaluate (steps + 1) expr.unmarked .opened) := by
  cases expr with
  | literal value => exact Sim.pure rfl
  | list items =>
    refine Sim.bind (ih.evaluateAll items h) ?_
    rintro values _ rfl
    exact Sim.act (Action.quiet_withHeap _) (Action.uniform_withHeap _)
  | «variable» target => exact Sim.read target.name
  | assign target op value => cases h
  | assignElement target index op value =>
    simp only [Expr.assignsNowhere, Bool.and_eq_true] at h
    refine Sim.bind (ih.evaluate target h.1.1) ?_
    rintro list _ rfl
    refine Sim.bind (Sim.act (Action.quiet_listOf list) (Action.uniform_listOf list)) ?_
    rintro id _ rfl
    refine Sim.bind (Sim.act (Action.quiet_reads _) (Action.uniform_readsHeap (·.length id))) ?_
    rintro length _ rfl
    refine Sim.bind (ih.evaluate index h.1.2) ?_
    rintro place _ rfl
    refine Sim.bind (Sim.act (Action.quiet_placeOf place length) (Action.uniform_placeOf place length)) ?_
    rintro i _ rfl
    refine Sim.bind (ih.evaluate value h.2) ?_
    rintro rhs _ rfl
    exact Sim.act (Action.quiet_assignElement id i op rhs) (Action.uniform_assignElement id i op rhs)
  | element target index =>
    simp only [Expr.assignsNowhere, Bool.and_eq_true] at h
    refine Sim.bind (ih.evaluate target h.1) ?_
    rintro list _ rfl
    refine Sim.bind (Sim.act (Action.quiet_listOf list) (Action.uniform_listOf list)) ?_
    rintro id _ rfl
    refine Sim.bind (Sim.act (Action.quiet_reads _) (Action.uniform_readsHeap (·.length id))) ?_
    rintro length _ rfl
    refine Sim.bind (ih.evaluate index h.2) ?_
    rintro place _ rfl
    refine Sim.bind (Sim.act (Action.quiet_placeOf place length) (Action.uniform_placeOf place length)) ?_
    rintro i _ rfl
    exact Sim.act (Action.quiet_elementAt id i length) (Action.uniform_elementAt id i length)
  | binary op lhs rhs =>
    simp only [Expr.assignsNowhere, Bool.and_eq_true] at h
    refine Sim.bind (ih.evaluate lhs h.1) ?_
    rintro l _ rfl
    refine Sim.bind (ih.evaluate rhs h.2) ?_
    rintro r _ rfl
    exact Sim.act (Action.quiet_onHeap fun heap => Action.ordinary_apply heap op l r)
      (Action.uniform_onHeap _)
  | not operand =>
    refine Sim.bind (ih.evaluate operand h) ?_
    rintro v _ rfl
    refine Sim.bind (truthy v) ?_
    rintro b _ rfl
    exact Sim.pure rfl
  | step target step yieldsOld => exact stepVariable target step yieldsOld
  | call name args =>
    -- the arity is checked against the number of arguments, which has not changed
    have hlength : (Expr.unmarkedAll args).length = args.length := Expr.length_unmarkedAll args
    simp only [Expr.unmarked, Watched.evaluate, hlength]
    refine Sim.bind (Sim.functionFor name args.length) ?_
    rintro f _ ⟨rfl, hbody⟩
    refine Sim.bind (ih.evaluateAll args h) ?_
    rintro values _ rfl
    exact ih.invoke f values hbody
  | method target name args =>
    simp only [Expr.assignsNowhere, Bool.and_eq_true] at h
    refine Sim.bind (ih.evaluate target h.1) ?_
    rintro v _ rfl
    refine Sim.bind (ih.evaluateAll args h.2) ?_
    rintro values _ rfl
    exact Sim.act (Action.quiet_callMethod v name values) (Action.uniform_callMethod v name values)

theorem evaluateAll_succ (exprs : List Expr) (h : Expr.assignNowhere exprs = true) :
    Sim key iv Eq (Watched.evaluateAll (steps + 1) exprs .opened)
      (Watched.evaluateAll (steps + 1) (Expr.unmarkedAll exprs) .opened) := by
  cases exprs with
  | nil => exact Sim.pure rfl
  | cons expr rest =>
    simp only [Expr.assignNowhere, Bool.and_eq_true] at h
    refine Sim.bind (ih.evaluate expr h.1) ?_
    rintro v _ rfl
    refine Sim.bind (ih.evaluateAll rest h.2) ?_
    rintro values _ rfl
    exact Sim.pure rfl

/-- An assignment to a variable, whose own value is not used. -/
theorem clause_succ (expr : Expr) (h : expr.isClause = true) :
    Sim key iv (fun _ _ => True) (Watched.evaluate (steps + 1) expr .opened)
      (Watched.evaluate (steps + 1) expr.unmarked .opened) := by
  cases expr with
  | assign target op value =>
    have hvalue : value.assignsNowhere = true := h
    cases op with
    | set =>
      refine Sim.bind (ih.evaluate value hvalue) ?_
      rintro v _ rfl
      exact Sim.store target.name v target.encrypted
    | _ =>
      -- the compound forms read the variable first, opened in both runs
      refine Sim.bind (ih.evaluate value hvalue) ?_
      rintro rhs _ rfl
      refine Sim.bind (Sim.readOpened target.name) ?_
      rintro ⟨old, wasEncrypted⟩ ⟨old', _⟩ ⟨rfl, rfl⟩
      refine Sim.bind (Sim.act (Action.quiet_assigned _ rhs (Action.quiet_pure old'))
        (Action.uniform_assigned _ (Action.uniform_pure old') rhs)) ?_
      rintro v _ rfl
      exact Sim.store target.name v _
  | _ => exact (evaluate_succ ih _ h).mono fun _ _ _ => trivial

/-! ### Statements -/

theorem invoke_succ (f : FunctionDef) (args : List Value) (hbody : Stmt.compute f.body = true) :
    Sim key iv Eq (Watched.invoke (steps + 1) f args) (Watched.invoke (steps + 1) f.unmarked args) := by
  refine Sim.bind (Sim.inCall f args (ih.runBlock f.body hbody)) ?_
  rintro flow _ rfl
  exact Sim.pure rfl

theorem runBlock_succ (stmts : List Stmt) (h : Stmt.compute stmts = true) :
    Sim key iv Eq (Watched.runBlock (steps + 1) stmts)
      (Watched.runBlock (steps + 1) (Stmt.unmarkedAll stmts)) := by
  cases stmts with
  | nil => exact Sim.pure rfl
  | cons stmt rest =>
    simp only [Stmt.compute, Bool.and_eq_true] at h
    refine Sim.bind (ih.runStmt stmt h.1) ?_
    rintro flow _ rfl
    cases flow with
    | next => exact ih.runBlock rest h.2
    | returned v => exact Sim.pure rfl

theorem runStmt_succ (stmt : Stmt) (h : stmt.computes = true) :
    Sim key iv Eq (Watched.runStmt (steps + 1) stmt) (Watched.runStmt (steps + 1) stmt.unmarked) := by
  cases stmt with
  | conditional condition yes no =>
    cases no with
    | none =>
      simp only [Stmt.computes, Bool.and_eq_true] at h
      refine Sim.bind ih.serveTasks fun _ _ _ => ?_
      refine Sim.bind (ih.evaluate condition h.1) ?_
      rintro v _ rfl
      refine Sim.bind (truthy v) ?_
      rintro b _ rfl
      cases b with
      | true => exact ih.runBlock yes h.2
      | false =>
        -- a missing alternative is an empty one
        exact ih.runBlock [] rfl
    | some no =>
      simp only [Stmt.computes, Bool.and_eq_true] at h
      refine Sim.bind ih.serveTasks fun _ _ _ => ?_
      refine Sim.bind (ih.evaluate condition h.1.1) ?_
      rintro v _ rfl
      refine Sim.bind (truthy v) ?_
      rintro b _ rfl
      cases b with
      | true => exact ih.runBlock yes h.1.2
      | false => exact ih.runBlock no h.2
  | forLoop start condition step body =>
    simp only [Stmt.computes, Bool.and_eq_true] at h
    refine Sim.bind ih.serveTasks fun _ _ _ => ?_
    exact Sim.bind (ih.clause start h.1.1.1) fun _ _ _ => ih.forLoop condition step body h.1.1.2 h.1.2 h.2
  | whileLoop condition body =>
    simp only [Stmt.computes, Bool.and_eq_true] at h
    exact Sim.bind ih.serveTasks fun _ _ _ => ih.whileLoop condition body h.1 h.2
  | function name params body =>
    refine Sim.bind ih.serveTasks fun _ _ _ => ?_
    exact Sim.bind (Sim.define name params body h) fun _ _ _ => Sim.pure rfl
  | giveBack value =>
    refine Sim.bind ih.serveTasks fun _ _ _ => ?_
    cases value with
    | none => exact Sim.pure rfl
    | some value =>
      refine Sim.bind (ih.evaluate value h) ?_
      rintro v _ rfl
      exact Sim.pure rfl
  | expression value =>
    refine Sim.bind ih.serveTasks fun _ _ _ => ?_
    exact Sim.bind (ih.clause value h) fun _ _ _ => Sim.pure rfl
  | print _ | input _ _ | useLibrary _ | trigger _ _ _ _ => cases h

theorem forLoop_succ (condition step : Expr) (body : List Stmt) (hcondition : condition.assignsNowhere = true)
    (hstep : step.isClause = true) (hbody : Stmt.compute body = true) :
    Sim key iv Eq (Watched.forLoop (steps + 1) condition step body)
      (Watched.forLoop (steps + 1) condition.unmarked step.unmarked (Stmt.unmarkedAll body)) := by
  refine Sim.bind (ih.evaluate condition hcondition) ?_
  rintro v _ rfl
  refine Sim.bind (truthy v) ?_
  rintro b _ rfl
  cases b with
  | false => exact Sim.pure rfl
  | true =>
    refine Sim.bind (ih.runBlock body hbody) ?_
    rintro flow _ rfl
    cases flow with
    | returned v => exact Sim.pure rfl
    | next =>
      refine Sim.bind (ih.clause step hstep) fun _ _ _ => ?_
      exact Sim.bind ih.serveTasks fun _ _ _ => ih.forLoop condition step body hcondition hstep hbody

theorem whileLoop_succ (condition : Expr) (body : List Stmt) (hcondition : condition.assignsNowhere = true)
    (hbody : Stmt.compute body = true) :
    Sim key iv Eq (Watched.whileLoop (steps + 1) condition body)
      (Watched.whileLoop (steps + 1) condition.unmarked (Stmt.unmarkedAll body)) := by
  refine Sim.bind (ih.evaluate condition hcondition) ?_
  rintro v _ rfl
  refine Sim.bind (truthy v) ?_
  rintro b _ rfl
  cases b with
  | false => exact Sim.pure rfl
  | true =>
    refine Sim.bind (ih.runBlock body hbody) ?_
    rintro flow _ rfl
    cases flow with
    | returned v => exact Sim.pure rfl
    | next => exact Sim.bind ih.serveTasks fun _ _ _ => ih.whileLoop condition body hcondition hbody

end

theorem serveTasks_succ (steps : Nat) :
    Sim key iv Eq (Watched.serveTasks (steps + 1)) (Watched.serveTasks (steps + 1)) := by
  refine Sim.bind Sim.dueMoment ?_
  rintro due due' ⟨rfl, rfl⟩
  exact Sim.pure rfl

end Simulated

theorem simulated (key iv : Block) (steps : Nat) : Simulated key iv steps := by
  induction steps with
  | zero => constructor <;> intros <;> exact Sim.stop .unfinished
  | succ steps ih =>
    exact ⟨ih.evaluate_succ, ih.evaluateAll_succ, ih.clause_succ, ih.invoke_succ, ih.runBlock_succ,
      ih.runStmt_succ, ih.forLoop_succ, ih.whileLoop_succ, Simulated.serveTasks_succ steps⟩

/-! ### Programs -/

section

variable (key iv : Block) (steps : Nat)

theorem sim_strayReturn :
    Sim key iv Eq (Watched.act .step (.changes (·.notice .strayReturn)))
      (Watched.act .step (.changes (·.notice .strayReturn))) := by
  intro m m' hlinked
  have hrest : (m'.notice .strayReturn).rest = (m.notice .strayReturn).rest :=
    Action.rest_change hlinked.related.rest (·.notice .strayReturn) fun _ => rfl
  exact .inr ⟨.done rfl, ⟨⟨hlinked.related.locals, hlinked.related.globals, hlinked.related.functions, hrest⟩,
    hlinked.cipher, hlinked.idle, hlinked.computing⟩, .nil⟩

theorem sim_runTopLevel (stmt : Stmt) (h : stmt.computes = true) :
    Sim key iv Eq (Watched.runTopLevel steps stmt) (Watched.runTopLevel steps stmt.unmarked) := by
  cases steps with
  | zero => exact Sim.stop .unfinished
  | succ steps =>
    refine Sim.bind ((simulated key iv steps).runStmt stmt h) ?_
    rintro flow _ rfl
    cases flow with
    | next => exact Sim.pure rfl
    | returned v => exact Sim.bind (sim_strayReturn key iv) fun _ _ _ => Sim.stop (.failed _)

theorem sim_execute (program : List Stmt) (h : Stmt.compute program = true) :
    Sim key iv Eq (Watched.execute steps program) (Watched.execute steps (Stmt.unmarkedAll program)) := by
  induction program with
  | nil => exact Sim.pure rfl
  | cons stmt rest ih =>
    simp only [Stmt.compute, Bool.and_eq_true] at h
    exact Sim.bind (sim_runTopLevel key iv steps stmt h.1) fun _ _ _ => ih h.2

end

/-- **Encryption is transparent to computation.**  Let a program only compute, and
let it be run from a machine in which nothing is armed and no function is defined,
and without marks from the same machine with its encrypted variables opened.  If
what the second run stores in a variable where the first one encrypts is always a
whole number or a truth value, then both runs end alike, the second machine is
again the first one without encryption, and the same values were stored in the
same variables. -/
theorem encryption_transparent (key iv : Block) (program : List Stmt) (hprogram : Stmt.compute program = true)
    (m m' : Machine) (hcipher : m.cipher = .standard key iv) (hfunctions : m.functions = [])
    (hidle : m.scheduler.tasks = []) (hunsealed : m.Unsealed m') (steps : Nat)
    (hstored : ∀ (i : Nat) (a b : Store), (stores (Watched.execute steps program m).moments)[i]? = some a →
      (stores (Watched.execute steps (Stmt.unmarkedAll program) m').moments)[i]? = some b →
      b.name = a.name → a.encrypted = true → b.value.isIntOrBool = true) :
    (Action.execute steps (Stmt.unmarkedAll program) m').1 = (Action.execute steps program m).1 ∧
    (Action.execute steps program m).2.Unsealed (Action.execute steps (Stmt.unmarkedAll program) m').2 ∧
    List.Forall₂ Store.Unsealed (stores (Watched.execute steps program m).moments)
      (stores (Watched.execute steps (Stmt.unmarkedAll program) m').moments) := by
  have hlinked : Linked key iv m m' := by
    refine ⟨hunsealed.mono fun v v' => (Variable.unsealed_iff hcipher v v').mp, hcipher, hidle, ?_⟩
    rw [hfunctions]
    exact fun _ hentry => absurd hentry List.not_mem_nil
  rcases sim_execute key iv steps program hprogram m m' hlinked with hstray | ⟨houtcome, hafter, hagree⟩
  · -- no store has strayed, by assumption
    obtain ⟨i, a, b, ha, hb, hname, hencrypted, hvalue⟩ := hstray
    rw [hstored i a b ha hb hname hencrypted] at hvalue
    cases hvalue
  · have hunsealed' : (Watched.execute steps program m).machine.Unsealed
        (Watched.execute steps (Stmt.unmarkedAll program) m').machine :=
      hafter.related.mono fun v v' => (Variable.unsealed_iff hafter.cipher v v').mpr
    have hrun := congrFun (Watched.plain_execute steps program) m
    have hrun' := congrFun (Watched.plain_execute steps (Stmt.unmarkedAll program)) m'
    rw [← hrun, ← hrun']
    exact ⟨houtcome.eq, hunsealed', hagree⟩

/-- The machine with one encrypted variable, with that variable opened. -/
def Machine.withOpened : Machine := { globals := [("x", ⟨.int 5, false⟩)] }

theorem Machine.withSecret_unsealed : Machine.withSecret.Unsealed Machine.withOpened := by
  have hplace : Machine.withSecret.heap.place (Datum.ofText "5") = (.int 5, Machine.withSecret.heap) :=
    Heap.place_ofText_text _ (v := .int 5) rfl
  have hdecrypt : Action.decrypt (.text (Cipher.sealText Cipher.defaultKey Cipher.defaultIV "5"))
      Machine.withSecret = (.done (.int 5), Machine.withSecret) :=
    Action.decrypt_of_opens (Cipher.openText_sealText Cipher.defaultKey Cipher.defaultIV "5") hplace
  exact ⟨.nil, .cons ⟨rfl, .opened rfl hdecrypt⟩ .nil, rfl, rfl⟩

/-- The program `while (x < 8) { x++; }`. -/
def countUp : List Stmt :=
  [.whileLoop (.binary .lt (.variable ⟨"x", false⟩) (.literal (.int 8)))
    [.expression (.step ⟨"x", false⟩ .up true)]]

/-- Counting up an encrypted variable. -/
theorem transparent_countUp :
    Stmt.compute countUp = true ∧
    Machine.withSecret.cipher = .standard Cipher.defaultKey Cipher.defaultIV ∧
    Machine.withSecret.functions = [] ∧ Machine.withSecret.scheduler.tasks = [] ∧
    Machine.withSecret.Unsealed Machine.withOpened ∧
    (stores (Watched.execute 30 (Stmt.unmarkedAll countUp) Machine.withOpened).moments).length = 3 ∧
    (Action.execute 30 (Stmt.unmarkedAll countUp) Machine.withOpened).1
      = (Action.execute 30 countUp Machine.withSecret).1 :=
  have hwhole : ∀ b ∈ stores (Watched.execute 30 (Stmt.unmarkedAll countUp) Machine.withOpened).moments,
      b.value.isIntOrBool = true := by decide +kernel
  ⟨rfl, rfl, rfl, rfl, Machine.withSecret_unsealed, by decide +kernel,
    (encryption_transparent Cipher.defaultKey Cipher.defaultIV countUp rfl Machine.withSecret
      Machine.withOpened rfl rfl rfl Machine.withSecret_unsealed 30
      fun _ _ b _ hb _ _ => hwhole b (List.mem_of_getElem? hb)).1⟩

end SealedScript

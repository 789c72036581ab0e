/-
SealedScript/Proofs/Machine/ForLoop.lean

A `for` loop is a `while` loop: first its start, then the loop with its condition, whose
body ends with its step.  Both are loops in the same sense, turns that are made while a
condition holds, and their turns behave alike.

They serve timers at different places: `while` serves them before the step as well, since
there the step is a statement of its own.  So it matters that nothing is ever armed.

Main result: `for_is_while`.
-/
import SealedScript.Proofs.Machine.Behaviour
import SealedScript.Proofs.Machine.DepthLimit

namespace SealedScript

/-! ### Loops -/

/-- Turns one after another, as long as they end with nothing. -/
inductive Behaviour.Repeated (turn : Behaviour (Option Flow)) : Machine → Outcome Flow → Machine → Prop
  | again {m m₁ m' : Machine} {outcome : Outcome Flow} :
      turn m (.done none) m₁ → Repeated turn m₁ outcome m' → Repeated turn m outcome m'
  | ended {m m' : Machine} {flow : Flow} : turn m (.done (some flow)) m' → Repeated turn m (.done flow) m'
  | failed {m m' : Machine} {e : RuntimeError} : turn m (.failed e) m' → Repeated turn m (.failed e) m'
  | clockOverflow {m m' : Machine} : turn m .clockOverflow m' → Repeated turn m .clockOverflow m'

/-- Turns that can be replaced by others at all machines that are come to. -/
theorem Behaviour.Repeated.mono {turn turn' : Behaviour (Option Flow)} {I : Machine → Prop}
    (hturn : ∀ m, I m → ∀ outcome m', turn m outcome m' → turn' m outcome m')
    (hkeep : ∀ m m₁, I m → turn m (.done none) m₁ → I m₁) {m m' : Machine} {outcome : Outcome Flow} (hm : I m)
    (h : Repeated turn m outcome m') : Repeated turn' m outcome m' := by
  induction h with
  | again hfirst _ ih => exact .again (hturn _ hm _ _ hfirst) (ih (hkeep _ _ hm hfirst))
  | ended hlast => exact .ended (hturn _ hm _ _ hlast)
  | failed hlast => exact .failed (hturn _ hm _ _ hlast)
  | clockOverflow hlast => exact .clockOverflow (hturn _ hm _ _ hlast)

namespace Watched

variable {α : Type}

/-- What follows in a turn after its round: timers are served and another turn is to come,
unless the round has returned. -/
def afterRound (steps : Nat) : Flow → Watched (Option Flow)
  | .returned v => pure (some (.returned v))
  | .next => do
    serveTasks steps
    pure none

/-- What follows in a turn after the condition: a round if it holds, and else the loop ends. -/
def afterCondition (round : Nat → Watched Flow) (steps : Nat) : Bool → Watched (Option Flow)
  | true => do
    let flow ← round steps
    afterRound steps flow
  | false => pure (some .next)

/-- One turn of a loop.  It ends with nothing if another turn is to come. -/
def loopTurn (condition : Expr) (round : Nat → Watched Flow) (steps : Nat) : Watched (Option Flow) := do
  let v ← evaluate steps condition .opened
  let b ← act .step (.truthy v)
  afterCondition round steps b

/-- What follows after a turn: `rest`, unless the turn has ended the loop. -/
def afterTurn (rest : Watched Flow) : Option Flow → Watched Flow
  | some flow => pure flow
  | none => rest

/-- Turns until one ends the loop. -/
def loop (condition : Expr) (round : Nat → Watched Flow) : Nat → Watched Flow
  | 0 => stop .unfinished
  | steps + 1 => do
    let ended ← loopTurn condition round steps
    afterTurn (loop condition round steps) ended

/-- What follows in a round of a `for` loop after the body. -/
def afterBody (step : Expr) (steps : Nat) : Flow → Watched Flow
  | .returned v => pure (.returned v)
  | .next => do
    let _ ← evaluate steps step .opened
    pure .next

/-- A round of a `for` loop: the body and then the step. -/
def forRound (step : Expr) (body : List Stmt) (steps : Nat) : Watched Flow := do
  let flow ← runBlock steps body
  afterBody step steps flow

theorem loop_succ (condition : Expr) (round : Nat → Watched Flow) (steps : Nat) :
    loop condition round (steps + 1) = (do
      let v ← evaluate steps condition .opened
      if ← act .step (.truthy v) then
        match ← round steps with
        | .returned v => pure (.returned v)
        | .next =>
          serveTasks steps
          loop condition round steps
      else pure .next) := by
  rw [loop, loopTurn, bind_assoc]
  congr 1
  funext v
  rw [bind_assoc]
  congr 1
  funext b
  cases b with
  | false => rfl
  | true =>
    simp only [afterCondition, if_true]
    rw [bind_assoc]
    congr 1
    funext flow
    cases flow with
    | returned v => rfl
    | next =>
      simp only [afterRound]
      rw [bind_assoc]
      rfl

theorem whileLoop_eq_loop (condition : Expr) (body : List Stmt) (steps : Nat) :
    whileLoop steps condition body = loop condition (runBlock · body) steps := by
  induction steps with
  | zero => rfl
  | succ steps ih =>
    rw [loop_succ, ← ih]
    rfl

theorem forLoop_eq_loop (condition step : Expr) (body : List Stmt) (steps : Nat) :
    forLoop steps condition step body = loop condition (forRound step body) steps := by
  induction steps with
  | zero => rfl
  | succ steps ih =>
    rw [loop_succ, ← ih, forLoop]
    congr 1
    funext v
    congr 1
    funext b
    cases b with
    | false => rfl
    | true =>
      simp only [if_true, forRound]
      rw [bind_assoc]
      congr 1
      funext flow
      cases flow with
      | returned v => rfl
      | next =>
        simp only [afterBody]
        rw [bind_assoc]
        rfl

/-! ### What loops come to -/

theorem lasting_afterRound (flow : Flow) : Lasting (afterRound · flow) := by
  cases flow with
  | returned v => exact lasting_pure _
  | next => exact lasting_serveTasks.bind fun _ => lasting_pure _

theorem lasting_afterBody (step : Expr) (flow : Flow) : Lasting (afterBody step · flow) := by
  cases flow with
  | returned v => exact lasting_pure _
  | next => exact (lasting_evaluate step .opened).bind fun _ => lasting_pure _

theorem lasting_forRound (step : Expr) (body : List Stmt) : Lasting (forRound step body) :=
  (lasting_runBlock body).bind (lasting_afterBody step)

theorem lasting_afterTurn {rest : Nat → Watched Flow} (hrest : Lasting rest) (ended : Option Flow) :
    Lasting fun steps => afterTurn (rest steps) ended := by
  cases ended with
  | some flow => exact lasting_pure flow
  | none => exact hrest

section

variable {condition : Expr} {round round' : Nat → Watched Flow} {m m' : Machine} {outcome : Outcome Flow}

theorem lasting_afterCondition (hround : Lasting round) (b : Bool) : Lasting (afterCondition round · b) := by
  cases b with
  | false => exact lasting_pure _
  | true => exact hround.bind lasting_afterRound

theorem lasting_loopTurn (hround : Lasting round) : Lasting (loopTurn condition round) :=
  (lasting_evaluate condition .opened).bind fun _ => (lasting_truthy _).bind (lasting_afterCondition hround)

theorem lasting_loop (hround : Lasting round) : Lasting (loop condition round) := by
  have hturn : Lasting (loopTurn condition round) := lasting_loopTurn hround
  constructor
  · intro steps
    induction steps with
    | zero => exact .cutOff _
    | succ steps ih =>
      refine (hturn.steady steps).bind fun ended => ?_
      cases ended with
      | some flow => exact .refl _
      | none => exact ih
  · intro steps
    induction steps with
    | zero => exact law_path.body.stop rfl
    | succ steps ih =>
      refine law_path.body.bind (hturn.path steps) fun ended => ?_
      cases ended with
      | some flow => exact law_path.body.pure flow
      | none => exact ih

/-- A loop that ends has made its turns. -/
theorem repeated_of_loop (hround : Lasting round) {steps : Nat} (hends : outcome ≠ .unfinished)
    (hrun : (loop condition round steps).plain m = (outcome, m')) :
    (behaviour (loopTurn condition round)).Repeated m outcome m' := by
  induction steps generalizing m with
  | zero =>
    cases hrun
    exact absurd rfl hends
  | succ steps ih =>
    -- only the first turn is given steps at will, the rest has those that are left
    have hrest : Lasting fun _ => loop condition round steps := .fixed ((lasting_loop hround).path steps)
    have hcomes : behaviour (fun n => loopTurn condition round n >>= afterTurn (loop condition round steps))
        m outcome m' := ⟨hends, steps, hrun⟩
    rw [behaviour_bind (lasting_loopTurn hround) (lasting_afterTurn hrest)] at hcomes
    cases hcomes with
    | @done ended _ _ _ hfirst hnext =>
      obtain ⟨-, given, hnext⟩ := hnext
      cases ended with
      | some flow =>
        cases hnext
        exact .ended hfirst
      | none => exact .again hfirst (ih hnext)
    | failed hfirst => exact .failed hfirst
    | clockOverflow hfirst => exact .clockOverflow hfirst

/-- The turns that a loop makes are what it comes to. -/
theorem behaviour_loop (hround : Lasting round) :
    behaviour (loop condition round) = (behaviour (loopTurn condition round)).Repeated := by
  have hloop : Lasting (loop condition round) := lasting_loop hround
  have hsucc : behaviour (loop condition round) = (behaviour (loopTurn condition round)).AndThen
      fun ended => behaviour fun steps => afterTurn (loop condition round steps) ended :=
    (behaviour_shift hloop).symm.trans (behaviour_bind (lasting_loopTurn hround) (lasting_afterTurn hloop))
  refine Behaviour.eq_of_iff fun m outcome m' => ⟨fun ⟨hends, steps, hrun⟩ => repeated_of_loop hround hends hrun, ?_⟩
  intro h
  induction h with
  | again hfirst _ ih =>
    rw [hsucc]
    exact .done hfirst ih
  | ended hlast =>
    rw [hsucc]
    exact .done hlast ⟨nofun, 0, rfl⟩
  | failed hlast =>
    rw [hsucc]
    exact .failed hlast
  | clockOverflow hlast =>
    rw [hsucc]
    exact .clockOverflow hlast

theorem behaviour_loopTurn (hround : Lasting round) :
    behaviour (loopTurn condition round) = (behaviour (evaluate · condition .opened)).AndThen fun v =>
      (behaviour fun _ => act .step (.truthy v)).AndThen fun b => behaviour (afterCondition round · b) := by
  have hafter (v : Value) := behaviour_bind (lasting_truthy v) (lasting_afterCondition hround)
  simp only [← hafter]
  exact behaviour_bind (lasting_evaluate condition .opened)
    fun v => (lasting_truthy v).bind (lasting_afterCondition hround)

/-- Rounds that come to the same wherever they are calm make turns that do. -/
theorem behaviour_loopTurn_congr (hround : Lasting round) (hround' : Lasting round')
    (hsame : ∀ m, CalmThroughout round m → ∀ outcome m', behaviour round m outcome m' ↔ behaviour round' m outcome m')
    (hcalm : CalmThroughout (loopTurn condition round) m) {outcome : Outcome (Option Flow)} :
    behaviour (loopTurn condition round) m outcome m' ↔ behaviour (loopTurn condition round') m outcome m' := by
  rw [behaviour_loopTurn hround, behaviour_loopTurn hround']
  refine Behaviour.AndThen.congr (fun _ _ => .rfl) fun v m₁ hcondition outcome m' => ?_
  have hcalm₁ := hcalm.goesOn (lasting_evaluate condition .opened) hcondition
  refine Behaviour.AndThen.congr (fun _ _ => .rfl) fun b m₂ htruthy outcome m' => ?_
  have hcalm₂ := hcalm₁.goesOn (lasting_truthy v) htruthy
  cases b with
  | false => exact Iff.rfl
  | true =>
    have hbind {r : Nat → Watched Flow} (hr : Lasting r) := behaviour_bind hr lasting_afterRound
    show behaviour (fun steps => round steps >>= afterRound steps) m₂ outcome m' ↔
      behaviour (fun steps => round' steps >>= afterRound steps) m₂ outcome m'
    rw [hbind hround, hbind hround']
    exact Behaviour.AndThen.congr (hsame m₂ hcalm₂.first) fun _ _ _ _ _ => .rfl

/-- Rounds that come to the same wherever they are calm make loops that do. -/
theorem behaviour_loop_congr (hround : Lasting round) (hround' : Lasting round')
    (hsame : ∀ m, CalmThroughout round m → ∀ outcome m', behaviour round m outcome m' ↔ behaviour round' m outcome m')
    (hcalm : CalmThroughout (loop condition round) m) :
    behaviour (loop condition round) m outcome m' ↔ behaviour (loop condition round') m outcome m' := by
  have hturn (m : Machine) (hm : CalmThroughout (loop condition round) m) (outcome : Outcome (Option Flow))
      (m' : Machine) :
      behaviour (loopTurn condition round) m outcome m' ↔ behaviour (loopTurn condition round') m outcome m' :=
    behaviour_loopTurn_congr hround hround' hsame hm.shift.first
  have hkeep (m m₁ : Machine) (hm : CalmThroughout (loop condition round) m)
      (hgoes : behaviour (loopTurn condition round) m (.done none) m₁) : CalmThroughout (loop condition round) m₁ :=
    hm.shift.goesOn (lasting_loopTurn hround) hgoes
  rw [behaviour_loop hround, behaviour_loop hround']
  constructor
  · exact .mono (fun m hm outcome m' => (hturn m hm outcome m').1) hkeep hcalm
  · exact .mono (fun m hm outcome m' => (hturn m hm outcome m').2)
      (fun m m₁ hm hgoes => hkeep m m₁ hm ((hturn m hm _ _).2 hgoes)) hcalm

end

/-! ### Statements where nothing is armed -/

section

variable {m m' : Machine} {outcome : Outcome Flow}

theorem behaviour_serveTasks_idle (hidle : m.scheduler.tasks = []) {outcome : Outcome Unit} :
    behaviour serveTasks m outcome m' ↔ Behaviour.value () m outcome m' := by
  have hrun (steps : Nat) : (serveTasks (steps + 1)).plain m = (.done (), m) := by
    rw [plain, serveTasks_idle steps hidle]
  rw [← behaviour_shift lasting_serveTasks]
  constructor
  · rintro ⟨-, steps, hends⟩
    cases (hrun steps).symm.trans hends
    exact ⟨rfl, rfl⟩
  · rintro ⟨rfl, rfl⟩
    exact ⟨by simp, 0, hrun 0⟩

/-- Where nothing is armed, a statement behaves like what it does after the timers are
served. -/
theorem behaviour_runStmt_idle {stmt : Stmt} {rest : Nat → Watched Flow} (hrest : Lasting rest)
    (hstmt : ∀ steps, runStmt (steps + 1) stmt = serveTasks steps >>= fun _ => rest steps)
    (hidle : m.scheduler.tasks = []) :
    behaviour (runStmt · stmt) m outcome m' ↔ behaviour rest m outcome m' := by
  have hsucc : (fun steps => runStmt (steps + 1) stmt) = fun steps => serveTasks steps >>= fun _ => rest steps :=
    funext hstmt
  rw [← behaviour_shift (lasting_runStmt stmt), hsucc, behaviour_bind lasting_serveTasks fun _ => hrest,
    Behaviour.AndThen.congr (fun _ _ => behaviour_serveTasks_idle hidle) fun _ _ _ _ _ => .rfl,
    Behaviour.value_andThen]

theorem behaviour_expression_idle (expr : Expr) (hidle : m.scheduler.tasks = []) :
    behaviour (runStmt · (.expression expr)) m outcome m' ↔
      (behaviour (evaluate · expr .opened)).AndThen (fun _ => .value .next) m outcome m' := by
  have hvalue (_ : Value) := lasting_pure Flow.next
  have hexpr := lasting_evaluate expr .opened
  rw [behaviour_runStmt_idle (hexpr.bind hvalue) (fun _ => rfl) hidle, behaviour_bind hexpr hvalue]
  simp only [behaviour_pure]

theorem behaviour_forLoop_idle (start condition step : Expr) (body : List Stmt) (hidle : m.scheduler.tasks = []) :
    behaviour (runStmt · (.forLoop start condition step body)) m outcome m' ↔
      (behaviour (evaluate · start .opened)).AndThen (fun _ => behaviour (forLoop · condition step body))
        m outcome m' := by
  have hloop (_ : Value) := lasting_forLoop condition step body
  have hstart := lasting_evaluate start .opened
  rw [behaviour_runStmt_idle (hstart.bind hloop) (fun _ => rfl) hidle, behaviour_bind hstart hloop]

theorem behaviour_whileLoop_idle (condition : Expr) (body : List Stmt) (hidle : m.scheduler.tasks = []) :
    behaviour (runStmt · (.whileLoop condition body)) m outcome m' ↔
      behaviour (whileLoop · condition body) m outcome m' :=
  behaviour_runStmt_idle (lasting_whileLoop condition body) (fun _ => rfl) hidle

/-- A round of a `for` loop behaves like its body with the step behind. -/
theorem behaviour_forRound (step : Expr) (body : List Stmt) (hcalm : CalmThroughout (forRound step body) m) :
    behaviour (forRound step body) m outcome m' ↔
      behaviour (runBlock · (body ++ [.expression step])) m outcome m' := by
  have hbody := lasting_runBlock body
  have hround : behaviour (forRound step body) =
      (behaviour (runBlock · body)).AndThen fun flow => behaviour (afterBody step · flow) :=
    behaviour_bind hbody (lasting_afterBody step)
  rw [hround, behaviour_runBlock_append, behaviour_runBlock_singleton]
  refine Behaviour.AndThen.congr (fun _ _ => .rfl) fun flow m₁ hflow outcome m' => ?_
  have hidle := (hcalm.goesOn hbody hflow).before
  cases flow with
  | returned v =>
    have hafter : behaviour (afterBody step · (.returned v)) = .value (.returned v) := behaviour_pure _
    rw [hafter]
    exact .rfl
  | next =>
    have hafter : behaviour (afterBody step · .next) =
        (behaviour (evaluate · step .opened)).AndThen fun _ => behaviour fun _ => pure Flow.next :=
      behaviour_bind (lasting_evaluate step .opened) fun _ => lasting_pure Flow.next
    rw [hafter, behaviour_pure]
    exact (behaviour_expression_idle step hidle).symm

/-- The two statements that a `for` loop stands for behave like the start and then the
loop, where nothing is armed. -/
theorem behaviour_start_whileLoop (start condition : Expr) (body : List Stmt) (hidle : m.scheduler.tasks = []) :
    behaviour (runBlock · [.expression start, .whileLoop condition body]) m outcome m' ↔
      (behaviour (evaluate · start .opened)).AndThen
        (fun _ => behaviour (runStmt · (.whileLoop condition body))) m outcome m' := by
  have hfirst (outcome : Outcome Flow) (m' : Machine) :
      behaviour (runStmt · (.expression start)) m outcome m' ↔ _ := behaviour_expression_idle start hidle
  rw [behaviour_runBlock_cons, Behaviour.AndThen.congr hfirst fun _ _ _ _ _ => .rfl, Behaviour.andThen_assoc,
    behaviour_runBlock_singleton]
  simp only [Behaviour.value_andThen, Behaviour.afterFlow]

end

/-- Both forms come to the same, if the `for` loop is calm. -/
theorem behaviour_for_iff (start condition step : Expr) (body : List Stmt) {m m' : Machine} {outcome : Outcome Flow}
    (hcalm : CalmThroughout (runBlock · [.forLoop start condition step body]) m) :
    behaviour (runBlock · [.forLoop start condition step body]) m outcome m' ↔
      behaviour (runBlock · [.expression start, .whileLoop condition (body ++ [.expression step])])
        m outcome m' := by
  have hround := lasting_forRound step body
  have hround' := lasting_runBlock (body ++ [.expression step])
  have hfor : (forLoop · condition step body) = loop condition (forRound step body) :=
    funext (forLoop_eq_loop condition step body)
  have hwhile : (whileLoop · condition (body ++ [.expression step])) =
      loop condition (runBlock · (body ++ [.expression step])) :=
    funext (whileLoop_eq_loop condition (body ++ [.expression step]))
  -- the loop itself is calm from wherever the start leads
  have hstmt : CalmThroughout (fun steps => runStmt (steps + 1) (.forLoop start condition step body)) m :=
    hcalm.shift.first.shift
  have hstart : CalmThroughout
      (fun steps => evaluate steps start .opened >>= fun _ => forLoop steps condition step body) m :=
    hstmt.goesOn lasting_serveTasks ((behaviour_serveTasks_idle hcalm.before).2 ⟨rfl, rfl⟩)
  rw [behaviour_runBlock_singleton, behaviour_forLoop_idle start condition step body hcalm.before,
    behaviour_start_whileLoop start condition _ hcalm.before]
  refine Behaviour.AndThen.congr (fun _ _ => .rfl) fun v m₁ hv outcome m' => ?_
  have hloop := hstart.goesOn (lasting_evaluate start .opened) hv
  rw [behaviour_whileLoop_idle _ _ hloop.before, hwhile, hfor]
  exact behaviour_loop_congr hround hround' (fun m hm outcome m' => behaviour_forRound step body hm) (hfor ▸ hloop)

end Watched

/-- Nothing is armed when these statements are run, neither before nor at any moment. -/
def Machine.NeverArms (m : Machine) (stmts : List Stmt) : Prop :=
  m.scheduler.tasks = [] ∧
    ∀ steps, ∀ k ∈ (Watched.runBlock steps stmts m).moments, k.machine.scheduler.tasks = []

/-- Without an event trigger in the statements or in a function nothing is ever armed. -/
theorem Machine.Timerless.neverArms {m : Machine} (hm : m.Timerless) {stmts : List Stmt}
    (h : Stmt.armNothing stmts = true) : m.NeverArms stmts :=
  ⟨hm.idle, fun steps k hk => (((Watched.untimed steps).runBlock stmts h m hm).moments k hk).idle⟩

/-- What never ends cannot come to what something else ends with. -/
theorem Action.unfinished_of_ends {α : Type} {x y : Nat → Action α} {m : Machine}
    (h : ∀ outcome m', outcome ≠ .unfinished → (∃ steps, x steps m = (outcome, m')) →
      ∃ steps, y steps m = (outcome, m'))
    (hforever : ∀ steps, (y steps m).1 = .unfinished) (steps : Nat) : (x steps m).1 = .unfinished := by
  refine Classical.byContradiction fun hends => ?_
  obtain ⟨more, hrun⟩ := h _ _ hends ⟨steps, rfl⟩
  exact hends ((congrArg Prod.fst hrun).symm.trans (hforever more))

/-- **A `for` loop is its `while` form.**  From a machine from which the loop never arms
anything, `for (start; condition; step) { body }` and the two statements `start;` and
`while (condition) { body; step; }` both come to an end or both run forever; and they end
with the same flow, be it that of a return out of the body, or with the same error, and
leave the same machine. -/
theorem for_is_while (start condition step : Expr) (body : List Stmt) (m : Machine)
    (hm : m.NeverArms [.forLoop start condition step body]) :
    (∀ outcome m', outcome ≠ .unfinished →
      ((∃ steps, Action.runBlock steps [.forLoop start condition step body] m = (outcome, m')) ↔
        ∃ steps, Action.runBlock steps [.expression start, .whileLoop condition (body ++ [.expression step])] m
          = (outcome, m'))) ∧
    ((∀ steps, (Action.runBlock steps [.forLoop start condition step body] m).1 = .unfinished) ↔
      ∀ steps, (Action.runBlock steps [.expression start, .whileLoop condition (body ++ [.expression step])] m).1
        = .unfinished) := by
  have hcalm : Watched.CalmThroughout (Watched.runBlock · [.forLoop start condition step body]) m :=
    ⟨hm.1, 0, fun steps _ => hm.2 steps⟩
  have hsame (outcome : Outcome Flow) (m' : Machine) (hends : outcome ≠ .unfinished) :
      (∃ steps, Action.runBlock steps [.forLoop start condition step body] m = (outcome, m')) ↔
        ∃ steps, Action.runBlock steps [.expression start, .whileLoop condition (body ++ [.expression step])] m
          = (outcome, m') := by
    simp only [← (Watched.agreement _).runBlock]
    exact and_congr_right_iff.1 (Watched.behaviour_for_iff start condition step body hcalm) hends
  refine ⟨hsame, fun hforever => ?_, fun hforever => ?_⟩
  · exact Action.unfinished_of_ends (fun outcome m' hends => (hsame outcome m' hends).2) hforever
  · exact Action.unfinished_of_ends (fun outcome m' hends => (hsame outcome m' hends).1) hforever

/-- The variable `again`. -/
def readAgain : Expr := .variable ⟨"again", false⟩

/-- `again = true` or `again = false`. -/
def setAgain (b : Bool) : Expr := .assign ⟨"again", false⟩ .set (.literal (.bool b))

/-- The one turn of `for (again = true; again; again = false) { print again }` is made by the
`while` form as well. -/
theorem one_turn_for_is_while :
    Machine.NeverArms {} [.forLoop (setAgain true) readAgain (setAgain false) [.print readAgain]] ∧
    ∃ m' : Machine, m'.console.written = #[.line "true"] ∧
      ∃ steps, Action.runBlock steps [.expression (setAgain true),
        .whileLoop readAgain ([.print readAgain] ++ [.expression (setAgain false)])] {} = (.done .next, m') := by
  have hcalm : Machine.NeverArms {} [.forLoop (setAgain true) readAgain (setAgain false) [.print readAgain]] :=
    Machine.Timerless.neverArms ⟨rfl, fun _ hentry => absurd hentry List.not_mem_nil⟩ rfl
  refine ⟨hcalm, _, ?_, ((for_is_while _ _ _ _ _ hcalm).1 (.done .next) _ nofun).1 ⟨8, rfl⟩⟩
  rfl

end SealedScript

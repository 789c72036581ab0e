/-
SealedScript/Proofs/Machine/ServiceLoop.lean

The timers realise the timetable.  Once the statements of a program are done the
machine sleeps, fires what is due, and sleeps again.  As long as the tasks only
fire, that is a walk through the timetable of the armed tasks: a turn is a round of
it, and the turns that are left walk through the rest.

Main result: `timers_realise_timetable`.
-/
import SealedScript.Proofs.Machine.Firing
import SealedScript.Proofs.Machine.Patience
import SealedScript.Proofs.Schedule.Timetable

namespace SealedScript

open Timetable

/-! ### Turns with a record -/

namespace Watched

/-- Sleeps until a task is due and fires what is due then. -/
def timerTurn (steps : Nat) : Watched (Option RunEnd) := do
  match ← act .step (.reads (·.scheduler.nextWakeup)) with
  | none => pure (some .completed)
  | some moment =>
    act .step (.sleepUntil moment)
    let now ← act .step (.reads Machine.clock)
    match ← runDue steps now with
    | some _ => pure (some .halted)
    | none => pure none

/-- Serves the timers until the run has ended. -/
def runTimers : Nat → Watched RunEnd
  | 0 => stop .unfinished
  | steps + 1 => do
    match ← timerTurn steps with
    | some ended => pure ended
    | none => runTimers steps

theorem plain_timerTurn (steps : Nat) : plain (timerTurn steps) = Action.timerTurn steps := by
  simp only [timerTurn, Action.timerTurn, plain_bind, plain_act]
  congr 1
  funext wakeup
  cases wakeup with
  | none => rfl
  | some moment =>
    simp only [plain_bind, plain_act, (agreement steps).runDue]
    congr 1
    funext _
    congr 1
    funext now
    congr 1
    funext ended
    cases ended <;> rfl

/-- Without its record it is the run that follows the statements of a program. -/
theorem plain_runTimers (steps : Nat) : plain (runTimers steps) = Action.runProgram steps [] := by
  show plain (runTimers steps) = Action.runTimers steps
  induction steps with
  | zero => rfl
  | succ steps ih =>
    simp only [runTimers, Action.runTimers, plain_bind, plain_timerTurn]
    congr 1
    funext ended
    cases ended with
    | none => exact ih
    | some ended => rfl

end Watched

/-- How a run ends with a round, unless it goes on. -/
def roundEnd : Outcome (Option Nat) → Option (Outcome RunEnd)
  | .done none => none
  | .done (some _) => some (.done .halted)
  | .failed e => some (.failed e)
  | .clockOverflow => some .clockOverflow
  | .unfinished => some .unfinished

theorem eq_unfinished_of_roundEnd {outcome : Outcome (Option Nat)} (h : roundEnd outcome = some .unfinished) :
    outcome = .unfinished := by
  rcases outcome with (- | id) | e | - | -
  · cases h
  · cases h
  · cases h
  · cases h
  · rfl

/-- The machine that has slept until a moment. -/
def Machine.awake (m : Machine) (moment : Nat) : Machine := { m with clock := max m.clock moment }

namespace Watched

theorem runTimers_nothing (steps : Nat) {m : Machine} (h : m.scheduler.nextWakeup = none) :
    (runTimers (steps + 1) m).outcome = .done .completed ∧ (runTimers (steps + 1) m).machine = m ∧
      (runTimers (steps + 1) m).firings = [] := by
  have hturn : timerTurn steps m = ⟨.done (some .completed), m, [⟨.step, m⟩]⟩ := by
    unfold timerTurn
    rw [act_bind (show Action.reads _ m = (.done none, m) by rw [Action.reads, h])]
    rfl
  have hrun : runTimers (steps + 1) m = ⟨.done .completed, m, [⟨.step, m⟩]⟩ := by
    show attempt (timerTurn steps) _ _ m = _
    rw [attempt_done (a := some .completed) (by rw [hturn]), hturn]
    rfl
  rw [hrun]
  exact ⟨rfl, rfl, rfl⟩

/-- A round of tasks: they are fired when the machine has slept until they are due. -/
def round (steps moment : Nat) (m : Machine) : Visit (Option Nat) :=
  runDue steps (m.awake moment).clock (m.awake moment)

/-- A turn with something to fire is a round. -/
theorem timerTurn_round (steps : Nat) {m : Machine} {moment : Nat} (h : m.scheduler.nextWakeup = some moment) :
    (timerTurn steps m).outcome = (round steps moment m).outcome.map (Option.map fun _ => .halted) ∧
    (timerTurn steps m).machine = (round steps moment m).machine ∧
    (timerTurn steps m).firings = (round steps moment m).firings := by
  have hend : (fun ended : Option Nat => match ended with
        | some _ => (pure (some RunEnd.halted) : Watched (Option RunEnd))
        | none => pure none) = fun ended => pure (ended.map fun _ => .halted) := by
    funext ended
    cases ended <;> rfl
  have hturn : timerTurn steps m
      = ((runDue steps (m.awake moment).clock >>= fun ended => pure (ended.map fun _ => .halted))
          (m.awake moment)).behind [⟨.step, m⟩, ⟨.step, m.awake moment⟩, ⟨.step, m.awake moment⟩] := by
    unfold timerTurn
    rw [act_bind (show Action.reads _ m = (.done (some moment), m) by rw [Action.reads, h])]
    simp only
    rw [act_bind (show Action.sleepUntil moment m = (.done (), m.awake moment) from rfl),
      act_bind (show Action.reads Machine.clock (m.awake moment) = (.done (m.awake moment).clock, m.awake moment)
        from rfl), ← hend]
    rfl
  rw [hturn, Visit.firings_behind _ (by simp [Event.task?]), bind_pure_apply]
  exact ⟨rfl, rfl, rfl⟩

section Round

variable {steps : Nat} {m : Machine} {moment : Nat} (h : m.scheduler.nextWakeup = some moment)
include h

/-- The turns that are left follow a round that does not end the run. -/
theorem runTimers_goesOn (hround : roundEnd (round steps moment m).outcome = none) :
    (runTimers (steps + 1) m).outcome = (runTimers steps (round steps moment m).machine).outcome ∧
    (runTimers (steps + 1) m).machine = (runTimers steps (round steps moment m).machine).machine ∧
    (runTimers (steps + 1) m).firings
      = (round steps moment m).firings ++ (runTimers steps (round steps moment m).machine).firings := by
  obtain ⟨houtcome, hmachine, hfirings⟩ := timerTurn_round steps h
  rw [← hmachine, ← hfirings]
  rcases hended : (round steps moment m).outcome with (- | id) | e | - | - <;> rw [hended] at hround houtcome
  · have hrun : runTimers (steps + 1) m = ⟨_, _, _⟩ := attempt_done houtcome
    rw [hrun]
    exact ⟨rfl, rfl, List.filterMap_append ..⟩
  all_goals cases hround

/-- A round may end the run. -/
theorem runTimers_ends {ended : Outcome RunEnd} (hround : roundEnd (round steps moment m).outcome = some ended) :
    (runTimers (steps + 1) m).outcome = ended ∧
    (runTimers (steps + 1) m).machine = (round steps moment m).machine ∧
    (runTimers (steps + 1) m).firings = (round steps moment m).firings := by
  obtain ⟨houtcome, hmachine, hfirings⟩ := timerTurn_round steps h
  rw [← hmachine, ← hfirings]
  rcases hended : (round steps moment m).outcome with (- | id) | e | - | - <;> rw [hended] at hround houtcome <;>
    cases hround
  · have hrun : runTimers (steps + 1) m = ⟨_, _, _⟩ := attempt_done houtcome
    rw [hrun]
    exact ⟨rfl, rfl, congrArg (List.filterMap Moment.firing?) (List.append_nil _)⟩
  · have hrun : runTimers (steps + 1) m = ⟨_, _, _⟩ := attempt_failed houtcome
    rw [hrun]
    exact ⟨rfl, rfl, congrArg (List.filterMap Moment.firing?) (List.append_nil _)⟩
  · have hrun : runTimers (steps + 1) m = ⟨_, _, _⟩ := attempt_clockOverflow houtcome
    rw [hrun]
    exact ⟨rfl, rfl, rfl⟩
  · have hrun : runTimers (steps + 1) m = ⟨_, _, _⟩ := attempt_unfinished houtcome
    rw [hrun]
    exact ⟨rfl, rfl, rfl⟩

end Round

end Watched

/-! ### Rounds of harmless tasks -/

namespace Firing

/-- The body of the task ends well, and neither arms anything nor lets time pass. -/
def Harmless (f : Firing) : Prop :=
  ∃ steps m', Action.runTopLevel steps f.task.action f.machine = (.done (), m') ∧
    m'.scheduler = f.machine.scheduler ∧ m'.clock = f.machine.clock

/-- The entry of a firing: what the clock shows, and the number of the task. -/
def entry (f : Firing) : Nat × Nat := (f.machine.clock, f.task.id)

/-- The body of the task that is fired does not come to an end. -/
def Hangs (f : Firing) : Prop := ∀ steps, (Action.runTopLevel steps f.task.action f.machine).1 = .unfinished

end Firing

/-- A body that has ended does the same with more steps. -/
theorem runTopLevel_of_le {steps more : Nat} (hle : steps ≤ more) {stmt : Stmt} {m m' : Machine}
    {outcome : Outcome Unit} (h : Action.runTopLevel steps stmt m = (outcome, m'))
    (hends : outcome ≠ .unfinished) : Action.runTopLevel more stmt m = (outcome, m') := by
  rw [← (Watched.agreement steps).runTopLevel, Watched.plain] at h
  obtain ⟨rfl, rfl⟩ := Prod.mk.inj h
  rw [← (Watched.agreement more).runTopLevel, Watched.plain,
    Watched.eq_of_le (fun steps => (Watched.steady steps).runTopLevel stmt) hle hends]

/-- A body ends in one way. -/
theorem runTopLevel_unique {steps steps' : Nat} {stmt : Stmt} {m m₁ m₂ : Machine} {outcome outcome' : Outcome Unit}
    (h : Action.runTopLevel steps stmt m = (outcome, m₁)) (hends : outcome ≠ .unfinished)
    (h' : Action.runTopLevel steps' stmt m = (outcome', m₂)) (hends' : outcome' ≠ .unfinished) :
    outcome' = outcome ∧ m₂ = m₁ := by
  have hmore := runTopLevel_of_le (Nat.le_max_left steps steps') h hends
  rw [runTopLevel_of_le (Nat.le_max_right steps steps') h' hends'] at hmore
  exact Prod.mk.inj hmore

/-- What is known of a body that has run, if the firing is harmless. -/
theorem Firing.Harmless.of_runTopLevel {task : Task} {m m₁ : Machine} {steps : Nat} {outcome : Outcome Unit}
    (h : (Firing.mk task m).Harmless) (hrun : Action.runTopLevel steps task.action m = (outcome, m₁))
    (hends : outcome ≠ .unfinished) :
    outcome = .done () ∧ m₁.scheduler = m.scheduler ∧ m₁.clock = m.clock := by
  obtain ⟨_, m', hdone, hscheduler, hclock⟩ := h
  obtain ⟨houtcome, rfl⟩ := runTopLevel_unique hdone nofun hrun hends
  exact ⟨houtcome, hscheduler, hclock⟩

/-- How a batch of harmless tasks goes: all are fired and the run goes on with those
that are armed again, or it breaks off. -/
inductive Timed (tasks : List Task) (m : Machine) (fired : List Task) (outcome : Outcome (Option Nat))
    (m' : Machine) : Prop
  | through : roundEnd outcome = none → fired = tasks → (∀ t ∈ tasks, t.Passes) → m'.clock = m.clock →
      m'.scheduler.tasks = m.scheduler.tasks ++ tasks.filterMap Task.again? → Timed tasks m fired outcome m'
  | cut {rest : List Task} {ended : Outcome RunEnd} : roundEnd outcome = some ended → tasks = fired ++ rest →
      (∀ t ∈ fired.dropLast, t.Passes) → BreaksOff fired ended → Timed tasks m fired outcome m'

/-- One more task in front, which lets the run go on. -/
theorem Timed.cons {task : Task} {tasks fired : List Task} {m m₁ m' : Machine} {outcome : Outcome (Option Nat)}
    (h : Timed tasks m₁ fired outcome m') (hpasses : task.Passes) (hclock : m₁.clock = m.clock)
    (hscheduler : m₁.scheduler.tasks = m.scheduler.tasks ++ task.again?.toList) :
    Timed (task :: tasks) m (task :: fired) outcome m' := by
  cases h with
  | through hgoesOn hfired hall hclock' hscheduler' =>
    refine .through hgoesOn (by rw [hfired]) (List.forall_mem_cons.mpr ⟨hpasses, hall⟩) (hclock'.trans hclock) ?_
    rw [hscheduler', hscheduler, List.append_assoc, List.filterMap_cons]
    cases task.again? <;> rfl
  | cut hended htasks hbefore hcut =>
    refine .cut hended (by rw [htasks, List.cons_append]) ?_ (hcut.cons task)
    cases fired with
    | nil => exact List.forall_mem_nil _
    | cons first fired =>
      rw [List.dropLast_cons_of_ne_nil (List.cons_ne_nil _ _)]
      exact List.forall_mem_cons.mpr ⟨hpasses, hbefore⟩

/-- **A batch of harmless tasks fires them in turn, at one moment.** -/
theorem Batch.timed {tasks : List Task} {m m' : Machine} {firings : List Firing} {outcome : Outcome (Option Nat)}
    (h : Batch tasks m firings outcome m') (hharmless : ∀ f ∈ firings, f.Harmless) :
    (∀ f ∈ firings, f.machine.clock = m.clock) ∧ Timed tasks m (firings.map Firing.task) outcome m' := by
  induction h with
  | finished => exact ⟨List.forall_mem_nil _, .through rfl rfl (List.forall_mem_nil _) rfl (List.append_nil _).symm⟩
  | cutOff => exact ⟨List.forall_mem_nil _, .cut rfl rfl (List.forall_mem_nil _) .unfinished⟩
  | brokenOff => exact ⟨List.forall_mem_singleton.mpr rfl, .cut rfl rfl (List.forall_mem_nil _) .unfinished⟩
  | overflowed hrun | dropped hrun =>
    obtain ⟨hdone, -⟩ := (hharmless _ List.mem_cons_self).of_runTopLevel hrun (by simp)
    cases hdone
  | @armedAgain task again rest m m₁ m₂ steps firings outcome hrun htick hfits _ ih =>
    rw [List.forall_mem_cons] at hharmless
    obtain ⟨-, hscheduler, hclock⟩ := hharmless.1.of_runTopLevel hrun (by simp)
    have hafter : task.aftermath = .again again := by simp only [Task.aftermath, htick, if_pos hfits]
    obtain ⟨hclocks, htimed⟩ := ih hharmless.2
    refine ⟨List.forall_mem_cons.mpr ⟨rfl, fun f hf => (hclocks f hf).trans hclock⟩, ?_⟩
    refine htimed.cons (by rw [Task.Passes, hafter]; exact ⟨Aftermath.noConfusion, Aftermath.noConfusion⟩) hclock ?_
    rw [Task.again?_eq_some_iff.mpr hafter, ← hscheduler]
    rfl
  | @outOfReach task again rest m m₁ steps hrun htick hfits =>
    have hafter : task.aftermath = .outgrown := by simp only [Task.aftermath, htick, if_neg hfits]
    exact ⟨List.forall_mem_singleton.mpr rfl, .cut rfl rfl (List.forall_mem_nil _) (.overflow rfl hafter)⟩
  | @ended task last rest m m₁ m₂ steps firings outcome hrun htick hhalts _ ih =>
    rw [List.forall_mem_cons] at hharmless
    obtain ⟨-, hscheduler, hclock⟩ := hharmless.1.of_runTopLevel hrun (by simp)
    have hafter : task.aftermath = .gone := by
      simp only [Task.aftermath, htick, hhalts, Bool.false_eq_true, if_false]
    obtain ⟨hclocks, htimed⟩ := ih hharmless.2
    refine ⟨List.forall_mem_cons.mpr ⟨rfl, fun f hf => (hclocks f hf).trans hclock⟩, ?_⟩
    refine htimed.cons (by rw [Task.Passes, hafter]; exact ⟨Aftermath.noConfusion, Aftermath.noConfusion⟩) hclock ?_
    rw [hscheduler, Task.again?, hafter]
    exact (List.append_nil _).symm
  | @halted task last rest m m₁ steps hrun htick hhalts =>
    have hafter : task.aftermath = .ended := by simp only [Task.aftermath, htick, hhalts, if_true]
    exact ⟨List.forall_mem_singleton.mpr rfl, .cut rfl rfl (List.forall_mem_nil _) (.halted rfl hafter)⟩

section Round

variable {steps : Nat} {m : Machine} {moment : Nat} (hwell : WellTimed m.clock m.scheduler.tasks)
  (hnext : m.scheduler.nextWakeup = some moment)
include hwell hnext

/-- The machine sleeps until the moment, which is not over yet. -/
theorem clock_awake : (m.awake moment).clock = moment := by
  obtain ⟨t, ht, hmoment⟩ := List.mem_map.mp (List.min?_eq_some_iff.mp hnext).1
  exact Nat.max_eq_right (hmoment ▸ hwell.ahead t ht)

/-- How a round of harmless tasks goes. -/
theorem timed_round (hharmless : ∀ f ∈ (Watched.round steps moment m).firings, f.Harmless) :
    (∀ f ∈ (Watched.round steps moment m).firings, f.machine.clock = moment) ∧
    Timed (m.scheduler.takeReady moment).1 ((m.awake moment).park (m.scheduler.takeReady moment).2)
      ((Watched.round steps moment m).firings.map Firing.task) (Watched.round steps moment m).outcome
      (Watched.round steps moment m).machine := by
  have hclock := clock_awake hwell hnext
  have hround : Watched.round steps moment m = Watched.runDue steps moment (m.awake moment) := by
    rw [Watched.round, hclock]
  rw [hround] at hharmless ⊢
  cases steps with
  | zero => exact ⟨List.forall_mem_nil _, .cut rfl rfl (List.forall_mem_nil _) .unfinished⟩
  | succ steps =>
    obtain ⟨m', hbatch, hmachine⟩ := batch_runDue steps moment (m.awake moment)
    obtain ⟨hclocks, htimed⟩ := hbatch.timed hharmless
    refine ⟨fun f hf => (hclocks f hf).trans hclock, ?_⟩
    rw [hmachine]
    cases htimed with
    | through hgoesOn hfired hpass hclock' hscheduler => exact .through hgoesOn hfired hpass hclock' hscheduler
    | cut hended htasks hbefore hcut => exact .cut hended htasks hbefore hcut

/-- The entries of the firings of a round. -/
theorem entries_round (hharmless : ∀ f ∈ (Watched.round steps moment m).firings, f.Harmless) :
    (Watched.round steps moment m).firings.map Firing.entry
      = ((Watched.round steps moment m).firings.map Firing.task).map Task.first := by
  obtain ⟨hclocks, htimed⟩ := timed_round hwell hnext hharmless
  have hsplit := split_takeReady hwell hnext
  have hready : ∀ t ∈ (Watched.round steps moment m).firings.map Firing.task, t ∈ (m.scheduler.takeReady moment).1 := by
    intro t ht
    cases htimed with
    | through _ hfired => rwa [hfired] at ht
    | cut _ htasks =>
      rw [htasks]
      exact List.mem_append_left _ ht
  rw [List.map_map]
  refine List.map_congr_left fun f hf => ?_
  have hdue := hsplit.due f.task (hready f.task (List.mem_map_of_mem hf))
  exact Prod.ext ((hclocks f hf).trans hdue.symm) rfl

/-- A round that goes through. -/
theorem round_goesOn (hharmless : ∀ f ∈ (Watched.round steps moment m).firings, f.Harmless)
    (hround : roundEnd (Watched.round steps moment m).outcome = none) :
    (Watched.round steps moment m).firings.map Firing.entry = (m.scheduler.takeReady moment).1.map Task.first ∧
    (∀ t ∈ (m.scheduler.takeReady moment).1, t.Passes) ∧
    (Watched.round steps moment m).machine.clock = moment ∧
    (Watched.round steps moment m).machine.scheduler.tasks
      = onward (m.scheduler.takeReady moment).1 (m.scheduler.takeReady moment).2.tasks := by
  rw [entries_round hwell hnext hharmless]
  cases (timed_round hwell hnext hharmless).2 with
  | through _ hfired hpass hclock hscheduler =>
    rw [hfired]
    exact ⟨rfl, hpass, hclock.trans (clock_awake hwell hnext), hscheduler⟩
  | cut hended =>
    rw [hround] at hended
    cases hended

/-- A round that breaks off. -/
theorem round_breaksOff (hharmless : ∀ f ∈ (Watched.round steps moment m).firings, f.Harmless)
    {ended : Outcome RunEnd} (hround : roundEnd (Watched.round steps moment m).outcome = some ended) :
    ∃ fired rest, (Watched.round steps moment m).firings.map Firing.entry = fired.map Task.first ∧
      (m.scheduler.takeReady moment).1 = fired ++ rest ∧ (∀ t ∈ fired.dropLast, t.Passes) ∧
      BreaksOff fired ended := by
  rw [entries_round hwell hnext hharmless]
  cases (timed_round hwell hnext hharmless).2 with
  | through hgoesOn =>
    rw [hround] at hgoesOn
    cases hgoesOn
  | cut hended htasks hbefore hcut =>
    rw [hround] at hended
    cases hended
    exact ⟨_, _, rfl, htasks, hbefore, hcut⟩

end Round

/-! ### Runs of turns -/

/-- **The turns walk through the timetable.**  The induction is on the steps; a turn is
a round, and the tasks that are armed after it have the rest of the timetable. -/
theorem realises_runTimers (steps : Nat) {m : Machine} (hwell : WellTimed m.clock m.scheduler.tasks)
    (hharmless : ∀ f ∈ (Watched.runTimers steps m).firings, f.Harmless) :
    Realises m.scheduler.tasks ((Watched.runTimers steps m).firings.map Firing.entry)
      (Watched.runTimers steps m).outcome (Watched.runTimers steps m).machine.scheduler.tasks := by
  induction steps generalizing m with
  | zero => exact realises_unfinished _ _
  | succ steps ih =>
    cases hnext : m.scheduler.nextWakeup with
    | none =>
      obtain ⟨houtcome, hmachine, hfirings⟩ := Watched.runTimers_nothing steps hnext
      rw [houtcome, hmachine, hfirings, Scheduler.nextWakeup_eq_none_iff.mp hnext]
      exact realises_nil
    | some moment =>
      have hsplit := split_takeReady hwell hnext
      cases hround : roundEnd (Watched.round steps moment m).outcome with
      | some ended =>
        obtain ⟨houtcome, hmachine, hfirings⟩ := Watched.runTimers_ends hnext hround
        rw [hfirings] at hharmless
        obtain ⟨fired, rest, hentries, hready, hbefore, hcut⟩ := round_breaksOff hwell hnext hharmless hround
        rw [houtcome, hfirings, hentries]
        exact Realises.cut hsplit hwell hready hbefore hcut
      | none =>
        obtain ⟨houtcome, hmachine, hfirings⟩ := Watched.runTimers_goesOn hnext hround
        rw [hfirings, List.forall_mem_append] at hharmless
        obtain ⟨hentries, hpass, hclock, htasks⟩ := round_goesOn hwell hnext hharmless.1 hround
        have hwell' : WellTimed (Watched.round steps moment m).machine.clock
            (Watched.round steps moment m).machine.scheduler.tasks := by
          rw [htasks, hclock]
          exact hsplit.wellTimed hwell
        have hrest := ih hwell' hharmless.2
        rw [htasks] at hrest
        rw [houtcome, hmachine, hfirings, List.map_append, hentries]
        exact Realises.follow hsplit hwell hpass hrest

/-! ### Harmless statements -/

/-- A statement that is harmless as the action of a task, whenever it is fired. -/
def Stmt.Harmless (stmt : Stmt) : Prop :=
  ∀ m : Machine, m.inTask = true → ∃ steps m', Action.runTopLevel steps stmt m = (.done (), m') ∧
    m'.scheduler = m.scheduler ∧ m'.clock = m.clock

theorem harmless_literal (value : Literal) : (Stmt.expression (.literal value)).Harmless :=
  fun m hin => ⟨3, m, runTopLevel_literal 3 value hin, rfl, rfl⟩

theorem Batch.harmless {tasks : List Task} {m m' : Machine} {firings : List Firing} {outcome : Outcome (Option Nat)}
    (h : Batch tasks m firings outcome m') (hin : m.inTask = true) (hactions : ∀ t ∈ tasks, t.action.Harmless) :
    ∀ f ∈ firings, f.Harmless := by
  induction h with
  | finished | cutOff => exact List.forall_mem_nil _
  | brokenOff | overflowed | outOfReach | halted =>
    exact List.forall_mem_singleton.mpr (hactions _ List.mem_cons_self _ hin)
  | dropped hrun _ ih | armedAgain hrun _ _ _ ih | ended hrun _ _ _ ih =>
    have hin₁ := (grows_of_runTopLevel hrun hin).1
    rw [List.forall_mem_cons] at hactions
    exact List.forall_mem_cons.mpr ⟨hactions.1 _ hin, ih hin₁ hactions.2⟩

/-- The firings of tasks whose actions are harmless. -/
theorem harmless_runTimers (steps : Nat) {m : Machine} (hwell : WellTimed m.clock m.scheduler.tasks)
    (hactions : ∀ t ∈ m.scheduler.tasks, t.action.Harmless) :
    ∀ f ∈ (Watched.runTimers steps m).firings, f.Harmless := by
  induction steps generalizing m with
  | zero => exact List.forall_mem_nil _
  | succ steps ih =>
    cases hnext : m.scheduler.nextWakeup with
    | none =>
      rw [(Watched.runTimers_nothing steps hnext).2.2]
      exact List.forall_mem_nil _
    | some moment =>
      have hsplit := split_takeReady hwell hnext
      have hround : ∀ f ∈ (Watched.round steps moment m).firings, f.Harmless := by
        rw [Watched.round, clock_awake hwell hnext]
        cases steps with
        | zero => exact List.forall_mem_nil _
        | succ steps =>
          obtain ⟨m', hbatch, -⟩ := batch_runDue steps moment (m.awake moment)
          exact hbatch.harmless rfl fun t ht => hactions t (hsplit.mem_iff.mpr (.inl ht))
      cases hended : roundEnd (Watched.round steps moment m).outcome with
      | some ended => rwa [(Watched.runTimers_ends hnext hended).2.2]
      | none =>
        obtain ⟨-, hpass, hclock, htasks⟩ := round_goesOn hwell hnext hround hended
        rw [(Watched.runTimers_goesOn hnext hended).2.2]
        refine List.forall_mem_append.mpr ⟨hround, ih ?_ fun t ht => ?_⟩
        · rw [htasks, hclock]
          exact hsplit.wellTimed hwell
        · rw [htasks] at ht
          rcases List.mem_append.mp ht with hpending | hagain
          · exact hactions t (hsplit.mem_iff.mpr (.inr hpending))
          · obtain ⟨u, hu, hagain⟩ := List.mem_filterMap.mp hagain
            obtain ⟨interval, -, -, -, rfl⟩ := Task.again_of_eq (Task.again?_eq_some_iff.mp hagain)
            exact hactions u (hsplit.mem_iff.mpr (.inl hu))

/-! ### Enough steps -/

namespace Watched

/-- What comes after a body that has ended well: the end of the run, or the other
tasks. -/
theorem afterSuccess_cases (task : Task) (rest : List Task) {m : Machine} (hin : m.inTask = true) :
    (∀ steps, (afterSuccess steps task rest m).outcome ≠ .unfinished) ∨
    ∃ m', m'.inTask = true ∧ ∀ steps, (afterSuccess steps task rest m).outcome = (fire steps rest m').outcome ∧
      (afterSuccess steps task rest m).firings = (fire steps rest m').firings := by
  rcases htick : task.tick with ⟨goesOn | goesOn, after⟩
  · cases hhalts : after.halts with
    | true =>
      refine .inl fun steps => ?_
      rw [afterSuccess_halts steps rest m htick hhalts]
      exact nofun
    | false =>
      refine .inr ⟨m, hin, fun steps => ?_⟩
      rw [afterSuccess_ends steps rest htick hhalts]
      exact ⟨rfl, rfl⟩
  · by_cases hfits : after.nextRun < clockHorizon
    · refine .inr ⟨{ m with scheduler := m.scheduler.putBack after }, hin, fun steps => ?_⟩
      rw [afterSuccess_again steps rest m htick hfits]
      exact ⟨rfl, Visit.firings_behind _ (List.forall_mem_singleton.mpr rfl)⟩
    · refine .inl fun steps => ?_
      rw [afterSuccess_outOfReach steps rest m htick hfits]
      exact nofun

/-- The first task of a batch is fired. -/
theorem mem_firings_fire (steps : Nat) (task : Task) (rest : List Task) {m : Machine} (hin : m.inTask = true) :
    ⟨task, m⟩ ∈ (fire (steps + 1) (task :: rest) m).firings := by
  obtain ⟨-, -, hnone⟩ := runTopLevel_keepsToItself steps task.action m hin
  rw [fire_cons, Visit.firings_behind_fired _ _ _ hnone]
  exact List.mem_cons_self

/-- One task of a batch whose body ends: with it the batch has ended, or the other tasks
go on from a machine that is the same however many steps there are. -/
theorem fire_cons_cases {task : Task} (rest : List Task) {m m₁ : Machine} (hin : m.inTask = true) {least : Nat}
    {outcome : Outcome Unit} (hrun : Action.runTopLevel least task.action m = (outcome, m₁))
    (hends : outcome ≠ .unfinished) :
    (∀ steps, least ≤ steps → (fire (steps + 1) (task :: rest) m).outcome ≠ .unfinished) ∨
    ∃ m', m'.inTask = true ∧ ∀ steps, least ≤ steps →
      (fire (steps + 1) (task :: rest) m).outcome = (fire steps rest m').outcome ∧
      (fire (steps + 1) (task :: rest) m).firings = ⟨task, m⟩ :: (fire steps rest m').firings := by
  have hin₁ : m₁.inTask = true := (grows_of_runTopLevel hrun hin).1
  have hbody (steps : Nat) (hle : least ≤ steps) :
      (runTopLevel steps task.action m).outcome = outcome ∧ (runTopLevel steps task.action m).machine = m₁ ∧
        ∀ k ∈ (runTopLevel steps task.action m).moments, k.event.task? = none := by
    obtain ⟨-, -, hnone⟩ := runTopLevel_keepsToItself steps task.action m hin
    have hmore := runTopLevel_of_le hle hrun hends
    rw [← (agreement steps).runTopLevel, plain] at hmore
    obtain ⟨houtcome, hmachine⟩ := Prod.mk.inj hmore
    exact ⟨houtcome, hmachine, hnone⟩
  cases outcome with
  | unfinished => exact absurd rfl hends
  | clockOverflow =>
    refine .inl fun steps hle => ?_
    rw [fire_cons, (hbody steps hle).1]
    intro h
    cases h
  | failed e =>
    refine .inr ⟨m₁.notice (.taskFailed task.id e), hin₁, fun steps hle => ?_⟩
    obtain ⟨houtcome, hmachine, hnone⟩ := hbody steps hle
    rw [fire_cons, Visit.firings_behind_fired _ _ _ hnone, houtcome, hmachine]
    simp only [afterFailure_apply]
    exact ⟨rfl, congrArg _ (Visit.firings_behind _ (List.forall_mem_singleton.mpr rfl))⟩
  | done _ =>
    rcases afterSuccess_cases task rest hin₁ with hstops | ⟨m₂, hin₂, hsame⟩
    · refine .inl fun steps hle => ?_
      obtain ⟨houtcome, hmachine, -⟩ := hbody steps hle
      rw [fire_cons, houtcome, hmachine]
      exact hstops steps
    · refine .inr ⟨m₂, hin₂, fun steps hle => ?_⟩
      obtain ⟨houtcome, hmachine, hnone⟩ := hbody steps hle
      rw [fire_cons, Visit.firings_behind_fired _ _ _ hnone, houtcome, hmachine, ← (hsame steps).1,
        ← (hsame steps).2]
      exact ⟨rfl, rfl⟩

/-- **With enough steps a batch comes to its end, or to a body that has none.** -/
theorem fire_ends_or_hangs (tasks : List Task) {m : Machine} (hin : m.inTask = true) :
    ∃ enough, (fire enough tasks m).outcome ≠ .unfinished ∨
      ∃ f : Firing, f.Hangs ∧ ∀ steps, enough ≤ steps → f ∈ (fire steps tasks m).firings := by
  induction tasks generalizing m with
  | nil => exact ⟨1, .inl nofun⟩
  | cons task rest ih =>
    by_cases hhangs : (Firing.mk task m).Hangs
    · refine ⟨1, .inr ⟨_, hhangs, fun steps hle => ?_⟩⟩
      obtain ⟨steps, rfl⟩ := Nat.exists_eq_add_of_le' hle
      exact mem_firings_fire steps task rest hin
    · obtain ⟨least, hends⟩ := not_forall.mp hhangs
      rcases fire_cons_cases rest hin rfl hends with hstops | ⟨m', hin', hsame⟩
      · exact ⟨least + 1, .inl (hstops least (Nat.le_refl least))⟩
      · obtain ⟨enough, henough⟩ := @ih m' hin'
        refine ⟨max least enough + 1, henough.imp (fun hends => ?_) fun ⟨f, hf, hfired⟩ => ⟨f, hf, ?_⟩⟩
        · rw [(hsame _ (Nat.le_max_left _ _)).1,
            eq_of_le (fun steps => (steady steps).fire rest) (Nat.le_max_right _ _) hends]
          exact hends
        · intro steps hle
          obtain ⟨steps, rfl⟩ := Nat.exists_eq_add_of_le' (Nat.le_trans (Nat.le_add_left 1 _) hle)
          rw [(hsame steps (by omega)).2]
          exact List.mem_cons_of_mem _ (hfired steps (by omega))

theorem outcome_runDue (steps now : Nat) (m : Machine) :
    (runDue (steps + 1) now m).outcome
      = (fire steps (m.scheduler.takeReady now).1 (m.park (m.scheduler.takeReady now).2)).outcome := by
  simp only [runDue, apart]

/-- A service comes to its end, or to a body that has none. -/
theorem runDue_ends_or_hangs (now : Nat) (m : Machine) :
    ∃ enough, (runDue enough now m).outcome ≠ .unfinished ∨
      ∃ f : Firing, f.Hangs ∧ ∀ steps, enough ≤ steps → f ∈ (runDue steps now m).firings := by
  obtain ⟨enough, hends⟩ :=
    @fire_ends_or_hangs (m.scheduler.takeReady now).1 (m.park (m.scheduler.takeReady now).2) rfl
  refine ⟨enough + 1, ?_⟩
  rcases hends with hends | ⟨f, hhangs, hfired⟩
  · left
    rw [outcome_runDue]
    exact hends
  · right
    refine ⟨f, hhangs, fun steps hle => ?_⟩
    obtain ⟨steps, rfl⟩ := Nat.exists_eq_add_of_le' (Nat.le_trans (Nat.le_add_left 1 enough) hle)
    rw [firings_runDue]
    exact hfired steps (Nat.le_of_succ_le_succ hle)

/-- A round of harmless tasks comes to its end. -/
theorem round_settles {m : Machine} {moment : Nat} {least : Nat}
    (hharmless : ∀ steps, least ≤ steps → ∀ f ∈ (round steps moment m).firings, f.Harmless) :
    ∃ enough, (round enough moment m).outcome ≠ .unfinished ∧
      ∀ steps, enough ≤ steps → round steps moment m = round enough moment m := by
  obtain ⟨enough, hends | ⟨f, hhangs, hfired⟩⟩ := runDue_ends_or_hangs (m.awake moment).clock (m.awake moment)
  · exact ⟨enough, hends, fun steps hle => eq_of_le (fun steps => (steady steps).runDue _) hle hends⟩
  · obtain ⟨steps, m', hdone, -⟩ :=
      hharmless _ (Nat.le_max_left least enough) f (hfired _ (Nat.le_max_right least enough))
    have hnever := hhangs steps
    rw [hdone] at hnever
    cases hnever

end Watched

/-- A run that has nothing to do up to a moment. -/
theorem advanced_of_idle {bound : Nat} {m : Machine} (hwell : WellTimed m.clock m.scheduler.tasks)
    (hidle : ∀ moment, m.scheduler.nextWakeup = some moment → bound < moment) {steps : Nat} (hsteps : 1 ≤ steps) :
    (Watched.runTimers steps m).outcome ≠ .unfinished ∨
      Advanced bound m.scheduler.tasks ((Watched.runTimers steps m).firings.map Firing.entry) := by
  cases hnext : m.scheduler.nextWakeup with
  | none =>
    obtain ⟨steps, rfl⟩ := Nat.exists_eq_add_of_le' hsteps
    refine .inl ?_
    rw [(Watched.runTimers_nothing steps hnext).1]
    exact nofun
  | some moment =>
    have hne : m.scheduler.tasks ≠ [] := by
      intro hnil
      rw [Scheduler.nextWakeup, hnil] at hnext
      cases hnext
    exact .inr (Advanced.of_lt (split_takeReady hwell hnext) hne (hidle moment hnext) _)

/-- **A run of turns gets as far as one likes**, unless it ends.  The induction is on
the time that is left; with each round the clock has moved on. -/
theorem advanced_runTimers (bound time : Nat) {m : Machine} (hwell : WellTimed m.clock m.scheduler.tasks)
    (htime : ∀ t ∈ m.scheduler.tasks, bound < t.nextRun + time) {least : Nat}
    (hharmless : ∀ steps, least ≤ steps → ∀ f ∈ (Watched.runTimers steps m).firings, f.Harmless) :
    ∃ enough, ∀ steps, enough ≤ steps → (Watched.runTimers steps m).outcome ≠ .unfinished ∨
      Advanced bound m.scheduler.tasks ((Watched.runTimers steps m).firings.map Firing.entry) := by
  have hmoment {m : Machine} {time moment : Nat} (htime : ∀ t ∈ m.scheduler.tasks, bound < t.nextRun + time)
      (hnext : m.scheduler.nextWakeup = some moment) : bound < moment + time := by
    obtain ⟨t, ht, rfl⟩ := List.mem_map.mp (List.min?_eq_some_iff.mp hnext).1
    exact htime t ht
  induction time generalizing m least with
  | zero => exact ⟨1, fun steps hle => advanced_of_idle hwell (fun moment hnext => hmoment htime hnext) hle⟩
  | succ time ih =>
    by_cases hidle : ∀ moment, m.scheduler.nextWakeup = some moment → bound < moment
    · exact ⟨1, fun steps hle => advanced_of_idle hwell hidle hle⟩
    · obtain ⟨moment, hnext, -⟩ : ∃ moment, m.scheduler.nextWakeup = some moment ∧ ¬ bound < moment := by
        simpa only [not_forall, exists_prop] using hidle
      have hsplit := split_takeReady hwell hnext
      have hround : ∀ steps, least ≤ steps → ∀ f ∈ (Watched.round steps moment m).firings, f.Harmless := by
        intro steps hle f hf
        refine hharmless (steps + 1) (Nat.le_succ_of_le hle) f ?_
        cases hended : roundEnd (Watched.round steps moment m).outcome with
        | none =>
          rw [(Watched.runTimers_goesOn hnext hended).2.2]
          exact List.mem_append_left _ hf
        | some ended => rwa [(Watched.runTimers_ends hnext hended).2.2]
      obtain ⟨settled, hends, hsame⟩ := Watched.round_settles hround
      cases hended : roundEnd (Watched.round settled moment m).outcome with
      | some ended =>
        refine ⟨settled + 1, fun steps hle => .inl ?_⟩
        obtain ⟨steps, rfl⟩ := Nat.exists_eq_add_of_le' (Nat.le_trans (Nat.le_add_left 1 settled) hle)
        rw [← hsame steps (Nat.le_of_succ_le_succ hle)] at hended hends
        rw [(Watched.runTimers_ends hnext hended).1]
        rintro rfl
        exact hends (eq_unfinished_of_roundEnd hended)
      | none =>
        have hrounds : ∀ f ∈ (Watched.round settled moment m).firings, f.Harmless := by
          rw [← hsame _ (Nat.le_max_right least settled)]
          exact hround _ (Nat.le_max_left least settled)
        obtain ⟨hentries, hpass, hclock, htasks⟩ := round_goesOn hwell hnext hrounds hended
        -- with enough steps the turns after this round begin with the same machine
        have hrest {steps : Nat} (hle : settled ≤ steps) := by
          have hgoesOn := @Watched.runTimers_goesOn steps m moment hnext
          rw [hsame steps hle] at hgoesOn
          exact hgoesOn hended
        generalize (Watched.round settled moment m).machine = m' at hrest hclock htasks
        have hwell' : WellTimed m'.clock m'.scheduler.tasks := by
          rw [htasks, hclock]
          exact hsplit.wellTimed hwell
        have htime' : ∀ t ∈ m'.scheduler.tasks, bound < t.nextRun + time := by
          intro t ht
          rw [htasks] at ht
          have hlater := hsplit.lt_of_mem_onward hwell ht
          have hleft := hmoment htime hnext
          omega
        obtain ⟨enough, henough⟩ := @ih m' hwell' htime' (max least settled) fun steps hle f hf => by
          refine hharmless (steps + 1) (by omega) f ?_
          rw [(hrest (Nat.le_trans (Nat.le_max_right _ _) hle)).2.2]
          exact List.mem_append_right _ hf
        refine ⟨max settled enough + 1, fun steps hle => ?_⟩
        obtain ⟨steps, rfl⟩ := Nat.exists_eq_add_of_le' (Nat.le_trans (Nat.le_add_left 1 _) hle)
        obtain ⟨houtcome, -, hfirings⟩ := @hrest steps (by omega)
        rw [houtcome, hfirings, List.map_append, hentries]
        refine (henough steps (by omega)).imp_right fun hadvanced => ?_
        rw [htasks] at hadvanced
        exact hadvanced.follow hsplit hwell hpass

/-! ### The timetable -/

/-- A run of turns gets beyond any moment, unless it ends. -/
theorem ends_or_advanced {m : Machine} (hwell : WellTimed m.clock m.scheduler.tasks)
    (hharmless : ∀ steps, ∀ f ∈ (Watched.runTimers steps m).firings, f.Harmless) (bound : Nat) :
    ∃ enough, ∀ steps, enough ≤ steps → (Watched.runTimers steps m).outcome ≠ .unfinished ∨
      Advanced bound m.scheduler.tasks ((Watched.runTimers steps m).firings.map Firing.entry) :=
  @advanced_runTimers bound (bound + 1) m hwell (fun t _ => by omega) 0 fun steps _ => hharmless steps

/-- **The timers realise the timetable.**  Let tasks with distinct numbers be armed,
none of them overdue and each repeating one with a positive interval, and let no
firing of them fail, arm anything or move the clock.  Then the firings of the run that
serves the timers, each with what the clock shows and the number of its task, are the
entries of the timetable in lexicographic order:
* however far the run has come, they are the first entries without a gap, cut off
  after the first last run of a counted task, which halts the run, and after an entry
  whose successor the clock cannot hold;
* every entry is fired sooner or later, if nothing before it stops the run;
* a last run of a counted task does halt the run, unless the clock is outgrown before;
* if all tasks fire only once the run is completed, everything has been fired and
  nothing is armed. -/
theorem timers_realise_timetable (m : Machine) (hwell : WellTimed m.clock m.scheduler.tasks)
    (hharmless : ∀ steps, ∀ f ∈ (Watched.runTimers steps m).firings, f.Harmless) :
    let tasks := m.scheduler.tasks
    let entries (steps : Nat) : List (Nat × Nat) := (Watched.runTimers steps m).firings.map Firing.entry
    let run (steps : Nat) : Outcome RunEnd × Machine := Action.runProgram steps [] m
    (∀ steps, Realises tasks (entries steps) (run steps).1 (run steps).2.scheduler.tasks) ∧
    (∀ p, Plans tasks p → (∀ q, Earlier q p → ¬ Ends tasks q ∧ ¬ Outgrows tasks q) →
      ∃ enough, ∀ steps, enough ≤ steps → p ∈ entries steps) ∧
    (∀ p, Ends tasks p → (∀ q, Earlier q p → ¬ Outgrows tasks q) →
      ∃ enough, ∀ steps, enough ≤ steps → (run steps).1 = .done .halted) ∧
    ((∀ t ∈ tasks, ∃ moment, t.trigger = .once moment) →
      ∃ enough, ∀ steps, enough ≤ steps → (run steps).1 = .done .completed ∧
        (run steps).2.scheduler.tasks = [] ∧ ∀ p, Plans tasks p → p ∈ entries steps) := by
  intro tasks entries run
  have hrun (steps : Nat) :
      run steps = ((Watched.runTimers steps m).outcome, (Watched.runTimers steps m).machine) :=
    (congrFun (Watched.plain_runTimers steps) m).symm
  have hrealises (steps : Nat) :
      Realises tasks (entries steps) (run steps).1 (run steps).2.scheduler.tasks := by
    rw [hrun]
    exact realises_runTimers steps hwell (hharmless steps)
  have hprogress (bound : Nat) : ∃ enough, ∀ steps, enough ≤ steps →
      (run steps).1 ≠ .unfinished ∨ Advanced bound tasks (entries steps) := by
    obtain ⟨enough, henough⟩ := ends_or_advanced hwell hharmless bound
    refine ⟨enough, fun steps hle => ?_⟩
    rw [hrun]
    exact henough steps hle
  refine ⟨hrealises, fun p hp hfirst => ?_, fun p hp hfirst => ?_, fun honce => ?_⟩
  · obtain ⟨enough, henough⟩ := hprogress p.1
    refine ⟨enough, fun steps hle => ?_⟩
    rcases henough steps hle with hended | hadvanced
    · exact (hrealises steps).mem_of_ended hended hp hfirst
    · exact (hadvanced.2 p hp (Nat.le_refl _)).1
  · obtain ⟨enough, henough⟩ := hprogress p.1
    refine ⟨enough, fun steps hle => ?_⟩
    rcases henough steps hle with hended | hadvanced
    · exact (hrealises steps).halted_of_ends hended hp hfirst
    · obtain ⟨t, ht, hends⟩ := hp
      exact absurd ⟨t, ht, hends⟩ (hadvanced.2 p ⟨t, ht, hends.plans⟩ (Nat.le_refl _)).2.1
  · -- no entry is later than the latest of the moments
    obtain ⟨enough, henough⟩ := hprogress ((tasks.map Task.nextRun).max?.getD 0)
    refine ⟨enough, fun steps hle => ?_⟩
    have hended : (run steps).1 ≠ .unfinished := by
      refine (henough steps hle).resolve_right ?_
      rintro ⟨⟨p, ⟨t, ht, hp⟩, hlt⟩, -⟩
      obtain ⟨moment, hmoment⟩ := honce t ht
      simp only [Task.Plans, hmoment] at hp
      rw [hp] at hlt
      exact Nat.not_le_of_lt hlt (List.le_max?_getD_of_mem (List.mem_map_of_mem ht))
    have hcompleted := (hrealises steps).completed_of_once hended honce
    obtain ⟨hall, hleft⟩ := (hrealises steps).completed hcompleted
    exact ⟨hcompleted, hleft, hall⟩

/-- A task that repeats forever and a counted one that ends the run, both due at the
same moment then. -/
theorem ticking_until_counted_run :
    let action : Stmt := .expression (.literal (.int 1))
    let m : Machine := { scheduler := ⟨[⟨1, action, .every 2, 2, none⟩, ⟨2, action, .every 4, 4, some 1⟩], 3⟩ }
    WellTimed m.clock m.scheduler.tasks ∧
    (∀ steps, ∀ f ∈ (Watched.runTimers steps m).firings, f.Harmless) ∧
    ∃ enough, ∀ steps, enough ≤ steps → (Action.runProgram steps [] m).1 = .done .halted ∧
      (4, 1) ∈ (Watched.runTimers steps m).firings.map Firing.entry := by
  intro action m
  have hwell : WellTimed m.clock m.scheduler.tasks := by
    refine ⟨by decide, ?_, by decide⟩
    simp [m]
  have hharmless (steps : Nat) := harmless_runTimers steps hwell (by simp [m, action, harmless_literal])
  have hhorizon : 8 < clockHorizon := by decide
  have hgrown : ∀ q, Earlier q (4, 2) → ¬ Outgrows m.scheduler.tasks q := by
    rintro q hq ⟨t, ht, interval, k, htrigger, rfl, hover, -⟩
    simp only [m, List.mem_cons, List.not_mem_nil, or_false] at ht
    rcases ht with rfl | rfl
    · cases htrigger
      simp only [Earlier] at hq hover
      omega
    · cases htrigger
      simp only [Earlier] at hq hover
      omega
  have hends : ∀ q, Earlier q (4, 1) → ¬ Ends m.scheduler.tasks q := by
    rintro q hq ⟨t, ht, interval, n, htrigger, hn, rfl⟩
    simp only [m, List.mem_cons, List.not_mem_nil, or_false] at ht
    rcases ht with rfl | rfl
    · cases hn
    · cases hn
      simp [Earlier] at hq
  obtain ⟨-, hfired, hhalted, -⟩ := timers_realise_timetable m hwell hharmless
  obtain ⟨enough, henough⟩ := hfired (4, 1) ⟨_, List.mem_cons_self, 1, rfl⟩ fun q hq =>
    ⟨hends q hq, hgrown q (by unfold Earlier at *; omega)⟩
  obtain ⟨enough', henough'⟩ := hhalted (4, 2) ⟨_, List.mem_cons_of_mem _ List.mem_cons_self, 4, 1, rfl, rfl, rfl⟩
    hgrown
  exact ⟨hwell, hharmless, max enough enough', fun steps hle => ⟨henough' steps (by omega), henough steps (by omega)⟩⟩

end SealedScript

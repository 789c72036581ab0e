/-
SealedScript/Proofs/Machine/Firing.lean

What happens when due tasks are fired.  The body of a task keeps to itself: it
fires no other task, and of the armed tasks it touches none, it can only arm
more.  So a batch of tasks is known from how the bodies end: each one is dropped,
armed again, done with, or the end of the run.

Main results: `law_keepsToItself`, and `batch_fire`, by which every run of the due
tasks is a `Batch`.
-/
import SealedScript.Proofs.Machine.Balance

namespace SealedScript

/-! ### Bodies of tasks -/

/-- A run that begins in a task stays in it, touches no armed task and fires none. -/
def KeepsToItself (m : Machine) (_ending : Ending) (t : List Moment) (m' : Machine) : Prop :=
  m.inTask = true →
    m'.inTask = true ∧ m.scheduler.Grows m'.scheduler ∧ ∀ k ∈ t, k.event.task? = none

theorem law_keepsToItself : BodyLaw KeepsToItself where
  still _ hin := ⟨hin, .same, fun _ hk => absurd hk List.not_mem_nil⟩
  step h hin := by
    refine ⟨h.single.sameCalls.2.2.trans hin, h.grows, fun k hk => ?_⟩
    rw [List.mem_singleton.mp hk]
    exact h.firesNone
  follow h h' hin := by
    obtain ⟨hin, hgrows, hnone⟩ := h hin
    obtain ⟨hin', hgrows', hnone'⟩ := h' hin
    exact ⟨hin', hgrows.trans hgrows', List.forall_mem_append.mpr ⟨hnone, hnone'⟩⟩
  call _ h hin := by
    obtain ⟨hin', hgrows, hnone⟩ := h hin
    refine ⟨hin', hgrows, fun k hk => ?_⟩
    simp only [List.cons_append, List.mem_cons, List.mem_append, List.not_mem_nil, or_false] at hk
    rcases hk with rfl | hk | rfl
    · rfl
    · exact hnone k hk
    · rfl

/-- While a task runs no other one is served. -/
theorem serveTasks_keepsToItself (steps : Nat) : Obeys KeepsToItself (Watched.serveTasks steps) := by
  intro m hin
  cases steps with
  | zero => exact ⟨hin, .same, fun _ hk => absurd hk List.not_mem_nil⟩
  | succ steps =>
    rw [Watched.serveTasks_none_due (Action.dueMoment_inTask hin)]
    refine ⟨hin, .same, fun k hk => ?_⟩
    rw [List.mem_singleton.mp hk]
    rfl

theorem readLine_keepsToItself (prompt : String) : Obeys KeepsToItself (Watched.readLine prompt) :=
  fun _ hin => ⟨hin, .same, List.forall_mem_singleton.mpr rfl⟩

/-- What the body of a task can do to the timers. -/
theorem runTopLevel_keepsToItself (steps : Nat) (stmt : Stmt) :
    Obeys KeepsToItself (Watched.runTopLevel steps stmt) :=
  (law_keepsToItself.obeyed serveTasks_keepsToItself
    (law_keepsToItself.awaitLine readLine_keepsToItself serveTasks_keepsToItself) steps).runTopLevel stmt

/-- What a body leaves of the timers, without its record. -/
theorem grows_of_runTopLevel {steps : Nat} {stmt : Stmt} {outcome : Outcome Unit} {m m' : Machine}
    (hrun : Action.runTopLevel steps stmt m = (outcome, m')) (hin : m.inTask = true) :
    m'.inTask = true ∧ m.scheduler.Grows m'.scheduler := by
  obtain ⟨hin', hgrows, -⟩ := runTopLevel_keepsToItself steps stmt m hin
  rw [← (Watched.agreement steps).runTopLevel] at hrun
  obtain ⟨-, rfl⟩ := Prod.mk.inj hrun
  exact ⟨hin', hgrows⟩

/-- A body that is a mere literal does nothing, if it gets the few steps it takes. -/
theorem runTopLevel_literal (steps : Nat) (value : Literal) {m : Machine} (hin : m.inTask = true) :
    Action.runTopLevel steps (.expression (.literal value)) m
      = (if steps < 3 then .unfinished else .done (), m) := by
  match steps with
  | 0 | 1 | 2 => rfl
  | steps + 3 =>
    have hserve : Action.serveTasks (steps + 1) m = (.done (), m) :=
      Action.serveTasks_none_due (Action.dueMoment_inTask hin) steps
    show Action.bind (Action.bind (Action.serveTasks (steps + 1)) _) _ m = _
    simp only [Action.bind, hserve, if_neg (Nat.not_lt_of_le (Nat.le_add_left 3 steps))]
    rfl

/-! ### Firings -/

/-- A task that is fired, and the machine that fires it. -/
structure Firing where
  task : Task
  machine : Machine

/-- What a moment fires. -/
def Moment.firing? (k : Moment) : Option Firing := k.event.task?.map fun task => ⟨task, k.machine⟩

/-- The firings of a run in order. -/
def Visit.firings {α : Type} (v : Visit α) : List Firing := v.moments.filterMap Moment.firing?

theorem filterMap_firing?_eq_nil {t : List Moment} (h : ∀ k ∈ t, k.event.task? = none) :
    t.filterMap Moment.firing? = [] := by
  refine List.filterMap_eq_nil_iff.mpr fun k hk => ?_
  simp only [Moment.firing?, h k hk, Option.map_none]

/-- How a batch of tasks goes: the tasks, the machine before them, what is fired,
how the batch ends, and the machine after it. -/
inductive Batch : List Task → Machine → List Firing → Outcome (Option Nat) → Machine → Prop
  | finished (m : Machine) : Batch [] m [] (.done none) m
  | cutOff (tasks : List Task) (m : Machine) : Batch tasks m [] .unfinished m
  | brokenOff {task : Task} {rest : List Task} {m m₁ : Machine} {steps : Nat} :
      Action.runTopLevel steps task.action m = (.unfinished, m₁) →
      Batch (task :: rest) m [⟨task, m⟩] .unfinished m₁
  | overflowed {task : Task} {rest : List Task} {m m₁ : Machine} {steps : Nat} :
      Action.runTopLevel steps task.action m = (.clockOverflow, m₁) →
      Batch (task :: rest) m [⟨task, m⟩] .clockOverflow m₁
  | dropped {task : Task} {rest : List Task} {m m₁ m₂ : Machine} {steps : Nat} {e : RuntimeError}
      {firings : List Firing} {outcome : Outcome (Option Nat)} :
      Action.runTopLevel steps task.action m = (.failed e, m₁) →
      Batch rest (m₁.notice (.taskFailed task.id e)) firings outcome m₂ →
      Batch (task :: rest) m (⟨task, m⟩ :: firings) outcome m₂
  | armedAgain {task again : Task} {rest : List Task} {m m₁ m₂ : Machine} {steps : Nat}
      {firings : List Firing} {outcome : Outcome (Option Nat)} :
      Action.runTopLevel steps task.action m = (.done (), m₁) → task.tick = (true, again) →
      again.nextRun < clockHorizon →
      Batch rest { m₁ with scheduler := m₁.scheduler.putBack again } firings outcome m₂ →
      Batch (task :: rest) m (⟨task, m⟩ :: firings) outcome m₂
  | outOfReach {task again : Task} {rest : List Task} {m m₁ : Machine} {steps : Nat} :
      Action.runTopLevel steps task.action m = (.done (), m₁) → task.tick = (true, again) →
      ¬ again.nextRun < clockHorizon →
      Batch (task :: rest) m [⟨task, m⟩] .clockOverflow m₁
  | ended {task last : Task} {rest : List Task} {m m₁ m₂ : Machine} {steps : Nat}
      {firings : List Firing} {outcome : Outcome (Option Nat)} :
      Action.runTopLevel steps task.action m = (.done (), m₁) → task.tick = (false, last) →
      last.halts = false → Batch rest m₁ firings outcome m₂ →
      Batch (task :: rest) m (⟨task, m⟩ :: firings) outcome m₂
  | halted {task last : Task} {rest : List Task} {m m₁ : Machine} {steps : Nat} :
      Action.runTopLevel steps task.action m = (.done (), m₁) → task.tick = (false, last) →
      last.halts = true →
      Batch (task :: rest) m [⟨task, m⟩] (.done (some task.id))
        { m₁ with scheduler := rest.foldl Scheduler.putBack m₁.scheduler }

/-- A visit with moments in front of it. -/
def Visit.behind {α : Type} (v : Visit α) (t : List Moment) : Visit α := { v with moments := t ++ v.moments }

theorem Visit.firings_behind {α : Type} (v : Visit α) {t : List Moment} (h : ∀ k ∈ t, k.event.task? = none) :
    (v.behind t).firings = v.firings := by
  simp only [firings, behind, List.filterMap_append, filterMap_firing?_eq_nil h, List.nil_append]

theorem Visit.firings_behind_fired {α : Type} (v : Visit α) {t : List Moment} (task : Task) (m : Machine)
    (h : ∀ k ∈ t, k.event.task? = none) :
    (v.behind (⟨.fired task, m⟩ :: t)).firings = ⟨task, m⟩ :: v.firings := by
  have hfirings : (v.behind (⟨.fired task, m⟩ :: t)).firings = ⟨task, m⟩ :: (v.behind t).firings := rfl
  rw [hfirings, v.firings_behind h]

namespace Watched

/-- A single step and what comes after it. -/
theorem act_bind {α β : Type} {event : Event} {x : Action α} {f : α → Watched β} {m m' : Machine} {a : α}
    (h : x m = (.done a, m')) : (act event x >>= f) m = (f a m').behind [⟨event, m'⟩] := by
  have hdone : (act event x m).outcome = .done a := congrArg Prod.fst h
  have hmachine : (act event x m).machine = m' := congrArg Prod.snd h
  show attempt (act event x) _ f m = _
  rw [attempt_done hdone, hmachine]
  simp only [Visit.behind, act, h]

/-- What comes after the body of a task has ended well. -/
def afterSuccess (steps : Nat) (task : Task) (rest : List Task) : Watched (Option Nat) :=
  match task.tick with
  | (true, again) => do
    rearm again
    fire steps rest
  | (false, ended) => if ended.halts then rearmAll rest task.id else fire steps rest

/-- What comes after the body of a task has failed. -/
def afterFailure (steps : Nat) (task : Task) (e : RuntimeError) (rest : List Task) : Watched (Option Nat) := do
  act .step (.changes (·.notice (.taskFailed task.id e)))
  fire steps rest

theorem afterFailure_apply (steps : Nat) (task : Task) (e : RuntimeError) (rest : List Task) (m : Machine) :
    afterFailure steps task e rest m
      = (fire steps rest (m.notice (.taskFailed task.id e))).behind
          [⟨.step, m.notice (.taskFailed task.id e)⟩] :=
  act_bind rfl

section

variable {task after : Task}

theorem afterSuccess_again (steps : Nat) (rest : List Task) (m : Machine) (htick : task.tick = (true, after))
    (hfits : after.nextRun < clockHorizon) :
    afterSuccess steps task rest m
      = (fire steps rest { m with scheduler := m.scheduler.putBack after }).behind
          [⟨.step, { m with scheduler := m.scheduler.putBack after }⟩] := by
  unfold afterSuccess
  rw [htick]
  exact act_bind (if_pos hfits)

theorem afterSuccess_outOfReach (steps : Nat) (rest : List Task) (m : Machine)
    (htick : task.tick = (true, after)) (hfits : ¬ after.nextRun < clockHorizon) :
    afterSuccess steps task rest m = ⟨.clockOverflow, m, [⟨.step, m⟩]⟩ := by
  have hrearm : rearm after m = ⟨.clockOverflow, m, [⟨.step, m⟩]⟩ := by
    simp only [rearm, act, if_neg hfits]
  unfold afterSuccess
  rw [htick]
  show attempt (rearm after) _ _ m = _
  rw [attempt_clockOverflow (by rw [hrearm]), hrearm]

theorem afterSuccess_halts (steps : Nat) (rest : List Task) (m : Machine) (htick : task.tick = (false, after))
    (hhalts : after.halts = true) :
    afterSuccess steps task rest m
      = ⟨.done (some task.id), { m with scheduler := rest.foldl Scheduler.putBack m.scheduler },
          [⟨.step, { m with scheduler := rest.foldl Scheduler.putBack m.scheduler }⟩]⟩ := by
  unfold afterSuccess
  rw [htick]
  simp only [hhalts, if_true]
  rfl

theorem afterSuccess_ends (steps : Nat) (rest : List Task) (htick : task.tick = (false, after))
    (hhalts : after.halts = false) : afterSuccess steps task rest = fire steps rest := by
  unfold afterSuccess
  rw [htick]
  simp only [hhalts, Bool.false_eq_true, if_false]

end

/-- One task of a batch: its firing, the moments of its body, and what comes then. -/
theorem fire_cons (steps : Nat) (task : Task) (rest : List Task) (m : Machine) :
    fire (steps + 1) (task :: rest) m =
      (match (runTopLevel steps task.action m).outcome with
        | .done () => afterSuccess steps task rest (runTopLevel steps task.action m).machine
        | .failed e => afterFailure steps task e rest (runTopLevel steps task.action m).machine
        | .clockOverflow => ⟨.clockOverflow, (runTopLevel steps task.action m).machine, []⟩
        | .unfinished => ⟨.unfinished, (runTopLevel steps task.action m).machine, []⟩).behind
      (⟨.fired task, m⟩ :: (runTopLevel steps task.action m).moments) := by
  have hfire : fire (steps + 1) (task :: rest) m
      = attempt (act (.fired task) (.pure ())) (fun e => stop (.failed e))
          (fun _ => attempt (runTopLevel steps task.action) (fun e => afterFailure steps task e rest)
            (fun _ => afterSuccess steps task rest)) m := by
    simp only [fire, afterSuccess]
    rfl
  rw [hfire, attempt_done (a := ()) rfl]
  simp only [act, Action.pure]
  rcases h : (runTopLevel steps task.action m).outcome with u | e | - | -
  · rw [attempt_done h]
    rfl
  · rw [attempt_failed h]
    rfl
  · rw [attempt_clockOverflow h]
    simp only [Visit.behind, List.append_nil]
    rfl
  · rw [attempt_unfinished h]
    simp only [Visit.behind, List.append_nil]
    rfl

end Watched

/-- A visit that is one of a batch of tasks. -/
def IsBatch (tasks : List Task) (m : Machine) (v : Visit (Option Nat)) : Prop :=
  Batch tasks m v.firings v.outcome v.machine

/-- A moment in front that fires nothing makes no difference. -/
theorem IsBatch.behind {tasks : List Task} {m : Machine} {v : Visit (Option Nat)} (h : IsBatch tasks m v)
    {t : List Moment} (ht : ∀ k ∈ t, k.event.task? = none) : IsBatch tasks m (v.behind t) := by
  unfold IsBatch
  rw [v.firings_behind ht]
  exact h

/-- **Every run of due tasks is a batch.**  The induction is on the steps, and the
tasks that are left; that a task is running is what keeps the record of its body
free of firings. -/
theorem batch_fire (steps : Nat) (tasks : List Task) {m : Machine} (hin : m.inTask = true) :
    IsBatch tasks m (Watched.fire steps tasks m) := by
  induction steps generalizing tasks m with
  | zero => exact .cutOff tasks m
  | succ steps ih =>
    cases tasks with
    | nil => exact .finished m
    | cons task rest =>
      obtain ⟨hin₁, _, hnone⟩ := runTopLevel_keepsToItself steps task.action m hin
      have hrun : Action.runTopLevel steps task.action m
          = ((Watched.runTopLevel steps task.action m).outcome,
              (Watched.runTopLevel steps task.action m).machine) := by
        rw [← (Watched.agreement steps).runTopLevel]
        rfl
      rw [Watched.fire_cons]
      unfold IsBatch
      rw [Visit.firings_behind_fired _ _ _ hnone]
      rcases hbody : Watched.runTopLevel steps task.action m with ⟨u | e | - | -, m₁, t⟩ <;>
        rw [hbody] at hin₁ hrun
      · -- the body has ended well, and the task says what comes then
        rcases htick : task.tick with ⟨goesOn | goesOn, after⟩
        · cases hhalts : after.halts with
          | true =>
            simp only [Watched.afterSuccess_halts steps rest m₁ htick hhalts]
            exact .halted hrun htick hhalts
          | false =>
            simp only [Watched.afterSuccess_ends steps rest htick hhalts]
            exact .ended hrun htick hhalts (ih rest hin₁)
        · by_cases hfits : after.nextRun < clockHorizon
          · simp only [Watched.afterSuccess_again steps rest m₁ htick hfits]
            have hrest := @ih rest { m₁ with scheduler := m₁.scheduler.putBack after } hin₁
            exact .armedAgain hrun htick hfits (hrest.behind (List.forall_mem_singleton.mpr rfl))
          · simp only [Watched.afterSuccess_outOfReach steps rest m₁ htick hfits]
            exact .outOfReach hrun htick hfits
      · -- the task is dropped, and its failure reported
        simp only [Watched.afterFailure_apply]
        have hrest := @ih rest (m₁.notice (.taskFailed task.id e)) hin₁
        exact .dropped hrun (hrest.behind (List.forall_mem_singleton.mpr rfl))
      · exact .overflowed hrun
      · exact .brokenOff hrun

/-- Nothing but the batch fires anything. -/
theorem Watched.firings_runDue (steps moment : Nat) (m : Machine) :
    (runDue (steps + 1) moment m).firings
      = (fire steps (m.scheduler.takeReady moment).1 (m.park (m.scheduler.takeReady moment).2)).firings := by
  simp only [Visit.firings, runDue, apart, List.cons_append, List.filterMap_cons, List.filterMap_append]
  exact List.append_nil _

/-- Serving the due tasks is a batch in the global scope, after which the calls are
put back. -/
theorem batch_runDue (steps moment : Nat) (m : Machine) :
    ∃ m', Batch (m.scheduler.takeReady moment).1 (m.park (m.scheduler.takeReady moment).2)
        (Watched.runDue (steps + 1) moment m).firings (Watched.runDue (steps + 1) moment m).outcome m' ∧
      (Watched.runDue (steps + 1) moment m).machine = m'.resume m := by
  have hbatch : IsBatch (m.scheduler.takeReady moment).1 (m.park (m.scheduler.takeReady moment).2) _ :=
    batch_fire steps (m.scheduler.takeReady moment).1 rfl
  refine ⟨_, ?_, rfl⟩
  rw [Watched.firings_runDue]
  exact hbatch

end SealedScript

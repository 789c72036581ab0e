/-
SealedScript/Proofs/Machine/Accounting.lean

Serving the due tasks accounts for every task.  The due tasks are out of the
scheduler while their bodies run, and the bodies arm tasks of their own; so what is
armed afterwards comes from four places: what was not due, what the bodies have
armed, the fired tasks that go on, and what was left when the run was ended.

Each firing has an `Account`, which is settled by how the body ends and by what kind
of task it is.  The accounts of a batch, one after another, are all there is.

Main result: `service_accounts_for_every_task`.
-/
import SealedScript.Proofs.Machine.CountedTask
import SealedScript.Proofs.Machine.ServiceLoop

namespace SealedScript

/-! ### What bodies arm -/

/-- Tasks have been armed behind the others, under the numbers that come next. -/
structure Scheduler.Arms (s s' : Scheduler) (armed : List Task) : Prop where
  tasks : s'.tasks = s.tasks ++ armed
  nextId : s'.nextId = s.nextId + armed.length
  numbers : armed.map Task.id = List.range' s.nextId armed.length

theorem Scheduler.Grows.arms {s s' : Scheduler} (h : s.Grows s') : ∃ armed, s.Arms s' armed := by
  induction h with
  | same => exact ⟨[], (List.append_nil _).symm, rfl, rfl⟩
  | @add s' action trigger nextRun runsLeft _ ih =>
    obtain ⟨armed, htasks, hnext, hnumbers⟩ := ih
    refine ⟨armed ++ [⟨s'.nextId, action, trigger, nextRun, runsLeft⟩], ?_, ?_, ?_⟩
    · rw [← List.append_assoc, ← htasks]
      rfl
    · rw [List.length_append, ← Nat.add_assoc, ← hnext]
      rfl
    · rw [List.map_append, hnumbers, List.length_append, List.length_singleton, List.range'_concat, Nat.one_mul,
        ← hnext]
      rfl

namespace Firing

/-- The body of the task that is fired ends in this way, and has armed these tasks. -/
def Runs (f : Firing) (outcome : Outcome Unit) (armed : List Task) : Prop :=
  ∃ steps m', Action.runTopLevel steps f.task.action f.machine = (outcome, m') ∧
    f.machine.scheduler.Arms m'.scheduler armed

/-- The clock cannot hold what the firing asks for: a moment for which the body arms a
task, or the next run of the task itself. -/
def OutrunsClock (f : Firing) : Prop :=
  (∃ steps m', Action.runTopLevel steps f.task.action f.machine = (.clockOverflow, m')) ∨
    f.Succeeds ∧ ∃ again, f.task.tick = (true, again) ∧ clockHorizon ≤ again.nextRun

end Firing

/-! ### Accounts -/

/-- What a firing comes to: the tasks that its body has armed, the task that is armed
again, if it is, and whether the run ends with it. -/
structure Account where
  firing : Firing
  armed : List Task
  again : Option Task
  halts : Bool

namespace Account

/-- The task that was fired. -/
def task (a : Account) : Task := a.firing.task

/-- What is armed by the firing and after it. -/
def left (a : Account) : List Task := a.armed ++ a.again.toList

/-- An account is settled:
* a task whose body fails is gone, and so is one that fires once;
* a repeating task is armed again, an interval later and with one run less if its runs
  are counted;
* the last run of a counted task ends the run. -/
inductive Settled : Account → Prop
  | failed {f : Firing} {e : RuntimeError} {armed : List Task} :
      f.Runs (.failed e) armed → Settled ⟨f, armed, none, false⟩
  | once {f : Firing} {moment : Nat} {armed : List Task} :
      f.Runs (.done ()) armed → f.task.trigger = .once moment → Settled ⟨f, armed, none, false⟩
  | forever {f : Firing} {interval : Nat} {armed : List Task} :
      f.Runs (.done ()) armed → f.task.trigger = .every interval → f.task.runsLeft = none →
      Settled ⟨f, armed, some { f.task with nextRun := f.task.nextRun + interval }, false⟩
  | counted {f : Firing} {interval n : Nat} {armed : List Task} :
      f.Runs (.done ()) armed → f.task.trigger = .every interval → f.task.runsLeft = some n → 1 < n →
      Settled ⟨f, armed,
        some { f.task with runsLeft := some (n - 1), nextRun := f.task.nextRun + interval }, false⟩
  | last {f : Firing} {interval n : Nat} {armed : List Task} :
      f.Runs (.done ()) armed → f.task.trigger = .every interval → f.task.runsLeft = some n → n ≤ 1 →
      Settled ⟨f, armed, none, true⟩

/-- What a task says of its next run settles the account of a firing that went well. -/
theorem settled_of_tick {f : Firing} {armed : List Task} (hruns : f.Runs (.done ()) armed) :
    Settled ⟨f, armed, if f.task.tick.1 then some f.task.tick.2 else none,
      !f.task.tick.1 && f.task.tick.2.halts⟩ := by
  obtain ⟨⟨id, action, trigger, nextRun, runsLeft⟩, m⟩ := f
  cases trigger with
  | once moment =>
    simp only [Task.tick, Task.halts, Bool.false_eq_true, if_false, Bool.and_false]
    exact .once hruns rfl
  | every interval =>
    cases runsLeft with
    | none =>
      simp only [Task.tick, if_true, Bool.not_true, Bool.false_and]
      exact .forever hruns rfl rfl
    | some n =>
      by_cases hlast : n - 1 = 0
      · simp only [Task.tick, hlast, if_true, Bool.false_eq_true, if_false, Task.halts, Bool.not_false,
          Option.isSome_some, Bool.and_true]
        exact .last hruns rfl rfl (Nat.le_of_sub_eq_zero hlast)
      · simp only [Task.tick, hlast, if_false, if_true, Bool.not_true, Bool.false_and]
        exact .counted hruns rfl rfl (Nat.lt_of_sub_ne_zero hlast)

end Account

/-- How the end of a batch goes with its accounts, and with the tasks that it has not
fired: it was halted by the last of them, or all tasks have been fired. -/
def EndsWith (accounts : List Account) (unfired : List Task) : Option Nat → Prop
  | none => unfired = [] ∧ ∀ a ∈ accounts, a.halts = false
  | some id => ∃ front last, accounts = front ++ [last] ∧ (∀ a ∈ front, a.halts = false) ∧
      last.halts = true ∧ last.task.id = id

/-- A batch of tasks is accounted for: which tasks were fired and which were not, and
what is armed afterwards besides what was armed before. -/
structure Accounted (tasks : List Task) (s : Scheduler) (firings : List Firing) (ended : Option Nat)
    (s' : Scheduler) (accounts : List Account) (unfired : List Task) : Prop where
  tasks : tasks = accounts.map Account.task ++ unfired
  firings : firings = accounts.map Account.firing
  settled : ∀ a ∈ accounts, a.Settled
  ending : EndsWith accounts unfired ended
  left : s'.tasks = s.tasks ++ accounts.flatMap Account.left ++ unfired
  nextId : s'.nextId = s.nextId + (accounts.flatMap Account.armed).length
  numbers : (accounts.flatMap Account.armed).map Task.id
    = List.range' s.nextId (accounts.flatMap Account.armed).length

/-- One account more, in front of the others. -/
theorem Accounted.cons {tasks : List Task} {s s₀ s₁ s' : Scheduler} {firings : List Firing} {ended : Option Nat}
    {accounts : List Account} {unfired : List Task} {a : Account}
    (h : Accounted tasks s₁ firings ended s' accounts unfired) (hsettled : a.Settled) (hgoesOn : a.halts = false)
    (harms : s.Arms s₀ a.armed) (htasks : s₁.tasks = s₀.tasks ++ a.again.toList) (hnext : s₁.nextId = s₀.nextId) :
    Accounted (a.task :: tasks) s (a.firing :: firings) ended s' (a :: accounts) unfired := by
  refine ⟨?_, ?_, List.forall_mem_cons.mpr ⟨hsettled, h.settled⟩, ?_, ?_, ?_, ?_⟩
  · rw [h.tasks, List.map_cons, List.cons_append]
  · rw [h.firings, List.map_cons]
  · have hending := h.ending
    cases ended with
    | none => exact ⟨hending.1, List.forall_mem_cons.mpr ⟨hgoesOn, hending.2⟩⟩
    | some id =>
      obtain ⟨front, last, rfl, hfront, hlast⟩ := hending
      exact ⟨a :: front, last, rfl, List.forall_mem_cons.mpr ⟨hgoesOn, hfront⟩, hlast⟩
  · rw [h.left, htasks, harms.tasks, List.flatMap_cons, Account.left]
    simp only [List.append_assoc]
  · rw [h.nextId, hnext, harms.nextId, List.flatMap_cons, List.length_append, Nat.add_assoc]
  · have happend := @List.range'_append s.nextId a.armed.length (accounts.flatMap Account.armed).length 1
    rw [Nat.one_mul] at happend
    rw [List.flatMap_cons, List.map_append, harms.numbers, h.numbers, hnext, harms.nextId, happend,
      List.length_append]

theorem Scheduler.tasks_putBackAll (s : Scheduler) (tasks : List Task) :
    (tasks.foldl putBack s).tasks = s.tasks ++ tasks := by
  induction tasks generalizing s with
  | nil => exact (List.append_nil _).symm
  | cons t tasks ih =>
    rw [List.foldl_cons, ih, putBack, List.append_assoc, List.singleton_append]

/-! ### Batches -/

/-- What the body of a fired task has done to the timers. -/
theorem runs_of_runTopLevel {steps : Nat} {task : Task} {outcome : Outcome Unit} {m m' : Machine}
    (hrun : Action.runTopLevel steps task.action m = (outcome, m')) (hin : m.inTask = true) :
    m'.inTask = true ∧ ∃ armed, m.scheduler.Arms m'.scheduler armed ∧ (Firing.mk task m).Runs outcome armed := by
  obtain ⟨hin', hgrows⟩ := grows_of_runTopLevel hrun hin
  obtain ⟨armed, harms⟩ := hgrows.arms
  exact ⟨hin', armed, harms, steps, m', hrun, harms⟩

/-- **A batch that ends is accounted for.**  The induction is along the batch; each task
that is fired adds its account in front of those of the others. -/
theorem Batch.accounted {tasks : List Task} {m m' : Machine} {firings : List Firing} {outcome : Outcome (Option Nat)}
    (h : Batch tasks m firings outcome m') {ended : Option Nat} (hended : outcome = .done ended)
    (hin : m.inTask = true) :
    ∃ accounts unfired, Accounted tasks m.scheduler firings ended m'.scheduler accounts unfired := by
  induction h with
  | finished =>
    cases hended
    refine ⟨[], [], rfl, rfl, List.forall_mem_nil _, ⟨rfl, List.forall_mem_nil _⟩, ?_, rfl, rfl⟩
    simp only [List.flatMap_nil, List.append_nil]
  | cutOff | brokenOff | overflowed | outOfReach => cases hended
  | @dropped task rest m m₁ m₂ steps e firings outcome hrun _ ih =>
    obtain ⟨hin₁, armed, harms, hruns⟩ := runs_of_runTopLevel hrun hin
    obtain ⟨accounts, unfired, hrest⟩ := ih hended hin₁
    refine ⟨⟨⟨task, m⟩, armed, none, false⟩ :: accounts, unfired, ?_⟩
    exact hrest.cons (.failed hruns) rfl harms (List.append_nil _).symm rfl
  | @ended task last rest m m₁ m₂ steps firings outcome hrun htick hhalts _ ih =>
    obtain ⟨hin₁, armed, harms, hruns⟩ := runs_of_runTopLevel hrun hin
    obtain ⟨accounts, unfired, hrest⟩ := ih hended hin₁
    have hsettled := Account.settled_of_tick hruns
    simp only [htick, hhalts, Bool.false_eq_true, if_false, Bool.and_false] at hsettled
    refine ⟨⟨⟨task, m⟩, armed, none, false⟩ :: accounts, unfired, ?_⟩
    exact hrest.cons hsettled rfl harms (List.append_nil _).symm rfl
  | @armedAgain task again rest m m₁ m₂ steps firings outcome hrun htick _ _ ih =>
    obtain ⟨hin₁, armed, harms, hruns⟩ := runs_of_runTopLevel hrun hin
    obtain ⟨accounts, unfired, hrest⟩ := ih hended hin₁
    have hsettled := Account.settled_of_tick hruns
    simp only [htick, if_true, Bool.not_true, Bool.false_and] at hsettled
    refine ⟨⟨⟨task, m⟩, armed, some again, false⟩ :: accounts, unfired, ?_⟩
    exact hrest.cons hsettled rfl harms rfl rfl
  | @halted task last rest m m₁ steps hrun htick hhalts =>
    cases hended
    obtain ⟨-, armed, harms, hruns⟩ := runs_of_runTopLevel hrun hin
    have hsettled := Account.settled_of_tick hruns
    simp only [htick, hhalts, Bool.false_eq_true, if_false, Bool.not_false, Bool.and_true] at hsettled
    refine ⟨[⟨⟨task, m⟩, armed, none, true⟩], rest, rfl, rfl, List.forall_mem_singleton.mpr hsettled,
      ⟨[], _, rfl, List.forall_mem_nil _, rfl, rfl⟩, ?_, ?_, ?_⟩
    · rw [Scheduler.tasks_putBackAll, harms.tasks]
      simp only [List.flatMap_cons, List.flatMap_nil, List.append_nil, Account.left, Option.toList_none]
    · rw [Scheduler.nextId_putBackAll, harms.nextId]
      simp only [List.flatMap_cons, List.flatMap_nil, List.append_nil]
    · simp only [List.flatMap_cons, List.flatMap_nil, List.append_nil]
      exact harms.numbers

/-- However far a batch has come, it has fired the first of its tasks in their order. -/
theorem Batch.fired_in_order {tasks : List Task} {m m' : Machine} {firings : List Firing}
    {outcome : Outcome (Option Nat)} (h : Batch tasks m firings outcome m') :
    firings.map Firing.task <+: tasks := by
  induction h with
  | finished | cutOff => exact List.nil_prefix
  | brokenOff | overflowed | outOfReach | halted => exact ⟨_, rfl⟩
  | dropped _ _ ih | ended _ _ _ _ ih | armedAgain _ _ _ _ ih => exact List.cons_prefix_cons.mpr ⟨rfl, ih⟩

/-- A batch does not fail, and only a firing makes the clock overflow. -/
theorem Batch.ending {tasks : List Task} {m m' : Machine} {firings : List Firing} {outcome : Outcome (Option Nat)}
    (h : Batch tasks m firings outcome m') :
    (∀ e, outcome ≠ .failed e) ∧ (outcome = .clockOverflow → ∃ f ∈ firings, f.OutrunsClock) := by
  induction h with
  | finished | cutOff | brokenOff | halted => exact ⟨nofun, nofun⟩
  | overflowed hrun => exact ⟨nofun, fun _ => ⟨_, List.mem_cons_self, .inl ⟨_, _, hrun⟩⟩⟩
  | outOfReach hrun htick hfits =>
    refine ⟨nofun, fun _ => ⟨_, List.mem_cons_self, .inr ⟨⟨_, _, hrun⟩, _, htick, Nat.le_of_not_lt hfits⟩⟩⟩
  | dropped _ _ ih | ended _ _ _ _ ih | armedAgain _ _ _ _ ih =>
    refine ⟨ih.1, fun hoverflow => ?_⟩
    obtain ⟨f, hf, houtruns⟩ := ih.2 hoverflow
    exact ⟨f, List.mem_cons_of_mem _ hf, houtruns⟩

/-! ### Services -/

/-- However far a service has come, it is known what has been fired and how it can end. -/
theorem Watched.runDue_ending (steps now : Nat) (m : Machine) :
    (runDue steps now m).firings.map Firing.task <+: (m.scheduler.takeReady now).1 ∧
    (∀ e, (runDue steps now m).outcome ≠ .failed e) ∧
    ((runDue steps now m).outcome = .clockOverflow → ∃ f ∈ (runDue steps now m).firings, f.OutrunsClock) := by
  cases steps with
  | zero =>
    simp only [runDue, stop]
    refine ⟨List.nil_prefix, fun e h => ?_, fun h => ?_⟩
    · cases h
    · cases h
  | succ steps =>
    obtain ⟨m₁, hbatch, -⟩ := batch_runDue steps now m
    exact ⟨hbatch.fired_in_order, hbatch.ending⟩

/-- Tasks that are armed while a batch runs get numbers that no task had before. -/
theorem Accounted.fresh {tasks : List Task} {s s' : Scheduler} {firings : List Firing} {ended : Option Nat}
    {accounts : List Account} {unfired : List Task} (h : Accounted tasks s firings ended s' accounts unfired)
    {a : Account} (ha : a ∈ accounts) {t : Task} (ht : t ∈ a.armed) : s.nextId ≤ t.id := by
  have hmem : t.id ∈ (accounts.flatMap Account.armed).map Task.id :=
    List.mem_map_of_mem (List.mem_flatMap.mpr ⟨a, ha, ht⟩)
  rw [h.numbers, List.mem_range'_1] at hmem
  exact hmem.1

/-- **A service accounts for every task.**  Whatever is armed, at whatever moment the due
tasks are served, and however long:
* what is due is what was planned up to that moment, in the order of moments and numbers,
  and what has been fired are the first of these tasks, each once;
* if the service ends, each firing has its account, and nothing but the last run of a
  counted task ends it before all due tasks have been fired; then what is armed are the
  tasks that were not due, what the bodies have armed and the tasks that go on, and the
  due tasks that were not fired, all as they were;
* the tasks that the bodies have armed got the next numbers in order, as many as they
  are (so the numbers fit into 32 bits as long as fewer than 2^32 - 1 tasks have been
  armed in all, since the first number is one), and none of them has been fired, nor was
  any armed before under its number;
* the service never fails, only a firing can make the clock overflow, and with enough
  steps it ends, unless the body of a task that is fired does not. -/
theorem service_accounts_for_every_task (steps now : Nat) (m : Machine) :
    let due := (m.scheduler.takeReady now).1
    let pending : Scheduler := { m.scheduler with tasks := m.scheduler.tasks.filter (now < ·.nextRun) }
    let run (steps : Nat) : Outcome (Option Nat) × Machine := Action.runDue steps now m
    let firings (steps : Nat) : List Firing := (Watched.runDue steps now m).firings
    (due.Perm (m.scheduler.tasks.filter (·.nextRun ≤ now)) ∧ due.Pairwise fun a b => Task.before a b = true) ∧
    (firings steps).map Firing.task <+: due ∧
    (∀ ended, (run steps).1 = .done ended → ∃ accounts unfired,
      Accounted due pending (firings steps) ended (run steps).2.scheduler accounts unfired ∧
      (m.scheduler.Numbered → ∀ a ∈ accounts, ∀ t ∈ a.armed,
        (∀ u ∈ m.scheduler.tasks, u.id ≠ t.id) ∧ ∀ f ∈ firings steps, f.task.id ≠ t.id)) ∧
    (∀ e, (run steps).1 ≠ .failed e) ∧
    ((run steps).1 = .clockOverflow → ∃ f ∈ firings steps, f.OutrunsClock) ∧
    ∃ enough, (run enough).1 ≠ .unfinished ∨
      ∃ f : Firing, f.Hangs ∧ ∀ steps, enough ≤ steps → f ∈ firings steps := by
  intro due pending run firings
  have hpending : (m.scheduler.takeReady now).2 = pending := by
    simp only [pending, Scheduler.takeReady, ← decide_not, Nat.not_le]
  have houtcome (steps : Nat) : (run steps).1 = (Watched.runDue steps now m).outcome :=
    congrArg Prod.fst (congrFun ((Watched.agreement steps).runDue now) m).symm
  obtain ⟨hfirst, hfailed, hoverflow⟩ := Watched.runDue_ending steps now m
  rw [← houtcome] at hfailed hoverflow
  refine ⟨⟨m.scheduler.takeReady_perm_filter now, m.scheduler.takeReady_ordered now⟩, hfirst, ?_, hfailed,
    hoverflow, ?_⟩
  · intro ended hended
    obtain ⟨m₁, hbatch, hmachine⟩ := batch_of_runDue (Prod.ext hended rfl : run steps = (.done ended, (run steps).2))
    obtain ⟨accounts, unfired, haccounted⟩ := hbatch.accounted rfl rfl
    refine ⟨accounts, unfired, ?_, fun hnumbered a ha t ht => ?_⟩
    · rw [hmachine, ← hpending]
      exact haccounted
    · have hfresh : m.scheduler.nextId ≤ t.id := haccounted.fresh ha ht
      have hother : ∀ u ∈ m.scheduler.tasks, u.id ≠ t.id := fun u hu =>
        Nat.ne_of_lt (Nat.lt_of_lt_of_le (hnumbered u hu) hfresh)
      refine ⟨hother, fun f hf => hother _ ?_⟩
      -- what was fired was due, and so it was armed before
      have hdue := hfirst.subset (List.mem_map_of_mem hf)
      exact (List.mem_filter.mp ((m.scheduler.takeReady_perm_filter now).mem_iff.mp hdue)).1
  · obtain ⟨enough, hends⟩ := Watched.runDue_ends_or_hangs now m
    refine ⟨enough, ?_⟩
    rw [houtcome]
    exact hends

end SealedScript

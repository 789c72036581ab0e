/-
SealedScript/Proofs/Machine/CountedTask.lean

A counted task fires its count.  A task is followed through services of the due
tasks at any moments, and through whatever is armed between them.  In one service
it has a `Fate`: it waits, or it is fired and then goes on, ends or is dropped.
From service to service it is the task that was armed, a number of intervals
later and with that many runs less (`Task.later`).

Main result: `counted_task_fires_its_count`.
-/
import SealedScript.Proofs.Machine.Firing

namespace SealedScript

/-! ### Armed tasks by number -/

namespace Scheduler

/-- The tasks that are armed under a number. -/
def armed (s : Scheduler) (id : Nat) : List Task := s.tasks.filter (·.id == id)

/-- The numbers of the armed tasks have been given out. -/
def Numbered (s : Scheduler) : Prop := ∀ t ∈ s.tasks, t.id < s.nextId

/-- A task is armed, and no other one has its number or gets it. -/
def Holds (s : Scheduler) (t : Task) : Prop := s.armed t.id = [t] ∧ t.id < s.nextId

theorem Grows.nextId_le {s s' : Scheduler} (h : s.Grows s') : s.nextId ≤ s'.nextId := by
  induction h with
  | same => exact Nat.le_refl _
  | add _ _ _ _ _ ih => exact Nat.le_succ_of_le ih

theorem armed_add (s : Scheduler) (action : Stmt) (trigger : Trigger) (nextRun : Nat) (runsLeft : Option Nat)
    (id : Nat) :
    (s.add action trigger nextRun runsLeft).2.armed id
      = s.armed id ++ if s.nextId = id then [⟨s.nextId, action, trigger, nextRun, runsLeft⟩] else [] := by
  simp only [armed, add, List.filter_append, List.filter_cons, List.filter_nil, beq_iff_eq]

/-- What is armed gets numbers of its own. -/
theorem Grows.armed_eq {s s' : Scheduler} (h : s.Grows s') {id : Nat} (hid : id < s.nextId) :
    s'.armed id = s.armed id := by
  induction h with
  | same => rfl
  | @add s' action trigger nextRun runsLeft h ih =>
    have hfresh : s'.nextId ≠ id := by
      have hle := h.nextId_le
      omega
    rw [armed_add, if_neg hfresh, List.append_nil, ih]

theorem Numbered.armed_nextId {s : Scheduler} (h : s.Numbered) : s.armed s.nextId = [] := by
  refine List.filter_eq_nil_iff.mpr fun t ht heq => ?_
  exact Nat.lt_irrefl _ (beq_iff_eq.mp heq ▸ h t ht)

theorem Numbered.holds_add {s : Scheduler} (h : s.Numbered) (action : Stmt) (trigger : Trigger) (nextRun : Nat)
    (runsLeft : Option Nat) :
    (s.add action trigger nextRun runsLeft).2.Holds ⟨s.nextId, action, trigger, nextRun, runsLeft⟩ := by
  refine ⟨?_, Nat.lt_succ_self _⟩
  rw [armed_add, h.armed_nextId, if_pos rfl, List.nil_append]

theorem armed_putBack (s : Scheduler) (t : Task) (id : Nat) :
    (s.putBack t).armed id = s.armed id ++ if t.id = id then [t] else [] := by
  simp only [armed, putBack, List.filter_append, List.filter_cons, List.filter_nil, beq_iff_eq]

theorem armed_putBackAll (s : Scheduler) (tasks : List Task) (id : Nat) :
    (tasks.foldl putBack s).armed id = s.armed id ++ tasks.filter (·.id == id) := by
  induction tasks generalizing s with
  | nil => exact (List.append_nil _).symm
  | cons t tasks ih =>
    rw [List.foldl_cons, ih, armed_putBack, List.append_assoc, List.filter_cons]
    by_cases ht : t.id = id
    · rw [if_pos ht, if_pos (beq_iff_eq.mpr ht), List.singleton_append]
    · rw [if_neg ht, if_neg (mt beq_iff_eq.mp ht), List.nil_append]

theorem nextId_putBackAll (s : Scheduler) (tasks : List Task) : (tasks.foldl putBack s).nextId = s.nextId := by
  induction tasks generalizing s with
  | nil => rfl
  | cons t tasks ih => exact ih (s.putBack t)

theorem Grows.numbered {s s' : Scheduler} (h : s.Grows s') (hs : s.Numbered) : s'.Numbered := by
  induction h with
  | same => exact hs
  | add _ _ _ _ _ ih =>
    refine List.forall_mem_append.mpr ⟨fun t ht => Nat.lt_succ_of_lt (ih t ht), ?_⟩
    exact List.forall_mem_singleton.mpr (Nat.lt_succ_self _)

theorem Numbered.putBackAll {s : Scheduler} (hs : s.Numbered) {tasks : List Task}
    (h : ∀ t ∈ tasks, t.id < s.nextId) : (tasks.foldl putBack s).Numbered := by
  induction tasks generalizing s with
  | nil => exact hs
  | cons t tasks ih =>
    rw [List.forall_mem_cons] at h
    refine ih (List.forall_mem_append.mpr ⟨hs, ?_⟩) h.2
    exact List.forall_mem_singleton.mpr h.1

theorem Numbered.takeReady {s : Scheduler} (hs : s.Numbered) (now : Nat) :
    (∀ t ∈ (s.takeReady now).1, t.id < s.nextId) ∧ (s.takeReady now).2.Numbered := by
  refine ⟨fun t ht => ?_, fun t ht => hs t (List.mem_filter.mp ht).1⟩
  exact hs t (List.mem_filter.mp (List.mem_mergeSort.mp ht)).1

/-- The due tasks that have a number. -/
theorem filter_takeReady_perm (s : Scheduler) (now id : Nat) :
    ((s.takeReady now).1.filter (·.id == id)).Perm ((s.armed id).filter (·.nextRun ≤ now)) := by
  have hsort : ((s.tasks.filter (·.nextRun ≤ now)).mergeSort Task.before).Perm _ := List.mergeSort_perm _ _
  refine (hsort.filter _).trans (.of_eq ?_)
  rw [armed, List.filter_filter, List.filter_filter]
  exact List.filter_congr fun t _ => Bool.and_comm _ _

theorem armed_takeReady (s : Scheduler) (now id : Nat) :
    (s.takeReady now).2.armed id = (s.armed id).filter fun t => !decide (t.nextRun ≤ now) := by
  simp only [armed, takeReady, List.filter_filter]
  exact List.filter_congr fun t _ => Bool.and_comm _ _

end Scheduler

/-! ### One service -/

/-- The body of the task that is fired ends well. -/
def Firing.Succeeds (f : Firing) : Prop :=
  ∃ steps m', Action.runTopLevel steps f.task.action f.machine = (.done (), m')

/-- The body of the task that is fired fails. -/
def Firing.Fails (f : Firing) : Prop :=
  ∃ steps e m', Action.runTopLevel steps f.task.action f.machine = (.failed e, m')

/-- What a body leaves of the timers. -/
theorem armed_of_runTopLevel {steps : Nat} {stmt : Stmt} {outcome : Outcome Unit} {m m' : Machine}
    (hrun : Action.runTopLevel steps stmt m = (outcome, m')) (hin : m.inTask = true) {id : Nat}
    (hid : id < m.scheduler.nextId) :
    m'.inTask = true ∧ id < m'.scheduler.nextId ∧ m'.scheduler.armed id = m.scheduler.armed id := by
  obtain ⟨hin', hgrows⟩ := grows_of_runTopLevel hrun hin
  exact ⟨hin', Nat.lt_of_lt_of_le hid hgrows.nextId_le, hgrows.armed_eq hid⟩

/-- The firings of the task with a number. -/
def firingsOf (id : Nat) (firings : List Firing) : List Firing := firings.filter (·.task.id == id)

theorem firingsOf_cons_self (task : Task) (m : Machine) (firings : List Firing) :
    firingsOf task.id (⟨task, m⟩ :: firings) = ⟨task, m⟩ :: firingsOf task.id firings :=
  List.filter_cons_of_pos (beq_self_eq_true _)

theorem firingsOf_cons_other {task : Task} {id : Nat} (h : task.id ≠ id) (m : Machine) (firings : List Firing) :
    firingsOf id (⟨task, m⟩ :: firings) = firingsOf id firings :=
  List.filter_cons_of_neg (mt beq_iff_eq.mp h)

theorem tick_id {t after : Task} {goesOn : Bool} (h : t.tick = (goesOn, after)) : after.id = t.id := by
  rw [← t.id_tick, h]

/-- Numbers that have been given out stay so. -/
theorem Batch.lt_nextId {tasks : List Task} {m m' : Machine} {firings : List Firing}
    {outcome : Outcome (Option Nat)} (h : Batch tasks m firings outcome m') (hin : m.inTask = true) {id : Nat}
    (hid : id < m.scheduler.nextId) : id < m'.scheduler.nextId := by
  induction h with
  | finished | cutOff => exact hid
  | brokenOff hrun | overflowed hrun | outOfReach hrun => exact (armed_of_runTopLevel hrun hin hid).2.1
  | dropped hrun _ ih | ended hrun _ _ _ ih | armedAgain hrun _ _ _ ih =>
    obtain ⟨hin₁, hid₁, -⟩ := armed_of_runTopLevel hrun hin hid
    exact ih hin₁ hid₁
  | halted hrun =>
    obtain ⟨-, hid₁, -⟩ := armed_of_runTopLevel hrun hin hid
    simp only [Scheduler.nextId_putBackAll]
    exact hid₁

/-- The numbers of the armed tasks stay given out. -/
theorem Batch.numbered {tasks : List Task} {m m' : Machine} {firings : List Firing}
    {outcome : Outcome (Option Nat)} (h : Batch tasks m firings outcome m') (hin : m.inTask = true)
    (hm : m.scheduler.Numbered) (htasks : ∀ t ∈ tasks, t.id < m.scheduler.nextId) : m'.scheduler.Numbered := by
  induction h with
  | finished | cutOff => exact hm
  | brokenOff hrun | overflowed hrun | outOfReach hrun => exact (grows_of_runTopLevel hrun hin).2.numbered hm
  | dropped hrun _ ih | ended hrun _ _ _ ih =>
    obtain ⟨hin₁, hgrows⟩ := grows_of_runTopLevel hrun hin
    rw [List.forall_mem_cons] at htasks
    exact ih hin₁ (hgrows.numbered hm) fun t ht => Nat.lt_of_lt_of_le (htasks.2 t ht) hgrows.nextId_le
  | armedAgain hrun htick _ _ ih =>
    obtain ⟨hin₁, hgrows⟩ := grows_of_runTopLevel hrun hin
    rw [List.forall_mem_cons, ← tick_id htick] at htasks
    have hagain := Nat.lt_of_lt_of_le htasks.1 hgrows.nextId_le
    refine ih hin₁ ?_ fun t ht => Nat.lt_of_lt_of_le (htasks.2 t ht) hgrows.nextId_le
    exact (hgrows.numbered hm).putBackAll (List.forall_mem_singleton.mpr hagain)
  | halted hrun =>
    obtain ⟨-, hgrows⟩ := grows_of_runTopLevel hrun hin
    rw [List.forall_mem_cons] at htasks
    exact (hgrows.numbered hm).putBackAll fun t ht => Nat.lt_of_lt_of_le (htasks.2 t ht) hgrows.nextId_le

/-- A batch has nothing to do with a task that is not in it. -/
theorem Batch.bystander {tasks : List Task} {m m' : Machine} {firings : List Firing}
    {outcome : Outcome (Option Nat)} (h : Batch tasks m firings outcome m') (hin : m.inTask = true) {id : Nat}
    (hid : id < m.scheduler.nextId) (hnone : ∀ t ∈ tasks, t.id ≠ id) :
    firingsOf id firings = [] ∧ outcome ≠ .done (some id) ∧ m'.scheduler.armed id = m.scheduler.armed id := by
  induction h with
  | finished | cutOff => exact ⟨rfl, nofun, rfl⟩
  | brokenOff hrun | overflowed hrun | outOfReach hrun =>
    obtain ⟨-, -, harmed⟩ := armed_of_runTopLevel hrun hin hid
    rw [List.forall_mem_cons] at hnone
    exact ⟨firingsOf_cons_other hnone.1 _ [], nofun, harmed⟩
  | dropped hrun _ ih | ended hrun _ _ _ ih =>
    obtain ⟨hin₁, hid₁, harmed⟩ := armed_of_runTopLevel hrun hin hid
    rw [List.forall_mem_cons] at hnone
    obtain ⟨hfirings, hdone, harmed'⟩ := ih hin₁ hid₁ hnone.2
    refine ⟨?_, hdone, harmed'.trans harmed⟩
    rw [firingsOf_cons_other hnone.1, hfirings]
  | armedAgain hrun htick _ _ ih =>
    obtain ⟨hin₁, hid₁, harmed⟩ := armed_of_runTopLevel hrun hin hid
    rw [List.forall_mem_cons] at hnone
    obtain ⟨hfirings, hdone, harmed'⟩ := ih hin₁ hid₁ hnone.2
    refine ⟨?_, hdone, ?_⟩
    · rw [firingsOf_cons_other hnone.1, hfirings]
    · rw [harmed', Scheduler.armed_putBack, tick_id htick, if_neg hnone.1, List.append_nil, harmed]
  | @halted task last rest m m₁ steps hrun htick hhalts =>
    obtain ⟨-, -, harmed⟩ := armed_of_runTopLevel hrun hin hid
    rw [List.forall_mem_cons] at hnone
    have hrest : rest.filter (·.id == id) = [] :=
      List.filter_eq_nil_iff.mpr fun t ht heq => hnone.2 t ht (beq_iff_eq.mp heq)
    refine ⟨firingsOf_cons_other hnone.1 _ [], fun heq => ?_, ?_⟩
    · cases heq
      exact hnone.1 rfl
    · rw [Scheduler.armed_putBackAll, hrest, List.append_nil, harmed]

/-- What becomes of a task that is armed when the due tasks are served at the moment
`now`: its firings, the task that has ended the run, and what is armed under its
number afterwards. -/
inductive Fate (t : Task) (now : Nat) : List Firing → Option Nat → List Task → Prop
  | early {ended : Option Nat} : now < t.nextRun → ended ≠ some t.id → Fate t now [] ended [t]
  | waited {other : Nat} : t.nextRun ≤ now → other ≠ t.id → Fate t now [] (some other) [t]
  | dropped {m : Machine} {ended : Option Nat} : t.nextRun ≤ now → (Firing.mk t m).Fails →
      ended ≠ some t.id → Fate t now [⟨t, m⟩] ended []
  | wentOn {m : Machine} {again : Task} {ended : Option Nat} : t.nextRun ≤ now → (Firing.mk t m).Succeeds →
      t.tick = (true, again) → ended ≠ some t.id → Fate t now [⟨t, m⟩] ended [again]
  | finished {m : Machine} {last : Task} {ended : Option Nat} : t.nextRun ≤ now → (Firing.mk t m).Succeeds →
      t.tick = (false, last) → last.halts = false → ended ≠ some t.id → Fate t now [⟨t, m⟩] ended []
  | endedRun {m : Machine} {last : Task} : t.nextRun ≤ now → (Firing.mk t m).Succeeds →
      t.tick = (false, last) → last.halts = true → Fate t now [⟨t, m⟩] (some t.id) []

/-- The one task of a list with its number is the first, or among the others. -/
theorem filter_id_cons {t task : Task} {rest : List Task} (h : (task :: rest).filter (·.id == t.id) = [t]) :
    (task = t ∧ ∀ t' ∈ rest, t'.id ≠ t.id) ∨ (task.id ≠ t.id ∧ rest.filter (·.id == t.id) = [t]) := by
  by_cases hid : task.id = t.id
  · rw [List.filter_cons, if_pos (beq_iff_eq.mpr hid), List.cons.injEq, List.filter_eq_nil_iff] at h
    exact .inl ⟨h.1, fun t' ht' heq => h.2 t' ht' (beq_iff_eq.mpr heq)⟩
  · rw [List.filter_cons, if_neg (mt beq_iff_eq.mp hid)] at h
    exact .inr ⟨hid, h⟩

/-- What becomes of a task of a batch that ends. -/
theorem Batch.fate {tasks : List Task} {m m' : Machine} {firings : List Firing} {outcome : Outcome (Option Nat)}
    (h : Batch tasks m firings outcome m') {ended : Option Nat} (hended : outcome = .done ended)
    (hin : m.inTask = true) {t : Task} {now : Nat} (hdue : t.nextRun ≤ now) (hid : t.id < m.scheduler.nextId)
    (hone : tasks.filter (·.id == t.id) = [t]) (hnone : m.scheduler.armed t.id = []) :
    Fate t now (firingsOf t.id firings) ended (m'.scheduler.armed t.id) := by
  induction h with
  | finished => cases hone
  | cutOff | brokenOff | overflowed | outOfReach => cases hended
  | @dropped task rest m m₁ m₂ steps e firings outcome hrun hrest ih =>
    obtain ⟨hin₁, hid₁, harmed⟩ := armed_of_runTopLevel hrun hin hid
    rcases filter_id_cons hone with ⟨rfl, hothers⟩ | ⟨hother, hone⟩
    · obtain ⟨hfirings, hdone, harmed'⟩ := hrest.bystander hin₁ hid₁ hothers
      have hleft : m₂.scheduler.armed task.id = [] := harmed'.trans (harmed.trans hnone)
      rw [firingsOf_cons_self, hfirings, hleft]
      exact .dropped hdue ⟨steps, e, m₁, hrun⟩ fun heq => hdone (heq ▸ hended)
    · rw [firingsOf_cons_other hother]
      exact ih hended hin₁ hid₁ hone (harmed.trans hnone)
  | @ended task last rest m m₁ m₂ steps firings outcome hrun htick hhalts hrest ih =>
    obtain ⟨hin₁, hid₁, harmed⟩ := armed_of_runTopLevel hrun hin hid
    rcases filter_id_cons hone with ⟨rfl, hothers⟩ | ⟨hother, hone⟩
    · obtain ⟨hfirings, hdone, harmed'⟩ := hrest.bystander hin₁ hid₁ hothers
      rw [firingsOf_cons_self, hfirings, harmed', harmed, hnone]
      exact .finished hdue ⟨steps, m₁, hrun⟩ htick hhalts fun heq => hdone (heq ▸ hended)
    · rw [firingsOf_cons_other hother]
      exact ih hended hin₁ hid₁ hone (harmed.trans hnone)
  | @armedAgain task again rest m m₁ m₂ steps firings outcome hrun htick _ hrest ih =>
    obtain ⟨hin₁, hid₁, harmed⟩ := armed_of_runTopLevel hrun hin hid
    rcases filter_id_cons hone with ⟨rfl, hothers⟩ | ⟨hother, hone⟩
    · obtain ⟨hfirings, hdone, harmed'⟩ := hrest.bystander hin₁ hid₁ hothers
      rw [firingsOf_cons_self, hfirings, harmed', Scheduler.armed_putBack, if_pos (tick_id htick), harmed, hnone]
      exact .wentOn hdue ⟨steps, m₁, hrun⟩ htick fun heq => hdone (heq ▸ hended)
    · rw [firingsOf_cons_other hother]
      refine ih hended hin₁ hid₁ hone ?_
      rw [Scheduler.armed_putBack, tick_id htick, if_neg hother, List.append_nil, harmed, hnone]
  | @halted task last rest m m₁ steps hrun htick hhalts =>
    obtain ⟨-, -, harmed⟩ := armed_of_runTopLevel hrun hin hid
    cases hended
    rw [Scheduler.armed_putBackAll, harmed, hnone, List.nil_append]
    rcases filter_id_cons hone with ⟨rfl, hothers⟩ | ⟨hother, hone⟩
    · have hrest : rest.filter (·.id == task.id) = [] :=
        List.filter_eq_nil_iff.mpr fun t' ht' heq => hothers t' ht' (beq_iff_eq.mp heq)
      rw [firingsOf_cons_self, hrest]
      exact .endedRun hdue ⟨steps, m₁, hrun⟩ htick hhalts
    · rw [firingsOf_cons_other hother, hone]
      exact .waited hdue hother

/-- A service that ends is a batch. -/
theorem batch_of_runDue {steps now : Nat} {m m' : Machine} {ended : Option Nat}
    (hrun : Action.runDue steps now m = (.done ended, m')) :
    ∃ m₁, Batch (m.scheduler.takeReady now).1 (m.park (m.scheduler.takeReady now).2)
        (Watched.runDue steps now m).firings (.done ended) m₁ ∧ m' = m₁.resume m := by
  have hplain := (congrFun ((Watched.agreement steps).runDue now) m).trans hrun
  cases steps with
  | zero => cases hrun
  | succ steps =>
    obtain ⟨m₁, hbatch, hmachine⟩ := batch_runDue steps now m
    rw [show (Watched.runDue (steps + 1) now m).outcome = .done ended from congrArg Prod.fst hplain] at hbatch
    exact ⟨m₁, hbatch, (congrArg Prod.snd hplain).symm.trans hmachine⟩

section Service

variable {steps now : Nat} {m m' : Machine} {ended : Option Nat}

theorem lt_nextId_of_runDue (hrun : Action.runDue steps now m = (.done ended, m')) {id : Nat}
    (hid : id < m.scheduler.nextId) : id < m'.scheduler.nextId := by
  obtain ⟨m₁, hbatch, rfl⟩ := batch_of_runDue hrun
  exact hbatch.lt_nextId rfl hid

theorem numbered_of_runDue (hrun : Action.runDue steps now m = (.done ended, m')) (hm : m.scheduler.Numbered) :
    m'.scheduler.Numbered := by
  obtain ⟨m₁, hbatch, rfl⟩ := batch_of_runDue hrun
  exact hbatch.numbered rfl (hm.takeReady now).2 (hm.takeReady now).1

/-- Nothing happens under a number that is given out and not armed. -/
theorem bystander_of_runDue (hrun : Action.runDue steps now m = (.done ended, m')) {id : Nat}
    (hid : id < m.scheduler.nextId) (hnone : m.scheduler.armed id = []) :
    firingsOf id (Watched.runDue steps now m).firings = [] ∧ ended ≠ some id ∧ m'.scheduler.armed id = [] := by
  obtain ⟨m₁, hbatch, rfl⟩ := batch_of_runDue hrun
  have hready := m.scheduler.filter_takeReady_perm now id
  rw [hnone, List.filter_nil, List.perm_nil, List.filter_eq_nil_iff] at hready
  have hpending := m.scheduler.armed_takeReady now id
  rw [hnone, List.filter_nil] at hpending
  obtain ⟨hfirings, hended, harmed⟩ :=
    hbatch.bystander rfl hid fun t ht heq => hready t ht (beq_iff_eq.mpr heq)
  exact ⟨hfirings, fun heq => hended (by rw [heq]), harmed.trans hpending⟩

/-- What becomes of an armed task in a service that ends. -/
theorem fate_of_runDue (hrun : Action.runDue steps now m = (.done ended, m')) {t : Task}
    (h : m.scheduler.Holds t) :
    Fate t now (firingsOf t.id (Watched.runDue steps now m).firings) ended (m'.scheduler.armed t.id) := by
  obtain ⟨harmed, hid⟩ := h
  obtain ⟨m₁, hbatch, rfl⟩ := batch_of_runDue hrun
  have hready := m.scheduler.filter_takeReady_perm now t.id
  have hpending := m.scheduler.armed_takeReady now t.id
  by_cases hdue : t.nextRun ≤ now
  · rw [harmed, List.filter_cons, if_pos (decide_eq_true hdue), List.filter_nil, List.perm_singleton] at hready
    rw [harmed, List.filter_cons, decide_eq_true hdue] at hpending
    exact hbatch.fate rfl rfl hdue hid hready hpending
  · rw [harmed, List.filter_cons, if_neg (mt of_decide_eq_true hdue), List.filter_nil, List.perm_nil,
      List.filter_eq_nil_iff] at hready
    rw [harmed, List.filter_cons, decide_eq_false hdue] at hpending
    obtain ⟨hfirings, hended, harmed'⟩ :=
      hbatch.bystander rfl hid fun t' ht' heq => hready t' ht' (beq_iff_eq.mpr heq)
    have hleft : (m₁.resume m).scheduler.armed t.id = [t] := harmed'.trans hpending
    rw [hfirings, hleft]
    exact .early (Nat.lt_of_not_le hdue) fun heq => hended (by rw [heq])

end Service

/-! ### Firings one after another -/

namespace Task

/-- The task a number of firings later. -/
def later (t : Task) (k : Nat) : Task :=
  match t.trigger with
  | .once _ => t
  | .every interval => { t with nextRun := t.nextRun + k * interval, runsLeft := t.runsLeft.map (· - k) }

/-- Whether the task is still armed after a number of firings. -/
def Lasts (t : Task) (k : Nat) : Prop :=
  k = 0 ∨ (∃ interval, t.trigger = .every interval) ∧ ∀ n, t.runsLeft = some n → k < n

theorem later_zero (t : Task) : t.later 0 = t := by
  unfold later
  split
  · rfl
  · simp only [Nat.zero_mul, Nat.add_zero, Nat.sub_zero, Option.map_id']

theorem later_id (t : Task) (k : Nat) : (t.later k).id = t.id := by
  unfold later
  split
  · rfl
  · rfl

theorem tick_later_of_lasts {t : Task} {k : Nat} (h : t.Lasts (k + 1)) :
    (t.later k).tick = (true, t.later (k + 1)) := by
  obtain ⟨id, action, trigger, nextRun, runsLeft⟩ := t
  obtain h | ⟨⟨interval, htrigger⟩, hcount⟩ := h
  · cases h
  · cases htrigger
    have hnext : nextRun + k * interval + interval = nextRun + (k + 1) * interval := by
      rw [Nat.succ_mul, Nat.add_assoc]
    cases runsLeft with
    | none => simp only [later, tick, Option.map_none, hnext]
    | some n =>
      have hleft : ¬ n - (k + 1) = 0 := Nat.sub_ne_zero_of_lt (hcount n rfl)
      simp only [later, tick, Option.map_some, Nat.sub_sub, if_neg hleft, hnext]

/-- A task that does not last says whether the run ends with it. -/
theorem tick_later_of_not_lasts {t : Task} {k : Nat} (h : ¬ t.Lasts (k + 1)) :
    ∃ last, (t.later k).tick = (false, last) ∧ last.halts = t.halts := by
  obtain ⟨id, action, trigger, nextRun, runsLeft⟩ := t
  cases trigger with
  | once moment => exact ⟨_, rfl, rfl⟩
  | every interval =>
    cases runsLeft with
    | none => exact absurd (.inr ⟨⟨interval, rfl⟩, nofun⟩) h
    | some n =>
      have hle : n ≤ k + 1 := by
        refine Nat.le_of_not_lt fun hlt => h (.inr ⟨⟨interval, rfl⟩, fun n' hn' => ?_⟩)
        cases hn'
        exact hlt
      have hleft : n - (k + 1) = 0 := Nat.sub_eq_zero_of_le hle
      simp only [later, tick, Option.map_some, Nat.sub_sub, if_pos hleft]
      exact ⟨_, rfl, rfl⟩

theorem lasts_iff_tick (t : Task) (k : Nat) : t.Lasts (k + 1) ↔ (t.later k).tick.1 = true := by
  constructor
  · intro h
    rw [tick_later_of_lasts h]
  · intro htick
    by_cases h : t.Lasts (k + 1)
    · exact h
    · obtain ⟨last, hlast, -⟩ := tick_later_of_not_lasts h
      rw [hlast] at htick
      cases htick

end Task

/-! ### Services one after another -/

/-- A service of the due tasks as its host sees it: the moment, what is fired, the
counted task that has made its last run, and the machine afterwards. -/
structure Service where
  now : Nat
  firings : List Firing
  ended : Option Nat
  machine : Machine

/-- Services of the due tasks at any moments.  Between them tasks may be armed and
the machine may change in other ways, but no task is disarmed. -/
inductive Timeline (m : Machine) : List Service → Machine → Prop
  | start : Timeline m [] m
  | serve {services : List Service} {m₁ m₂ : Machine} {steps now : Nat} {ended : Option Nat} :
      Timeline m services m₁ → Action.runDue steps now m₁ = (.done ended, m₂) →
      Timeline m (services ++ [⟨now, (Watched.runDue steps now m₁).firings, ended, m₂⟩]) m₂
  | arm {services : List Service} {m₁ m₂ : Machine} :
      Timeline m services m₁ → m₁.scheduler.Grows m₂.scheduler → Timeline m services m₂

/-- The firings of the task with a number, each with the moment of its service. -/
def runsOf (id : Nat) (services : List Service) : List (Nat × Firing) :=
  services.flatMap fun s => (firingsOf id s.firings).map (s.now, ·)

theorem runsOf_append (id : Nat) (services services' : List Service) :
    runsOf id (services ++ services') = runsOf id services ++ runsOf id services' := List.flatMap_append ..

theorem runsOf_concat (id : Nat) (services : List Service) (s : Service) :
    runsOf id (services ++ [s]) = runsOf id services ++ (firingsOf id s.firings).map (s.now, ·) := by
  simp only [runsOf, List.flatMap_append, List.flatMap_singleton]

/-- How far a task has come with its runs, and what is armed under its number. -/
inductive Stage (t : Task) (runs : List (Nat × Firing)) : List Task → Prop
  | lasting : t.Lasts runs.length → (∀ r ∈ runs, r.2.Succeeds) → Stage t runs [t.later runs.length]
  | usedUp {k : Nat} : runs.length = k + 1 → t.Lasts k → ¬ t.Lasts (k + 1) → Stage t runs []
  | dropped {r : Nat × Firing} : r ∈ runs → r.2.Fails → Stage t runs []

/-- Each run is that of the task as it is then, and is not early. -/
def Planned (t : Task) (runs : List (Nat × Firing)) : Prop :=
  ∀ k (h : k < runs.length), runs[k].2.task = t.later k ∧ (t.later k).nextRun ≤ runs[k].1

theorem Planned.concat {t : Task} {runs : List (Nat × Firing)} (h : Planned t runs) {now : Nat} {f : Firing}
    (hf : f.task = t.later runs.length) (hnow : (t.later runs.length).nextRun ≤ now) :
    Planned t (runs ++ [(now, f)]) := by
  intro k hk
  rw [List.length_append, List.length_singleton] at hk
  by_cases hlast : k < runs.length
  · rw [List.getElem_append_left hlast]
    exact h k hlast
  · obtain rfl : k = runs.length := by omega
    rw [List.getElem_append_right (Nat.le_refl _)]
    simp only [Nat.sub_self, List.getElem_singleton]
    exact ⟨hf, hnow⟩

/-- What a service makes of a task that has come so far: it has its fate, or it is
not armed any more and nothing happens under its number. -/
theorem Stage.served {t : Task} {runs : List (Nat × Firing)} {steps now : Nat} {ended : Option Nat} {m m' : Machine}
    (h : Stage t runs (m.scheduler.armed t.id)) (hid : t.id < m.scheduler.nextId)
    (hrun : Action.runDue steps now m = (.done ended, m')) :
    (t.Lasts runs.length ∧ (∀ r ∈ runs, r.2.Succeeds) ∧
      Fate (t.later runs.length) now (firingsOf t.id (Watched.runDue steps now m).firings) ended
        (m'.scheduler.armed t.id)) ∨
    (Stage t runs [] ∧ firingsOf t.id (Watched.runDue steps now m).firings = [] ∧ ended ≠ some t.id ∧
      m'.scheduler.armed t.id = []) := by
  generalize harmed : m.scheduler.armed t.id = armed at h
  cases h with
  | lasting hlasts hsucceed =>
    have hholds : m.scheduler.Holds (t.later runs.length) := by
      rw [Scheduler.Holds, t.later_id]
      exact ⟨harmed, hid⟩
    have hfate := fate_of_runDue hrun hholds
    rw [t.later_id] at hfate
    exact .inl ⟨hlasts, hsucceed, hfate⟩
  | usedUp hlength hlasts hover =>
    obtain ⟨hfirings, hended, hnone⟩ := bystander_of_runDue hrun hid harmed
    exact .inr ⟨.usedUp hlength hlasts hover, hfirings, hended, hnone⟩
  | dropped hmem hfails =>
    obtain ⟨hfirings, hended, hnone⟩ := bystander_of_runDue hrun hid harmed
    exact .inr ⟨.dropped hmem hfails, hfirings, hended, hnone⟩

/-- One service brings a task on by what becomes of it. -/
theorem Stage.serve {t : Task} {runs : List (Nat × Firing)} (hplanned : Planned t runs)
    (hlasts : t.Lasts runs.length) (hsucceed : ∀ r ∈ runs, r.2.Succeeds) {now : Nat} {firings : List Firing}
    {ended : Option Nat} {armed : List Task} (h : Fate (t.later runs.length) now firings ended armed) :
    Planned t (runs ++ firings.map (now, ·)) ∧ Stage t (runs ++ firings.map (now, ·)) armed := by
  cases h with
  | early | waited =>
    rw [List.map_nil, List.append_nil]
    exact ⟨hplanned, .lasting hlasts hsucceed⟩
  | dropped hdue hfails =>
    exact ⟨hplanned.concat rfl hdue, .dropped (List.mem_append_right _ (List.mem_singleton_self _)) hfails⟩
  | wentOn hdue hgood htick =>
    have hnext : t.Lasts (runs.length + 1) := (t.lasts_iff_tick _).mpr (by rw [htick])
    rw [Task.tick_later_of_lasts hnext] at htick
    cases htick
    refine ⟨hplanned.concat rfl hdue, ?_⟩
    have hstage := @Stage.lasting t (runs ++ [(now, _)]) (by rwa [List.length_append])
      (List.forall_mem_append.mpr ⟨hsucceed, List.forall_mem_singleton.mpr hgood⟩)
    rwa [List.length_append] at hstage
  | finished hdue hgood htick | endedRun hdue hgood htick =>
    have hover : ¬ t.Lasts (runs.length + 1) := by
      rw [t.lasts_iff_tick, htick]
      exact Bool.false_ne_true
    exact ⟨hplanned.concat rfl hdue, .usedUp (List.length_append ..) hlasts hover⟩

/-- **Where a task stands after any services.**  The induction is on the services,
and one of them is a step from stage to stage. -/
theorem Timeline.stage {m m' : Machine} {services : List Service} (h : Timeline m services m') {t : Task}
    (ht : m.scheduler.Holds t) :
    Planned t (runsOf t.id services) ∧ Stage t (runsOf t.id services) (m'.scheduler.armed t.id) ∧
      t.id < m'.scheduler.nextId := by
  induction h with
  | start =>
    refine ⟨nofun, ?_, ht.2⟩
    have hstage := @Stage.lasting t [] (.inl rfl) nofun
    rwa [List.length_nil, t.later_zero, ← ht.1] at hstage
  | serve _ hrun ih =>
    obtain ⟨hplanned, hstage, hid⟩ := ih
    rw [runsOf_concat]
    rcases hstage.served hid hrun with ⟨hlasts, hsucceed, hfate⟩ | ⟨hstage, hfirings, -, harmed⟩
    · obtain ⟨hplanned, hstage⟩ := Stage.serve hplanned hlasts hsucceed hfate
      exact ⟨hplanned, hstage, lt_nextId_of_runDue hrun hid⟩
    · rw [hfirings, List.map_nil, List.append_nil, harmed]
      exact ⟨hplanned, hstage, lt_nextId_of_runDue hrun hid⟩
  | arm _ hgrows ih =>
    obtain ⟨hplanned, hstage, hid⟩ := ih
    rw [hgrows.armed_eq hid]
    exact ⟨hplanned, hstage, Nat.lt_of_lt_of_le hid hgrows.nextId_le⟩

/-- **Numbers are given out once.**  What any services leave armed has numbers below
the next one, so a machine that began with nothing armed never gives a number twice. -/
theorem Timeline.numbered {m m' : Machine} {services : List Service} (h : Timeline m services m')
    (hm : m.scheduler.Numbered) : m'.scheduler.Numbered := by
  induction h with
  | start => exact hm
  | serve _ hrun ih => exact numbered_of_runDue hrun ih
  | arm _ hgrows ih => exact hgrows.numbered ih

/-- A service in the middle of others. -/
theorem Timeline.cut {m m' : Machine} {services before after : List Service} {s : Service}
    (h : Timeline m services m') (hcut : services = before ++ s :: after) :
    ∃ m₁ steps, Timeline m before m₁ ∧ Action.runDue steps s.now m₁ = (.done s.ended, s.machine) ∧
      s.firings = (Watched.runDue steps s.now m₁).firings := by
  induction h generalizing after with
  | start => exact absurd hcut (List.append_ne_nil_of_right_ne_nil _ (List.cons_ne_nil _ _)).symm
  | @serve services m₁ m₂ steps now ended hbefore hrun ih =>
    rcases List.eq_nil_or_concat after with rfl | ⟨after, last, rfl⟩
    · obtain ⟨rfl, hlast⟩ := List.append_inj' hcut rfl
      cases hlast
      exact ⟨m₁, steps, hbefore, hrun, rfl⟩
    · rw [List.concat_eq_append, ← List.cons_append, ← List.append_assoc] at hcut
      exact ih (List.append_inj' hcut rfl).1
  | arm _ _ ih => exact ih hcut

/-- The part of a timeline up to a service. -/
theorem Timeline.upTo {m m' : Machine} {services before after : List Service} {s : Service}
    (h : Timeline m services m') (hcut : services = before ++ s :: after) :
    Timeline m (before ++ [s]) s.machine := by
  obtain ⟨m₁, steps, hbefore, hrun, hfirings⟩ := h.cut hcut
  have hserve := hbefore.serve hrun
  rwa [← hfirings] at hserve

/-! ### The end of a run -/

namespace Task

theorem halts_iff (t : Task) :
    t.halts = true ↔ ∃ interval n, t.trigger = .every interval ∧ t.runsLeft = some n := by
  unfold halts
  split
  · next htrigger =>
    simp only [htrigger, reduceCtorEq, false_and, exists_false]
  · next interval htrigger =>
    rw [Option.isSome_iff_exists]
    refine ⟨fun ⟨n, hn⟩ => ⟨interval, n, htrigger, hn⟩, fun ⟨_, n, _, hn⟩ => ⟨n, hn⟩⟩

/-- The last run of a task that ends the run. -/
theorem of_tick_halts {t last : Task} (htick : t.tick = (false, last)) (hhalts : last.halts = true) :
    ∃ interval n, t.trigger = .every interval ∧ t.runsLeft = some n ∧ n ≤ 1 := by
  unfold tick at htick
  split at htick
  · next moment htrigger =>
    cases htick
    simp only [halts, htrigger, Bool.false_eq_true] at hhalts
  · next interval htrigger =>
    split at htick
    · cases htick
    · next n hn =>
      split at htick
      · next hlast => exact ⟨interval, n, htrigger, hn, Nat.sub_eq_zero_iff_le.mp hlast⟩
      · cases htick

end Task

section

variable {t : Task} {k now : Nat} {firings : List Firing} {ended : Option Nat} {armed : List Task}

theorem Fate.length_firings_le (h : Fate t now firings ended armed) : firings.length ≤ 1 := by
  cases h with
  | early | waited => exact Nat.zero_le _
  | dropped | wentOn | finished | endedRun => exact Nat.le_refl _

/-- A task ends the run by a last firing, and only if it is counted. -/
theorem Fate.of_ended (h : Fate (t.later k) now firings ended armed) (hended : ended = some t.id) :
    (∃ f, firings = [f] ∧ f.Succeeds) ∧ ¬ t.Lasts (k + 1) ∧ t.halts = true := by
  rw [← t.later_id k] at hended
  cases h with
  | early _ hother | dropped _ _ hother | wentOn _ _ _ hother | finished _ _ _ _ hother =>
    exact absurd hended hother
  | waited _ hother => exact absurd (Option.some.inj hended) hother
  | endedRun _ hgood htick hhalts =>
    have hover : ¬ t.Lasts (k + 1) := by
      rw [t.lasts_iff_tick, htick]
      exact Bool.false_ne_true
    obtain ⟨last, hlast, hsame⟩ := Task.tick_later_of_not_lasts hover
    rw [htick] at hlast
    cases hlast
    exact ⟨⟨_, rfl, hgood⟩, hover, hsame ▸ hhalts⟩

/-- The last firing of a counted task ends the run, if it does not fail. -/
theorem Fate.ended_of_not_lasts (h : Fate (t.later k) now firings ended armed) (hfired : firings ≠ [])
    (hfails : ∀ f ∈ firings, ¬ f.Fails) (hover : ¬ t.Lasts (k + 1)) (hhalts : t.halts = true) :
    ended = some t.id := by
  obtain ⟨last, hlast, hsame⟩ := Task.tick_later_of_not_lasts hover
  cases h with
  | early | waited => exact absurd rfl hfired
  | dropped _ hfailed => exact absurd hfailed (hfails _ (List.mem_singleton_self _))
  | wentOn _ _ htick =>
    rw [hlast] at htick
    cases htick
  | finished _ _ htick hnot =>
    rw [hlast] at htick
    cases htick
    rw [hsame, hhalts] at hnot
    cases hnot
  | endedRun => rw [t.later_id]

/-- A task that is due and not fired has been kept from it by the end of the run. -/
theorem Fate.of_not_fired (h : Fate t now [] ended armed) (hdue : t.nextRun ≤ now) :
    ∃ other, other ≠ t.id ∧ ended = some other := by
  cases h with
  | early hearly => exact absurd hdue (Nat.not_le_of_lt hearly)
  | waited _ hother => exact ⟨_, hother, rfl⟩

end

/-- A batch that ends the run has just fired a counted task for the last time. -/
theorem Batch.of_ended {tasks : List Task} {m m' : Machine} {firings : List Firing}
    {outcome : Outcome (Option Nat)} (h : Batch tasks m firings outcome m') {id : Nat}
    (hended : outcome = .done (some id)) :
    ∃ f interval n, firings.getLast? = some f ∧ f.task ∈ tasks ∧ f.task.id = id ∧ f.Succeeds ∧
      f.task.trigger = .every interval ∧ f.task.runsLeft = some n ∧ n ≤ 1 := by
  induction h with
  | finished | cutOff | brokenOff | overflowed | outOfReach => cases hended
  | dropped _ _ ih | armedAgain _ _ _ _ ih | ended _ _ _ _ ih =>
    obtain ⟨f, interval, n, hlast, hmem, hrest⟩ := ih hended
    refine ⟨f, interval, n, ?_, List.mem_cons_of_mem _ hmem, hrest⟩
    rw [List.getLast?_cons, hlast, Option.getD_some]
  | halted hrun htick hhalts =>
    cases hended
    obtain ⟨interval, n, htrigger, hn, hle⟩ := Task.of_tick_halts htick hhalts
    exact ⟨_, interval, n, rfl, List.mem_cons_self, rfl, ⟨_, _, hrun⟩, htrigger, hn, hle⟩

/-- The service in which a task ends the run: the task is counted and has made all
its runs. -/
theorem Timeline.of_ended {m m' : Machine} {services before after : List Service} {s : Service}
    (h : Timeline m services m') (hcut : services = before ++ s :: after) {t : Task} (ht : m.scheduler.Holds t)
    (hended : s.ended = some t.id) :
    ∃ interval n, t.trigger = .every interval ∧ t.runsLeft = some n ∧
      (runsOf t.id (before ++ [s])).length = max 1 n ∧ (firingsOf t.id s.firings).length = 1 ∧
      ∀ r ∈ runsOf t.id (before ++ [s]), r.2.Succeeds := by
  obtain ⟨m₁, steps, hbefore, hrun, hfirings⟩ := h.cut hcut
  obtain ⟨-, hstage, hid⟩ := hbefore.stage ht
  rcases hstage.served hid hrun with ⟨hlasts, hsucceed, hfate⟩ | ⟨-, -, hother, -⟩
  · obtain ⟨⟨f, hf, hgood⟩, hover, hhalts⟩ := hfate.of_ended hended
    obtain ⟨interval, n, htrigger, hn⟩ := t.halts_iff.mp hhalts
    rw [← hfirings] at hf
    rw [runsOf_concat, hf]
    refine ⟨interval, n, htrigger, hn, ?_, rfl, ?_⟩
    · have hle : n ≤ (runsOf t.id before).length + 1 := by
        refine Nat.le_of_not_lt fun hlt => hover (.inr ⟨⟨interval, htrigger⟩, fun n' hn' => ?_⟩)
        rw [hn] at hn'
        cases hn'
        exact hlt
      have hge : (runsOf t.id before).length = 0 ∨ (runsOf t.id before).length < n :=
        hlasts.imp_right fun hmore => hmore.2 n hn
      rw [List.length_append, List.length_map, List.length_singleton]
      omega
    · exact List.forall_mem_append.mpr ⟨hsucceed, List.forall_mem_singleton.mpr hgood⟩
  · exact absurd hended hother

/-! ### Counted tasks -/

section Counted

variable {t : Task} {count : Nat} (hlasts : ∀ k, t.Lasts k ↔ k < count)
include hlasts

/-- What is left of a counted task, if none of its runs fails. -/
theorem Stage.counted {runs : List (Nat × Firing)} {armed : List Task} (h : Stage t runs armed)
    (hgood : ∀ r ∈ runs, ¬ r.2.Fails) :
    runs.length ≤ count ∧ armed = if runs.length < count then [t.later runs.length] else [] := by
  cases h with
  | lasting hmore =>
    have hlt := (hlasts _).mp hmore
    exact ⟨Nat.le_of_lt hlt, (if_pos hlt).symm⟩
  | @usedUp k hlength hmore hover =>
    have hlt := (hlasts k).mp hmore
    rw [hlasts] at hover
    rw [hlength, if_neg hover]
    exact ⟨hlt, rfl⟩
  | dropped hmem hfails => exact absurd hfails (hgood _ hmem)

/-- A service of a counted task, if none of its runs fails. -/
theorem Stage.served_counted (hhalts : t.halts = true) {runs : List (Nat × Firing)} {steps now : Nat}
    {ended : Option Nat} {m m' : Machine} (h : Stage t runs (m.scheduler.armed t.id))
    (hid : t.id < m.scheduler.nextId) (hrun : Action.runDue steps now m = (.done ended, m'))
    (hgood : ∀ r ∈ runs, ¬ r.2.Fails) {firings : List Firing}
    (hfirings : firings = firingsOf t.id (Watched.runDue steps now m).firings) (hgood' : ∀ f ∈ firings, ¬ f.Fails) :
    firings.length ≤ 1 ∧ (ended = some t.id ↔ firings ≠ [] ∧ runs.length + firings.length = count) ∧
      (runs.length < count → (t.later runs.length).nextRun ≤ now → firings = [] →
        ∃ other, other ≠ t.id ∧ ended = some other) := by
  rcases h.served hid hrun with ⟨hmore, -, hfate⟩ | ⟨hstage, hnone, hother, -⟩
  · rw [← hfirings] at hfate
    have hlt := (hlasts _).mp hmore
    refine ⟨hfate.length_firings_le, ⟨fun hended => ?_, fun ⟨hfired, hlength⟩ => ?_⟩, fun _ hdue hnone => ?_⟩
    · obtain ⟨⟨f, rfl, -⟩, hover, -⟩ := hfate.of_ended hended
      rw [hlasts] at hover
      refine ⟨List.cons_ne_nil _ _, ?_⟩
      rw [List.length_singleton]
      omega
    · refine hfate.ended_of_not_lasts hfired hgood' ?_ hhalts
      have hle := hfate.length_firings_le
      rw [hlasts]
      omega
    · rw [hnone] at hfate
      have hkept := hfate.of_not_fired hdue
      rwa [t.later_id] at hkept
  · rw [hfirings, hnone]
    refine ⟨Nat.zero_le _, ⟨fun hended => absurd hended hother, fun hfired => absurd rfl hfired.1⟩,
      fun hlt => ?_⟩
    -- nothing would be armed, although there are runs left
    have hleft := (hstage.counted hlasts hgood).2
    rw [if_pos hlt] at hleft
    cases hleft

/-- A service in a timeline of a counted task, if none of its runs fails. -/
theorem Timeline.served_counted (hhalts : t.halts = true) {m m' : Machine} (ht : m.scheduler.Holds t)
    {services before after : List Service} {s : Service} (h : Timeline m services m')
    (hgood : ∀ r ∈ runsOf t.id services, ¬ r.2.Fails) (hcut : services = before ++ s :: after) :
    (firingsOf t.id s.firings).length ≤ 1 ∧
    (s.machine.scheduler.armed t.id = if (runsOf t.id (before ++ [s])).length < count
      then [t.later (runsOf t.id (before ++ [s])).length] else []) ∧
    (s.ended = some t.id ↔ firingsOf t.id s.firings ≠ [] ∧ (runsOf t.id (before ++ [s])).length = count) ∧
    ((runsOf t.id before).length < count → (t.later (runsOf t.id before).length).nextRun ≤ s.now →
      firingsOf t.id s.firings = [] → ∃ other, other ≠ t.id ∧ s.ended = some other) := by
  obtain ⟨m₁, steps, hbefore, hrun, hfirings⟩ := h.cut hcut
  obtain ⟨-, hstage, hid⟩ := hbefore.stage ht
  obtain ⟨-, hupTo, -⟩ := (h.upTo hcut).stage ht
  have hgoodUpTo : ∀ r ∈ runsOf t.id (before ++ [s]), ¬ r.2.Fails := by
    intro r hr
    refine hgood r ?_
    rw [hcut, List.append_cons, runsOf_append]
    exact List.mem_append_left _ hr
  have harmed := (hupTo.counted hlasts hgoodUpTo).2
  rw [runsOf_concat, List.forall_mem_append, List.forall_mem_map] at hgoodUpTo
  obtain ⟨hone, hended, hkept⟩ := hstage.served_counted hlasts hhalts hid hrun hgoodUpTo.1
    (congrArg (firingsOf t.id) hfirings) hgoodUpTo.2
  refine ⟨hone, harmed, ?_, hkept⟩
  rw [runsOf_concat, List.length_append, List.length_map]
  exact hended

end Counted

theorem lasts_counted (id : Nat) (action : Stmt) (interval first : Nat) {count : Nat} (hcount : 1 ≤ count) (k : Nat) :
    (Task.mk id action (.every interval) first (some count)).Lasts k ↔ k < count := by
  constructor
  · rintro (rfl | ⟨-, h⟩)
    · exact hcount
    · exact h count rfl
  · intro h
    refine .inr ⟨⟨interval, rfl⟩, fun n hn => ?_⟩
    cases hn
    exact h

/-- **A counted task fires its count.**  A task is armed for a number of runs, among
any others, whose numbers have been given out (as after every `Timeline` that began
with nothing armed).  Then the due tasks are served at any moments, late, repeated or not in
order, and more tasks are armed between and within the services.  If no run of the
task fails:
* it has made at most its count of runs, each in a service at or after the planned
  moment, and the planned moments are whole numbers of intervals after the arming;
* in between it is armed for the next one with the rest of its count, and after the
  last run it is not armed;
* no service runs it twice, and the one with its last run, and only that one, ends
  the run on its behalf;
* a service in which it is due runs it, unless another task has ended the run.
Conversely a service ends the run only on behalf of a counted task which it has just
run without failure, and that was the last run of its count.  Whatever else is armed
gets numbers of its own, below the next one, which each arming moves on by one (so the
numbers fit into 32 bits as long as fewer than 2^32 - 1 tasks have been armed in all). -/
theorem counted_task_fires_its_count (m : Machine) (hnumbered : m.scheduler.Numbered) (action : Stmt)
    (interval count : Nat) (hcount : 1 ≤ count) :
    let id := m.scheduler.nextId
    let armed : Machine := { m with scheduler := (m.scheduler.addEvery m.clock action interval (some count)).2 }
    let planned (k : Nat) : Nat := m.clock + (k + 1) * interval
    let left (k : Nat) : List Task :=
      if k < count then [⟨id, action, .every interval, planned k, some (count - k)⟩] else []
    (∀ services m', Timeline armed services m' → (∀ r ∈ runsOf id services, ¬ r.2.Fails) →
      (runsOf id services).length ≤ count ∧ m'.scheduler.armed id = left (runsOf id services).length ∧
      (∀ k (h : k < (runsOf id services).length),
        (runsOf id services)[k].2.task.nextRun = planned k ∧ planned k ≤ (runsOf id services)[k].1) ∧
      ∀ before s after, services = before ++ s :: after →
        (firingsOf id s.firings).length ≤ 1 ∧
        s.machine.scheduler.armed id = left (runsOf id (before ++ [s])).length ∧
        (s.ended = some id ↔
          firingsOf id s.firings ≠ [] ∧ (runsOf id (before ++ [s])).length = count) ∧
        ((runsOf id before).length < count → planned (runsOf id before).length ≤ s.now →
          firingsOf id s.firings = [] → ∃ other, other ≠ id ∧ s.ended = some other)) ∧
    (∀ steps now (m₁ m₂ : Machine) ended, Action.runDue steps now m₁ = (.done (some ended), m₂) →
      ∃ f interval n, (Watched.runDue steps now m₁).firings.getLast? = some f ∧ f.task ∈ m₁.scheduler.tasks ∧
        f.task.id = ended ∧ f.task.nextRun ≤ now ∧ f.Succeeds ∧ f.task.trigger = .every interval ∧
        f.task.runsLeft = some n ∧ n ≤ 1) ∧
    (∀ (m₁ : Machine) (t : Task) services m₂, m₁.scheduler.Holds t → Timeline m₁ services m₂ →
      ∀ before s after, services = before ++ s :: after → s.ended = some t.id →
        ∃ interval n, t.trigger = .every interval ∧ t.runsLeft = some n ∧
          (runsOf t.id (before ++ [s])).length = max 1 n ∧ (firingsOf t.id s.firings).length = 1 ∧
          ∀ r ∈ runsOf t.id (before ++ [s]), r.2.Succeeds) ∧
    (∀ services m', Timeline armed services m' → id < m'.scheduler.nextId ∧ m'.scheduler.Numbered) := by
  intro id armed planned left
  have hholds : armed.scheduler.Holds ⟨id, action, .every interval, m.clock + interval, some count⟩ :=
    hnumbered.holds_add action (.every interval) (m.clock + interval) (some count)
  refine ⟨fun services m' htimeline hgood => ?_, fun steps now m₁ m₂ ended hrun => ?_,
    fun m₁ t services m₂ ht htimeline before s after hcut hended => htimeline.of_ended hcut ht hended,
    fun services m' htimeline => ?_⟩
  · have hlasts := lasts_counted id action interval (m.clock + interval) hcount
    have hlater (k : Nat) : (Task.mk id action (.every interval) (m.clock + interval) (some count)).later k
        = ⟨id, action, .every interval, planned k, some (count - k)⟩ := by
      have hplanned : m.clock + interval + k * interval = m.clock + (k + 1) * interval := by
        rw [Nat.succ_mul, Nat.add_assoc, Nat.add_comm interval]
      simp only [Task.later, Option.map_some, hplanned, planned]
    obtain ⟨hplanned, hstage, -⟩ := htimeline.stage hholds
    obtain ⟨hlength, harmed⟩ := hstage.counted hlasts hgood
    refine ⟨hlength, ?_, fun k hk => ?_, fun before s after hcut => ?_⟩
    · rw [harmed, hlater]
    · obtain ⟨htask, hnow⟩ := hplanned k hk
      rw [hlater] at htask hnow
      exact ⟨congrArg Task.nextRun htask, hnow⟩
    · have hserved := htimeline.served_counted hlasts rfl hholds hgood hcut
      rw [hlater, hlater] at hserved
      exact hserved
  · obtain ⟨m', hbatch, -⟩ := batch_of_runDue hrun
    obtain ⟨f, interval, n, hlast, hmem, hid, hgood, hrest⟩ := hbatch.of_ended rfl
    have harmed := List.mem_mergeSort.mp hmem
    rw [List.mem_filter, decide_eq_true_eq] at harmed
    exact ⟨f, interval, n, hlast, harmed.1, hid, harmed.2, hgood, hrest⟩
  · have harmed : armed.scheduler.Numbered := (Scheduler.Grows.same.add ..).numbered hnumbered
    exact ⟨(htimeline.stage hholds).2.2, htimeline.numbered harmed⟩

/-- A task for two runs that is served late both times. -/
theorem two_runs_served_late :
    let m : Machine := {}
    let action : Stmt := .expression (.literal (.int 1))
    ∃ services m',
      m.scheduler.Numbered ∧
      Timeline { m with scheduler := (m.scheduler.addEvery m.clock action 5 (some 2)).2 } services m' ∧
      (∀ r ∈ runsOf 1 services, ¬ r.2.Fails) ∧
      services.map Service.now = [7, 13] ∧ (runsOf 1 services).map (·.2.task.nextRun) = [5, 10] ∧
      services.map Service.ended = [none, some 1] ∧ m'.scheduler.armed 1 = [] := by
  intro m action
  let task (nextRun left : Nat) : Task := ⟨1, action, .every 5, nextRun, some left⟩
  let machine (tasks : List Task) : Machine := { scheduler := ⟨tasks, 2⟩ }
  let f (nextRun left : Nat) : Firing := ⟨task nextRun left, (machine []).park ⟨[], 2⟩⟩
  have hnumbered : m.scheduler.Numbered := nofun
  have hready {t : Task} {now : Nat} (h : t.nextRun ≤ now) :
      (Scheduler.mk [t] 2).takeReady now = ([t], ⟨[], 2⟩) := by
    simp [Scheduler.takeReady, h]
  have hdue : (task 5 2).nextRun ≤ 7 ∧ (task 10 1).nextRun ≤ 13 := by decide
  have hfirst : Action.runDue 9 7 (machine [task 5 2]) = (.done none, machine [task 10 1]) := by
    simp only [Action.runDue, machine, hready hdue.1]
    rfl
  have hsecond : Action.runDue 9 13 (machine [task 10 1]) = (.done (some 1), machine []) := by
    simp only [Action.runDue, machine, hready hdue.2]
    rfl
  have htimeline := (Timeline.start.serve hfirst).serve hsecond
  have hfirings₁ : (Watched.runDue 9 7 (machine [task 5 2])).firings = [f 5 2] := by
    simp only [Watched.runDue, machine, hready hdue.1]
    rfl
  have hfirings₂ : (Watched.runDue 9 13 (machine [task 10 1])).firings = [f 10 1] := by
    simp only [Watched.runDue, machine, hready hdue.2]
    rfl
  rw [hfirings₁, hfirings₂] at htimeline
  have hgood (nextRun left : Nat) : ¬ (f nextRun left).Fails := by
    rintro ⟨steps, e, m', hrun⟩
    rw [show (f nextRun left).task.action = .expression (.literal (.int 1)) from rfl,
      runTopLevel_literal steps _ rfl] at hrun
    split at hrun
    · cases hrun
    · cases hrun
  have hruns : ∀ r ∈ [(7, f 5 2), (13, f 10 1)], ¬ r.2.Fails :=
    List.forall_mem_cons.mpr ⟨hgood 5 2, List.forall_mem_singleton.mpr (hgood 10 1)⟩
  obtain ⟨hcounted, -⟩ := counted_task_fires_its_count m hnumbered action 5 2 (by decide)
  obtain ⟨-, harmed, -⟩ := hcounted _ _ htimeline hruns
  exact ⟨_, _, hnumbered, htimeline, hruns, rfl, rfl, rfl, harmed⟩

end SealedScript

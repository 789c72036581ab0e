/-
SealedScript/Proofs/Schedule/Timetable.lean

The timetable of armed tasks.  A repeating task is planned for its next moment and
for every whole number of intervals after it, a single one for its moment alone.
The entries of the timetable are pairs of a moment and the number of a task, in
lexicographic order.

Firing the tasks that are due first takes the first entries off the timetable and
leaves the timetable of the tasks that are armed then (`Split.plans_iff`).  So a
list of firings realises a timetable (`Realises`) if it begins with such a round
and goes on with what realises the rest (`Realises.follow`), or breaks off in it
(`Realises.cut`).
-/
import Mathlib.Data.List.Nodup
import SealedScript.Machine.Run

namespace SealedScript

/-- The order of a timetable: earlier moments first, then earlier tasks. -/
def Earlier (p q : Nat × Nat) : Prop := p.1 < q.1 ∨ p.1 = q.1 ∧ p.2 < q.2

theorem earlier_or_eq_or_earlier (p q : Nat × Nat) : Earlier p q ∨ p = q ∨ Earlier q p := by
  rw [Prod.ext_iff]
  unfold Earlier
  omega

/-! ### The timetable of one task -/

/-- What comes of a firing that does not fail: the task is armed again, is gone, ends
the run as a counted one, or has no next moment that the clock can hold. -/
inductive Aftermath where
  | again (task : Task)
  | gone
  | ended
  | outgrown

namespace Task

/-- The next entry of a task in the timetable. -/
def first (t : Task) : Nat × Nat := (t.nextRun, t.id)

/-- The entries of a task in the timetable. -/
def Plans (t : Task) (p : Nat × Nat) : Prop :=
  match t.trigger with
  | .once _ => p = (t.nextRun, t.id)
  | .every interval => ∃ k, p = (t.nextRun + k * interval, t.id)

/-- The entry of the last run of a counted task. -/
def Ends (t : Task) (p : Nat × Nat) : Prop :=
  ∃ interval n, t.trigger = .every interval ∧ t.runsLeft = some n ∧ p = (t.nextRun + (n - 1) * interval, t.id)

/-- The entries of a task after which the clock cannot hold the next one, although
there is to be one. -/
def Outgrows (t : Task) (p : Nat × Nat) : Prop :=
  ∃ interval k, t.trigger = .every interval ∧ p = (t.nextRun + k * interval, t.id) ∧
    clockHorizon ≤ t.nextRun + (k + 1) * interval ∧ ¬ t.Ends p

/-- What comes of a firing of the task. -/
def aftermath (t : Task) : Aftermath :=
  match t.tick with
  | (true, again) => if again.nextRun < clockHorizon then .again again else .outgrown
  | (false, last) => if last.halts then .ended else .gone

/-- The task that is armed again after a firing. -/
def again? (t : Task) : Option Task :=
  match t.aftermath with
  | .again u => some u
  | _ => none

/-- A firing of the task lets the run go on. -/
def Passes (t : Task) : Prop := t.aftermath ≠ .ended ∧ t.aftermath ≠ .outgrown

theorem again?_eq_some_iff {t u : Task} : t.again? = some u ↔ t.aftermath = .again u := by
  unfold again?
  split
  · next hafter => rw [hafter, Option.some.injEq, Aftermath.again.injEq]
  · next hafter => exact ⟨nofun, fun h => absurd h (hafter u)⟩

theorem plans_first (t : Task) : t.Plans t.first := by
  unfold Plans
  split
  · rfl
  · exact ⟨0, by rw [Nat.zero_mul, Nat.add_zero]; rfl⟩

section

variable {t : Task} {p : Nat × Nat}

theorem Plans.id_eq (h : t.Plans p) : p.2 = t.id := by
  unfold Plans at h
  split at h
  · rw [h]
  · obtain ⟨k, rfl⟩ := h
    rfl

theorem Plans.nextRun_le (h : t.Plans p) : t.nextRun ≤ p.1 := by
  unfold Plans at h
  split at h
  · exact Nat.le_of_eq (congrArg Prod.fst h).symm
  · obtain ⟨k, rfl⟩ := h
    exact Nat.le_add_right _ _

theorem Ends.plans (h : t.Ends p) : t.Plans p := by
  obtain ⟨interval, n, htrigger, -, rfl⟩ := h
  simp only [Plans, htrigger]
  exact ⟨n - 1, rfl⟩

theorem Outgrows.plans (h : t.Outgrows p) : t.Plans p := by
  obtain ⟨interval, k, htrigger, rfl, -⟩ := h
  simp only [Plans, htrigger]
  exact ⟨k, rfl⟩

/-- What a task has to be for each aftermath. -/
inductive Meets (t : Task) : Aftermath → Prop
  | gone {moment : Nat} : t.trigger = .once moment → t.Meets .gone
  | ended {interval n : Nat} : t.trigger = .every interval → t.runsLeft = some n → n ≤ 1 → t.Meets .ended
  | again {interval : Nat} : t.trigger = .every interval → (∀ n, t.runsLeft = some n → 1 < n) →
      t.nextRun + interval < clockHorizon →
      t.Meets (.again { t with nextRun := t.nextRun + interval, runsLeft := t.runsLeft.map (· - 1) })
  | outgrown {interval : Nat} : t.trigger = .every interval → (∀ n, t.runsLeft = some n → 1 < n) →
      clockHorizon ≤ t.nextRun + interval → t.Meets .outgrown

theorem meets_aftermath (t : Task) : t.Meets t.aftermath := by
  obtain ⟨id, action, trigger, nextRun, runsLeft⟩ := t
  cases trigger with
  | once moment => exact .gone rfl
  | every interval =>
    have hgoesOn {runsLeft : Option Nat} (hmore : ∀ n, runsLeft = some n → 1 < n) :
        (Task.mk id action (.every interval) nextRun runsLeft).Meets
          (if nextRun + interval < clockHorizon
            then .again ⟨id, action, .every interval, nextRun + interval, runsLeft.map (· - 1)⟩
            else .outgrown) := by
      split
      · next hfits => exact .again rfl hmore hfits
      · next hfits => exact .outgrown rfl hmore (Nat.le_of_not_lt hfits)
    cases runsLeft with
    | none => exact hgoesOn nofun
    | some n =>
      by_cases hlast : n - 1 = 0
      · simp only [aftermath, tick, hlast, if_true, halts, Option.isSome_some]
        exact .ended rfl rfl (Nat.sub_eq_zero_iff_le.mp hlast)
      · simp only [aftermath, tick, hlast, if_false]
        refine hgoesOn fun n' hn' => ?_
        cases hn'
        omega

theorem meets_of_eq {after : Aftermath} (h : t.aftermath = after) : t.Meets after := h ▸ t.meets_aftermath

/-- A task that is gone was planned once, and its firing stops nothing. -/
theorem of_gone (h : t.aftermath = .gone) : (t.Plans p ↔ p = t.first) ∧ ¬ t.Ends p ∧ ¬ t.Outgrows p := by
  obtain ⟨htrigger⟩ := meets_of_eq h
  refine ⟨?_, fun ⟨_, _, hevery, _⟩ => ?_, fun ⟨_, _, hevery, _⟩ => ?_⟩
  · simp only [Plans, htrigger, first]
  · rw [htrigger] at hevery
    cases hevery
  · rw [htrigger] at hevery
    cases hevery

section Again

variable {u : Task} (h : t.aftermath = .again u)
include h

theorem again_of_eq : ∃ interval, t.trigger = .every interval ∧ (∀ n, t.runsLeft = some n → 1 < n) ∧
    t.nextRun + interval < clockHorizon ∧
    u = { t with nextRun := t.nextRun + interval, runsLeft := t.runsLeft.map (· - 1) } := by
  cases meets_of_eq h with
  | again htrigger hmore hfits => exact ⟨_, htrigger, hmore, hfits, rfl⟩

theorem plans_of_again : t.Plans p ↔ p = t.first ∨ u.Plans p := by
  obtain ⟨interval, htrigger, -, -, rfl⟩ := again_of_eq h
  simp only [Plans, htrigger, first]
  constructor
  · rintro ⟨k, rfl⟩
    cases k with
    | zero => exact .inl (by rw [Nat.zero_mul, Nat.add_zero])
    | succ k => exact .inr ⟨k, by rw [Nat.succ_mul, Nat.add_assoc, Nat.add_comm interval]⟩
  · rintro (rfl | ⟨k, rfl⟩)
    · exact ⟨0, by rw [Nat.zero_mul, Nat.add_zero]⟩
    · exact ⟨k + 1, by rw [Nat.succ_mul, Nat.add_assoc, Nat.add_comm interval]⟩

theorem ends_of_again : t.Ends p ↔ u.Ends p := by
  obtain ⟨interval, htrigger, hmore, -, rfl⟩ := again_of_eq h
  have hlast {n : Nat} (hn : 1 < n) :
      t.nextRun + interval + (n - 1 - 1) * interval = t.nextRun + (n - 1) * interval := by
    obtain ⟨k, rfl⟩ : ∃ k, n = k + 2 := ⟨n - 2, by omega⟩
    show t.nextRun + interval + k * interval = t.nextRun + (k + 1) * interval
    rw [Nat.succ_mul, Nat.add_assoc, Nat.add_comm interval]
  constructor
  · rintro ⟨interval', n, hevery, hn, rfl⟩
    obtain rfl : interval = interval' := Trigger.every.inj (htrigger.symm.trans hevery)
    refine ⟨interval, n - 1, htrigger, by rw [hn, Option.map_some], ?_⟩
    rw [hlast (hmore n hn)]
  · rintro ⟨interval', n', hevery, hn', rfl⟩
    obtain rfl : interval = interval' := Trigger.every.inj (htrigger.symm.trans hevery)
    obtain ⟨n, hn, rfl⟩ := Option.map_eq_some_iff.mp hn'
    refine ⟨interval, n, htrigger, hn, ?_⟩
    rw [hlast (hmore n hn)]

theorem outgrows_of_again : t.Outgrows p ↔ u.Outgrows p := by
  have hends := ends_of_again (p := p) h
  obtain ⟨interval, htrigger, -, hfits, rfl⟩ := again_of_eq h
  have hnext (k : Nat) : t.nextRun + interval + k * interval = t.nextRun + (k + 1) * interval := by
    rw [Nat.succ_mul, Nat.add_assoc, Nat.add_comm interval]
  constructor
  · rintro ⟨interval', k, hevery, rfl, hhorizon, hnot⟩
    obtain rfl : interval = interval' := Trigger.every.inj (htrigger.symm.trans hevery)
    cases k with
    | zero =>
      rw [Nat.zero_add, Nat.one_mul] at hhorizon
      exact absurd hfits (Nat.not_lt_of_le hhorizon)
    | succ k =>
      refine ⟨interval, k, htrigger, ?_, ?_, fun hend => hnot (hends.mpr hend)⟩
      · rw [hnext]
      · rwa [hnext]
  · rintro ⟨interval', k, hevery, rfl, hhorizon, hnot⟩
    obtain rfl : interval = interval' := Trigger.every.inj (htrigger.symm.trans hevery)
    refine ⟨interval, k + 1, htrigger, ?_, ?_, fun hend => hnot (hends.mp hend)⟩
    · rw [hnext]
    · rwa [hnext] at hhorizon

end Again

section First

variable (hperiod : ∀ interval, t.trigger = .every interval → 0 < interval)
include hperiod

theorem ends_first_iff : t.Ends t.first ↔ t.aftermath = .ended := by
  constructor
  · rintro ⟨interval, n, htrigger, hn, hfirst⟩
    have hzero : n - 1 = 0 := by
      have hmoment : t.nextRun = t.nextRun + (n - 1) * interval := congrArg Prod.fst hfirst
      rcases Nat.mul_eq_zero.mp (Nat.left_eq_add.mp hmoment) with hzero | hinterval
      · exact hzero
      · exact absurd hinterval (Nat.ne_of_gt (hperiod interval htrigger))
    have hmeets := t.meets_aftermath
    generalize t.aftermath = after at hmeets
    cases hmeets with
    | gone honce =>
      rw [htrigger] at honce
      cases honce
    | ended => rfl
    | again _ hmore | outgrown _ hmore =>
      have hlt := hmore n hn
      omega
  · intro h
    cases meets_of_eq h with
    | @ended interval n htrigger hn hle =>
      refine ⟨interval, n, htrigger, hn, ?_⟩
      rw [Nat.sub_eq_zero_of_le hle, Nat.zero_mul, Nat.add_zero]
      rfl

theorem outgrows_first_iff : t.Outgrows t.first ↔ t.aftermath = .outgrown := by
  constructor
  · rintro ⟨interval, k, htrigger, hfirst, hhorizon, hnot⟩
    have hmoment : t.nextRun = t.nextRun + k * interval := congrArg Prod.fst hfirst
    rw [Nat.succ_mul, Nat.left_eq_add.mp hmoment, Nat.zero_add] at hhorizon
    rw [ends_first_iff hperiod] at hnot
    have hmeets := t.meets_aftermath
    generalize t.aftermath = after at hmeets hnot
    cases hmeets with
    | gone honce =>
      rw [htrigger] at honce
      cases honce
    | ended => exact absurd rfl hnot
    | again htrigger' _ hfits =>
      rw [htrigger] at htrigger'
      cases htrigger'
      exact absurd hfits (Nat.not_lt_of_le hhorizon)
    | outgrown => rfl
  · intro h
    have hnot : ¬ t.Ends t.first := by
      rw [ends_first_iff hperiod, h]
      exact nofun
    cases meets_of_eq h with
    | @outgrown interval htrigger _ hhorizon =>
      refine ⟨interval, 0, htrigger, ?_, ?_, hnot⟩
      · rw [Nat.zero_mul, Nat.add_zero]
        rfl
      · rw [Nat.zero_add, Nat.one_mul]
        exact hhorizon

end First

end

end Task

/-! ### Tasks that are due -/

namespace Scheduler

theorem takeReady_perm_filter (s : Scheduler) (now : Nat) :
    (s.takeReady now).1.Perm (s.tasks.filter (·.nextRun ≤ now)) := List.mergeSort_perm _ _

/-- Taking out what is due loses no task and doubles none. -/
theorem takeReady_perm (s : Scheduler) (now : Nat) :
    ((s.takeReady now).1 ++ (s.takeReady now).2.tasks).Perm s.tasks :=
  ((s.takeReady_perm_filter now).append_right _).trans (List.filter_append_perm _ _)

theorem lt_nextRun_of_left {s : Scheduler} {now : Nat} {t : Task} (h : t ∈ (s.takeReady now).2.tasks) :
    now < t.nextRun := by
  have hlate := (List.mem_filter.mp h).2
  simp only [Bool.not_eq_true', decide_eq_false_iff_not] at hlate
  exact Nat.lt_of_not_le hlate

/-- What is due comes in the order of the timetable. -/
theorem takeReady_ordered (s : Scheduler) (now : Nat) :
    (s.takeReady now).1.Pairwise fun a b => Task.before a b = true := by
  refine List.pairwise_mergeSort (fun a b c hab hbc => ?_) (fun a b => ?_) _
  · simp only [Task.before, Bool.or_eq_true, Bool.and_eq_true, decide_eq_true_eq, beq_iff_eq] at hab hbc ⊢
    omega
  · simp only [Task.before, Bool.or_eq_true, Bool.and_eq_true, decide_eq_true_eq, beq_iff_eq]
    omega

/-- Distinct numbers make the order a strict one. -/
theorem takeReady_earlier {s : Scheduler} (hdistinct : (s.tasks.map Task.id).Nodup) (now : Nat) :
    (s.takeReady now).1.Pairwise fun a b => Earlier a.first b.first := by
  have hready : ((s.takeReady now).1.map Task.id).Nodup := by
    have hall := ((s.takeReady_perm now).map Task.id).nodup_iff.mpr hdistinct
    rw [List.map_append] at hall
    exact (List.nodup_append.mp hall).1
  have hne : (s.takeReady now).1.Pairwise fun a b => a.id ≠ b.id := List.pairwise_map.mp hready
  refine ((s.takeReady_ordered now).and hne).imp fun {a b} hab => ?_
  obtain ⟨hbefore, hneq⟩ := hab
  simp only [Task.before, Bool.or_eq_true, Bool.and_eq_true, decide_eq_true_eq, beq_iff_eq] at hbefore
  simp only [Earlier, Task.first]
  omega

theorem nextWakeup_eq_none_iff {s : Scheduler} : s.nextWakeup = none ↔ s.tasks = [] := by
  rw [nextWakeup, List.min?_eq_none_iff, List.map_eq_nil_iff]

theorem nextWakeup_eq_some_iff {s : Scheduler} {moment : Nat} :
    s.nextWakeup = some moment ↔ (∃ t ∈ s.tasks, t.nextRun = moment) ∧ ∀ t ∈ s.tasks, moment ≤ t.nextRun := by
  rw [nextWakeup, List.min?_eq_some_iff, List.mem_map, List.forall_mem_map]

end Scheduler

/-! ### The timetable of all tasks -/

namespace Timetable

/-- The entries of a timetable. -/
def Plans (tasks : List Task) (p : Nat × Nat) : Prop := ∃ t ∈ tasks, t.Plans p

/-- The entries of the last runs of counted tasks. -/
def Ends (tasks : List Task) (p : Nat × Nat) : Prop := ∃ t ∈ tasks, t.Ends p

/-- The entries after which the clock cannot hold the next one of the task. -/
def Outgrows (tasks : List Task) (p : Nat × Nat) : Prop := ∃ t ∈ tasks, t.Outgrows p

/-- Tasks with a timetable: their numbers are distinct, what repeats does so after a
while, and nothing is overdue. -/
structure WellTimed (clock : Nat) (tasks : List Task) : Prop where
  distinct : (tasks.map Task.id).Nodup
  periodic : ∀ t ∈ tasks, ∀ interval, t.trigger = .every interval → 0 < interval
  ahead : ∀ t ∈ tasks, clock ≤ t.nextRun

/-- The tasks that are due first, in their order, and the others. -/
structure Split (tasks : List Task) (moment : Nat) (ready pending : List Task) : Prop where
  perm : (ready ++ pending).Perm tasks
  due : ∀ t ∈ ready, t.nextRun = moment
  later : ∀ t ∈ pending, moment < t.nextRun
  ordered : ready.Pairwise (·.id < ·.id)

/-- The next wakeup splits the tasks. -/
theorem split_takeReady {s : Scheduler} {clock moment : Nat} (h : WellTimed clock s.tasks)
    (hnext : s.nextWakeup = some moment) :
    Split s.tasks moment (s.takeReady moment).1 (s.takeReady moment).2.tasks := by
  have hleast : ∀ t ∈ s.tasks, moment ≤ t.nextRun := (Scheduler.nextWakeup_eq_some_iff.mp hnext).2
  have hdue : ∀ t ∈ (s.takeReady moment).1, t.nextRun = moment := by
    intro t ht
    obtain ⟨hmem, hle⟩ := List.mem_filter.mp ((s.takeReady_perm_filter moment).mem_iff.mp ht)
    exact Nat.le_antisymm (of_decide_eq_true hle) (hleast t hmem)
  refine ⟨s.takeReady_perm moment, hdue, fun t ht => Scheduler.lt_nextRun_of_left ht, ?_⟩
  -- the order is by moment and number, and here the moments are the same
  refine (Scheduler.takeReady_earlier h.distinct moment).imp_of_mem fun {a b} ha hb hab => ?_
  simp only [Earlier, Task.first, hdue a ha, hdue b hb] at hab
  omega

/-- The tasks that are armed when those that are due have been fired. -/
def onward (ready pending : List Task) : List Task := pending ++ ready.filterMap Task.again?

section Split

variable {clock moment : Nat} {tasks ready pending : List Task} (h : Split tasks moment ready pending)
  (hwell : WellTimed clock tasks) {p : Nat × Nat}

include h

theorem Split.mem_iff {t : Task} : t ∈ tasks ↔ t ∈ ready ∨ t ∈ pending := by
  rw [← h.perm.mem_iff, List.mem_append]

/-- The entries of the moment belong to the tasks that are due. -/
theorem Split.of_plans (hp : Plans tasks p) : (∃ t ∈ ready, p = t.first) ∨ moment < p.1 := by
  obtain ⟨t, ht, hp⟩ := hp
  rcases h.mem_iff.mp ht with hready | hpending
  · rcases Nat.eq_or_lt_of_le hp.nextRun_le with heq | hlt
    · exact .inl ⟨t, hready, Prod.ext heq.symm hp.id_eq⟩
    · rw [h.due t hready] at hlt
      exact .inr hlt
  · exact .inr (Nat.lt_of_lt_of_le (h.later t hpending) hp.nextRun_le)

theorem Split.plans_first {t : Task} (ht : t ∈ ready) : Plans tasks t.first :=
  ⟨t, h.mem_iff.mpr (.inl ht), t.plans_first⟩

theorem Split.first_fst {t : Task} (ht : t ∈ ready) : t.first.1 = moment := h.due t ht

include hwell in
/-- An entry belongs to one task. -/
theorem Split.eq_of_id {t u : Task} (ht : t ∈ ready) (hu : u ∈ tasks) (hid : t.id = u.id) : u = t :=
  List.inj_on_of_nodup_map hwell.distinct hu (h.mem_iff.mpr (.inl ht)) hid.symm

include hwell in
theorem Split.ends_first_iff {t : Task} (ht : t ∈ ready) : Ends tasks t.first ↔ t.aftermath = .ended := by
  have hmem := h.mem_iff.mpr (.inl ht)
  rw [← Task.ends_first_iff (hwell.periodic t hmem)]
  refine ⟨fun ⟨u, hu, hends⟩ => ?_, fun hends => ⟨t, hmem, hends⟩⟩
  rwa [h.eq_of_id hwell ht hu hends.plans.id_eq] at hends

include hwell in
theorem Split.outgrows_first_iff {t : Task} (ht : t ∈ ready) :
    Outgrows tasks t.first ↔ t.aftermath = .outgrown := by
  have hmem := h.mem_iff.mpr (.inl ht)
  rw [← Task.outgrows_first_iff (hwell.periodic t hmem)]
  refine ⟨fun ⟨u, hu, hgrown⟩ => ?_, fun hgrown => ⟨t, hmem, hgrown⟩⟩
  rwa [h.eq_of_id hwell ht hu hgrown.plans.id_eq] at hgrown

/-- What is armed after the round is due later. -/
theorem Split.lt_of_mem_onward (hwell : WellTimed clock tasks) {t : Task} (ht : t ∈ onward ready pending) :
    moment < t.nextRun := by
  rcases List.mem_append.mp ht with hpending | hagain
  · exact h.later t hpending
  · obtain ⟨u, hu, hagain⟩ := List.mem_filterMap.mp hagain
    obtain ⟨interval, htrigger, -, -, rfl⟩ := Task.again_of_eq (Task.again?_eq_some_iff.mp hagain)
    have hpos := hwell.periodic u (h.mem_iff.mpr (.inl hu)) interval htrigger
    show moment < u.nextRun + interval
    rw [h.due u hu]
    omega

theorem Split.lt_of_plans_onward (hwell : WellTimed clock tasks) (hp : Plans (onward ready pending) p) :
    moment < p.1 := by
  obtain ⟨t, ht, hp⟩ := hp
  exact Nat.lt_of_lt_of_le (h.lt_of_mem_onward hwell ht) hp.nextRun_le

theorem Split.wellTimed (hwell : WellTimed clock tasks) : WellTimed moment (onward ready pending) := by
  refine ⟨?_, fun t ht => ?_, fun t ht => Nat.le_of_lt (h.lt_of_mem_onward hwell ht)⟩
  · have hids : ((ready.filterMap Task.again?).map Task.id).Sublist (ready.map Task.id) := by
      clear h hwell
      induction ready with
      | nil => exact List.Sublist.refl _
      | cons t rest ih =>
        rw [List.map_cons]
        cases hagain : t.again? with
        | none =>
          rw [List.filterMap_cons_none hagain]
          exact ih.cons _
        | some u =>
          have hid : u.id = t.id := by
            obtain ⟨interval, -, -, -, rfl⟩ := Task.again_of_eq (Task.again?_eq_some_iff.mp hagain)
            rfl
          rw [List.filterMap_cons_some hagain, List.map_cons, hid]
          exact ih.cons_cons _
    have hall := (h.perm.map Task.id).nodup_iff.mpr hwell.distinct
    rw [List.map_append] at hall
    rw [onward, List.map_append]
    exact (List.perm_append_comm.nodup_iff).mp (hall.sublist (hids.append_right _))
  · rcases List.mem_append.mp ht with hpending | hagain
    · exact hwell.periodic t (h.mem_iff.mpr (.inr hpending))
    · obtain ⟨u, hu, hagain⟩ := List.mem_filterMap.mp hagain
      obtain ⟨interval, -, -, -, rfl⟩ := Task.again_of_eq (Task.again?_eq_some_iff.mp hagain)
      exact hwell.periodic u (h.mem_iff.mpr (.inl hu))

section Passing

variable (hpass : ∀ t ∈ ready, t.Passes)
include hpass

/-- What holds of a task with what it is planned for next, and of the tasks that are
armed after the round with what they are planned for. -/
theorem Split.exists_iff {F first : Task → Prop} (hgone : ∀ t, t.aftermath = .gone → (F t ↔ first t))
    (hagain : ∀ t u, t.aftermath = .again u → (F t ↔ first t ∨ F u)) :
    (∃ t ∈ tasks, F t) ↔ (∃ t ∈ ready, first t) ∨ ∃ t ∈ onward ready pending, F t := by
  constructor
  · rintro ⟨t, ht, hF⟩
    rcases h.mem_iff.mp ht with hready | hpending
    · rcases hafter : t.aftermath with u | - | - | -
      · rcases (hagain t u hafter).mp hF with hfirst | hF
        · exact .inl ⟨t, hready, hfirst⟩
        · refine .inr ⟨u, List.mem_append_right _ (List.mem_filterMap.mpr ⟨t, hready, ?_⟩), hF⟩
          exact Task.again?_eq_some_iff.mpr hafter
      · exact .inl ⟨t, hready, (hgone t hafter).mp hF⟩
      · exact absurd hafter (hpass t hready).1
      · exact absurd hafter (hpass t hready).2
    · exact .inr ⟨t, List.mem_append_left _ hpending, hF⟩
  · rintro (⟨t, hready, hfirst⟩ | ⟨u, hu, hF⟩)
    · refine ⟨t, h.mem_iff.mpr (.inl hready), ?_⟩
      rcases hafter : t.aftermath with u | - | - | -
      · exact (hagain t u hafter).mpr (.inl hfirst)
      · exact (hgone t hafter).mpr hfirst
      · exact absurd hafter (hpass t hready).1
      · exact absurd hafter (hpass t hready).2
    · rcases List.mem_append.mp hu with hpending | hmem
      · exact ⟨u, h.mem_iff.mpr (.inr hpending), hF⟩
      · obtain ⟨t, hready, hafter⟩ := List.mem_filterMap.mp hmem
        refine ⟨t, h.mem_iff.mpr (.inl hready), ?_⟩
        exact (hagain t u (Task.again?_eq_some_iff.mp hafter)).mpr (.inr hF)

/-- **A round takes the first entries off the timetable.** -/
theorem Split.plans_iff : Plans tasks p ↔ (∃ t ∈ ready, p = t.first) ∨ Plans (onward ready pending) p :=
  h.exists_iff hpass (fun _ hgone => (Task.of_gone hgone).1) fun _ _ hagain => Task.plans_of_again hagain

/-- What a round leaves as it is. -/
theorem Split.exists_iff_of_kept {F : Task → Prop} (hgone : ∀ t, t.aftermath = .gone → ¬ F t)
    (hagain : ∀ t u, t.aftermath = .again u → (F t ↔ F u)) :
    (∃ t ∈ tasks, F t) ↔ ∃ t ∈ onward ready pending, F t := by
  have hiff : (∃ t ∈ tasks, F t) ↔ (∃ t ∈ ready, False) ∨ ∃ t ∈ onward ready pending, F t := by
    refine h.exists_iff hpass (fun t hafter => iff_false_intro (hgone t hafter)) fun t u hafter => ?_
    rw [hagain t u hafter, false_or]
  simpa only [and_false, exists_false, false_or] using hiff

theorem Split.ends_iff : Ends tasks p ↔ Ends (onward ready pending) p :=
  h.exists_iff_of_kept hpass (fun _ hgone => (Task.of_gone hgone).2.1) fun _ _ hagain => Task.ends_of_again hagain

theorem Split.outgrows_iff : Outgrows tasks p ↔ Outgrows (onward ready pending) p :=
  h.exists_iff_of_kept hpass (fun _ hgone => (Task.of_gone hgone).2.2) fun _ _ hagain =>
    Task.outgrows_of_again hagain

end Passing

end Split

/-! ### Runs through a timetable -/

/-- Firings in their order, how the run of them has ended, and the tasks that are
armed then, as the timetable of the given tasks has it. -/
structure Realises (tasks : List Task) (pairs : List (Nat × Nat)) (outcome : Outcome RunEnd)
    (left : List Task) : Prop where
  /-- The firings are in the order of the timetable, -/
  increasing : pairs.Pairwise Earlier
  /-- entries of it, -/
  planned : ∀ p ∈ pairs, Plans tasks p
  /-- and none is left out. -/
  gapless : ∀ p ∈ pairs, ∀ q, Plans tasks q → Earlier q p → q ∈ pairs
  /-- The last run of a counted task is followed by nothing but the end of the run. -/
  ends : ∀ p ∈ pairs, Ends tasks p →
    pairs.getLast? = some p ∧ (outcome = .done .halted ∨ outcome = .unfinished)
  /-- A run has no next one if the clock cannot hold it. -/
  outgrows : ∀ p ∈ pairs, Outgrows tasks p →
    pairs.getLast? = some p ∧ (outcome = .clockOverflow ∨ outcome = .unfinished)
  halted : outcome = .done .halted → ∃ p, pairs.getLast? = some p ∧ Ends tasks p
  overflow : outcome = .clockOverflow → ∃ p, pairs.getLast? = some p ∧ Outgrows tasks p
  completed : outcome = .done .completed → (∀ p, Plans tasks p → p ∈ pairs) ∧ left = []
  succeeds : ∀ e, outcome ≠ .failed e

/-- How a run breaks off after some firings of a round. -/
inductive BreaksOff (fired : List Task) : Outcome RunEnd → Prop
  | unfinished : BreaksOff fired .unfinished
  | halted {t : Task} : fired.getLast? = some t → t.aftermath = .ended → BreaksOff fired (.done .halted)
  | overflow {t : Task} : fired.getLast? = some t → t.aftermath = .outgrown → BreaksOff fired .clockOverflow

theorem BreaksOff.cons {fired : List Task} {outcome : Outcome RunEnd} (h : BreaksOff fired outcome) (t : Task) :
    BreaksOff (t :: fired) outcome := by
  have hlast {u : Task} (hu : fired.getLast? = some u) : (t :: fired).getLast? = some u := by
    rw [List.getLast?_cons, hu, Option.getD_some]
  cases h with
  | unfinished => exact .unfinished
  | halted hu hended => exact .halted (hlast hu) hended
  | overflow hu hgrown => exact .overflow (hlast hu) hgrown

/-- A run that has not begun. -/
theorem realises_unfinished (tasks left : List Task) : Realises tasks [] .unfinished left :=
  ⟨.nil, nofun, nofun, nofun, nofun, nofun, nofun, nofun, nofun⟩

/-- Nothing is planned without tasks. -/
theorem realises_nil : Realises [] [] (.done .completed) [] := by
  refine ⟨.nil, nofun, nofun, nofun, nofun, nofun, nofun, fun _ => ⟨?_, rfl⟩, nofun⟩
  rintro p ⟨t, ht, -⟩
  exact absurd ht List.not_mem_nil

/-- What is in a list and not before its end is at its end. -/
theorem getLast?_of_mem_of_not_mem {α : Type} {l : List α} {a : α} (ha : a ∈ l) (hnot : a ∉ l.dropLast) :
    l.getLast? = some a := by
  have hne := List.ne_nil_of_mem ha
  rw [← List.dropLast_concat_getLast hne, List.mem_append, List.mem_singleton] at ha
  rw [ha.resolve_left hnot]
  exact List.getLast?_eq_some_getLast hne

section Realises

variable {clock moment : Nat} {tasks ready pending : List Task} (h : Split tasks moment ready pending)
  (hwell : WellTimed clock tasks) {outcome : Outcome RunEnd} {left : List Task}
include h

/-- The entries of a round are in order. -/
theorem Split.increasing : (ready.map Task.first).Pairwise Earlier := by
  rw [List.pairwise_map]
  refine h.ordered.imp_of_mem fun {a b} ha hb hab => .inr ⟨?_, hab⟩
  rw [h.first_fst ha, h.first_fst hb]

/-- What is planned before an entry of a round is another one. -/
theorem Split.of_earlier {t : Task} (ht : t ∈ ready) {q : Nat × Nat} (hq : Plans tasks q) (hlt : Earlier q t.first) :
    ∃ u ∈ ready, q = u.first ∧ u.id < t.id := by
  rw [Earlier, h.first_fst ht] at hlt
  rcases h.of_plans hq with ⟨u, hu, rfl⟩ | hlater
  · rw [h.first_fst hu] at hlt
    exact ⟨u, hu, rfl, (hlt.resolve_left (Nat.lt_irrefl _)).2⟩
  · omega

include hwell

/-- **A round and then the rest.** -/
theorem Realises.follow (hpass : ∀ t ∈ ready, t.Passes) {pairs : List (Nat × Nat)}
    (hrest : Realises (onward ready pending) pairs outcome left) :
    Realises tasks (ready.map Task.first ++ pairs) outcome left := by
  have hlast {p : Nat × Nat} (hp : pairs.getLast? = some p) :
      (ready.map Task.first ++ pairs).getLast? = some p := by
    rw [List.getLast?_append, hp, Option.some_or]
  refine ⟨?_, ?_, ?_, ?_, ?_, fun hhalted => ?_, fun hover => ?_, fun hdone => ?_, hrest.succeeds⟩
  · refine List.pairwise_append.mpr ⟨h.increasing, hrest.increasing, fun p hp q hq => .inl ?_⟩
    obtain ⟨t, ht, rfl⟩ := List.mem_map.mp hp
    rw [h.first_fst ht]
    exact h.lt_of_plans_onward hwell (hrest.planned q hq)
  · intro p hp
    rcases List.mem_append.mp hp with hp | hp
    · obtain ⟨t, ht, rfl⟩ := List.mem_map.mp hp
      exact h.plans_first ht
    · exact (h.plans_iff hpass).mpr (.inr (hrest.planned p hp))
  · intro p hp q hq hlt
    rcases List.mem_append.mp hp with hp | hp
    · obtain ⟨t, ht, rfl⟩ := List.mem_map.mp hp
      obtain ⟨u, hu, rfl, -⟩ := h.of_earlier ht hq hlt
      exact List.mem_append_left _ (List.mem_map_of_mem hu)
    · rcases (h.plans_iff hpass).mp hq with ⟨u, hu, rfl⟩ | hq
      · exact List.mem_append_left _ (List.mem_map_of_mem hu)
      · exact List.mem_append_right _ (hrest.gapless p hp q hq hlt)
  · intro p hp hends
    rcases List.mem_append.mp hp with hp | hp
    · obtain ⟨t, ht, rfl⟩ := List.mem_map.mp hp
      exact absurd ((h.ends_first_iff hwell ht).mp hends) (hpass t ht).1
    · obtain ⟨hp, hend⟩ := hrest.ends p hp ((h.ends_iff hpass).mp hends)
      exact ⟨hlast hp, hend⟩
  · intro p hp hgrown
    rcases List.mem_append.mp hp with hp | hp
    · obtain ⟨t, ht, rfl⟩ := List.mem_map.mp hp
      exact absurd ((h.outgrows_first_iff hwell ht).mp hgrown) (hpass t ht).2
    · obtain ⟨hp, hend⟩ := hrest.outgrows p hp ((h.outgrows_iff hpass).mp hgrown)
      exact ⟨hlast hp, hend⟩
  · obtain ⟨p, hp, hends⟩ := hrest.halted hhalted
    exact ⟨p, hlast hp, (h.ends_iff hpass).mpr hends⟩
  · obtain ⟨p, hp, hgrown⟩ := hrest.overflow hover
    exact ⟨p, hlast hp, (h.outgrows_iff hpass).mpr hgrown⟩
  · obtain ⟨hall, hleft⟩ := hrest.completed hdone
    refine ⟨fun p hp => ?_, hleft⟩
    rcases (h.plans_iff hpass).mp hp with ⟨t, ht, rfl⟩ | hp
    · exact List.mem_append_left _ (List.mem_map_of_mem ht)
    · exact List.mem_append_right _ (hall p hp)

/-- **A round that breaks off.** -/
theorem Realises.cut {fired rest : List Task} (hready : ready = fired ++ rest)
    (hpass : ∀ t ∈ fired.dropLast, t.Passes) (hend : BreaksOff fired outcome) :
    Realises tasks (fired.map Task.first) outcome left := by
  have hmem {t : Task} (ht : t ∈ fired) : t ∈ ready := hready ▸ List.mem_append_left _ ht
  have hlast {t : Task} (ht : fired.getLast? = some t) : (fired.map Task.first).getLast? = some t.first := by
    rw [List.getLast?_map, ht, Option.map_some]
  -- a task whose firing stops the run is the last one
  have hstop {t : Task} (ht : t ∈ fired) (hnot : ¬ t.Passes) : fired.getLast? = some t :=
    getLast?_of_mem_of_not_mem ht fun hbefore => hnot (hpass t hbefore)
  refine ⟨?_, ?_, ?_, ?_, ?_, fun hhalted => ?_, fun hover => ?_, fun hdone => ?_, ?_⟩
  · refine h.increasing.sublist ?_
    rw [hready, List.map_append]
    exact List.sublist_append_left _ _
  · intro p hp
    obtain ⟨t, ht, rfl⟩ := List.mem_map.mp hp
    exact h.plans_first (hmem ht)
  · intro p hp q hq hlt
    obtain ⟨t, ht, rfl⟩ := List.mem_map.mp hp
    obtain ⟨u, hu, rfl, hid⟩ := h.of_earlier (hmem ht) hq hlt
    have hordered := h.ordered
    rw [hready] at hu hordered
    rcases List.mem_append.mp hu with hu | hu
    · exact List.mem_map_of_mem hu
    · exact absurd hid (Nat.lt_asymm ((List.pairwise_append.mp hordered).2.2 t ht u hu))
  · intro p hp hends
    obtain ⟨t, ht, rfl⟩ := List.mem_map.mp hp
    have hafter := (h.ends_first_iff hwell (hmem ht)).mp hends
    have hgetLast := hstop ht fun hpass => hpass.1 hafter
    refine ⟨hlast hgetLast, ?_⟩
    cases hend with
    | unfinished => exact .inr rfl
    | halted => exact .inl rfl
    | overflow ht' hgrown =>
      rw [hgetLast] at ht'
      cases ht'
      rw [hafter] at hgrown
      cases hgrown
  · intro p hp hgrown
    obtain ⟨t, ht, rfl⟩ := List.mem_map.mp hp
    have hafter := (h.outgrows_first_iff hwell (hmem ht)).mp hgrown
    have hgetLast := hstop ht fun hpass => hpass.2 hafter
    refine ⟨hlast hgetLast, ?_⟩
    cases hend with
    | unfinished => exact .inr rfl
    | overflow => exact .inl rfl
    | halted ht' hended =>
      rw [hgetLast] at ht'
      cases ht'
      rw [hafter] at hended
      cases hended
  · cases hend with
    | halted ht hended =>
      exact ⟨_, hlast ht, (h.ends_first_iff hwell (hmem (List.mem_of_getLast? ht))).mpr hended⟩
    | unfinished | overflow => cases hhalted
  · cases hend with
    | overflow ht hgrown =>
      exact ⟨_, hlast ht, (h.outgrows_first_iff hwell (hmem (List.mem_of_getLast? ht))).mpr hgrown⟩
    | unfinished | halted => cases hover
  · cases hend with
    | unfinished | halted | overflow => cases hdone
  · intro e he
    cases hend with
    | unfinished | halted | overflow => cases he

end Realises

namespace Realises

variable {tasks left : List Task} {pairs : List (Nat × Nat)} {outcome : Outcome RunEnd}
  (h : Realises tasks pairs outcome left) {p : Nat × Nat}
include h

/-- What is planned is fired, unless something fired stops the run before. -/
theorem mem_of_fired {q : Nat × Nat} (hq : pairs.getLast? = some q) (hp : Plans tasks p) (hlt : ¬ Earlier q p) :
    p ∈ pairs := by
  have hmem := List.mem_of_getLast? hq
  rcases earlier_or_eq_or_earlier p q with hearlier | rfl | hlater
  · exact h.gapless q hmem p hp hearlier
  · exact hmem
  · exact absurd hlater hlt

/-- In a run that has ended everything has been fired before which nothing stops it. -/
theorem mem_of_ended (hended : outcome ≠ .unfinished) (hp : Plans tasks p)
    (hfirst : ∀ q, Earlier q p → ¬ Ends tasks q ∧ ¬ Outgrows tasks q) : p ∈ pairs := by
  rcases houtcome : outcome with (- | -) | e | - | -
  · exact (h.completed houtcome).1 p hp
  · obtain ⟨q, hq, hends⟩ := h.halted houtcome
    exact h.mem_of_fired hq hp fun hlt => (hfirst q hlt).1 hends
  · exact absurd houtcome (h.succeeds e)
  · obtain ⟨q, hq, hgrown⟩ := h.overflow houtcome
    exact h.mem_of_fired hq hp fun hlt => (hfirst q hlt).2 hgrown
  · exact absurd houtcome hended

/-- A run that has ended has been ended by a counted task, if one makes its last run
before the clock is outgrown. -/
theorem halted_of_ends (hended : outcome ≠ .unfinished) (hp : Ends tasks p)
    (hfirst : ∀ q, Earlier q p → ¬ Outgrows tasks q) : outcome = .done .halted := by
  have hplans : Plans tasks p := by
    obtain ⟨t, ht, hends⟩ := hp
    exact ⟨t, ht, hends.plans⟩
  have hfired (hmem : p ∈ pairs) : outcome = .done .halted := (h.ends p hmem hp).2.resolve_right hended
  rcases houtcome : outcome with (- | -) | e | - | -
  · exact houtcome ▸ hfired ((h.completed houtcome).1 p hplans)
  · rfl
  · exact absurd houtcome (h.succeeds e)
  · obtain ⟨q, hq, hgrown⟩ := h.overflow houtcome
    exact houtcome ▸ hfired (h.mem_of_fired hq hplans fun hlt => hfirst q hlt hgrown)
  · exact absurd houtcome hended

/-- A run of tasks that fire once ends by itself. -/
theorem completed_of_once (hended : outcome ≠ .unfinished) (honce : ∀ t ∈ tasks, ∃ moment, t.trigger = .once moment) :
    outcome = .done .completed := by
  rcases houtcome : outcome with (- | -) | e | - | -
  · rfl
  · obtain ⟨q, -, t, ht, interval, n, hevery, -⟩ := h.halted houtcome
    obtain ⟨moment, hmoment⟩ := honce t ht
    rw [hmoment] at hevery
    cases hevery
  · exact absurd houtcome (h.succeeds e)
  · obtain ⟨q, -, t, ht, interval, k, hevery, -⟩ := h.overflow houtcome
    obtain ⟨moment, hmoment⟩ := honce t ht
    rw [hmoment] at hevery
    cases hevery
  · exact absurd houtcome hended

end Realises

/-- How far a run has come: there is more, and what is planned up to a moment has
been fired and stops nothing. -/
def Advanced (bound : Nat) (tasks : List Task) (pairs : List (Nat × Nat)) : Prop :=
  (∃ p, Plans tasks p ∧ bound < p.1) ∧
    ∀ p, Plans tasks p → p.1 ≤ bound → p ∈ pairs ∧ ¬ Ends tasks p ∧ ¬ Outgrows tasks p

section Advanced

variable {clock moment bound : Nat} {tasks ready pending : List Task} (h : Split tasks moment ready pending)
include h

/-- A run that has not come to its first round yet. -/
theorem Advanced.of_lt (hne : tasks ≠ []) (hbound : bound < moment) (pairs : List (Nat × Nat)) :
    Advanced bound tasks pairs := by
  have hlater {p : Nat × Nat} (hp : Plans tasks p) : bound < p.1 := by
    rcases h.of_plans hp with ⟨t, ht, rfl⟩ | hlt
    · rwa [h.first_fst ht]
    · exact Nat.lt_trans hbound hlt
  obtain ⟨t, ht⟩ := List.exists_mem_of_ne_nil tasks hne
  have hfirst : Plans tasks t.first := ⟨t, ht, t.plans_first⟩
  exact ⟨⟨t.first, hfirst, hlater hfirst⟩, fun p hp hle => absurd (hlater hp) (Nat.not_lt_of_le hle)⟩

/-- A round brings a run as far as the rest of it comes. -/
theorem Advanced.follow (hwell : WellTimed clock tasks) (hpass : ∀ t ∈ ready, t.Passes) {pairs : List (Nat × Nat)}
    (hrest : Advanced bound (onward ready pending) pairs) :
    Advanced bound tasks (ready.map Task.first ++ pairs) := by
  obtain ⟨⟨p, hp, hlt⟩, hfired⟩ := hrest
  refine ⟨⟨p, (h.plans_iff hpass).mpr (.inr hp), hlt⟩, fun q hq hle => ?_⟩
  rcases (h.plans_iff hpass).mp hq with ⟨t, ht, rfl⟩ | hq
  · refine ⟨List.mem_append_left _ (List.mem_map_of_mem ht), fun hends => ?_, fun hgrown => ?_⟩
    · exact (hpass t ht).1 ((h.ends_first_iff hwell ht).mp hends)
    · exact (hpass t ht).2 ((h.outgrows_first_iff hwell ht).mp hgrown)
  · rw [h.ends_iff hpass, h.outgrows_iff hpass]
    obtain ⟨hmem, hstops⟩ := hfired q hq hle
    exact ⟨List.mem_append_right _ hmem, hstops⟩

end Advanced

end Timetable

end SealedScript

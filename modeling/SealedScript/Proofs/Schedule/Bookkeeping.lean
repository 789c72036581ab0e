/-
SealedScript/Proofs/Schedule/Bookkeeping.lean

A scheduler keeps its books, whatever it is asked for and in whatever order.  Tasks
leave it when they fall due or are disarmed, and those that were taken out are
changed by their firings and come back or are dropped; a `Desk` is a scheduler
together with the tasks that are out and the numbers that have been given out.

Numbers are given out in order and each to one task only, because no request but the
arming of a task adds one: the numbers in use are always some of those given out
(`Desk.InOrder`).  That makes the order in which due tasks fire a strict one, and
makes a disarming hit the one task that is meant.

Main result: `scheduler_keeps_its_books`.
-/
import Mathlib.Data.List.Perm.Basic
import Mathlib.Data.List.Perm.Subperm
import SealedScript.Proofs.Schedule.Timetable

namespace SealedScript

/-! ### Requests -/

/-- What can be asked of a scheduler.  Tasks that have been taken out are named by
their places among those that are out. -/
inductive Request where
  | every (now : Nat) (action : Stmt) (interval : Nat) (runs : Option Nat)
  | once (action : Stmt) (moment : Nat)
  | cancel (id : Nat)
  | clear
  | takeReady (now : Nat)
  | tick (place : Nat)
  | putBack (place : Nat)
  | drop (place : Nat)

/-- A scheduler, the tasks that have been taken out of it, and the numbers that it has
given out so far. -/
structure Desk where
  scheduler : Scheduler := {}
  taken : List Task := []
  issued : List Nat := []

namespace Desk

/-- Notes the number that an arming has given out. -/
def arm (d : Desk) (armed : Nat × Scheduler) : Desk :=
  { d with scheduler := armed.2, issued := d.issued ++ [armed.1] }

/-- The desk after a request.  Nothing happens to a task that is not out. -/
def serve (d : Desk) : Request → Desk
  | .every now action interval runs => d.arm (d.scheduler.addEvery now action interval runs)
  | .once action moment => d.arm (d.scheduler.addOnce action moment)
  | .cancel id => { d with scheduler := (d.scheduler.cancel id).2 }
  | .clear => { d with scheduler := d.scheduler.clear }
  | .takeReady now =>
    { d with scheduler := (d.scheduler.takeReady now).2, taken := d.taken ++ (d.scheduler.takeReady now).1 }
  | .tick place => { d with taken := d.taken.modify place (·.tick.2) }
  | .putBack place =>
    match d.taken[place]? with
    | none => d
    | some t => { d with scheduler := d.scheduler.putBack t, taken := d.taken.eraseIdx place }
  | .drop place => { d with taken := d.taken.eraseIdx place }

/-- The tasks that are armed or out. -/
def tasks (d : Desk) : List Task := d.scheduler.tasks ++ d.taken

/-- The numbers of the tasks that are armed or out. -/
def ids (d : Desk) : List Nat := d.tasks.map Task.id

/-! ### Numbers in use -/

/-- The numbers from one on have been given out, and those in use are among them, each
for one task. -/
structure InOrder (d : Desk) : Prop where
  issued : d.issued = List.range' 1 d.issued.length
  next : d.scheduler.nextId = d.issued.length + 1
  inUse : d.ids.Subperm d.issued

variable {d d' : Desk}

theorem inOrder_new : ({} : Desk).InOrder := ⟨rfl, rfl, List.nil_subperm⟩

/-- Arming a task uses the number that it gives out. -/
theorem InOrder.arm (h : d.InOrder) (action : Stmt) (trigger : Trigger) (nextRun : Nat) (runs : Option Nat) :
    (d.arm (d.scheduler.add action trigger nextRun runs)).InOrder := by
  refine ⟨?_, ?_, ?_⟩
  · have hissued := h.issued
    simp only [Desk.arm, Scheduler.add, h.next, List.length_append, List.length_singleton,
      List.range'_concat, Nat.one_mul, ← hissued, Nat.add_comm 1]
  · simp only [Desk.arm, Scheduler.add, h.next, List.length_append, List.length_singleton]
  · have hids : (d.arm (d.scheduler.add action trigger nextRun runs)).ids.Perm
        (d.ids ++ [d.scheduler.nextId]) := by
      simp only [ids, tasks, Desk.arm, Scheduler.add, List.map_append, List.map_cons, List.map_nil,
        List.append_assoc]
      exact List.perm_append_comm.append_left _
    exact hids.subperm.trans (h.inUse.append (List.Subperm.refl _))

/-- Requests that give out no number use no more numbers than before. -/
theorem InOrder.of_subperm (h : d.InOrder) (hnext : d'.scheduler.nextId = d.scheduler.nextId)
    (hissued : d'.issued = d.issued) (hids : d'.ids.Subperm d.ids) : d'.InOrder := by
  refine ⟨?_, ?_, ?_⟩
  · rw [hissued]
    exact h.issued
  · rw [hnext, hissued]
    exact h.next
  · rw [hissued]
    exact hids.trans h.inUse

theorem map_id_modify_tick (taken : List Task) (place : Nat) :
    (taken.modify place (·.tick.2)).map Task.id = taken.map Task.id := by
  induction taken generalizing place with
  | nil => rw [List.modify_nil]
  | cons t taken ih =>
    cases place with
    | zero => simp only [List.modify_zero_cons, List.map_cons, Task.id_tick]
    | succ place => simp only [List.modify_succ_cons, List.map_cons, ih]

/-- A task that is out and comes back is one that was there before. -/
theorem putBack_perm {s : Scheduler} {taken : List Task} {place : Nat} {t : Task} (h : taken[place]? = some t) :
    ((s.putBack t).tasks ++ taken.eraseIdx place).Perm (s.tasks ++ taken) := by
  obtain ⟨hplace, rfl⟩ := List.getElem?_eq_some_iff.mp h
  simp only [Scheduler.putBack, List.append_assoc, List.singleton_append]
  exact (List.getElem_cons_eraseIdx_perm hplace).append_left _

/-- **Every request keeps the numbers in order.** -/
theorem InOrder.serve (h : d.InOrder) (request : Request) : (d.serve request).InOrder := by
  cases request with
  | every now action interval runs => exact h.arm action _ _ _
  | once action moment => exact h.arm action _ _ _
  | cancel id =>
    refine h.of_subperm rfl rfl (List.Sublist.subperm ?_)
    exact ((List.filter_sublist).append_right _).map _
  | clear => exact h.of_subperm rfl rfl ((List.sublist_append_right _ _).map _).subperm
  | takeReady now =>
    refine h.of_subperm rfl rfl (List.Perm.subperm (List.Perm.map _ ?_))
    -- what is due only changes sides
    show ((d.scheduler.takeReady now).2.tasks ++ (d.taken ++ (d.scheduler.takeReady now).1)).Perm
      (d.scheduler.tasks ++ d.taken)
    refine List.Perm.trans ?_ ((d.scheduler.takeReady_perm now).append_right d.taken)
    have hswap : (d.taken ++ (d.scheduler.takeReady now).1).Perm ((d.scheduler.takeReady now).1 ++ d.taken) :=
      List.perm_append_comm
    refine (hswap.append_left _).trans ?_
    rw [← List.append_assoc]
    exact List.perm_append_comm.append_right _
  | tick place =>
    refine h.of_subperm rfl rfl (List.Perm.subperm (.of_eq ?_))
    simp only [ids, tasks, Desk.serve, List.map_append, map_id_modify_tick]
  | putBack place =>
    simp only [Desk.serve]
    split
    · exact h
    · next t ht => exact h.of_subperm rfl rfl ((putBack_perm ht).map _).subperm
  | drop place =>
    refine h.of_subperm rfl rfl (List.Sublist.subperm ?_)
    exact ((List.eraseIdx_sublist _ _).append_left _).map _

/-- Whatever has been asked for. -/
theorem inOrder_serveAll (requests : List Request) (h : d.InOrder) : (requests.foldl Desk.serve d).InOrder := by
  induction requests generalizing d with
  | nil => exact h
  | cons request requests ih => exact ih (h.serve request)

theorem InOrder.increasing (h : d.InOrder) : d.issued.Pairwise (· < ·) := by
  rw [h.issued]
  exact List.pairwise_lt_range'

theorem InOrder.lt_nextId (h : d.InOrder) {id : Nat} (hid : id ∈ d.issued) : id < d.scheduler.nextId := by
  rw [h.issued, List.mem_range'_1] at hid
  rw [h.next]
  omega

theorem InOrder.distinct (h : d.InOrder) : d.ids.Nodup := by
  obtain ⟨ids, hperm, hsub⟩ := h.inUse
  exact hperm.nodup_iff.mp ((h.increasing.imp Nat.ne_of_lt).sublist hsub)

end Desk

/-! ### Answers -/

namespace Scheduler

variable {s : Scheduler}

/-- What is left when the due tasks have been taken out is not due. -/
theorem lt_of_nextWakeup_left {now moment : Nat} (h : (s.takeReady now).2.nextWakeup = some moment) :
    now < moment := by
  obtain ⟨⟨t, ht, rfl⟩, -⟩ := nextWakeup_eq_some_iff.mp h
  exact lt_nextRun_of_left ht

theorem cancel_eq_true_iff {id : Nat} : (s.cancel id).1 = true ↔ ∃ t ∈ s.tasks, t.id = id := by
  simp only [cancel, List.any_eq_true, beq_iff_eq]

/-- The task that has the number is disarmed, and no other one. -/
theorem tasks_cancel (hdistinct : (s.tasks.map Task.id).Nodup) {front back : List Task} {t : Task}
    (htasks : s.tasks = front ++ t :: back) : (s.cancel t.id).2.tasks = front ++ back := by
  rw [htasks, List.map_append, List.map_cons, List.nodup_append, List.nodup_cons] at hdistinct
  obtain ⟨-, ⟨hback, -⟩, hfront⟩ := hdistinct
  have hkept {tasks : List Task} (h : ∀ u ∈ tasks, u.id ≠ t.id) : tasks.filter (·.id != t.id) = tasks := by
    refine List.filter_eq_self.mpr fun u hu => ?_
    rw [bne_iff_ne]
    exact h u hu
  have hfront' : ∀ u ∈ front, u.id ≠ t.id := fun u hu =>
    hfront u.id (List.mem_map_of_mem hu) t.id List.mem_cons_self
  have hback' : ∀ u ∈ back, u.id ≠ t.id := by
    intro u hu heq
    exact hback (heq ▸ List.mem_map_of_mem hu)
  simp only [cancel, htasks, List.filter_append, List.filter_cons, bne_self_eq_false, Bool.false_eq_true, if_false,
    hkept hfront', hkept hback']

/-- A number that is not in use disarms nothing. -/
theorem cancel_of_not_armed {id : Nat} (h : ∀ t ∈ s.tasks, t.id ≠ id) : (s.cancel id).2 = s := by
  have hkept : s.tasks.filter (·.id != id) = s.tasks := by
    refine List.filter_eq_self.mpr fun t ht => ?_
    rw [bne_iff_ne]
    exact h t ht
  simp only [cancel, hkept]

end Scheduler

/-- **A scheduler keeps its books.**  After any requests, beginning with nothing armed:
* the numbers have been given out in increasing order, as many as tasks were armed, and
  the next one is the number of armings plus one (so it fits into 32 bits as long as
  fewer than 2^32 - 1 tasks have been armed);
* no two tasks that are armed or out have the same number, and all their numbers have
  been given out;
* what is due is taken out exactly, each task once and strictly in the order of moments
  and numbers, and everything else stays armed in its order, so that the next wakeup,
  if there is one, is later;
* a disarming says whether the number is armed, and takes away the task that has it and
  nothing else;
* the next wakeup is the least moment for which a task is armed, and there is none only
  if no task is armed. -/
theorem scheduler_keeps_its_books (requests : List Request) :
    let d : Desk := requests.foldl Desk.serve {}
    let s := d.scheduler
    (d.issued.Pairwise (· < ·) ∧ s.nextId = d.issued.length + 1) ∧
    ((s.tasks ++ d.taken).map Task.id).Nodup ∧
    (∀ t ∈ s.tasks ++ d.taken, t.id ∈ d.issued ∧ t.id < s.nextId) ∧
    (∀ now,
      (s.takeReady now).1.Perm (s.tasks.filter (·.nextRun ≤ now)) ∧
      (s.takeReady now).1.Pairwise (fun a b => Earlier (a.nextRun, a.id) (b.nextRun, b.id)) ∧
      (s.takeReady now).2 = { s with tasks := s.tasks.filter (now < ·.nextRun) } ∧
      ∀ moment, (s.takeReady now).2.nextWakeup = some moment → now < moment) ∧
    (∀ id,
      ((s.cancel id).1 = true ↔ ∃ t ∈ s.tasks, t.id = id) ∧
      (∀ front t back, s.tasks = front ++ t :: back → t.id = id →
        (s.cancel id).2 = { s with tasks := front ++ back }) ∧
      ((∀ t ∈ s.tasks, t.id ≠ id) → (s.cancel id).2 = s)) ∧
    (s.nextWakeup = none ↔ s.tasks = []) ∧
    (∀ moment, s.nextWakeup = some moment ↔
      (∃ t ∈ s.tasks, t.nextRun = moment) ∧ ∀ t ∈ s.tasks, moment ≤ t.nextRun) := by
  intro d s
  have horder : d.InOrder := Desk.inOrder_serveAll requests Desk.inOrder_new
  have hdistinct : (s.tasks.map Task.id).Nodup := by
    have hall := horder.distinct
    rw [Desk.ids, Desk.tasks, List.map_append] at hall
    exact (List.nodup_append.mp hall).1
  refine ⟨⟨horder.increasing, horder.next⟩, horder.distinct, fun t ht => ?_, fun now => ?_, fun id => ?_,
    Scheduler.nextWakeup_eq_none_iff, fun moment => Scheduler.nextWakeup_eq_some_iff⟩
  · have hissued : t.id ∈ d.issued := horder.inUse.subset (List.mem_map_of_mem ht)
    exact ⟨hissued, horder.lt_nextId hissued⟩
  · refine ⟨s.takeReady_perm_filter now, Scheduler.takeReady_earlier hdistinct now, ?_, fun moment h =>
      Scheduler.lt_of_nextWakeup_left h⟩
    simp only [Scheduler.takeReady, ← decide_not, Nat.not_le]
  · refine ⟨Scheduler.cancel_eq_true_iff, fun front t back htasks hid => ?_, Scheduler.cancel_of_not_armed⟩
    subst hid
    rw [← Scheduler.tasks_cancel hdistinct htasks]
    rfl

end SealedScript

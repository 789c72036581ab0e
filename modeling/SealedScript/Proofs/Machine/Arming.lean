/-
SealedScript/Proofs/Machine/Arming.lean

Arming a timer is all or nothing.  A request names a time, perhaps a unit and
perhaps a number of runs, each of them a value of any type, and there are many
things that can be wrong with it.  All of them are found before anything is
touched: a refused request leaves the machine as it was, and an accepted one adds
exactly the task that was asked for, under the next free number.

Which task that is stands in `Machine.Requests`, one rule for each form of
request: at a date, at an interval forever, and at an interval a number of times.
There is no rule for a date with a number of runs.  The number is the one that the
count denotes, and a count that 32 bits cannot hold denotes none.

Main result: `arming_all_or_nothing`.
-/
import SealedScript.Machine.Timers

namespace SealedScript

namespace Machine

variable {m : Machine} {time : Value} {action : Stmt}

/-! ### Requests -/

/-- The task that a request asks for. -/
inductive Requests (m : Machine) (time : Value) (action : Stmt) : Option String → Option Value → Task → Prop
  | date {moment : Nat} : m.momentOf none time = .ok moment →
      Requests m time action none none ⟨m.scheduler.nextId, action, .once moment, moment, some 1⟩
  | forever {unit : String} {interval : Nat} : m.interval time unit = .ok interval →
      Requests m time action (some unit) none
        ⟨m.scheduler.nextId, action, .every interval, m.clock + interval, none⟩
  | counted {unit : String} {interval : Nat} {count : Value} {n : Int64} : m.interval time unit = .ok interval →
      count.index = .ok n → 1 ≤ n.toInt → n.toInt < 4294967296 →
      Requests m time action (some unit) (some count)
        ⟨m.scheduler.nextId, action, .every interval, m.clock + interval, some n.toInt.toNat⟩

/-- The machine with one more task armed. -/
def withTask (m : Machine) (task : Task) : Machine :=
  { m with scheduler := { tasks := m.scheduler.tasks ++ [task], nextId := m.scheduler.nextId + 1 } }

/-- A number of runs is accepted as it is or not at all. -/
theorem repeatCount?_eq_ok_iff {count : Value} {runs : Option Nat} :
    m.repeatCount? (some count) = .ok runs ↔
      ∃ n, count.index = .ok n ∧ 1 ≤ n.toInt ∧ n.toInt < 4294967296 ∧ runs = some n.toInt.toNat := by
  show (m.repeatCount count).map some = .ok runs ↔ _
  unfold repeatCount
  rcases count.index with e | n
  · simp [Except.map]
  · by_cases hsmall : n.toInt < 1
    · simp only [hsmall, if_true, Except.map, reduceCtorEq, Except.ok.injEq, exists_eq_left', false_iff]
      omega
    · by_cases hlarge : n.toInt < 4294967296
      · simp [hsmall, hlarge, Int.not_lt.mp hsmall, Except.map, eq_comm]
      · simp [hsmall, hlarge, Except.map]

end Machine

namespace Action

variable (m : Machine) (time : Value) (action : Stmt)

/-! ### What becomes of a request -/

/-- A request is refused, or it asks for a task, which is armed if the clock can hold its
moment. -/
theorem schedule_cases (unit : Option String) (times : Option Value) :
    (∃ fault, schedule time unit times action m = (.failed (.invalidSchedule fault), m)) ∨
    ∃ task, m.Requests time action unit times task ∧ schedule time unit times action m =
      if task.nextRun < clockHorizon then (.done m.scheduler.nextId, m.withTask task) else (.clockOverflow, m) := by
  rcases hruns : m.repeatCount? times with fault | runs
  · exact .inl ⟨fault, by simp only [schedule, hruns]⟩
  cases unit with
  | none =>
    rcases hmoment : m.momentOf runs time with fault | moment
    · exact .inl ⟨fault, by simp only [schedule, hruns, hmoment]⟩
    cases times with
    | none =>
      obtain rfl : none = runs := Except.ok.inj hruns
      exact .inr ⟨_, .date hmoment, by simp only [schedule, hruns, hmoment]; rfl⟩
    | some count =>
      -- an accepted count has left a number of runs, and a date takes none
      obtain ⟨n, -, -, -, rfl⟩ := Machine.repeatCount?_eq_ok_iff.mp hruns
      cases hmoment
  | some unit =>
    rcases hinterval : m.interval time unit with fault | interval
    · exact .inl ⟨fault, by simp only [schedule, hruns, hinterval]⟩
    refine .inr ⟨⟨m.scheduler.nextId, action, .every interval, m.clock + interval, runs⟩, ?_,
      by simp only [schedule, hruns, hinterval]; rfl⟩
    cases times with
    | none =>
      obtain rfl : none = runs := Except.ok.inj hruns
      exact .forever hinterval
    | some count =>
      obtain ⟨n, hn, hlow, hhigh, rfl⟩ := Machine.repeatCount?_eq_ok_iff.mp hruns
      exact .counted hinterval hn hlow hhigh

/-- A request that asks for no task is refused. -/
theorem schedule_refused {unit : Option String} {times : Option Value}
    (h : ∀ task, ¬ m.Requests time action unit times task) :
    ∃ fault, schedule time unit times action m = (.failed (.invalidSchedule fault), m) := by
  rcases schedule_cases m time action unit times with hrefused | ⟨task, hrequests, -⟩
  · exact hrefused
  · exact absurd hrequests (h task)

/-- A count that is accepted changes nothing about whether a request is refused. -/
theorem schedule_counted (unit : String) {count : Value} {n : Int64} (hn : count.index = .ok n)
    (hlow : 1 ≤ n.toInt) (hhigh : n.toInt < 4294967296) :
    (schedule time (some unit) (some count) action m).1 = (schedule time (some unit) none action m).1 := by
  have hruns : m.repeatCount? (some count) = .ok (some n.toInt.toNat) :=
    Machine.repeatCount?_eq_ok_iff.mpr ⟨n, hn, hlow, hhigh, rfl⟩
  have hnone : m.repeatCount? none = .ok none := rfl
  rcases hinterval : m.interval time unit with fault | interval
  · simp only [schedule, hruns, hnone, hinterval]
  · simp only [schedule, hruns, hnone, hinterval, arm]
    split
    · rfl
    · rfl

end Action

/-- **Arming is all or nothing.**  A request that fails is refused for its parameters and leaves
the machine as it was.  One that succeeds yields the next free number and adds exactly the task
that was asked for (`Machine.Requests`), with nothing else changed.  Besides these it can only ask
for a moment that the clock cannot hold, and changes nothing then.

A count is refused without a unit, and so is every whole number outside 1 to 2^32 - 1 as a count.
With a unit, a count in that range makes no difference to whether the request is refused. -/
theorem arming_all_or_nothing (m : Machine) (time : Value) (unit : Option String) (times : Option Value)
    (action : Stmt) :
    (match Action.schedule time unit times action m with
      | (.failed e, m') => (∃ fault, e = .invalidSchedule fault) ∧ m' = m
      | (.done id, m') => id = m.scheduler.nextId ∧
          ∃ task, m.Requests time action unit times task ∧ m' = m.withTask task
      | (.clockOverflow, m') => m' = m ∧ ∃ task, m.Requests time action unit times task ∧ clockHorizon ≤ task.nextRun
      | (.unfinished, _) => False) ∧
    (∀ count, ∃ fault, Action.schedule time none (some count) action m = (.failed (.invalidSchedule fault), m)) ∧
    (∀ n : Int64, ¬ (1 ≤ n.toInt ∧ n.toInt < 4294967296) →
      ∃ fault, Action.schedule time unit (some (.int n)) action m = (.failed (.invalidSchedule fault), m)) ∧
    ∀ (word : String) (count : Value) (n : Int64), count.index = .ok n → 1 ≤ n.toInt → n.toInt < 4294967296 →
      (Action.schedule time (some word) (some count) action m).1
        = (Action.schedule time (some word) none action m).1 := by
  refine ⟨?_, fun count => ?_, fun n hrange => ?_, fun word count n hn hlow hhigh => ?_⟩
  · rcases Action.schedule_cases m time action unit times with ⟨fault, hrefused⟩ | ⟨task, hrequests, hschedule⟩
    · rw [hrefused]
      exact ⟨⟨fault, rfl⟩, rfl⟩
    · rw [hschedule]
      by_cases hheld : task.nextRun < clockHorizon
      · rw [if_pos hheld]
        exact ⟨rfl, task, hrequests, rfl⟩
      · rw [if_neg hheld]
        exact ⟨rfl, task, hrequests, Nat.not_lt.mp hheld⟩
  · apply Action.schedule_refused
    intro task hrequests
    cases hrequests
  · apply Action.schedule_refused
    intro task hrequests
    cases hrequests with
    | counted _ hindex hlow hhigh =>
      obtain rfl := Except.ok.inj hindex
      exact hrange ⟨hlow, hhigh⟩
  · exact Action.schedule_counted m time action word hn hlow hhigh

end SealedScript

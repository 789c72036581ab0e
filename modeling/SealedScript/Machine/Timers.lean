/-
SealedScript/Machine/Timers.lean

Arming timers.  With a unit the time is a delay, and the action repeats at that
interval, forever or a given number of times; without one it is a date, and the
action fires once.  A timer is armed completely or not at all.

The clock cannot hold a moment 2^63 seconds or more after the start.
-/
import SealedScript.Machine
import SealedScript.Schedule.Delay

namespace SealedScript

/-- The first moment that the clock cannot hold. -/
def clockHorizon : Nat := int64Bound * Delay.second

namespace Machine

/-- The number of runs that a value asks for. -/
def repeatCount (m : Machine) (v : Value) : Except ScheduleFault Nat :=
  match v.index with
  | .error _ => .error (.countNotWhole (m.heap.text v))
  | .ok n =>
    let n := n.toInt
    if n < 1 then .error (.countTooSmall n)
    else if n < 4294967296 then .ok n.toNat
    else .error (.countTooLarge n)

/-- The number of runs, if one is given. -/
def repeatCount? (m : Machine) : Option Value → Except ScheduleFault (Option Nat)
  | none => .ok none
  | some v => (m.repeatCount v).map some

/-- The interval that a delay denotes. -/
def interval (m : Machine) (time : Value) (unit : String) : Except ScheduleFault Nat :=
  match Delay.scale? unit with
  | none => .error (.unknownUnit unit)
  | some scale =>
    match time.float?.map (· * scale) with
    | none => .error (.delayNotPositive (m.heap.text time))
    | some seconds =>
      if seconds.isFinite && 0.0 < seconds then
        match Delay.nanoseconds? seconds with
        | some n => .ok n
        | none => .error .delayTooLong
      else .error (.delayNotPositive (m.heap.text time))

/-- The moment that a date denotes. -/
def momentOf (m : Machine) (runs : Option Nat) (time : Value) : Except ScheduleFault Nat :=
  if runs.isSome then .error .countedDate
  else match time with
    | .text s => (Delay.untilDate m.wall s).map (m.clock + ·)
    | v => .error (.notDateText v.typeName)

end Machine

namespace Action

/-- Arms a task by a function that does so for a moment which the clock has to
hold. -/
def arm (moment : Nat) (f : Scheduler → Nat × Scheduler) : Action Nat := fun m =>
  if moment < clockHorizon then
    let (id, scheduler) := f m.scheduler
    (.done id, { m with scheduler := scheduler })
  else (.clockOverflow, m)

/-- Arms a timer and yields its number. -/
def schedule (time : Value) (unit : Option String) (times : Option Value) (action : Stmt) : Action Nat := fun m =>
  match m.repeatCount? times with
  | .error fault => (.failed (.invalidSchedule fault), m)
  | .ok runs =>
    match unit with
    | none =>
      match m.momentOf runs time with
      | .error fault => (.failed (.invalidSchedule fault), m)
      | .ok moment => arm moment (·.addOnce action moment) m
    | some unit =>
      match m.interval time unit with
      | .error fault => (.failed (.invalidSchedule fault), m)
      | .ok interval => arm (m.clock + interval) (·.addEvery m.clock action interval runs) m

end Action

end SealedScript

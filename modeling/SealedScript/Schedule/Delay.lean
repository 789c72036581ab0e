/-
SealedScript/Schedule/Delay.lean

How long a timer waits.  A delay is a number of seconds, minutes or hours; it is
counted in nanoseconds, rounded to the nearest one and a half to the even one.
A date is waited for from the present moment of the wall clock.
-/
import SealedScript.Number.Binary64
import SealedScript.Schedule.Calendar

namespace SealedScript

namespace Delay

/-- Nanoseconds in a second. -/
def second : Nat := 1000000000

/-- The seconds in a unit, named in the singular or the plural in any case. -/
def scale? (unit : String) : Option Float :=
  let word := String.ofList (unit.toList.map Char.toLower)
  if word = "second" || word = "seconds" then some 1.0
  else if word = "minute" || word = "minutes" then some 60.0
  else if word = "hour" || word = "hours" then some 3600.0
  else none

/-- The nanoseconds in a positive number of seconds, unless there are 2^64
seconds or more. -/
def nanoseconds? (seconds : Float) : Option Nat :=
  match Binary64.ofFloat seconds with
  | .finite false mantissa exponent =>
    if Binary64.wholePart mantissa exponent ≥ UInt64.size then none
    else match exponent with
      | .ofNat up => some (mantissa * Nat.pow 2 up * second)
      | .negSucc down => some (roundHalfEven (mantissa * second) (Nat.pow 2 (down + 1)))
  | _ => none

/-- The nanoseconds until a date, at the given moment of the wall clock in
nanoseconds from the beginning of 1970. -/
def untilDate (wall : Int) (text : String) : Except ScheduleFault Nat :=
  match Calendar.read text.toList with
  | .error fault => .error (.badDate text fault)
  | .ok date =>
    let delta := date.seconds * second - wall
    if delta ≤ 0 then .error (.pastDate text) else .ok delta.toNat

end Delay

end SealedScript

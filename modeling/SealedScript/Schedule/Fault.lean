/-
SealedScript/Schedule/Fault.lean

Why a timer is not armed.
-/

namespace SealedScript

/-- Why a date and time is not understood. -/
inductive DateFault where
  | tooShort
  | invalid
  | outOfRange
  | trailing
  deriving DecidableEq, Repr

/-- What a fault says. -/
def DateFault.message : DateFault → String
  | .tooShort => "premature end of input"
  | .invalid => "input contains invalid characters"
  | .outOfRange => "input is out of range"
  | .trailing => "trailing input"

/-- Why a timer is not armed.  Values are shown as text. -/
inductive ScheduleFault where
  | countNotWhole (shown : String)
  | countTooSmall (count : Int)
  | countTooLarge (count : Int)
  | countedDate
  | notDateText (typeName : String)
  | badDate (text : String) (fault : DateFault)
  | pastDate (text : String)
  | unknownUnit (unit : String)
  | delayNotPositive (shown : String)
  | delayTooLong
  deriving DecidableEq, Repr

/-- What a fault says. -/
def ScheduleFault.message : ScheduleFault → String
  | .countNotWhole shown => s!"repeat count must be an integer, got {shown}"
  | .countTooSmall count => s!"repeat count must be at least 1, got {count}"
  | .countTooLarge count => s!"repeat count {count} is too large"
  | .countedDate => "an absolute time cannot take a repeat count"
  | .notDateText typeName => s!"expected a date-time string, got {typeName}"
  | .badDate text fault =>
    "invalid date-time '" ++ text ++ "' (expected YYYY-MM-DD HH:MM:SS): " ++ fault.message
  | .pastDate text => "'" ++ text ++ "' is in the past"
  | .unknownUnit unit => "unknown time unit '" ++ unit ++ "'"
  | .delayNotPositive shown => s!"delay must be a positive number, got {shown}"
  | .delayTooLong =>
    "delay out of range: cannot convert float seconds to Duration: value is either too big or NaN"

end SealedScript

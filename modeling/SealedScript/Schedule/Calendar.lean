/-
SealedScript/Schedule/Calendar.lean

Dates and times as text, in the form `YYYY-MM-DD HH:MM:SS`.  Blanks may stand
before any number.  A year has up to four digits, or a sign and any number of
digits; the other numbers have one or two.  Each number is checked as it is
read, so that the first thing wrong is reported; whether the day exists is
checked last.
-/
import SealedScript.Number.Integer
import SealedScript.Schedule.Fault
import SealedScript.Text.Blank

namespace SealedScript

/-- A date and a time of day.  Second 60 is a leap second. -/
structure DateTime where
  year : Int
  month : Nat
  day : Nat
  hour : Nat
  minute : Nat
  second : Nat
  deriving DecidableEq, Repr

namespace Calendar

/-! ### Days -/

/-- Whether a year has a day more. -/
def isLeap (year : Int) : Bool := year % 4 == 0 && (year % 100 != 0 || year % 400 == 0)

/-- The number of days in a month. -/
def daysInMonth (year : Int) (month : Nat) : Nat :=
  if month = 2 then (if isLeap year then 29 else 28)
  else if month = 4 || month = 6 || month = 9 || month = 11 then 30
  else 31

/-- The number of leap years before a year, up to a constant. -/
def leapsBefore (year : Int) : Int :=
  let y := year - 1
  y.fdiv 4 - y.fdiv 100 + y.fdiv 400

/-- The day of the year that a month begins with, from zero. -/
def daysBeforeMonth (year : Int) (month : Nat) : Nat :=
  (List.range (month - 1)).foldl (fun days m => days + daysInMonth year (m + 1)) 0

/-- The days from the first of January 1970. -/
def dayNumber (year : Int) (month day : Nat) : Int :=
  (year - 1970) * 365 + (leapsBefore year - leapsBefore 1970) + daysBeforeMonth year month + (day - 1)

end Calendar

/-- The seconds from the beginning of 1970. -/
def DateTime.seconds (t : DateTime) : Int :=
  Calendar.dayNumber t.year t.month t.day * 86400 + t.hour * 3600 + t.minute * 60 + t.second

/-- Whether the day exists within the years that are supported. -/
def DateTime.exists (t : DateTime) : Bool :=
  -262143 ≤ t.year && t.year ≤ 262142 && t.day ≤ Calendar.daysInMonth t.year t.month

namespace Calendar

/-! ### Reading -/

/-- Reads a number of at most `width` digits. -/
def digits (width : Nat) (text : List Char) : Except DateFault (Nat × List Char) :=
  let number := (text.take width).takeWhile Char.isDigit
  if text.isEmpty then .error .tooShort
  else if number.isEmpty then .error .invalid
  else if natOfDigits number < int64Bound then .ok (natOfDigits number, text.drop number.length)
  else .error .outOfRange

/-- Reads a number of one or two digits between the given bounds. -/
def number (low high : Nat) (text : List Char) : Except DateFault (Nat × List Char) := do
  let (n, rest) ← digits 2 (trimStart text)
  if low ≤ n && n ≤ high then return (n, rest) else throw .outOfRange

/-- Reads a year. -/
def year (text : List Char) : Except DateFault (Int × List Char) := do
  let (n, rest) ← match trimStart text with
    | '-' :: text => (fun (n, rest) => (-(n : Int), rest)) <$> digits text.length text
    | '+' :: text => (fun (n, rest) => ((n : Int), rest)) <$> digits text.length text
    | text => (fun (n, rest) => ((n : Int), rest)) <$> digits 4 text
  if Int32.minValue.toInt ≤ n && n ≤ Int32.maxValue.toInt then return (n, rest) else throw .outOfRange

/-- Reads a divider. -/
def divider (c : Char) : List Char → Except DateFault (List Char)
  | [] => .error .tooShort
  | d :: rest => if d = c then .ok rest else .error .invalid

/-- Reads a date and a time. -/
def read (text : List Char) : Except DateFault DateTime := do
  let (year, rest) ← year (trim text)
  let rest ← divider '-' rest
  let (month, rest) ← number 1 12 rest
  let rest ← divider '-' rest
  let (day, rest) ← number 1 31 rest
  let (hour, rest) ← number 0 23 rest
  let rest ← divider ':' rest
  let (minute, rest) ← number 0 59 rest
  let rest ← divider ':' rest
  let (second, rest) ← number 0 60 rest
  if !rest.isEmpty then throw .trailing
  let t : DateTime := ⟨year, month, day, hour, minute, second⟩
  if t.exists then return t else throw .outOfRange

end Calendar

end SealedScript

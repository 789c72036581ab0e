/-
SealedScript/Value.lean

Values of a running program.  Values are typed when they are used and not
before: arithmetic turns both operands into numbers, and a text counts as the
number that it spells, or as zero.  Lists and objects are shared; a value holds
only their number in the heap.
-/
import SealedScript.Number.FloatText
import SealedScript.Program
import SealedScript.RuntimeError
import SealedScript.Text.Blank

namespace SealedScript

/-- The number of a list in the heap. -/
abbrev ListId := Nat

/-- The number of an object in the heap. -/
abbrev ObjectId := Nat

/-- A value.  `nil` is what a function without a return value yields. -/
inductive Value where
  | nil
  | bool (b : Bool)
  | int (n : Int64)
  | float (x : Float)
  | text (s : String)
  | list (id : ListId)
  | object (id : ObjectId)
  deriving Repr, Inhabited

/-- The value of a constant. -/
def Literal.toValue : Literal → Value
  | .bool b => .bool b
  | .int n => .int n
  | .float x => .float x
  | .text s => .text s

/-- The name of the value's type in diagnostics. -/
def Value.typeName : Value → String
  | .nil => "null"
  | .bool _ => "boolean"
  | .int _ => "integer"
  | .float _ => "float"
  | .text _ => "string"
  | .list _ => "list"
  | .object _ => "object"

/-! ### Numbers -/

/-- What arithmetic works on. -/
inductive Number where
  | int (n : Int64)
  | float (x : Float)
  deriving Repr

/-- The nearest floating point number. -/
def Number.toFloat : Number → Float
  | .int n => Float.ofInt n.toInt
  | .float x => x

/-- The whole number next to it toward zero, within 64 bits. -/
def Number.truncate : Number → Int64
  | .int n => n
  | .float x => (Binary64.ofFloat x).toInt64

/-- Whether the nearest floating point number is a zero of either sign. -/
def Number.isZero (a : Number) : Bool := a.toFloat == 0.0

/-- The value that a number is. -/
def Number.toValue : Number → Value
  | .int n => .int n
  | .float x => .float x

/-- Whether a text has the characters of a decimal number, at least one digit
among them.  This leaves out the words for infinity. -/
def looksNumeric (text : List Char) : Bool :=
  (text.all fun c => c.isDigit || c == '+' || c == '-' || c == '.' || c == 'e' || c == 'E') &&
    text.any Char.isDigit

/-- The number that a text spells between blanks, or zero. -/
def Number.ofText (text : List Char) : Number :=
  let t := trim text
  match readInt64? t with
  | some n => .int n
  | none =>
    if looksNumeric t then
      match readFloat? t with
      | some x => .float x
      | none => .int 0
    else .int 0

/-- The number that a value counts as.  Lists and objects count as none. -/
def Value.number? : Value → Option Number
  | .nil => some (.int 0)
  | .bool b => some (.int (if b then 1 else 0))
  | .int n => some (.int n)
  | .float x => some (.float x)
  | .text s => some (Number.ofText s.toList)
  | .list _ => none
  | .object _ => none

/-- The whole number that a value counts as in arithmetic. -/
def Value.int? (v : Value) : Option Int64 := v.number?.map Number.truncate

/-- The floating point number that a value counts as in arithmetic. -/
def Value.float? (v : Value) : Option Float := v.number?.map Number.toFloat

/-- The index that a value denotes: whole numbers as they are, others cut off,
texts only if they spell a whole number. -/
def Value.index : Value → Except RuntimeError Int64
  | .int n => .ok n
  | .float x => .ok (Binary64.ofFloat x).toInt64
  | .text s =>
    match readInt64? (trim s.toList) with
    | some n => .ok n
    | none => .error (.typeMismatch ("cannot convert \"" ++ s ++ "\" to an index"))
  | v => .error (.typeMismatch s!"cannot convert {v.typeName} to an index")

/-- One more or one less.  Whole numbers stay whole and wrap around. -/
def Value.step (v : Value) (step : Step) : Except RuntimeError Value :=
  match v.number? with
  | some (.int n) => .ok (.int (match step with | .up => n + 1 | .down => n - 1))
  | some (.float x) => .ok (.float (match step with | .up => x + 1.0 | .down => x + -1.0))
  | none => .error (.unsupportedOperator step.symbol v.typeName)

end SealedScript

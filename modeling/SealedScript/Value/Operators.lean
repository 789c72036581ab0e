/-
SealedScript/Value/Operators.lean

Binary operators.  Both operands have been evaluated, those of `&&` and `||` too.
`+` joins texts as soon as one operand is a text, and two lists; `==` compares
element by element as soon as one operand is a list or an object; everything else
is arithmetic on numbers, whole when both numbers are.
-/
import SealedScript.Value.Heap

namespace SealedScript

/-- The order of two numbers.  Whole numbers are compared exactly, and what is no
number is in no order with anything. -/
def Number.compare : Number → Number → Option Ordering
  | .int a, .int b => some (Ord.compare a b)
  | a, b =>
    let x := a.toFloat
    let y := b.toFloat
    if x < y then some .lt else if x == y then some .eq else if y < x then some .gt else none

/-- Applies one of two operations, the whole one when both numbers are whole. -/
def Number.arithmetic (whole : Int64 → Int64 → Int64) (real : Float → Float → Float) : Number → Number → Number
  | .int a, .int b => .int (whole a b)
  | a, b => .float (real a.toFloat b.toFloat)

/-- Applies an operator to two numbers.  Division goes toward zero, and the
remainder is always whole. -/
def Number.apply (op : BinaryOp) (a b : Number) : Except RuntimeError Value :=
  match op with
  | .add => .ok (Number.arithmetic (· + ·) (· + ·) a b).toValue
  | .sub => .ok (Number.arithmetic (· - ·) (· - ·) a b).toValue
  | .mul => .ok (Number.arithmetic (· * ·) (· * ·) a b).toValue
  | .div => if b.isZero then .error .divisionByZero else .ok (Number.arithmetic (· / ·) (· / ·) a b).toValue
  | .rem => if b.truncate == 0 then .error .divisionByZero else .ok (.int (a.truncate % b.truncate))
  | .eq => .ok (.bool (Number.compare a b == some .eq))
  | .ne => .ok (.bool (Number.compare a b != some .eq))
  | .lt => .ok (.bool (Number.compare a b == some .lt))
  | .le => .ok (.bool (Number.compare a b == some .lt || Number.compare a b == some .eq))
  | .gt => .ok (.bool (Number.compare a b == some .gt))
  | .ge => .ok (.bool (Number.compare a b == some .gt || Number.compare a b == some .eq))
  | .and => .ok (.bool (!a.isZero && !b.isZero))
  | .or => .ok (.bool (!a.isZero || !b.isZero))

/-- Whether a value is a text. -/
def Value.isText : Value → Bool
  | .text _ => true
  | _ => false

/-- Whether a value is a list or an object. -/
def Value.isShared : Value → Bool
  | .list _ => true
  | .object _ => true
  | _ => false

/-- Applies an operator to two values as numbers. -/
def Value.arithmetic (op : BinaryOp) (l r : Value) : Except RuntimeError Value :=
  match l.number?, r.number? with
  | some a, some b => Number.apply op a b
  | _, _ => .error (.unsupportedOperator op.symbol (l.typeName ++ " and " ++ r.typeName))

/-- Applies an operator to two values of which none is a text in a sum. -/
def Heap.applyStructured (h : Heap) (op : BinaryOp) (l r : Value) : Except RuntimeError (Value × Heap) :=
  match op, l, r with
  | .add, .list a, .list b => .ok (h.newList (h.elements a ++ h.elements b))
  | _, _, _ =>
    if (op = .eq || op = .ne) && (l.isShared || r.isShared) then
      .ok (.bool (h.equal l r == (op = .eq)), h)
    else (Value.arithmetic op l r).map fun v => (v, h)

/-- Applies an operator to two values. -/
def Heap.apply (h : Heap) (op : BinaryOp) (l r : Value) : Except RuntimeError (Value × Heap) :=
  match op with
  | .and => .ok (.bool (h.truthy l && h.truthy r), h)
  | .or => .ok (.bool (h.truthy l || h.truthy r), h)
  | op =>
    if op = .add && (l.isText || r.isText) then .ok (.text (h.text l ++ h.text r), h)
    else h.applyStructured op l r

end SealedScript

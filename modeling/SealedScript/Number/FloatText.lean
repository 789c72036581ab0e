/-
SealedScript/Number/FloatText.lean

Floating point numbers as text.  A whole number is written with all its digits
and `.0` behind them, any other with the fewest places that read back; there is
never an exponent.  Reading takes a sign, digits with at most one point among or
around them and an optional exponent, or one of the words for infinity and for
no number in any case.
-/
import SealedScript.Number.Integer
import SealedScript.Number.Shortest

namespace SealedScript

/-! ### Writing -/

/-- The digits of a decimal with its point. -/
def Decimal.text (d : Decimal) : List Char :=
  Nat.toDigits 10 (d.digits / Nat.pow 10 d.places) ++ '.' :: zeroPadded d.places (d.digits % Nat.pow 10 d.places)

/-- The text of `mantissa · 2 ^ exponent`. -/
def FloatText.magnitude (mantissa : Nat) (exponent : Int) : List Char :=
  if Binary64.isWhole mantissa exponent then
    Nat.toDigits 10 (Binary64.wholePart mantissa exponent) ++ ['.', '0']
  else (Shortest.decimal mantissa (-exponent).toNat).text

/-- The text of a floating point number. -/
def floatText (x : Float) : String :=
  match Binary64.ofFloat x with
  | .nan => "NaN"
  | .infinite negative => if negative then "-inf" else "inf"
  | .finite negative mantissa exponent =>
    let text := FloatText.magnitude mantissa exponent
    String.ofList (if negative then '-' :: text else text)

/-! ### Reading -/

/-- The value of `digits · 10 ^ exponent`.  Beyond the range of the format the
answer is known without computing the power. -/
def FloatText.scaled (digits : Nat) (exponent : Int) : Float :=
  let magnitude := (Nat.toDigits 10 digits).length + exponent
  if digits == 0 || magnitude < -400 then 0.0
  else if magnitude > 400 then 1.0 / 0.0
  else match exponent with
    | .ofNat up => Float.ofScientific digits false up
    | .negSucc down => Float.ofScientific digits true (down + 1)

/-- Reads the exponent behind the digits: nothing, or `e` and a signed number. -/
def FloatText.exponent? : List Char → Option Int
  | [] => some 0
  | c :: rest => if c = 'e' || c = 'E' then readInt? rest else none

/-- Reads digits with an optional point and exponent. -/
def FloatText.unsigned? (text : List Char) : Option Float :=
  let whole := text.takeWhile Char.isDigit
  let rest := text.dropWhile Char.isDigit
  let fraction := match rest with
    | '.' :: more => more.takeWhile Char.isDigit
    | _ => []
  let tail := match rest with
    | '.' :: more => more.dropWhile Char.isDigit
    | _ => rest
  if whole.isEmpty && fraction.isEmpty then none
  else (FloatText.exponent? tail).map fun exponent =>
    FloatText.scaled (natOfDigits (whole ++ fraction)) (exponent - fraction.length)

/-- Reads a number without its sign, or a word for a special one. -/
def FloatText.magnitude? (text : List Char) : Option Float :=
  let word := String.ofList (text.map Char.toLower)
  if word == "inf" || word == "infinity" then some (1.0 / 0.0)
  else if word == "nan" then some (0.0 / 0.0)
  else FloatText.unsigned? text

/-- Reads a floating point number. -/
def readFloat? : List Char → Option Float
  | '-' :: text => (FloatText.magnitude? text).map Float.neg
  | '+' :: text => FloatText.magnitude? text
  | text => FloatText.magnitude? text

end SealedScript

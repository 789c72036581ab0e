/-
SealedScript/Number/Binary64.lean

Floating point numbers as exact quantities.  A finite number of 64 bits is
± m · 2^q with a whole m, so whatever has to be exact about it (its whole part,
its text, its length in nanoseconds) is done on m and q in whole numbers.
-/
import SealedScript.Number.Integer

namespace SealedScript

/-- What a floating point number stands for: nothing, an infinity, or exactly
`± mantissa · 2 ^ exponent`. -/
inductive Binary64 where
  | nan
  | infinite (negative : Bool)
  | finite (negative : Bool) (mantissa : Nat) (exponent : Int)
  deriving DecidableEq, Repr

namespace Binary64

/-- The mantissa from which on a number is normal: the leading bit of 53, 2^52. -/
def normalBit : Nat := 4503599627370496

/-- The bit that tells the sign, 2^63. -/
def signBit : Nat := 9223372036854775808

/-- The exponent of the least numbers. -/
def leastExponent : Int := -1074

/-- Reads the three fields of the bit pattern: a sign bit, eleven exponent bits
and the 52 bits behind the leading one. -/
def ofBits (bits : Nat) : Binary64 :=
  let negative := bits / signBit % 2 == 1
  let field : Nat := bits / normalBit % 2048
  let fraction : Nat := bits % normalBit
  if field == 2047 then
    if fraction == 0 then infinite negative else nan
  else if field == 0 then finite negative fraction leastExponent
  else finite negative (normalBit + fraction) (leastExponent + field - 1)

/-- The exact content of a floating point number. -/
def ofFloat (x : Float) : Binary64 := ofBits x.toBits.toNat

/-- The whole part of `mantissa · 2 ^ exponent`. -/
def wholePart (mantissa : Nat) : Int → Nat
  | .ofNat up => mantissa * Nat.pow 2 up
  | .negSucc down => mantissa / Nat.pow 2 (down + 1)

/-- Whether `mantissa · 2 ^ exponent` is a whole number. -/
def isWhole (mantissa : Nat) : Int → Bool
  | .ofNat _ => true
  | .negSucc down => mantissa % Nat.pow 2 (down + 1) == 0

/-- The nearest number of 64 bits toward zero.  What is too large goes to the
end of the range on its side, and what is no number goes to zero. -/
def toInt64 : Binary64 → Int64
  | nan => 0
  | infinite negative => if negative then Int64.minValue else Int64.maxValue
  | finite negative mantissa exponent =>
    let whole := wholePart mantissa exponent
    if negative then
      if whole ≥ int64Bound then Int64.minValue else Int64.ofInt (-(whole : Int))
    else
      if whole ≥ int64Bound then Int64.maxValue else Int64.ofNat whole

end Binary64

/-- The quotient rounded to the nearest whole number, a half to the even one. -/
def roundHalfEven (num den : Nat) : Nat :=
  let low := num / den
  let twice := 2 * (num % den)
  if twice < den then low
  else if twice > den then low + 1
  else low + low % 2

end SealedScript

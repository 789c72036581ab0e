/-
SealedScript/Cipher/Field.lean

Multiplication in the field of 256 elements by the few constants that the block
cipher uses.  A byte is a polynomial over the bits, addition is exclusive or,
and everything is taken modulo x⁸ + x⁴ + x³ + x + 1; each constant is a sum of
powers of x, so doubling is the only real operation.
-/

namespace SealedScript

namespace ByteField

/-- Multiplication by x: a shift, reduced when the top bit falls out. -/
def double (a : UInt8) : UInt8 :=
  if a &&& 0x80 = 0 then a <<< 1 else (a <<< 1) ^^^ 0x1B

/-- Multiplication by x + 1. -/
def times3 (a : UInt8) : UInt8 := double a ^^^ a

/-- Multiplication by x³ + 1. -/
def times9 (a : UInt8) : UInt8 := double (double (double a)) ^^^ a

/-- Multiplication by x³ + x + 1. -/
def times11 (a : UInt8) : UInt8 := double (double (double a) ^^^ a) ^^^ a

/-- Multiplication by x³ + x² + 1. -/
def times13 (a : UInt8) : UInt8 := double (double (double a ^^^ a)) ^^^ a

/-- Multiplication by x³ + x² + x. -/
def times14 (a : UInt8) : UInt8 := double (double (double a ^^^ a) ^^^ a)

end ByteField

end SealedScript

/-
SealedScript/Number/Integer.lean

Whole numbers as text.  A number is an optional sign and one or more ASCII
digits, with nothing around them; a number that does not fit the width asked
for is no number.
-/

namespace SealedScript

/-- The number that a row of decimal digits denotes. -/
def natOfDigits (digits : List Char) : Nat :=
  digits.foldl (fun n c => 10 * n + (c.toNat - '0'.toNat)) 0

/-- Reads one or more digits and nothing else. -/
def readNat? (text : List Char) : Option Nat :=
  if text.isEmpty || !text.all Char.isDigit then none else some (natOfDigits text)

/-- Reads a signed number of any size. -/
def readInt? : List Char → Option Int
  | '-' :: digits => (readNat? digits).map fun n => -(n : Int)
  | '+' :: digits => (readNat? digits).map Int.ofNat
  | digits => (readNat? digits).map Int.ofNat

/-- The least natural number that is no signed number of 64 bits, 2^63. -/
def int64Bound : Nat := 9223372036854775808

/-- Reads a signed number of 64 bits. -/
def readInt64? (text : List Char) : Option Int64 :=
  (readInt? text).bind fun n =>
    if -(int64Bound : Int) ≤ n && n < int64Bound then some (Int64.ofInt n) else none

/-- Reads a size: a number of 64 bits with no minus sign. -/
def readSize? (text : List Char) : Option Nat :=
  let digits := match text with
    | '+' :: digits => digits
    | digits => digits
  (readNat? digits).filter (· < UInt64.size)

/-- Digits with zeros in front up to the given width. -/
def zeroPadded (width n : Nat) : List Char :=
  let digits := Nat.toDigits 10 n
  List.replicate (width - digits.length) '0' ++ digits

end SealedScript

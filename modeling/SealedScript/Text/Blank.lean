/-
SealedScript/Text/Blank.lean

Blank characters and trimming.  "Blank" is the property White_Space of Unicode,
which a program meets between its tokens, around the text of a value, around a
ciphertext and around every part of a settings line.  Trimming removes blanks
from both ends and nothing else.
-/
import SealedScript.Text.Ranges

namespace SealedScript

/-- Blank characters: tab to carriage return, the space, the next-line control
and the spaces and separators of the general blocks. -/
def Blank.ranges : List (Nat × Nat) := [
  (0x09, 0x0D), (0x20, 0x20), (0x85, 0x85), (0xA0, 0xA0), (0x1680, 0x1680), (0x2000, 0x200A),
  (0x2028, 0x2029), (0x202F, 0x202F), (0x205F, 0x205F), (0x3000, 0x3000)]

/-- Whether `c` is blank. -/
def isBlank (c : Char) : Bool := inRanges Blank.ranges c.toNat

/-- The text without the blanks in front. -/
def trimStart (text : List Char) : List Char := text.dropWhile isBlank

/-- The text without the blanks behind. -/
def trimEnd (text : List Char) : List Char := (text.reverse.dropWhile isBlank).reverse

/-- The text without blanks at either end. -/
def trim (text : List Char) : List Char := trimEnd (trimStart text)

end SealedScript

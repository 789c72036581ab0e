/-
SealedScript/Text/Quoted.lean

Text in quotes, as diagnostics show it.  A quote and a backslash are written
behind a backslash, the tab, the two line ends and the zero character by a
letter, and every other character that cannot be shown by its number in
hexadecimal.
-/
import SealedScript.Text.Unprintable

namespace SealedScript

/-- How one character is written between quotes. -/
def Quoted.char (c : Char) : List Char :=
  if c = '"' then ['\\', '"']
  else if c = '\\' then ['\\', '\\']
  else if c = '\t' then ['\\', 't']
  else if c = '\n' then ['\\', 'n']
  else if c = '\r' then ['\\', 'r']
  else if c = '\x00' then ['\\', '0']
  else if isUnprintable c then ['\\', 'u', '\x7b'] ++ Nat.toDigits 16 c.toNat ++ ['\x7d']
  else [c]

/-- The text in quotes. -/
def quoted (text : String) : String :=
  String.ofList ('"' :: text.toList.flatMap Quoted.char ++ ['"'])

end SealedScript

/-
SealedScript/Text/Bytes.lean

Text as a row of bytes in UTF-8, and back where the bytes are well formed.
-/

namespace SealedScript

/-- The bytes of a text. -/
def bytesOfText (text : String) : List UInt8 := text.toUTF8.data.toList

/-- The text that a row of bytes spells, if it spells one. -/
def textOfBytes? (bytes : List UInt8) : Option String := String.fromUTF8? ⟨bytes.toArray⟩

end SealedScript

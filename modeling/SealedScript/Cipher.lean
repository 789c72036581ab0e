/-
SealedScript/Cipher.lean

Ciphers for text.  A cipher is a pair of functions, either of which may refuse.
The standard one encrypts the bytes of a text in a chain of blocks and writes
the result in 64 symbols; a key and an initial block are sixteen bytes each.
Blanks around a ciphertext do not count.
-/
import SealedScript.Cipher.Base64
import SealedScript.Cipher.Chain
import SealedScript.Text.Blank
import SealedScript.Text.Bytes

namespace SealedScript

/-- Why a cipher refuses. -/
inductive CipherError where
  | base64 (error : Base64.Error)
  | padding
  | utf8
  | keyLength (what : String) (length : Nat)
  deriving DecidableEq, Repr

/-- What an error says. -/
def CipherError.message : CipherError → String
  | .base64 error => s!"ciphertext is not valid base64: {error.message}"
  | .padding => "bad padding or ciphertext length"
  | .utf8 => "decrypted bytes are not valid UTF-8"
  | .keyLength what length => s!"{what} must be exactly 16 bytes, got {length}"

/-- A reversible way of hiding text. -/
structure Cipher where
  encrypt : String → Except CipherError String
  decrypt : String → Except CipherError String

namespace Cipher

/-- Encrypts a text under a key and an initial block. -/
def sealText (key iv : Block) (text : String) : String :=
  String.ofList ((Base64.encode (encryptBytes key iv (bytesOfText text))).map fun b => Char.ofNat b.toNat)

/-- Decrypts a text under a key and an initial block. -/
def openText (key iv : Block) (text : String) : Except CipherError String := do
  let bytes ← (Base64.decode (bytesOfText (String.ofList (trim text.toList)))).mapError .base64
  match decryptBytes? key iv bytes with
  | none => throw .padding
  | some message =>
    match textOfBytes? message with
    | none => throw .utf8
    | some plain => return plain

/-- The standard cipher. -/
def standard (key iv : Block) : Cipher where
  encrypt text := .ok (sealText key iv text)
  decrypt := openText key iv

/-- Sixteen bytes given as text; `what` names them in the refusal. -/
def block (what text : String) : Except CipherError Block :=
  let bytes := bytesOfText text
  match Block.ofList? bytes with
  | some b => .ok b
  | none => .error (.keyLength what bytes.length)

/-- The standard cipher with its key and initial block given as text. -/
def ofText (key iv : String) : Except CipherError Cipher := do
  let key ← block "cipher key" key
  let iv ← block "cipher IV" iv
  return standard key iv

/-- The key that is used when none is configured: `0123456789abcdef`. -/
def defaultKey : Block :=
  ⟨⟨0x30, 0x31, 0x32, 0x33⟩, ⟨0x34, 0x35, 0x36, 0x37⟩, ⟨0x38, 0x39, 0x61, 0x62⟩, ⟨0x63, 0x64, 0x65, 0x66⟩⟩

/-- The initial block that is used when none is configured: `abcdef9876543210`. -/
def defaultIV : Block :=
  ⟨⟨0x61, 0x62, 0x63, 0x64⟩, ⟨0x65, 0x66, 0x39, 0x38⟩, ⟨0x37, 0x36, 0x35, 0x34⟩, ⟨0x33, 0x32, 0x31, 0x30⟩⟩

/-- A stand-in that writes a text backward. -/
def reversing : Cipher where
  encrypt text := .ok (String.ofList text.toList.reverse)
  decrypt text := .ok (String.ofList text.toList.reverse)

/-- A stand-in that refuses everything, as if its host had no usable key. -/
def refusing : Cipher where
  encrypt text := .error (.keyLength "host key" (bytesOfText text).length)
  decrypt _ := .error .padding

end Cipher

end SealedScript

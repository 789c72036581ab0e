/-
SealedScript/Cipher/Chain.lean

Messages of many blocks.  Every block is added to the ciphertext block before it
ahead of encryption, the first one to an initial block, so that equal blocks of
a message come out different.  Bytes are cut into blocks after padding: a message
always gets between one and sixteen bytes more, each holding their number, so
that the end of the message can be found again.
-/
import SealedScript.Cipher.Block

namespace SealedScript

/-! ### Chaining -/

/-- Encrypts a row of blocks behind the ciphertext block `previous`. -/
def Chain.encrypt (keys : KeySchedule) : Block → List Block → List Block
  | _, [] => []
  | previous, x :: rest =>
    let c := (x.add previous).encrypt keys
    c :: Chain.encrypt keys c rest

/-- Decrypts a row of blocks behind the ciphertext block `previous`. -/
def Chain.decrypt (keys : KeySchedule) : Block → List Block → List Block
  | _, [] => []
  | previous, c :: rest => ((c.decrypt keys).add previous) :: Chain.decrypt keys c rest

/-! ### Bytes and blocks -/

/-- Cuts bytes into blocks; there must be no remainder. -/
def blocksOfBytes? : List UInt8 → Option (List Block)
  | [] => some []
  | a0 :: a1 :: a2 :: a3 :: a4 :: a5 :: a6 :: a7 :: a8 :: a9 :: a10 :: a11 :: a12 :: a13 :: a14 :: a15 :: rest =>
    (blocksOfBytes? rest).map fun blocks =>
      ⟨⟨a0, a1, a2, a3⟩, ⟨a4, a5, a6, a7⟩, ⟨a8, a9, a10, a11⟩, ⟨a12, a13, a14, a15⟩⟩ :: blocks
  | _ => none

/-- The bytes of a row of blocks. -/
def bytesOfBlocks (blocks : List Block) : List UInt8 := blocks.flatMap Block.toList

/-! ### Padding -/

/-- How many bytes padding adds to a message of this length. -/
def Padding.size (length : Nat) : Nat := 16 - length % 16

/-- The message with its padding. -/
def pad (message : List UInt8) : List UInt8 :=
  let size := Padding.size message.length
  message ++ List.replicate size (UInt8.ofNat size)

/-- The message without its padding, every byte of which is checked. -/
def unpad? (padded : List UInt8) : Option (List UInt8) :=
  match padded.getLast? with
  | none => none
  | some last =>
    let size := last.toNat
    let kept := padded.length - size
    if 1 ≤ size && size ≤ 16 && size ≤ padded.length && (padded.drop kept).all (· == last) then
      some (padded.take kept)
    else none

/-- Encrypts a message of any length. -/
def encryptBytes (key iv : Block) (message : List UInt8) : List UInt8 :=
  bytesOfBlocks (Chain.encrypt (KeySchedule.ofKey key) iv ((blocksOfBytes? (pad message)).getD []))

/-- Decrypts a message; refuses what is not a whole number of blocks and what is
not padded. -/
def decryptBytes? (key iv : Block) (ciphertext : List UInt8) : Option (List UInt8) :=
  (blocksOfBytes? ciphertext).bind fun blocks =>
    unpad? (bytesOfBlocks (Chain.decrypt (KeySchedule.ofKey key) iv blocks))

end SealedScript

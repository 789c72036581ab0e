/-
SealedScript/Cipher/Block.lean

The block cipher with keys of 128 bits.  A block is four columns of four bytes.
A round replaces each byte, moves the rows of the block against each other,
mixes each column and adds a round key; the last round leaves the mixing out.
The round keys come from the key by ten steps of the key schedule.

Each layer stands next to the one that undoes it, and decryption takes the
rounds back one by one, the last one first.
-/
import SealedScript.Cipher.Field
import SealedScript.Cipher.Substitution

namespace SealedScript

/-- Four bytes of a block. -/
structure Column where
  b0 : UInt8
  b1 : UInt8
  b2 : UInt8
  b3 : UInt8
  deriving DecidableEq, Repr

/-- Sixteen bytes: four columns. -/
structure Block where
  c0 : Column
  c1 : Column
  c2 : Column
  c3 : Column
  deriving DecidableEq, Repr

namespace Column

/-- Adds two columns byte by byte. -/
def add (x y : Column) : Column := ⟨x.b0 ^^^ y.b0, x.b1 ^^^ y.b1, x.b2 ^^^ y.b2, x.b3 ^^^ y.b3⟩

/-- Applies a function to each byte. -/
def map (f : UInt8 → UInt8) (x : Column) : Column := ⟨f x.b0, f x.b1, f x.b2, f x.b3⟩

/-- Moves each byte up by one, the first one to the end. -/
def rotate (x : Column) : Column := ⟨x.b1, x.b2, x.b3, x.b0⟩

open ByteField in
/-- Multiplies the column by the mixing matrix. -/
def mix (x : Column) : Column :=
  ⟨double x.b0 ^^^ times3 x.b1 ^^^ x.b2 ^^^ x.b3,
   x.b0 ^^^ double x.b1 ^^^ times3 x.b2 ^^^ x.b3,
   x.b0 ^^^ x.b1 ^^^ double x.b2 ^^^ times3 x.b3,
   times3 x.b0 ^^^ x.b1 ^^^ x.b2 ^^^ double x.b3⟩

open ByteField in
/-- Multiplies the column by the inverse of the mixing matrix. -/
def unmix (x : Column) : Column :=
  ⟨times14 x.b0 ^^^ times11 x.b1 ^^^ times13 x.b2 ^^^ times9 x.b3,
   times9 x.b0 ^^^ times14 x.b1 ^^^ times11 x.b2 ^^^ times13 x.b3,
   times13 x.b0 ^^^ times9 x.b1 ^^^ times14 x.b2 ^^^ times11 x.b3,
   times11 x.b0 ^^^ times13 x.b1 ^^^ times9 x.b2 ^^^ times14 x.b3⟩

/-- The four bytes in order. -/
def toList (x : Column) : List UInt8 := [x.b0, x.b1, x.b2, x.b3]

end Column

namespace Block

/-- Adds two blocks byte by byte. -/
def add (x y : Block) : Block := ⟨x.c0.add y.c0, x.c1.add y.c1, x.c2.add y.c2, x.c3.add y.c3⟩

/-- Applies a function to each column. -/
def map (f : Column → Column) (x : Block) : Block := ⟨f x.c0, f x.c1, f x.c2, f x.c3⟩

/-- The sixteen bytes in order. -/
def toList (x : Block) : List UInt8 := x.c0.toList ++ x.c1.toList ++ x.c2.toList ++ x.c3.toList

/-- Sixteen bytes as a block. -/
def ofList? : List UInt8 → Option Block
  | [a0, a1, a2, a3, a4, a5, a6, a7, a8, a9, a10, a11, a12, a13, a14, a15] =>
    some ⟨⟨a0, a1, a2, a3⟩, ⟨a4, a5, a6, a7⟩, ⟨a8, a9, a10, a11⟩, ⟨a12, a13, a14, a15⟩⟩
  | _ => none

/-! ### The layers of a round -/

/-- Replaces every byte. -/
def substitute (x : Block) : Block := x.map (·.map SealedScript.substitute)

/-- Undoes `Block.substitute`. -/
def unsubstitute (x : Block) : Block := x.map (·.map SealedScript.unsubstitute)

/-- Moves the bytes of row `n` by `n` columns to the left. -/
def shift (x : Block) : Block :=
  ⟨⟨x.c0.b0, x.c1.b1, x.c2.b2, x.c3.b3⟩,
   ⟨x.c1.b0, x.c2.b1, x.c3.b2, x.c0.b3⟩,
   ⟨x.c2.b0, x.c3.b1, x.c0.b2, x.c1.b3⟩,
   ⟨x.c3.b0, x.c0.b1, x.c1.b2, x.c2.b3⟩⟩

/-- Undoes `Block.shift`. -/
def unshift (x : Block) : Block :=
  ⟨⟨x.c0.b0, x.c3.b1, x.c2.b2, x.c1.b3⟩,
   ⟨x.c1.b0, x.c0.b1, x.c3.b2, x.c2.b3⟩,
   ⟨x.c2.b0, x.c1.b1, x.c0.b2, x.c3.b3⟩,
   ⟨x.c3.b0, x.c2.b1, x.c1.b2, x.c0.b3⟩⟩

/-- Mixes every column. -/
def mix (x : Block) : Block := x.map Column.mix

/-- Undoes `Block.mix`. -/
def unmix (x : Block) : Block := x.map Column.unmix

/-! ### The key schedule -/

/-- The constants that the ten steps of the key schedule add. -/
def roundConstants : List UInt8 := [0x01, 0x02, 0x04, 0x08, 0x10, 0x20, 0x40, 0x80, 0x1B, 0x36]

/-- The round key that follows `key`. -/
def nextKey (key : Block) (constant : UInt8) : Block :=
  let turned := (key.c3.rotate.map SealedScript.substitute).add ⟨constant, 0, 0, 0⟩
  let c0 := key.c0.add turned
  let c1 := key.c1.add c0
  let c2 := key.c2.add c1
  ⟨c0, c1, c2, key.c3.add c2⟩

/-- The round keys that follow `key`, one for each constant. -/
def laterKeys : Block → List UInt8 → List Block
  | _, [] => []
  | key, constant :: constants =>
    let next := nextKey key constant
    next :: laterKeys next constants

/-! ### Rounds -/

/-- The rounds with the given keys, of which the last one does not mix. -/
def rounds : List Block → Block → Block
  | [], x => x
  | [last], x => x.substitute.shift.add last
  | key :: keys, x => rounds keys (x.substitute.shift.mix.add key)

/-- Takes the rounds with the given keys back. -/
def unrounds : List Block → Block → Block
  | [], x => x
  | [last], x => (x.add last).unshift.unsubstitute
  | key :: keys, x => ((unrounds keys x).add key).unmix.unshift.unsubstitute

end Block

/-- A key with the round keys that follow from it. -/
structure KeySchedule where
  first : Block
  later : List Block

/-- All round keys of a key. -/
def KeySchedule.ofKey (key : Block) : KeySchedule := ⟨key, Block.laterKeys key Block.roundConstants⟩

/-- Encrypts one block. -/
def Block.encrypt (keys : KeySchedule) (x : Block) : Block := Block.rounds keys.later (x.add keys.first)

/-- Decrypts one block. -/
def Block.decrypt (keys : KeySchedule) (x : Block) : Block := (Block.unrounds keys.later x).add keys.first

end SealedScript

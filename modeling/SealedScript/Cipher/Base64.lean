/-
SealedScript/Cipher/Base64.lean

Bytes as text of 64 symbols.  Three bytes make four symbols of six bits each; a
rest of one or two bytes makes two or three symbols, and `=` fills the group up.

Reading is strict, so that every row of bytes has exactly one text.  Whatever is
wrong is reported with the place of the byte at fault: a byte that is no symbol,
a group that is too short, missing filling, and a last symbol with bits that no
byte takes up.
-/

namespace SealedScript

namespace Base64

/-- Why a text is not read. -/
inductive Error where
  | invalidByte (byte : UInt8) (offset : Nat)
  | invalidLength (length : Nat)
  | invalidPadding
  | invalidLastSymbol (byte : UInt8) (offset : Nat)
  deriving DecidableEq, Repr

/-- What an error says. -/
def Error.message : Error → String
  | .invalidByte byte offset => s!"Invalid symbol {byte.toNat}, offset {offset}."
  | .invalidLength length => s!"Invalid input length: {length}"
  | .invalidPadding => "Invalid padding"
  | .invalidLastSymbol byte offset => s!"Invalid last symbol {byte.toNat}, offset {offset}."

/-- The byte that fills a group up. -/
def filler : UInt8 := '='.toUInt8

/-- The symbol for a number below 64. -/
def symbol (n : Nat) : UInt8 :=
  if n < 26 then UInt8.ofNat ('A'.toNat + n)
  else if n < 52 then UInt8.ofNat ('a'.toNat + (n - 26))
  else if n < 62 then UInt8.ofNat ('0'.toNat + (n - 52))
  else if n = 62 then '+'.toUInt8
  else '/'.toUInt8

/-- The number that a symbol stands for. -/
def value? (b : UInt8) : Option Nat :=
  let n := b.toNat
  if 'A'.toNat ≤ n && n ≤ 'Z'.toNat then some (n - 'A'.toNat)
  else if 'a'.toNat ≤ n && n ≤ 'z'.toNat then some (n - 'a'.toNat + 26)
  else if '0'.toNat ≤ n && n ≤ '9'.toNat then some (n - '0'.toNat + 52)
  else if b = '+'.toUInt8 then some 62
  else if b = '/'.toUInt8 then some 63
  else none

/-! ### Writing -/

/-- The symbols for a row of bytes. -/
def encode : List UInt8 → List UInt8
  | [] => []
  | [x] =>
    let a := x.toNat
    [symbol (a / 4), symbol (a % 4 * 16), filler, filler]
  | [x, y] =>
    let a := x.toNat
    let b := y.toNat
    [symbol (a / 4), symbol (a % 4 * 16 + b / 16), symbol (b % 16 * 4), filler]
  | x :: y :: z :: rest =>
    let a := x.toNat
    let b := y.toNat
    let c := z.toNat
    symbol (a / 4) :: symbol (a % 4 * 16 + b / 16) :: symbol (b % 16 * 4 + c / 64) :: symbol (c % 64)
      :: encode rest

/-! ### Reading -/

/-- Reads one symbol that stands at `offset`. -/
def readSymbol (offset : Nat) (b : UInt8) : Except Error Nat :=
  match value? b with
  | some n => .ok n
  | none => .error (.invalidByte b offset)

/-- Reads whole groups, in which no filling may stand.  The first of them stands
at `offset`. -/
def readGroups (offset : Nat) : List UInt8 → Except Error (List UInt8)
  | p :: q :: r :: s :: rest => do
    let a ← readSymbol offset p
    let b ← readSymbol (offset + 1) q
    let c ← readSymbol (offset + 2) r
    let d ← readSymbol (offset + 3) s
    let bytes ← readGroups (offset + 4) rest
    return UInt8.ofNat (a * 4 + b / 16) :: UInt8.ofNat (b % 16 * 16 + c / 4) :: UInt8.ofNat (c % 4 * 64 + d)
      :: bytes
  | _ => .ok []

/-- The symbols of the last group, read one by one, and the number of fillers
behind them.  `index` counts the bytes read so far and `filling` the fillers
among them. -/
def readLastSymbols (offset : Nat) : List UInt8 → Nat → Nat → Except Error (List Nat × Nat)
  | [], _, filling => .ok ([], filling)
  | b :: rest, index, filling =>
    if b = filler then
      if index < 2 then .error (.invalidByte b (offset + index))
      else readLastSymbols offset rest (index + 1) (filling + 1)
    else if filling > 0 then .error (.invalidByte filler (offset + index - filling))
    else do
      let n ← readSymbol (offset + index) b
      let (more, count) ← readLastSymbols offset rest (index + 1) 0
      return (n :: more, count)

/-- The bytes of the last group.  Its final symbol, `last`, may hold no bits
beyond them. -/
def lastBytes (offset : Nat) (last : UInt8) : List Nat → Except Error (List UInt8)
  | [a, b] =>
    if b % 16 = 0 then .ok [UInt8.ofNat (a * 4 + b / 16)]
    else .error (.invalidLastSymbol last (offset + 1))
  | [a, b, c] =>
    if c % 4 = 0 then .ok [UInt8.ofNat (a * 4 + b / 16), UInt8.ofNat (b % 16 * 16 + c / 4)]
    else .error (.invalidLastSymbol last (offset + 2))
  | [a, b, c, d] =>
    .ok [UInt8.ofNat (a * 4 + b / 16), UInt8.ofNat (b % 16 * 16 + c / 4), UInt8.ofNat (c % 4 * 64 + d)]
  | _ => .ok []

/-- Reads the last group, which stands at `offset` and may be filled up. -/
def readLastGroup (offset : Nat) (group : List UInt8) : Except Error (List UInt8) := do
  let (symbols, filling) ← readLastSymbols offset group 0 0
  if symbols.length < 2 then throw (.invalidLength (offset + symbols.length))
  if (symbols.length + filling) % 4 ≠ 0 then throw .invalidPadding
  lastBytes offset ((group.take symbols.length).getLastD 0) symbols

/-- A single byte behind whole groups that is no symbol is reported before
anything else, because it is most often a line end. -/
def checkStray (text : List UInt8) : Except Error Unit :=
  match text.length % 4, text.getLast? with
  | 1, some b => if b = filler then .ok () else do let _ ← readSymbol (text.length - 1) b
  | _, _ => .ok ()

/-- How many bytes of a text of this length stand before its last group. -/
def leadingLength (length : Nat) : Nat :=
  if length % 4 = 0 then length - 4 else length - length % 4

/-- Reads a text. -/
def decode (text : List UInt8) : Except Error (List UInt8) := do
  if text.isEmpty then return []
  checkStray text
  let leading := leadingLength text.length
  let front ← readGroups 0 (text.take leading)
  let back ← readLastGroup leading (text.drop leading)
  return front ++ back

end Base64

end SealedScript

/-
SealedScript/Value/Datum.lean

Data: values as trees, before they take a place in the heap.  A text is read as
data by trying in turn the two truth words in any case, a whole number, a decimal
number, a list in brackets, a text in quotes, and at last the text itself.
Elements of a list are divided by commas outside inner brackets and quotes.
-/
import SealedScript.Value

namespace SealedScript

/-- A value without sharing. -/
inductive Datum where
  | nil
  | bool (b : Bool)
  | int (n : Int64)
  | float (x : Float)
  | text (s : String)
  | list (items : List Datum)
  deriving Repr, Inhabited

namespace Datum

/-- Divides a text at its commas.  `depth` counts the brackets that are open, and
`quoted` tells whether a quote is; brackets inside quotes do not count, and a
bracket that closes nothing is ignored. -/
def split : Nat → Bool → List Char → List (List Char)
  | _, _, [] => [[]]
  | depth, quoted, c :: rest =>
    if c = ',' && !quoted && depth == 0 then [] :: split 0 false rest
    else
      let depth := if quoted then depth else if c = '[' then depth + 1 else if c = ']' then depth - 1 else depth
      match split depth (quoted != (c == '"')) rest with
      | piece :: pieces => (c :: piece) :: pieces
      | [] => [[c]]

/-- The text between a first and a last character, if it begins with `opener`
and ends with `closer`. -/
def between? (opener closer : Char) : List Char → Option (List Char)
  | [] => none
  | c :: rest =>
    if c = opener && rest.getLast? == some closer then some rest.dropLast else none

/-- Whether a text is a word of small letters, in any case. -/
def spells : List Char → List Char → Bool
  | [], [] => true
  | w :: word, c :: rest => w == c.toLower && spells word rest
  | _, _ => false

/-- Reads data, going into at most this many lists inside each other. -/
def readWithin : Nat → List Char → Datum
  | 0, whole => .text (String.ofList whole)
  | depth + 1, whole =>
    let t := trim whole
    if spells "true".toList t then .bool true
    else if spells "false".toList t then .bool false
    else match readInt64? t with
      | some n => .int n
      | none =>
        match if looksNumeric t then readFloat? t else none with
        | some x => .float x
        | none =>
          match between? '[' ']' t with
          | some inner =>
            let inner := trim inner
            if inner.isEmpty then .list []
            else .list ((split 0 false inner).map fun piece => readWithin depth (trim piece))
          | none =>
            match between? '"' '"' t with
            | some inner => .text (String.ofList inner)
            | none => .text (String.ofList whole)

/-- Reads a text as data.  Every list takes two brackets, so the length of the
text bounds the lists inside each other. -/
def ofText (text : String) : Datum :=
  let chars := text.toList
  readWithin (chars.length + 1) chars

end Datum

end SealedScript

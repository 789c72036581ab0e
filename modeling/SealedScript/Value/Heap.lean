/-
SealedScript/Value/Heap.lean

The heap: the lists and objects that values share.  A list is known by its
number, so two values with the same number see each other's writes.  Numbers are
given out in order and never taken back.
-/
import SealedScript.Ledger

namespace SealedScript

/-- What a library provides: a ledger, or the host's own object, with which a
script moves the clock and echoes values. -/
inductive Object where
  | ledger (ledger : Ledger)
  | host
  deriving Repr, Inhabited

/-- The name of an object's type in texts. -/
def Object.typeName : Object → String
  | .ledger _ => Ledger.typeName
  | .host => "host-object"

/-- Lists and objects by their numbers. -/
structure Heap where
  lists : Array (Array Value) := #[]
  objects : Array Object := #[]
  deriving Repr, Inhabited

namespace Heap

/-! ### Lists and objects -/

/-- The elements of a list. -/
def elements (h : Heap) (id : ListId) : Array Value := h.lists.getD id #[]

/-- The length of a list. -/
def length (h : Heap) (id : ListId) : Nat := (h.elements id).size

/-- Makes a new list. -/
def newList (h : Heap) (items : Array Value) : Value × Heap :=
  (.list h.lists.size, { h with lists := h.lists.push items })

/-- Replaces the elements of a list by a function of them. -/
def modifyList (h : Heap) (id : ListId) (f : Array Value → Array Value) : Heap :=
  { h with lists := h.lists.modify id f }

/-- Makes a new object. -/
def newObject (h : Heap) (object : Object) : Value × Heap :=
  (.object h.objects.size, { h with objects := h.objects.push object })

/-- The object with this number. -/
def object (h : Heap) (id : ObjectId) : Object := h.objects.getD id .host

/-- Replaces an object. -/
def setObject (h : Heap) (id : ObjectId) (object : Object) : Heap :=
  { h with objects := h.objects.setIfInBounds id object }

mutual

/-- Gives data a place in the heap. -/
def place (h : Heap) : Datum → Value × Heap
  | .nil => (.nil, h)
  | .bool b => (.bool b, h)
  | .int n => (.int n, h)
  | .float x => (.float x, h)
  | .text s => (.text s, h)
  | .list items =>
    let (values, h) := placeAll h items
    h.newList values.toArray

/-- Gives a row of data places in the heap, one after another. -/
def placeAll (h : Heap) : List Datum → List Value × Heap
  | [] => ([], h)
  | d :: rest =>
    let (v, h) := place h d
    let (values, h) := placeAll h rest
    (v :: values, h)

end

/-! ### Reading values -/

/-- Whether a condition with this value holds. -/
def truthy (h : Heap) : Value → Bool
  | .nil => false
  | .bool b => b
  | .int n => n != 0
  | .float x => x != 0.0
  | .text s => !s.isEmpty
  | .list id => h.length id != 0
  | .object _ => true

/-- The text of a value, going into at most this many lists inside each other.
An element that is the very list around it is not entered, and an object that is
busy with a call is not asked for its name. -/
def textWithin (h : Heap) (busy : Option ObjectId) : Nat → Value → List Char
  | _, .nil => "null".toList
  | _, .bool b => (if b then "true" else "false").toList
  | _, .int n => (toString n.toInt).toList
  | _, .float x => (floatText x).toList
  | _, .text s => s.toList
  | _, .object id =>
    if busy = some id then "<object>".toList else '<' :: (h.object id).typeName.toList ++ ['>']
  | 0, .list _ => []
  | depth + 1, .list id =>
    let item : Value → List Char := fun v =>
      match v with
      | .list inner => if inner = id then "(this list)".toList else textWithin h busy depth v
      | v => textWithin h busy depth v
    '[' :: ", ".toList.intercalate ((h.elements id).toList.map item) ++ [']']

/-- The text of a value while the object `busy` answers a call.  A text is its own
text, and without a cycle no more lists lie inside each other than there are. -/
def textWhile (h : Heap) (busy : Option ObjectId) : Value → String
  | .text s => s
  | v => String.ofList (h.textWithin busy (h.lists.size + 1) v)

/-- The text of a value. -/
def text (h : Heap) (v : Value) : String := h.textWhile none v

/-- Whether two values are equal, going into at most this many lists inside each
other.  Whole and floating point numbers differ, lists are compared element by
element unless they are the same list, and objects by their numbers. -/
def equalWithin (h : Heap) : Nat → Value → Value → Bool
  | _, .nil, .nil => true
  | _, .bool a, .bool b => a == b
  | _, .int a, .int b => a == b
  | _, .float a, .float b => a == b
  | _, .text a, .text b => a == b
  | _, .object a, .object b => a == b
  | 0, .list a, .list b => a == b
  | depth + 1, .list a, .list b =>
    a == b ||
      (h.length a == h.length b &&
        ((h.elements a).toList.zip (h.elements b).toList).all fun (x, y) => equalWithin h depth x y)
  | _, _, _ => false

/-- Whether two values are equal. -/
def equal (h : Heap) (a b : Value) : Bool := h.equalWithin (h.lists.size + 1) a b

/-! ### Methods of lists -/

/-- The place in a list that an index denotes, if it is one. -/
def position? (index : Int64) (length : Nat) : Option Nat :=
  if 0 ≤ index.toInt && index.toInt < length then some index.toInt.toNat else none

/-- What a method of a list yields, and what it does to the elements. -/
def callList (h : Heap) (id : ListId) (method : String) (args : List Value) :
    Except RuntimeError (Value × (Array Value → Array Value)) :=
  if method = "numInstances" then do
    checkArity method 0 args
    return (.int (Int64.ofNat (h.length id)), fun items => items)
  else if method = "add" then
    match args with
    | [v] => .ok (.nil, (·.push v))
    | _ => .error (.arityMismatch method 1 args.length)
  else if method = "remove" then
    match args with
    | [v] => do
      let index ← v.index
      match position? index (h.length id) with
      | some i => return (.nil, (·.eraseIdxIfInBounds i))
      | none => throw (.indexOutOfRange index (h.length id))
    | _ => .error (.arityMismatch method 1 args.length)
  else .error (.unknownMethod "list" method)

end Heap

end SealedScript

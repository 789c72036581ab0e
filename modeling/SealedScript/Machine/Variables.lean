/-
SealedScript/Machine/Variables.lean

Variables of a running program.  A name is looked for in every active call from
the innermost outward and at last in the global scope, for reading and for
writing alike; a name that is found nowhere is written into the innermost scope.
An encrypted variable holds the ciphertext of its value's text, and reading it
back reads that text as data.
-/
import SealedScript.Machine

namespace SealedScript

/-- How encrypted variables are read: opened, as their values, or sealed, as
their ciphertexts. -/
inductive Reading where
  | opened
  | sealed
  deriving DecidableEq, Repr, Inhabited

namespace Machine

/-! ### Scopes -/

/-- The variable with this name. -/
def find? (m : Machine) (name : String) : Option Variable :=
  match m.locals.find? name with
  | some v => some v
  | none => Table.find? m.globals name

/-- Writes a global variable. -/
def writeGlobal (m : Machine) (name : String) (v : Variable) : Machine :=
  { m with globals := Table.insert m.globals name v }

/-- Writes a variable where its name is found, or else into the innermost scope. -/
def write (m : Machine) (name : String) (v : Variable) : Machine :=
  if m.locals.holds name then { m with locals := m.locals.write name v }
  else if m.depth = 0 || Table.contains m.globals name then m.writeGlobal name v
  else { m with locals := m.locals.insert name v }

end Machine

namespace Action

/-! ### Reading and writing -/

/-- The variable with this name, which must exist. -/
def lookup (name : String) : Action Variable := fun m =>
  match m.find? name with
  | some v => (.done v, m)
  | none => (.failed (.undefinedVariable name), m)

/-- The value whose text was encrypted. -/
def decrypt (stored : Value) : Action Value := fun m =>
  match m.cipher.decrypt (m.heap.text stored) with
  | .ok text => withHeap (·.place (Datum.ofText text)) m
  | .error e => (.failed (.decryption e), m)

/-- The value of a variable, opened. -/
def openVariable (v : Variable) : Action Value :=
  if v.encrypted then decrypt v.value else pure v.value

/-- Reads a variable. -/
def read (name : String) (reading : Reading) : Action Value := do
  let v ← lookup name
  match reading with
  | .opened => openVariable v
  | .sealed => pure v.value

/-- Reads a variable opened, and tells whether it is encrypted. -/
def readOpened (name : String) : Action (Value × Bool) := do
  let v ← lookup name
  let value ← openVariable v
  pure (value, v.encrypted)

/-- Writes a variable, encrypted if asked for, and yields what was stored. -/
def store (name : String) (value : Value) (encrypt : Bool) : Action Value := fun m =>
  if encrypt then
    match m.cipher.encrypt (m.heap.text value) with
    | .ok text => (.done (.text text), m.write name ⟨.text text, true⟩)
    | .error e => (.failed (.encryption e), m)
  else (.done value, m.write name ⟨value, false⟩)

/-- Binds a fresh object of a library in the global scope. -/
def useLibrary (name : String) : Action Unit := fun m =>
  match m.libraries.get name with
  | .ok library =>
    let (object, heap) := m.heap.newObject library.fresh
    (.done (), { m with heap := heap }.writeGlobal library.binding ⟨object, false⟩)
  | .error e => (.failed e, m)

end Action

end SealedScript

/-
SealedScript/CallStack.lean

The variables of the active calls: one scope for each call, the innermost first.
The number of scopes is kept beside them, so that it is known without counting.
The global scope is not among them.
-/
import SealedScript.Table
import SealedScript.Value

namespace SealedScript

/-- A variable.  When it is encrypted its value is the ciphertext. -/
structure Variable where
  value : Value
  encrypted : Bool := false
  deriving Repr, Inhabited

/-- Variables by name. -/
abbrev Scope : Type := Table Variable

/-- The scopes of the active calls. -/
structure CallStack where
  scopes : List Scope := []
  depth : Nat := 0
  depth_eq : depth = scopes.length := by rfl

namespace CallStack

/-- The scopes are all there is to a call stack. -/
@[ext] theorem ext {s t : CallStack} (h : s.scopes = t.scopes) : s = t := by
  obtain ⟨scopes, depth, hs⟩ := s
  obtain ⟨scopes', depth', ht⟩ := t
  subst h hs ht
  rfl

/-- No call is active. -/
def empty : CallStack := {}

/-- Begins a call. -/
def push (s : CallStack) (scope : Scope) : CallStack :=
  ⟨scope :: s.scopes, s.depth + 1, by simp [s.depth_eq]⟩

/-- Ends the innermost call. -/
def pop (s : CallStack) : CallStack :=
  ⟨s.scopes.tail, s.depth - 1, by simp [s.depth_eq]⟩

@[simp] theorem pop_push (s : CallStack) (scope : Scope) : (s.push scope).pop = s := rfl

/-- The variable with this name in the first scope that has one. -/
def findIn (name : String) : List Scope → Option Variable
  | [] => none
  | scope :: outer =>
    match Table.find? scope name with
    | some v => some v
    | none => findIn name outer

/-- The variable with this name in the innermost call that has one. -/
def find? (s : CallStack) (name : String) : Option Variable := findIn name s.scopes

/-- Whether an active call has a variable with this name. -/
def holds (s : CallStack) (name : String) : Bool := s.scopes.any (Table.contains · name)

/-- Writes a variable into the first scope that has its name. -/
def writeIn (name : String) (v : Variable) : List Scope → List Scope
  | [] => []
  | scope :: outer =>
    if Table.contains scope name then Table.insert scope name v :: outer
    else scope :: writeIn name v outer

theorem length_writeIn (name : String) (v : Variable) (scopes : List Scope) :
    (writeIn name v scopes).length = scopes.length := by
  induction scopes with
  | nil => rfl
  | cons scope outer ih =>
    unfold writeIn
    split
    · rfl
    · simp [ih]

/-- Writes a variable into the innermost call that has its name. -/
def write (s : CallStack) (name : String) (v : Variable) : CallStack :=
  ⟨writeIn name v s.scopes, s.depth, by simp [length_writeIn, s.depth_eq]⟩

/-- Writes a variable into the innermost call. -/
def insert (s : CallStack) (name : String) (v : Variable) : CallStack :=
  ⟨s.scopes.modifyHead (Table.insert · name v), s.depth, by simp [s.depth_eq]⟩

end CallStack

end SealedScript

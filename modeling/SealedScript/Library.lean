/-
SealedScript/Library.lean

Libraries.  A program binds a library by its name; the registry says under which
global name the fresh object goes.
-/
import SealedScript.Table
import SealedScript.Text.Quoted
import SealedScript.Value.Heap

namespace SealedScript

/-- A library: the name that its object is bound to, and the object as it is
when fresh. -/
structure Library where
  binding : String
  fresh : Object
  deriving Repr, Inhabited

/-- The libraries that a program can bind. -/
abbrev Registry : Type := Table Library

namespace Registry

/-- The libraries that are always there. -/
def standard : Registry := [("blockchain", ⟨"blockchain", .ledger {}⟩)]

/-- The standard libraries and those of a host: a ledger under another name, and
the host's own object. -/
def hosted : Registry :=
  (standard.insert "ledger" ⟨"db", .ledger {}⟩).insert "host" ⟨"host", .host⟩

/-- The names of the libraries, sorted. -/
def sortedNames (registry : Registry) : List String :=
  (Table.names registry).mergeSort fun a b => !decide (b < a)

/-- The sorted names as diagnostics show them. -/
def shown (registry : Registry) : String :=
  "[" ++ ", ".intercalate (registry.sortedNames.map quoted) ++ "]"

/-- The library with this name. -/
def get (registry : Registry) (name : String) : Except RuntimeError Library :=
  match Table.find? registry name with
  | some library => .ok library
  | none => .error (.unknownLibrary name)

end Registry

end SealedScript

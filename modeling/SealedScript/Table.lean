/-
SealedScript/Table.lean

Tables from names to things, in the order in which the names were first entered.
Scopes, functions and libraries are tables.  A name stands in a table at most
once as long as it is filled by `insert` only.
-/

namespace SealedScript

/-- Entries by name. -/
abbrev Table (α : Type) : Type := List (String × α)

namespace Table

variable {α : Type}

/-- The entry with this name. -/
def find? : Table α → String → Option α
  | [], _ => none
  | (key, a) :: rest, name => if key = name then some a else find? rest name

/-- Whether the name has an entry. -/
def contains (table : Table α) (name : String) : Bool := (find? table name).isSome

/-- Enters a name, in its old place if it has one. -/
def insert : Table α → String → α → Table α
  | [], name, a => [(name, a)]
  | (key, old) :: rest, name, a =>
    if key = name then (name, a) :: rest else (key, old) :: insert rest name a

/-- The names in order. -/
def names (table : Table α) : List String := table.map Prod.fst

/-- What was entered is found. -/
@[simp] theorem find?_insert_self (table : Table α) (name : String) (a : α) :
    find? (insert table name a) name = some a := by
  induction table with
  | nil => simp [insert, find?]
  | cons entry rest ih =>
    by_cases h : entry.1 = name
    · simp [insert, find?, h]
    · simp [insert, find?, h, ih]

/-- Other names keep what they had. -/
theorem find?_insert_of_ne (table : Table α) {name other : String} (a : α) (h : other ≠ name) :
    find? (insert table name a) other = find? table other := by
  induction table with
  | nil => simp [insert, find?, Ne.symm h]
  | cons entry rest ih =>
    by_cases hk : entry.1 = name
    · simp [insert, find?, hk, Ne.symm h]
    · by_cases ho : entry.1 = other
      · simp [insert, find?, ho, h]
      · simp [insert, find?, hk, ho, ih]

end Table

end SealedScript

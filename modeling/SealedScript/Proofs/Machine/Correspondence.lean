/-
SealedScript/Proofs/Machine/Correspondence.lean

Machines that differ in their variables only.  Two machines are related when they
have the same scopes with the same names, related variables under them, the same
functions up to marks, and everything else alike.  Names are then found and
written in the same scope of both, calls begin and end alike, and an action that
does not look at names does the same to both.

Main results: `Machine.Related.find?`, `Machine.Related.write` and
`Action.Blind`.
-/
import Mathlib.Data.List.Forall2
import SealedScript.Proofs.Machine.Scopes
import SealedScript.Proofs.Machine.Steps
import SealedScript.Proofs.Machine.Uniform
import SealedScript.Proofs.Program.Unmarked

namespace SealedScript

/-! ### Scopes -/

/-- Scopes with the same names in the same order and related variables. -/
def Scope.Rel (R : Variable → Variable → Prop) : Scope → Scope → Prop :=
  List.Forall₂ fun entry entry' => entry'.1 = entry.1 ∧ R entry.2 entry'.2

theorem optionRel_isSome {α β : Type} {R : α → β → Prop} {a : Option α} {b : Option β}
    (h : Option.Rel R a b) : b.isSome = a.isSome := by
  cases h <;> rfl

namespace Scope.Rel

variable {R S : Variable → Variable → Prop} {s s' : Scope} {ss ss' : List Scope} {v v' : Variable}

theorem mono (hRS : ∀ v v', R v v' → S v v') (h : Scope.Rel R s s') : Scope.Rel S s s' :=
  List.Forall₂.imp (fun _ _ hentry => ⟨hentry.1, hRS _ _ hentry.2⟩) h

/-- A scope of variables that are related to themselves. -/
theorem refl_of_all (h : Scope.All (fun v => R v v) s) : Scope.Rel R s s :=
  List.forall₂_same.mpr fun entry hentry => ⟨rfl, h entry hentry⟩

theorem find? (h : Scope.Rel R s s') (name : String) :
    Option.Rel R (Table.find? s name) (Table.find? s' name) := by
  induction h with
  | nil => exact .none
  | @cons entry entry' rest rest' hentry _ ih =>
    obtain ⟨key, v⟩ := entry
    obtain ⟨key', v'⟩ := entry'
    obtain ⟨rfl, hv⟩ := hentry
    by_cases hkey : key' = name
    · simp only [Table.find?, hkey, if_true]
      exact .some hv
    · simp only [Table.find?, hkey, if_false]
      exact ih

theorem contains (h : Scope.Rel R s s') (name : String) : Table.contains s' name = Table.contains s name :=
  optionRel_isSome (h.find? name)

theorem insert (h : Scope.Rel R s s') (name : String) (hv : R v v') :
    Scope.Rel R (Table.insert s name v) (Table.insert s' name v') := by
  induction h with
  | nil => exact .cons ⟨rfl, hv⟩ .nil
  | @cons entry entry' rest rest' hentry hrest ih =>
    obtain ⟨key, w⟩ := entry
    obtain ⟨key', w'⟩ := entry'
    obtain ⟨rfl, hw⟩ := hentry
    by_cases hkey : key' = name
    · simp only [Table.insert, hkey, if_true]
      exact .cons ⟨rfl, hv⟩ hrest
    · simp only [Table.insert, hkey, if_false]
      exact .cons ⟨rfl, hw⟩ ih

/-! ### Scopes inside each other -/

theorem findIn (h : List.Forall₂ (Scope.Rel R) ss ss') (name : String) :
    Option.Rel R (CallStack.findIn name ss) (CallStack.findIn name ss') := by
  induction h with
  | nil => exact .none
  | @cons s s' outer outer' hs _ ih =>
    have hfound := hs.find? name
    rw [CallStack.findIn, CallStack.findIn]
    generalize Table.find? s name = found at hfound ⊢
    generalize Table.find? s' name = found' at hfound ⊢
    cases hfound with
    | none => exact ih
    | some hv => exact .some hv

theorem holds (h : List.Forall₂ (Scope.Rel R) ss ss') (name : String) :
    ss'.any (Table.contains · name) = ss.any (Table.contains · name) := by
  induction h with
  | nil => rfl
  | cons hs _ ih => simp only [List.any_cons, hs.contains, ih]

/-- The same scope is written to. -/
theorem writeIn (h : List.Forall₂ (Scope.Rel R) ss ss') (name : String) (hv : R v v') :
    List.Forall₂ (Scope.Rel R) (CallStack.writeIn name v ss) (CallStack.writeIn name v' ss') := by
  induction h with
  | nil => exact .nil
  | @cons s s' outer outer' hs houter ih =>
    rw [CallStack.writeIn, CallStack.writeIn, hs.contains]
    split
    · exact .cons (hs.insert name hv) houter
    · exact .cons hs ih

theorem modifyHead (h : List.Forall₂ (Scope.Rel R) ss ss') (name : String) (hv : R v v') :
    List.Forall₂ (Scope.Rel R) (ss.modifyHead (Table.insert · name v))
      (ss'.modifyHead (Table.insert · name v')) := by
  cases h with
  | nil => exact .nil
  | cons hs houter => exact .cons (hs.insert name hv) houter

theorem tail (h : List.Forall₂ (Scope.Rel R) ss ss') : List.Forall₂ (Scope.Rel R) ss.tail ss'.tail := by
  cases h with
  | nil => exact .nil
  | cons _ houter => exact houter

end Scope.Rel

/-! ### Machines -/

namespace Machine

/-- Everything but variables and functions. -/
def rest (m : Machine) : Machine := { m with globals := [], locals := .empty, functions := [] }

/-- Functions without marks. -/
def unmarkedFunctions (functions : Table FunctionDef) : Table FunctionDef :=
  functions.map fun entry => (entry.1, entry.2.unmarked)

/-- Machines with related variables, the same functions up to marks, and everything
else alike. -/
structure Related (R : Variable → Variable → Prop) (m m' : Machine) : Prop where
  locals : List.Forall₂ (Scope.Rel R) m.locals.scopes m'.locals.scopes
  globals : Scope.Rel R m.globals m'.globals
  functions : m'.functions = unmarkedFunctions m.functions
  rest : m'.rest = m.rest

theorem heap_of_rest {m m' : Machine} (h : m'.rest = m.rest) : m'.heap = m.heap := by
  show m'.rest.heap = m.rest.heap
  rw [h]

theorem rest_write (m : Machine) (name : String) (v : Variable) : (m.write name v).rest = m.rest := by
  rw [m.write_eq]
  rfl

theorem functions_write (m : Machine) (name : String) (v : Variable) :
    (m.write name v).functions = m.functions := by
  rw [m.write_eq]

namespace Related

variable {R S : Variable → Variable → Prop} {m m' : Machine}

theorem mono (hRS : ∀ v v', R v v' → S v v') (h : m.Related R m') : m.Related S m' :=
  ⟨List.Forall₂.imp (fun _ _ hs => hs.mono hRS) h.locals, h.globals.mono hRS, h.functions, h.rest⟩

theorem depth_eq (h : m.Related R m') : m'.depth = m.depth := by
  rw [depth, depth, m.locals.depth_eq, m'.locals.depth_eq, h.locals.length_eq]

theorem maxDepth_eq (h : m.Related R m') : m'.maxDepth = m.maxDepth := by
  show m'.rest.maxDepth = m.rest.maxDepth
  rw [h.rest]

theorem scheduler_eq (h : m.Related R m') : m'.scheduler = m.scheduler := by
  show m'.rest.scheduler = m.rest.scheduler
  rw [h.rest]

theorem find? (h : m.Related R m') (name : String) : Option.Rel R (m.find? name) (m'.find? name) := by
  have hlocal := Scope.Rel.findIn h.locals name
  have hglobal := h.globals.find? name
  unfold Machine.find? CallStack.find?
  generalize CallStack.findIn name m.locals.scopes = found at hlocal ⊢
  generalize CallStack.findIn name m'.locals.scopes = found' at hlocal ⊢
  cases hlocal with
  | none => exact hglobal
  | some hv => exact .some hv

theorem write (h : m.Related R m') (name : String) {v v' : Variable} (hv : R v v') :
    (m.write name v).Related R (m'.write name v') := by
  have hrest : (m'.write name v').rest = (m.write name v).rest := by
    rw [rest_write, rest_write, h.rest]
  have hfunctions : (m'.write name v').functions = unmarkedFunctions (m.write name v).functions := by
    rw [functions_write, functions_write, h.functions]
  have hholds : m'.locals.holds name = m.locals.holds name := Scope.Rel.holds h.locals name
  -- both machines take the same one of the three ways
  refine ⟨?_, ?_, hfunctions, hrest⟩
  all_goals
    unfold Machine.write
    rw [hholds, h.depth_eq, h.globals.contains]
    split
  · exact Scope.Rel.writeIn h.locals name hv
  · split
    · exact h.locals
    · exact Scope.Rel.modifyHead h.locals name hv
  · exact h.globals
  · split
    · exact h.globals.insert name hv
    · exact h.globals

theorem enter (h : m.Related R m') {s s' : Scope} (hs : Scope.Rel R s s') :
    (m.enter s).Related R (m'.enter s') :=
  ⟨.cons hs h.locals, h.globals, h.functions, h.rest⟩

theorem leave (h : m.Related R m') : m.leave.Related R m'.leave :=
  ⟨Scope.Rel.tail h.locals, h.globals, h.functions, h.rest⟩

theorem findFunction (h : m.Related R m') (name : String) :
    Table.find? m'.functions name = (Table.find? m.functions name).map FunctionDef.unmarked := by
  rw [h.functions]
  induction m.functions with
  | nil => rfl
  | cons entry others ih =>
    by_cases hkey : entry.1 = name
    · simp only [unmarkedFunctions, List.map_cons, Table.find?, hkey, if_true, Option.map_some]
    · simp only [unmarkedFunctions, List.map_cons, Table.find?, hkey, if_false]
      exact ih

end Related

theorem unmarkedFunctions_insert (functions : Table FunctionDef) (name : String) (f : FunctionDef) :
    unmarkedFunctions (Table.insert functions name f)
      = Table.insert (unmarkedFunctions functions) name f.unmarked := by
  induction functions with
  | nil => rfl
  | cons entry others ih =>
    by_cases hkey : entry.1 = name
    · simp only [unmarkedFunctions, List.map_cons, Table.insert, hkey, if_true]
    · simp only [unmarkedFunctions, List.map_cons, Table.insert, hkey, if_false, List.cons.injEq, true_and]
      exact ih

end Machine

/-! ### Actions that do not look at names -/

namespace Action

variable {α : Type}

/-- An action that does not depend on variables and functions. -/
def Blind (x : Action α) : Prop :=
  ∀ m m' : Machine, m'.rest = m.rest → (x m').1 = (x m).1 ∧ (x m').2.rest = (x m).2.rest

/-- The machine without names after a change that does not touch names. -/
theorem rest_change {m m' : Machine} (h : m'.rest = m.rest) (f : Machine → Machine)
    (hf : ∀ m, (f m).rest = f m.rest) : (f m').rest = (f m).rest := by
  rw [hf, hf, h]

theorem congruence_rest : Machine.Congruence fun m m' => m'.rest = m.rest where
  heap := Machine.heap_of_rest
  withHeap h heap := rest_change h (fun m => { m with heap := heap }) fun _ => rfl
  printLines h lines := rest_change h (fun m => { m with console := m.console.printLines lines }) fun _ => rfl
  wait h nanoseconds := rest_change h (·.wait nanoseconds) fun _ => rfl

theorem Uniform.blind {x : Action α} (h : Uniform x) : Blind x := h _ congruence_rest

end Action

end SealedScript

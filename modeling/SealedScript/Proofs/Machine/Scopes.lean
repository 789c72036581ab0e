/-
SealedScript/Proofs/Machine/Scopes.lean

The variables of a machine taken together: those of the active calls and the
global ones.  A property that every variable has is kept by everything that is
done to scopes, as long as the variables that are written have it.

Main results: `Machine.Everywhere.write` and its companions for the begin and
the end of calls and of tasks.
-/
import SealedScript.Proofs.Machine.Watch

namespace SealedScript

namespace Table

variable {α : Type} {table : Table α} {name : String} {a : α}

theorem mem_of_find? (h : find? table name = some a) : (name, a) ∈ table := by
  induction table with
  | nil => exact absurd h (by simp [find?])
  | cons entry rest ih =>
    obtain ⟨key, b⟩ := entry
    by_cases hkey : key = name
    · simp only [find?, hkey, if_true, Option.some.injEq] at h
      rw [hkey, h]
      exact List.mem_cons_self
    · simp only [find?, hkey, if_false] at h
      exact List.mem_cons_of_mem _ (ih h)

theorem mem_insert {entry : String × α} (h : entry ∈ insert table name a) :
    entry ∈ table ∨ entry = (name, a) := by
  induction table with
  | nil => exact .inr (List.mem_singleton.mp h)
  | cons first rest ih =>
    obtain ⟨key, b⟩ := first
    by_cases hkey : key = name
    · simp only [insert, hkey, if_true, List.mem_cons] at h
      rcases h with h | h
      · exact .inr h
      · exact .inl (List.mem_cons_of_mem _ h)
    · simp only [insert, hkey, if_false, List.mem_cons] at h
      rcases h with rfl | h
      · exact .inl List.mem_cons_self
      · rcases ih h with h | h
        · exact .inl (List.mem_cons_of_mem _ h)
        · exact .inr h

end Table

/-! ### One scope -/

/-- A property that all variables of a scope have. -/
def Scope.All (P : Variable → Prop) (scope : Scope) : Prop := ∀ entry ∈ scope, P entry.2

namespace Scope.All

variable {P : Variable → Prop} {scope : Scope} {scopes : List Scope} {name : String} {v : Variable}

theorem insert (h : Scope.All P scope) (hv : P v) : Scope.All P (Table.insert scope name v) := by
  intro entry hentry
  rcases Table.mem_insert hentry with hold | rfl
  · exact h entry hold
  · exact hv

theorem callScope (hplain : ∀ value, P ⟨value, false⟩) (f : FunctionDef) (args : List Value) :
    Scope.All P (Action.callScope f args) := by
  -- the parameters are entered one after another, so the scope grows under the induction
  have hfold (pairs : List (String × Value)) (scope : Scope) (h : Scope.All P scope) :
      Scope.All P (pairs.foldl (fun scope pair => Table.insert scope pair.1 ⟨pair.2, false⟩) scope) := by
    induction pairs generalizing scope with
    | nil => exact h
    | cons pair rest ih => exact ih _ (h.insert (hplain pair.2))
  exact hfold (f.params.zip args) [] fun _ hentry => absurd hentry List.not_mem_nil

theorem findIn (h : ∀ scope ∈ scopes, Scope.All P scope) (hv : CallStack.findIn name scopes = some v) :
    P v := by
  induction scopes with
  | nil => exact absurd hv (by simp [CallStack.findIn])
  | cons scope outer ih =>
    rw [CallStack.findIn] at hv
    split at hv
    · rename_i found hfound
      cases hv
      exact h scope List.mem_cons_self _ (Table.mem_of_find? hfound)
    · exact ih (fun s hs => h s (List.mem_cons_of_mem _ hs)) hv

theorem writeIn (h : ∀ scope ∈ scopes, Scope.All P scope) (hv : P v) :
    ∀ scope ∈ CallStack.writeIn name v scopes, Scope.All P scope := by
  induction scopes with
  | nil => exact h
  | cons scope outer ih =>
    have hscope := h scope List.mem_cons_self
    have houter (s : Scope) (hs : s ∈ outer) := h s (List.mem_cons_of_mem _ hs)
    rw [CallStack.writeIn]
    split
    · exact List.forall_mem_cons.mpr ⟨hscope.insert hv, houter⟩
    · exact List.forall_mem_cons.mpr ⟨hscope, ih houter⟩

theorem modifyHead (h : ∀ scope ∈ scopes, Scope.All P scope) (hv : P v) :
    ∀ scope ∈ scopes.modifyHead (Table.insert · name v), Scope.All P scope := by
  cases scopes with
  | nil => exact h
  | cons scope outer =>
    obtain ⟨hscope, houter⟩ := List.forall_mem_cons.mp h
    exact List.forall_mem_cons.mpr ⟨hscope.insert hv, houter⟩

end Scope.All

/-! ### All scopes -/

namespace Machine

variable {P : Variable → Prop} {m : Machine}

/-- The scopes of the active calls, the innermost first, and then the global one. -/
def frames (m : Machine) : List Scope := m.locals.scopes ++ [m.globals]

@[simp] theorem length_frames (m : Machine) : m.frames.length = m.depth + 1 := by
  simp only [frames, List.length_append, List.length_singleton, depth, m.locals.depth_eq]

/-- Writing a variable touches variables only. -/
theorem write_eq (m : Machine) (name : String) (v : Variable) :
    m.write name v = { m with globals := (m.write name v).globals, locals := (m.write name v).locals } := by
  unfold write
  split
  · rfl
  · split
    · rfl
    · rfl

theorem depth_write (m : Machine) (name : String) (v : Variable) : (m.write name v).depth = m.depth := by
  unfold write
  split
  · rfl
  · split
    · rfl
    · rfl

/-- A machine with one variable, which is encrypted. -/
def withSecret : Machine :=
  { globals := [("x", ⟨.text (Cipher.sealText Cipher.defaultKey Cipher.defaultIV "5"), true⟩)] }

/-- A property that all variables of a machine have. -/
def Everywhere (P : Variable → Prop) (m : Machine) : Prop := ∀ scope ∈ m.frames, Scope.All P scope

theorem everywhere_iff :
    m.Everywhere P ↔ (∀ scope ∈ m.locals.scopes, Scope.All P scope) ∧ Scope.All P m.globals := by
  simp only [Everywhere, frames, List.forall_mem_append, List.forall_mem_singleton]

namespace Everywhere

theorem find? (h : m.Everywhere P) {name : String} {v : Variable} (hv : m.find? name = some v) : P v := by
  obtain ⟨hlocals, hglobals⟩ := everywhere_iff.mp h
  rw [Machine.find?] at hv
  split at hv
  · rename_i found hfound
    cases hv
    exact Scope.All.findIn hlocals hfound
  · exact hglobals _ (Table.mem_of_find? hv)

theorem writeGlobal (h : m.Everywhere P) (name : String) {v : Variable} (hv : P v) :
    (m.writeGlobal name v).Everywhere P := by
  obtain ⟨hlocals, hglobals⟩ := everywhere_iff.mp h
  exact everywhere_iff.mpr ⟨hlocals, hglobals.insert hv⟩

theorem write (h : m.Everywhere P) (name : String) {v : Variable} (hv : P v) :
    (m.write name v).Everywhere P := by
  obtain ⟨hlocals, hglobals⟩ := everywhere_iff.mp h
  unfold Machine.write
  split
  · exact everywhere_iff.mpr ⟨Scope.All.writeIn hlocals hv, hglobals⟩
  · split
    · exact h.writeGlobal name hv
    · exact everywhere_iff.mpr ⟨Scope.All.modifyHead hlocals hv, hglobals⟩

theorem enter (h : m.Everywhere P) {scope : Scope} (hscope : Scope.All P scope) :
    (m.enter scope).Everywhere P := by
  obtain ⟨hlocals, hglobals⟩ := everywhere_iff.mp h
  exact everywhere_iff.mpr ⟨List.forall_mem_cons.mpr ⟨hscope, hlocals⟩, hglobals⟩

theorem leave (h : m.Everywhere P) : m.leave.Everywhere P := by
  obtain ⟨hlocals, hglobals⟩ := everywhere_iff.mp h
  exact everywhere_iff.mpr ⟨fun scope hscope => hlocals scope (List.mem_of_mem_tail hscope), hglobals⟩

theorem park (h : m.Everywhere P) (scheduler : Scheduler) : (m.park scheduler).Everywhere P := by
  obtain ⟨_, hglobals⟩ := everywhere_iff.mp h
  exact everywhere_iff.mpr ⟨fun _ hscope => absurd hscope List.not_mem_nil, hglobals⟩

/-- The global variables are those after the tasks, the others those before. -/
theorem resume {before : Machine} (hbefore : before.Everywhere P) (h : m.Everywhere P) :
    (m.resume before).Everywhere P := by
  obtain ⟨hlocals, _⟩ := everywhere_iff.mp hbefore
  obtain ⟨_, hglobals⟩ := everywhere_iff.mp h
  exact everywhere_iff.mpr ⟨hlocals, hglobals⟩

end Everywhere

end Machine

end SealedScript

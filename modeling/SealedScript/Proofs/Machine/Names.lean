/-
SealedScript/Proofs/Machine/Names.lean

A call leaks no names.  A variable is written where its name is found, in whatever
call that is, and a name that is found nowhere goes into the innermost scope.  So a
body can change what the variables of its callers hold, but the names that it adds
are in its own scope, and they are gone when the call is.

Two things reach the global scope from within a call: a library is bound there, and
tasks are fired there.  Without them its names stay as they are too; with them it only
gains names.

Main result: `call_leaks_no_names`.
-/
import SealedScript.Proofs.Machine.Firing

namespace SealedScript

/-! ### Names of tables and scopes -/

namespace Table

variable {α : Type} {table : Table α} {name : String}

/-- A name that is there keeps its place. -/
theorem names_insert_of_contains (h : contains table name = true) (a : α) :
    names (insert table name a) = names table := by
  induction table with
  | nil => cases h
  | cons entry rest ih =>
    obtain ⟨key, old⟩ := entry
    by_cases hkey : key = name
    · simp only [insert, hkey, if_true, names, List.map_cons]
    · have hrest : contains rest name = true := by
        simpa only [contains, find?, if_neg hkey] using h
      have ih := ih hrest
      simp only [names] at ih
      simp only [insert, if_neg hkey, names, List.map_cons, ih]

/-- A name that is entered comes after the others, if it is a new one. -/
theorem names_prefix_insert (table : Table α) (name : String) (a : α) :
    names table <+: names (insert table name a) := by
  induction table with
  | nil => exact List.nil_prefix
  | cons entry rest ih =>
    obtain ⟨key, old⟩ := entry
    by_cases hkey : key = name
    · simp only [insert, hkey, if_true, names, List.map_cons]
      exact List.prefix_refl _
    · simp only [insert, if_neg hkey, names, List.map_cons]
      exact List.cons_prefix_cons.mpr ⟨rfl, ih⟩

end Table

/-- Writing a variable where its name is found adds no name. -/
theorem CallStack.names_writeIn (name : String) (v : Variable) (scopes : List Scope) :
    (writeIn name v scopes).map Table.names = scopes.map Table.names := by
  induction scopes with
  | nil => rfl
  | cons scope outer ih =>
    rw [writeIn]
    split
    · next h => rw [List.map_cons, List.map_cons, Table.names_insert_of_contains h]
    · rw [List.map_cons, List.map_cons, ih]

namespace Machine

/-- The names in the scopes of the active calls, the innermost first. -/
def localNames (m : Machine) : List (List String) := m.locals.scopes.map Table.names

/-- The global names. -/
def globalNames (m : Machine) : List String := Table.names m.globals

theorem localNames_enter (m : Machine) (scope : Scope) :
    (m.enter scope).localNames = Table.names scope :: m.localNames := rfl

theorem localNames_leave (m : Machine) : m.leave.localNames = m.localNames.tail :=
  List.map_tail

/-- What a writing does to the names: those of the callers stay, and so do the global
ones if a call is active. -/
theorem names_write (m : Machine) (name : String) (v : Variable) :
    (m.write name v).localNames.tail = m.localNames.tail ∧ m.globalNames <+: (m.write name v).globalNames ∧
      (0 < m.depth → (m.write name v).globalNames = m.globalNames) := by
  unfold write
  split
  · refine ⟨congrArg List.tail (CallStack.names_writeIn name v m.locals.scopes), List.prefix_refl _, fun _ => rfl⟩
  · split
    · next hglobal =>
      refine ⟨rfl, Table.names_prefix_insert m.globals name v, fun hactive => ?_⟩
      simp only [Bool.or_eq_true, decide_eq_true_eq, Nat.ne_of_gt hactive, false_or] at hglobal
      exact Table.names_insert_of_contains hglobal v
    · refine ⟨?_, List.prefix_refl _, fun _ => rfl⟩
      -- only the innermost scope is changed, and that is the one that is left out
      simp only [localNames, CallStack.insert, ← List.map_tail, List.tail_modifyHead]

end Machine

/-! ### Steps and tasks -/

/-- Whether a step can enter a global name while a call is active. -/
def Event.reachesGlobals : Event → Bool
  | .bound _ => true
  | .fired _ => true
  | _ => false

/-- What a step does to the names. -/
theorem SingleStep.names {event : Event} {m m' : Machine} {ending : Ending} (h : SingleStep event m ending m') :
    m'.localNames.tail = m.localNames.tail ∧ m.globalNames <+: m'.globalNames ∧
      (0 < m.depth → event.reachesGlobals = false → m'.globalNames = m.globalNames) := by
  have hsame {m' : Machine} (hlocals : m'.locals = m.locals) (hglobals : m'.globals = m.globals) :
      m'.localNames.tail = m.localNames.tail ∧ m.globalNames <+: m'.globalNames ∧
        (0 < m.depth → event.reachesGlobals = false → m'.globalNames = m.globalNames) := by
    have hlocal : m'.localNames = m.localNames := congrArg (fun locals => locals.scopes.map Table.names) hlocals
    have hglobal : m'.globalNames = m.globalNames := congrArg Table.names hglobals
    rw [hlocal, hglobal]
    exact ⟨rfl, List.prefix_refl _, fun _ _ => rfl⟩
  cases h with
  | quiet halike _ =>
    rw [halike]
    exact hsame rfl rfl
  | storedPlain name value =>
    obtain ⟨hlocal, hgrown, hglobal⟩ := m.names_write name ⟨value, false⟩
    exact ⟨hlocal, hgrown, fun hactive _ => hglobal hactive⟩
  | @storedSealed _ name value text _ =>
    obtain ⟨hlocal, hgrown, hglobal⟩ := m.names_write name ⟨.text text, true⟩
    exact ⟨hlocal, hgrown, fun hactive _ => hglobal hactive⟩
  | bound heap name object => exact ⟨rfl, Table.names_prefix_insert m.globals name _, fun _ => nofun⟩
  | undecryptable | unencryptable | defined | armed | rearmed | strayReturn => exact hsame rfl rfl

/-- Global names are never given up, whatever is run. -/
theorem law_globalNames_grow : Law fun m _ _ m' => m.globalNames <+: m'.globalNames where
  still _ := List.prefix_refl _
  step h _ := h.names.2.1
  follow h h' := h.trans h'
  call _ h := h
  apart h := h
  caught h := h

/-- A run adds no names to the scopes of callers; and none to the global scope if a call
is active and nothing reaches out of it. -/
def KeepsNames (m : Machine) (_ending : Ending) (t : List Moment) (m' : Machine) : Prop :=
  m'.depth = m.depth ∧ m'.localNames.tail = m.localNames.tail ∧
    (0 < m.depth → (∀ k ∈ t, k.event.reachesGlobals = false) → m'.globalNames = m.globalNames)

theorem law_keepsNames : BodyLaw KeepsNames where
  still _ := ⟨rfl, rfl, fun _ _ => rfl⟩
  step h := by
    refine ⟨h.single.sameCalls.1, h.single.names.1, fun hactive hnone => ?_⟩
    exact h.single.names.2.2 hactive (hnone _ List.mem_cons_self)
  follow h h' := by
    obtain ⟨hdepth, hlocal, hglobal⟩ := h
    obtain ⟨hdepth', hlocal', hglobal'⟩ := h'
    refine ⟨hdepth'.trans hdepth, hlocal'.trans hlocal, fun hactive hnone => ?_⟩
    rw [List.forall_mem_append] at hnone
    exact (hglobal' (hdepth ▸ hactive) hnone.2).trans (hglobal hactive hnone.1)
  call _ h := by
    obtain ⟨hdepth, hlocal, hglobal⟩ := h
    refine ⟨congrArg (· - 1) hdepth, ?_, fun _ hnone => ?_⟩
    · rw [Machine.localNames_leave, hlocal]
      rfl
    · rw [List.cons_append, List.forall_mem_cons, List.forall_mem_append] at hnone
      exact hglobal (Nat.succ_pos _) hnone.2.1

/-- A batch that fires nothing does nothing. -/
theorem Batch.machine_of_none_fired {tasks : List Task} {m m' : Machine} {firings : List Firing}
    {outcome : Outcome (Option Nat)} (h : Batch tasks m firings outcome m') (hnone : firings = []) : m' = m := by
  cases h with
  | finished | cutOff => rfl
  | _ => cases hnone

/-- Tasks leave the calls they interrupt as they were, and without a firing there is
nothing that they could have changed. -/
theorem runDue_keepsNames (steps moment : Nat) : Obeys KeepsNames (Watched.runDue steps moment) := by
  intro m
  cases steps with
  | zero => exact law_keepsNames.still rfl
  | succ steps =>
    obtain ⟨m', hbatch, hmachine⟩ := batch_runDue steps moment m
    rw [hmachine]
    refine ⟨rfl, rfl, fun _ hnone => ?_⟩
    have hfirings : (Watched.runDue (steps + 1) moment m).firings = [] := by
      refine filterMap_firing?_eq_nil fun k hk => ?_
      have hk := hnone k hk
      cases hevent : k.event with
      | fired task =>
        rw [hevent] at hk
        cases hk
      | _ => rfl
    rw [hfirings] at hbatch
    rw [hbatch.machine_of_none_fired rfl]
    rfl

theorem serveTasks_keepsNames (steps : Nat) : Obeys KeepsNames (Watched.serveTasks steps) :=
  law_keepsNames.serveTasks runDue_keepsNames steps

theorem readLine_keepsNames (prompt : String) : Obeys KeepsNames (Watched.readLine prompt) :=
  fun _ => ⟨rfl, rfl, fun _ _ => rfl⟩

theorem keepsNames_obeyed (steps : Nat) : BodyLaw.Obeyed KeepsNames steps :=
  law_keepsNames.obeyed serveTasks_keepsNames (law_keepsNames.awaitLine readLine_keepsNames serveTasks_keepsNames) steps

/-! ### Calls -/

/-- What a call does to the names, with its record. -/
theorem Watched.names_invoke (steps : Nat) (f : FunctionDef) (args : List Value) (m : Machine) :
    (invoke steps f args m).machine.localNames = m.localNames ∧
      ((∀ k ∈ (invoke steps f args m).moments, k.event.reachesGlobals = false) →
        (invoke steps f args m).machine.globalNames = m.globalNames) := by
  cases steps with
  | zero => exact ⟨rfl, fun _ => rfl⟩
  | succ steps =>
    have hinvoke : invoke (steps + 1) f args m = _ :=
      bind_pure_apply (inCall f args (runBlock steps f.body)) Action.resultOf m
    rw [hinvoke]
    unfold inCall
    split
    · exact ⟨rfl, fun _ => rfl⟩
    · obtain ⟨-, hlocal, hglobal⟩ :=
        (keepsNames_obeyed steps).runBlock f.body (m.enter (Action.callScope f args))
      refine ⟨?_, fun hnone => hglobal (Nat.succ_pos _) fun k hk => hnone k ?_⟩
      · show (Machine.leave _).localNames = _
        rw [Machine.localNames_leave, hlocal, Machine.localNames_enter, List.tail_cons]
      · exact List.mem_cons_of_mem _ (List.mem_append_left _ hk)

/-- **A call leaks no names.**  However a call ends, with a value or with an error, and
whatever happens in it:
* every scope of a call that was active before has the same names afterwards;
* the global scope has the names that it had, and perhaps more;
* it has no more if no library is bound and no task is fired during the call, which is
  known from the record of the call; the record has no gaps. -/
theorem call_leaks_no_names (steps : Nat) (f : FunctionDef) (args : List Value) (m : Machine) :
    let m' := (Action.invoke steps f args m).2
    let moments := (Watched.invoke steps f args m).moments
    (Watched.invoke steps f args).plain = Action.invoke steps f args ∧ Path m moments m' ∧
    m'.locals.scopes.map Table.names = m.locals.scopes.map Table.names ∧
    Table.names m.globals <+: Table.names m'.globals ∧
    ((∀ k ∈ moments, (∀ library, k.event ≠ .bound library) ∧ ∀ task, k.event ≠ .fired task) →
      Table.names m'.globals = Table.names m.globals) := by
  intro m' moments
  have hplain : (Watched.invoke steps f args).plain = Action.invoke steps f args :=
    (Watched.agreement steps).invoke f args
  have hmachine : m' = (Watched.invoke steps f args m).machine := congrArg Prod.snd (congrFun hplain m).symm
  obtain ⟨hlocal, hglobal⟩ := Watched.names_invoke steps f args m
  rw [hmachine]
  refine ⟨hplain, (law_path.obeyed steps).invoke f args m, hlocal,
    (law_globalNames_grow.obeyed steps).invoke f args m, fun hnone => hglobal fun k hk => ?_⟩
  obtain ⟨hbound, hfired⟩ := hnone k hk
  cases hevent : k.event with
  | bound library => exact absurd hevent (hbound library)
  | fired task => exact absurd hevent (hfired task)
  | _ => rfl

end SealedScript

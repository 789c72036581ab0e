/-
SealedScript/Proofs/Machine/Steps.lean

What a single step of the machine can do, said once.  Most steps are quiet: they
touch the heap, the console and the clock and nothing else, and they fail neither
because the cipher refuses nor because too many calls are active.  The others write a variable, bind a
library, define a function, arm a task or leave a notice; two of them can meet a
cipher that refuses.  On the console all of them but one at most write lines; that
one asks for a line.

Main results: `SingleStep` lists the possibilities, and every action out of
which runs are built is one of them (`Action.IsStep`).  Those that statements and
expressions are made of leave the armed tasks alone, unless they arm another one
(`Action.IsBodyStep`).
-/
import SealedScript.Proofs.Machine.Scopes

namespace SealedScript

/-! ### Endings -/

/-- How a run ends, without the value. -/
inductive Ending where
  | done
  | failed (error : RuntimeError)
  | clockOverflow
  | unfinished

def Outcome.ending {α : Type} : Outcome α → Ending
  | .done _ => .done
  | .failed e => .failed e
  | .clockOverflow => .clockOverflow
  | .unfinished => .unfinished

/-- Whether an error tells that the cipher refused. -/
def RuntimeError.isCipher : RuntimeError → Bool
  | .encryption _ => true
  | .decryption _ => true
  | _ => false

/-- Whether a run ends because the cipher refused. -/
def Ending.isCipher : Ending → Bool
  | .failed e => e.isCipher
  | _ => false

/-- Whether an error tells that too many calls were active. -/
def RuntimeError.isOverflow : RuntimeError → Bool
  | .stackOverflow .. => true
  | _ => false

/-- Whether a run ends because too many calls were active. -/
def Ending.isOverflow : Ending → Bool
  | .failed e => e.isOverflow
  | _ => false

/-- Whether an error tells neither of the two. -/
def RuntimeError.isOrdinary (e : RuntimeError) : Bool := !e.isCipher && !e.isOverflow

/-- Whether a run ends neither because the cipher refused nor because too many calls
were active. -/
def Ending.isOrdinary (ending : Ending) : Bool := !ending.isCipher && !ending.isOverflow

theorem Ending.isCipher_of_isOrdinary {ending : Ending} (h : ending.isOrdinary = true) : ending.isCipher = false := by
  simp only [isOrdinary, Bool.and_eq_true, Bool.not_eq_true'] at h
  exact h.1

theorem Ending.isOverflow_of_isOrdinary {ending : Ending} (h : ending.isOrdinary = true) :
    ending.isOverflow = false := by
  simp only [isOrdinary, Bool.and_eq_true, Bool.not_eq_true'] at h
  exact h.2

/-! ### Steps -/

/-- Machines that differ at most in heap, console and clock. -/
def Machine.Alike (m m' : Machine) : Prop :=
  m' = { m with heap := m'.heap, console := m'.console, clock := m'.clock }

theorem Machine.Alike.refl (m : Machine) : m.Alike m := rfl

theorem Machine.Alike.wait (m : Machine) (nanoseconds : Nat) : m.Alike (m.wait nanoseconds) := rfl

theorem Machine.Alike.trans {m m' m'' : Machine} (h : m.Alike m') (h' : m'.Alike m'') :
    m.Alike m'' := by
  unfold Machine.Alike at *
  rw [h'] at *
  rw [h]

/-- On the console at most lines have been written. -/
def Machine.Prints (m m' : Machine) : Prop := ∃ lines, m'.console = m.console.printLines lines

theorem Machine.Prints.of_eq {m m' : Machine} (h : m'.console = m.console) : m.Prints m' := ⟨[], h⟩

theorem Machine.Prints.refl (m : Machine) : m.Prints m := .of_eq rfl

theorem Machine.Prints.wait (m : Machine) (nanoseconds : Nat) : m.Prints (m.wait nanoseconds) := .of_eq rfl

theorem Machine.Prints.trans {m m' m'' : Machine} (h : m.Prints m') (h' : m'.Prints m'') : m.Prints m'' := by
  obtain ⟨lines, h⟩ := h
  obtain ⟨lines', h'⟩ := h'
  refine ⟨lines ++ lines', ?_⟩
  rw [h', h, Console.printLines, Console.printLines, Console.printLines, List.foldl_append]

/-- What a single step can do to the machine. -/
inductive SingleStep : Event → Machine → Ending → Machine → Prop
  | quiet {event : Event} {m m' : Machine} {ending : Ending} :
      m.Alike m' → ending.isCipher = false → SingleStep event m ending m'
  | undecryptable {m : Machine} {name : String} {v : Variable} {error : CipherError} :
      m.find? name = some v → v.encrypted = true →
      m.cipher.decrypt (m.heap.text v.value) = .error error →
      SingleStep .step m (.failed (.decryption error)) m
  | storedPlain {m : Machine} (name : String) (value : Value) :
      SingleStep (.stored name value false) m .done (m.write name ⟨value, false⟩)
  | storedSealed {m : Machine} (name : String) {value : Value} {text : String} :
      m.cipher.encrypt (m.heap.text value) = .ok text →
      SingleStep (.stored name value true) m .done (m.write name ⟨.text text, true⟩)
  | unencryptable {m : Machine} {name : String} {value : Value} {error : CipherError} :
      m.cipher.encrypt (m.heap.text value) = .error error →
      SingleStep (.stored name value true) m (.failed (.encryption error)) m
  | bound {m : Machine} {library : String} (heap : Heap) (name : String) (object : Value) :
      SingleStep (.bound library) m .done ({ m with heap := heap }.writeGlobal name ⟨object, false⟩)
  | defined {m : Machine} (f : FunctionDef) :
      SingleStep .step m .done { m with functions := Table.insert m.functions f.name f }
  | armed {m : Machine} (action : Stmt) (trigger : Trigger) (nextRun : Nat) (runsLeft : Option Nat) :
      SingleStep .step m .done
        { m with scheduler := (m.scheduler.add action trigger nextRun runsLeft).2 }
  | rearmed {m : Machine} (tasks : List Task) :
      SingleStep .step m .done { m with scheduler := tasks.foldl Scheduler.putBack m.scheduler }
  | strayReturn {m : Machine} : SingleStep .step m .done (m.notice .strayReturn)

namespace Action

variable {α β : Type}

/-- An action that is a single step. -/
def IsStep (event : Event) (x : Action α) : Prop :=
  ∀ m, SingleStep event m (x m).1.ending (x m).2

/-- An action that touches heap, console and clock only, fails with ordinary errors only,
and on the console writes at most lines. -/
def Quiet (x : Action α) : Prop :=
  ∀ m, m.Alike (x m).2 ∧ (x m).1.ending.isOrdinary = true ∧ m.Prints (x m).2

theorem Quiet.isStep {x : Action α} (h : Quiet x) (event : Event) : IsStep event x :=
  fun m => .quiet (h m).1 (Ending.isCipher_of_isOrdinary (h m).2.1)

/-! ### Quiet actions -/

theorem quiet_pure (a : α) : Quiet (pure a) := fun m => ⟨.refl m, rfl, .refl m⟩

theorem quiet_fail {e : RuntimeError} (h : e.isOrdinary = true) : Quiet (fail e : Action α) :=
  fun m => ⟨.refl m, h, .refl m⟩

theorem quiet_bind {x : Action α} {f : α → Action β} (hx : Quiet x) (hf : ∀ a, Quiet (f a)) :
    Quiet (x >>= f) := by
  intro m
  obtain ⟨halike, hordinary, hprints⟩ := hx m
  show m.Alike (Action.bind x f m).2 ∧ (Action.bind x f m).1.ending.isOrdinary = true ∧ m.Prints (Action.bind x f m).2
  unfold Action.bind
  rcases hxm : x m with ⟨outcome, m'⟩
  rw [hxm] at halike hordinary hprints
  cases outcome with
  | done a =>
    obtain ⟨halike', hordinary', hprints'⟩ := hf a m'
    exact ⟨halike.trans halike', hordinary', hprints.trans hprints'⟩
  | failed e => exact ⟨halike, hordinary, hprints⟩
  | clockOverflow => exact ⟨halike, rfl, hprints⟩
  | unfinished => exact ⟨halike, rfl, hprints⟩

theorem quiet_reads (f : Machine → α) : Quiet (reads f) := fun m => ⟨.refl m, rfl, .refl m⟩

theorem quiet_withHeap (f : Heap → α × Heap) : Quiet (withHeap f) := fun _ => ⟨rfl, rfl, .of_eq rfl⟩

/-- A computation that fails with ordinary errors only. -/
def Ordinary (x : Except RuntimeError α) : Prop := ∀ e, x = .error e → e.isOrdinary = true

theorem ordinary_ok (a : α) : Ordinary (.ok a) := by
  intro e h
  cases h

theorem ordinary_error {e : RuntimeError} (h : e.isOrdinary = true) :
    Ordinary (.error e : Except RuntimeError α) := by
  intro e' he
  cases he
  exact h

theorem ordinary_bind {x : Except RuntimeError α} {f : α → Except RuntimeError β}
    (hx : Ordinary x) (hf : ∀ a, Ordinary (f a)) : Ordinary (x >>= f) := by
  cases x with
  | ok a => exact hf a
  | error e => exact ordinary_error (hx e rfl)

theorem ordinary_map {x : Except RuntimeError α} (f : α → β) (hx : Ordinary x) :
    Ordinary (x.map f) := by
  cases x with
  | ok a => exact ordinary_ok (f a)
  | error e => exact ordinary_error (hx e rfl)

theorem quiet_ofExcept {x : Except RuntimeError α} (h : Ordinary x) : Quiet (ofExcept x) := by
  cases x with
  | ok a => exact quiet_pure a
  | error e => exact quiet_fail (h e rfl)

theorem quiet_onHeap {f : Heap → Except RuntimeError (α × Heap)} (h : ∀ heap, Ordinary (f heap)) :
    Quiet (onHeap f) := by
  intro m
  unfold onHeap
  rcases hf : f m.heap with e | ⟨a, heap⟩
  · exact ⟨.refl m, h m.heap e hf, .refl m⟩
  · exact ⟨rfl, rfl, .of_eq rfl⟩

/-! ### Values -/

theorem ordinary_index (v : Value) : Ordinary v.index := by
  unfold Value.index
  split
  · exact ordinary_ok _
  · exact ordinary_ok _
  · split
    · exact ordinary_ok _
    · exact ordinary_error rfl
  · exact ordinary_error rfl

theorem ordinary_step (v : Value) (step : Step) : Ordinary (v.step step) := by
  unfold Value.step
  split
  · exact ordinary_ok _
  · exact ordinary_ok _
  · exact ordinary_error rfl

theorem ordinary_numberApply (op : BinaryOp) (a b : Number) : Ordinary (Number.apply op a b) := by
  unfold Number.apply
  cases op with
  | div | rem =>
    dsimp only
    split
    · exact ordinary_error rfl
    · exact ordinary_ok _
  | _ => exact ordinary_ok _

theorem ordinary_arithmetic (op : BinaryOp) (l r : Value) : Ordinary (Value.arithmetic op l r) := by
  unfold Value.arithmetic
  split
  · exact ordinary_numberApply op _ _
  · exact ordinary_error rfl

theorem ordinary_applyStructured (heap : Heap) (op : BinaryOp) (l r : Value) :
    Ordinary (heap.applyStructured op l r) := by
  unfold Heap.applyStructured
  split
  · exact ordinary_ok _
  · split
    · exact ordinary_ok _
    · exact ordinary_map _ (ordinary_arithmetic op l r)

theorem ordinary_apply (heap : Heap) (op : BinaryOp) (l r : Value) :
    Ordinary (heap.apply op l r) := by
  unfold Heap.apply
  split
  · exact ordinary_ok _
  · exact ordinary_ok _
  · split
    · exact ordinary_ok _
    · exact ordinary_applyStructured heap _ l r

theorem ordinary_checkArity (method : String) (count : Nat) (args : List Value) :
    Ordinary (checkArity method count args) := by
  unfold checkArity
  split
  · exact ordinary_ok _
  · exact ordinary_error rfl

theorem ordinary_callList (heap : Heap) (id : ListId) (method : String) (args : List Value) :
    Ordinary (heap.callList id method args) := by
  unfold Heap.callList
  split
  · -- `numInstances`
    exact ordinary_bind (ordinary_checkArity method 0 args) fun _ => ordinary_ok _
  split
  · -- `add`
    split
    · exact ordinary_ok _
    · exact ordinary_error rfl
  split
  · -- `remove`
    split
    · refine ordinary_bind (ordinary_index _) fun index => ?_
      split
      · exact ordinary_ok _
      · exact ordinary_error rfl
    · exact ordinary_error rfl
  · exact ordinary_error rfl

theorem ordinary_textAndAmount (method : String) (args : List Value) :
    Ordinary (Ledger.textAndAmount method args) := by
  unfold Ledger.textAndAmount
  split
  · refine ordinary_bind ?_ fun text => ordinary_bind ?_ fun amount => ordinary_ok _
    · unfold Ledger.textArgument
      split
      · exact ordinary_ok _
      · exact ordinary_error rfl
    · unfold Ledger.amountArgument
      split
      · exact ordinary_ok _
      · exact ordinary_ok _
      · exact ordinary_error rfl
  · exact ordinary_error rfl

theorem ordinary_ledgerCall (ledger : Ledger) (method : String) (args : List Value) :
    Ordinary (ledger.call method args) := by
  unfold Ledger.call
  split
  · exact ordinary_bind (ordinary_textAndAmount method args) fun _ => ordinary_ok _
  split
  · exact ordinary_bind (ordinary_textAndAmount method args) fun _ => ordinary_ok _
  split
  · exact ordinary_bind (ordinary_checkArity method 0 args) fun _ => ordinary_ok _
  split
  · exact ordinary_bind (ordinary_checkArity method 0 args) fun _ => ordinary_ok _
  · exact ordinary_error rfl

/-! ### The quiet steps of a run -/

theorem quiet_listOf (v : Value) : Quiet (listOf v) := by
  unfold listOf
  split
  · exact quiet_pure _
  · exact quiet_fail rfl

theorem quiet_placeOf (index : Value) (length : Nat) : Quiet (placeOf index length) := by
  refine quiet_bind (quiet_ofExcept (ordinary_index index)) fun n => ?_
  split
  · exact quiet_pure _
  · exact quiet_fail rfl

theorem quiet_elementAt (id : ListId) (i length : Nat) : Quiet (elementAt id i length) := by
  intro m
  unfold elementAt
  split
  · exact ⟨.refl m, rfl, .refl m⟩
  · exact ⟨.refl m, rfl, .refl m⟩

theorem quiet_assigned (op : AssignOp) {old : Action Value} (rhs : Value) (h : Quiet old) :
    Quiet (assigned op old rhs) := by
  unfold assigned
  split
  · exact quiet_pure rhs
  · exact quiet_bind h fun current => quiet_onHeap fun heap => ordinary_apply heap _ current rhs

theorem quiet_setElement (id : ListId) (i : Nat) (v : Value) : Quiet (setElement id i v) := by
  intro m
  unfold setElement
  split
  · exact ⟨rfl, rfl, .of_eq rfl⟩
  · exact ⟨.refl m, rfl, .refl m⟩

theorem quiet_assignElement (id : ListId) (i : Nat) (op : AssignOp) (rhs : Value) :
    Quiet (assignElement id i op rhs) :=
  quiet_bind (quiet_assigned op rhs fun m => quiet_elementAt id i (m.heap.length id) m)
    fun v => quiet_setElement id i v

theorem quiet_functionFor (name : String) (count : Nat) : Quiet (functionFor name count) := by
  intro m
  unfold functionFor
  split
  · exact ⟨.refl m, rfl, .refl m⟩
  · split
    · exact ⟨.refl m, rfl, .refl m⟩
    · exact ⟨.refl m, rfl, .refl m⟩

theorem quiet_promptText (v : Value) : Quiet (promptText v) := by
  unfold promptText
  split
  · exact quiet_pure _
  · exact quiet_fail rfl

theorem quiet_printLine (f : Machine → String) : Quiet (changes fun m => m.printLine (f m)) :=
  fun m => ⟨rfl, rfl, [f m], rfl⟩

theorem quiet_dueMoment : Quiet dueMoment := by
  intro m
  unfold dueMoment
  split
  · exact ⟨.refl m, rfl, .refl m⟩
  · split
    · exact ⟨.refl m, rfl, .refl m⟩
    · exact ⟨rfl, rfl, .of_eq rfl⟩

/-- While a task runs no other one is due. -/
theorem dueMoment_inTask {m : Machine} (h : m.inTask = true) : dueMoment m = (.done none, m) := by
  simp only [dueMoment, h, if_true]

/-- Nothing is armed, so nothing is due. -/
theorem dueMoment_idle {m : Machine} (h : m.scheduler.tasks = []) : dueMoment m = (.done none, m) := by
  have hwakeup : m.scheduler.nextWakeup = none := by
    rw [Scheduler.nextWakeup, h]
    rfl
  unfold dueMoment
  rw [hwakeup]
  split
  · rfl
  · rfl

/-- Asking for a line is not quiet: it can write a prompt, and takes what comes in. -/
theorem alike_readLine (prompt : String) (m : Machine) : m.Alike (readLine prompt m).2 := rfl

theorem quiet_sleepUntil (moment : Nat) : Quiet (sleepUntil moment) := fun _ => ⟨rfl, rfl, .of_eq rfl⟩

theorem quiet_callList (id : ListId) (method : String) (args : List Value) :
    Quiet (callList id method args) := by
  intro m
  unfold callList
  split
  · exact ⟨.refl m, ordinary_callList m.heap id method args _ (by assumption), .refl m⟩
  · exact ⟨rfl, rfl, .of_eq rfl⟩

theorem quiet_callLedger (id : ObjectId) (ledger : Ledger) (method : String) (args : List Value) :
    Quiet (callLedger id ledger method args) := by
  intro m
  unfold callLedger
  split
  · exact ⟨.refl m, ordinary_ledgerCall ledger method args _ (by assumption), .refl m⟩
  · exact ⟨rfl, rfl, _, rfl⟩

theorem quiet_callHost (id : ObjectId) (method : String) (args : List Value) :
    Quiet (callHost id method args) := by
  intro m
  unfold callHost
  split
  · exact ⟨.wait m _, rfl, .wait m _⟩
  · split
    · exact ⟨rfl, rfl, _, rfl⟩
    · exact ⟨.refl m, rfl, .refl m⟩

theorem quiet_callMethod (target : Value) (method : String) (args : List Value) :
    Quiet (callMethod target method args) := by
  cases target with
  | list id => exact quiet_callList id method args
  | object id =>
    intro m
    unfold callMethod
    cases hobject : m.heap.object id with
    | ledger ledger =>
      simp only [hobject]
      exact quiet_callLedger id ledger method args m
    | host =>
      simp only [hobject]
      exact quiet_callHost id method args m
  | _ => exact quiet_fail rfl

/-! ### The other steps of a run -/

theorem isStep_openFound {m : Machine} {name : String} {v : Variable} (h : m.find? name = some v) :
    SingleStep .step m (openVariable v m).1.ending (openVariable v m).2 := by
  unfold openVariable
  split
  · rename_i hencrypted
    unfold decrypt
    split
    · exact (quiet_withHeap _).isStep .step m
    · exact .undecryptable h hencrypted (by assumption)
  · exact .quiet (.refl m) rfl

theorem isStep_read (name : String) (reading : Reading) : IsStep .step (read name reading) := by
  intro m
  show SingleStep .step m (Action.bind (lookup name) _ m).1.ending (Action.bind (lookup name) _ m).2
  unfold Action.bind lookup
  rcases hfind : m.find? name with - | v
  · exact .quiet (.refl m) rfl
  · cases reading with
    | opened => exact isStep_openFound hfind
    | «sealed» => exact .quiet (.refl m) rfl

theorem isStep_readOpened (name : String) : IsStep .step (readOpened name) := by
  intro m
  show SingleStep .step m (Action.bind (lookup name) _ m).1.ending (Action.bind (lookup name) _ m).2
  unfold Action.bind lookup
  rcases hfind : m.find? name with - | v
  · exact .quiet (.refl m) rfl
  · have hopen := isStep_openFound hfind
    show SingleStep .step m (Action.bind (openVariable v) _ m).1.ending
      (Action.bind (openVariable v) _ m).2
    unfold Action.bind
    rcases hv : openVariable v m with ⟨outcome, m'⟩
    rw [hv] at hopen
    cases outcome <;> exact hopen

theorem isStep_store (name : String) (value : Value) (encrypt : Bool) :
    IsStep (.stored name value encrypt) (store name value encrypt) := by
  intro m
  unfold store
  cases encrypt with
  | false => exact .storedPlain name value
  | true =>
    simp only [if_true]
    split
    · exact .storedSealed name (by assumption)
    · exact .unencryptable (by assumption)

theorem isStep_useLibrary (name : String) : IsStep (.bound name) (useLibrary name) := by
  intro m
  unfold useLibrary Registry.get
  split
  · exact .bound _ _ _
  · rename_i heq
    split at heq
    · cases heq
    · cases heq
      exact .quiet (.refl m) rfl

theorem isStep_define (name : String) (params : List String) (body : List Stmt) :
    IsStep .step (changes fun m => { m with functions := Table.insert m.functions name ⟨name, params, body⟩ }) :=
  fun _ => .defined ⟨name, params, body⟩

theorem isStep_arm (moment : Nat) (action : Stmt) (trigger : Trigger) (nextRun : Nat) (runs : Option Nat) :
    IsStep .step (arm moment (·.add action trigger nextRun runs)) := by
  intro m
  unfold arm
  split
  · exact .armed action trigger nextRun runs
  · exact .quiet (.refl m) rfl

theorem isStep_schedule (time : Value) (unit : Option String) (times : Option Value) (action : Stmt) :
    IsStep .step (schedule time unit times action) := by
  intro m
  unfold schedule
  split
  · -- the number of runs is no good
    exact .quiet (.refl m) rfl
  · split
    · -- without a unit the time is a date
      split
      · exact .quiet (.refl m) rfl
      · exact isStep_arm _ action _ _ _ m
    · -- with a unit it is an interval
      split
      · exact .quiet (.refl m) rfl
      · exact isStep_arm _ action _ _ _ m

end Action

/-! ### Steps of a body -/

/-- The task that a step fires, if it fires one. -/
def Event.task? : Event → Option Task
  | .fired task => some task
  | _ => none

/-- The line that a step asks for, if it asks for one. -/
def Event.call? : Event → Option Call
  | .asked call => some call
  | _ => none

/-- What a step does to the console: it asks for a line if that is what the step is, and
otherwise it writes at most lines. -/
def Event.Tells (event : Event) (m m' : Machine) : Prop :=
  match event.call? with
  | some call => call.before = m ∧ m' = (Action.readLine call.prompt m).2
  | none => m.Prints m'

theorem Event.tells_of_prints {event : Event} {m m' : Machine} (hnone : event.call? = none) (h : m.Prints m') :
    event.Tells m m' := by
  rw [Event.Tells, hnone]
  exact h

/-- Tasks have been armed, one after another, and nothing else was done. -/
inductive Scheduler.Grows (s : Scheduler) : Scheduler → Prop
  | same : s.Grows s
  | add {s' : Scheduler} (action : Stmt) (trigger : Trigger) (nextRun : Nat) (runsLeft : Option Nat) :
      s.Grows s' → s.Grows (s'.add action trigger nextRun runsLeft).2

theorem Scheduler.Grows.trans {s s' s'' : Scheduler} (h : s.Grows s') (h' : s'.Grows s'') : s.Grows s'' := by
  induction h' with
  | same => exact h
  | add action trigger nextRun runsLeft _ ih => exact ih.add action trigger nextRun runsLeft

/-- A step of statements and expressions themselves: it fires nothing and asks for no
line, of the armed tasks none is touched, and on the console at most lines are written. -/
structure BodyStep (event : Event) (m : Machine) (ending : Ending) (m' : Machine) : Prop where
  single : SingleStep event m ending m'
  firesNone : event.task? = none
  asksNone : event.call? = none
  grows : m.scheduler.Grows m'.scheduler
  prints : m.Prints m'

namespace Action

variable {α β : Type}

/-- An action that is a step of statements and expressions. -/
def IsBodyStep (event : Event) (x : Action α) : Prop :=
  ∀ m, BodyStep event m (x m).1.ending (x m).2

/-- An action that leaves the timers alone, and on the console writes at most lines. -/
def Reticent (x : Action α) : Prop := ∀ m, (x m).2.scheduler = m.scheduler ∧ m.Prints (x m).2

theorem IsStep.isBodyStep {event : Event} {x : Action α} (h : IsStep event x) (hfires : event.task? = none)
    (hasks : event.call? = none) (hreticent : Reticent x) : IsBodyStep event x := by
  intro m
  obtain ⟨hkeeps, hprints⟩ := hreticent m
  refine ⟨h m, hfires, hasks, ?_, hprints⟩
  rw [hkeeps]
  exact .same

theorem Quiet.reticent {x : Action α} (h : Quiet x) : Reticent x := by
  intro m
  obtain ⟨halike, -, hprints⟩ := h m
  refine ⟨?_, hprints⟩
  rw [halike]

theorem Quiet.isBodyStep {x : Action α} (h : Quiet x) : IsBodyStep .step x :=
  (h.isStep .step).isBodyStep rfl rfl h.reticent

theorem reticent_bind {x : Action α} {f : α → Action β} (hx : Reticent x) (hf : ∀ a, Reticent (f a)) :
    Reticent (x >>= f) := by
  intro m
  obtain ⟨hkeeps, hprints⟩ := hx m
  show (Action.bind x f m).2.scheduler = m.scheduler ∧ m.Prints (Action.bind x f m).2
  unfold Action.bind
  rcases hxm : x m with ⟨outcome, m'⟩
  rw [hxm] at hkeeps hprints
  cases outcome with
  | done a => exact ⟨(hf a m').1.trans hkeeps, hprints.trans (hf a m').2⟩
  | _ => exact ⟨hkeeps, hprints⟩

theorem quiet_lookup (name : String) : Quiet (lookup name) := by
  intro m
  unfold lookup
  split
  · exact ⟨.refl m, rfl, .refl m⟩
  · exact ⟨.refl m, rfl, .refl m⟩

theorem reticent_openVariable (v : Variable) : Reticent (openVariable v) := by
  intro m
  unfold openVariable
  split
  · unfold decrypt
    split
    · exact (quiet_withHeap _).reticent m
    · exact ⟨rfl, .refl m⟩
  · exact ⟨rfl, .refl m⟩

theorem isBodyStep_read (name : String) (reading : Reading) : IsBodyStep .step (read name reading) := by
  refine (isStep_read name reading).isBodyStep rfl rfl (reticent_bind (quiet_lookup name).reticent fun v => ?_)
  cases reading with
  | opened => exact reticent_openVariable v
  | «sealed» => exact (quiet_pure v.value).reticent

theorem isBodyStep_readOpened (name : String) : IsBodyStep .step (readOpened name) := by
  refine (isStep_readOpened name).isBodyStep rfl rfl (reticent_bind (quiet_lookup name).reticent fun v => ?_)
  exact reticent_bind (reticent_openVariable v) fun value => (quiet_pure _).reticent

theorem isBodyStep_store (name : String) (value : Value) (encrypt : Bool) :
    IsBodyStep (.stored name value encrypt) (store name value encrypt) := by
  have hwrite (m : Machine) (v : Variable) :
      (m.write name v).scheduler = m.scheduler ∧ m.Prints (m.write name v) := by
    rw [m.write_eq]
    exact ⟨rfl, .of_eq rfl⟩
  refine (isStep_store name value encrypt).isBodyStep rfl rfl fun m => ?_
  unfold store
  split
  · split
    · exact hwrite m _
    · exact ⟨rfl, .refl m⟩
  · exact hwrite m _

theorem isBodyStep_useLibrary (name : String) : IsBodyStep (.bound name) (useLibrary name) := by
  refine (isStep_useLibrary name).isBodyStep rfl rfl fun m => ?_
  unfold useLibrary
  split
  · exact ⟨rfl, .of_eq rfl⟩
  · exact ⟨rfl, .refl m⟩

theorem isBodyStep_define (name : String) (params : List String) (body : List Stmt) :
    IsBodyStep .step (changes fun m => { m with functions := Table.insert m.functions name ⟨name, params, body⟩ }) :=
  (isStep_define name params body).isBodyStep rfl rfl fun _ => ⟨rfl, .of_eq rfl⟩

theorem isBodyStep_strayReturn : IsBodyStep .step (changes (·.notice .strayReturn)) :=
  fun _ => ⟨.strayReturn, rfl, rfl, .same, .of_eq rfl⟩

/-- Arming is silent, and touches no task that is armed. -/
theorem grows_arm (moment : Nat) (action : Stmt) (trigger : Trigger) (nextRun : Nat) (runs : Option Nat)
    (m : Machine) :
    m.scheduler.Grows (arm moment (·.add action trigger nextRun runs) m).2.scheduler ∧
      m.Prints (arm moment (·.add action trigger nextRun runs) m).2 := by
  unfold arm
  split
  · exact ⟨Scheduler.Grows.same.add action trigger nextRun runs, .of_eq rfl⟩
  · exact ⟨.same, .refl m⟩

/-- The one step of a body that arms something. -/
theorem isBodyStep_schedule (time : Value) (unit : Option String) (times : Option Value) (action : Stmt) :
    IsBodyStep .step (schedule time unit times action) := by
  intro m
  have hgrows : m.scheduler.Grows (schedule time unit times action m).2.scheduler ∧
      m.Prints (schedule time unit times action m).2 := by
    unfold schedule
    split
    · exact ⟨.same, .refl m⟩
    · split
      · split
        · exact ⟨.same, .refl m⟩
        · exact grows_arm _ action _ _ _ m
      · split
        · exact ⟨.same, .refl m⟩
        · exact grows_arm _ action _ _ _ m
  exact ⟨isStep_schedule time unit times action m, rfl, rfl, hgrows.1, hgrows.2⟩

end Action

end SealedScript

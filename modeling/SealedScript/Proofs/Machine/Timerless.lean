/-
SealedScript/Proofs/Machine/Timerless.lean

Machines in which timers play no part: nothing is armed, and the functions arm nothing.
Nearly all steps of a run are calm: they leave such a machine as such a machine, keep the
calls that are active and do not fail for their number.  To those steps the limit for
calls makes no difference either: from machines that differ in it they do the same.

Main results: `Action.IsCalm` and `Action.Unlimited`, for each step that statements and
expressions are made of, the arming of a timer apart.
-/
import SealedScript.Proofs.Machine.Balance
import SealedScript.Proofs.Machine.Uniform

namespace SealedScript

/-! ### Programs that arm nothing -/

mutual

/-- Whether no timer is armed by the statement or inside it. -/
def Stmt.armsNothing : Stmt → Bool
  | .print _ => true
  | .conditional _ yes none => armNothing yes
  | .conditional _ yes (some no) => armNothing yes && armNothing no
  | .forLoop _ _ _ body => armNothing body
  | .whileLoop _ body => armNothing body
  | .input .. => true
  | .function _ _ body => armNothing body
  | .giveBack _ => true
  | .useLibrary _ => true
  | .trigger .. => false
  | .expression _ => true

/-- Whether no timer is armed by any of the statements or inside them. -/
def Stmt.armNothing : List Stmt → Bool
  | [] => true
  | stmt :: rest => stmt.armsNothing && armNothing rest

end

/-- A machine without armed tasks, whose functions arm none. -/
structure Machine.Timerless (m : Machine) : Prop where
  idle : m.scheduler.tasks = []
  functions : ∀ entry ∈ m.functions, Stmt.armNothing entry.2.body = true

namespace Machine.Timerless

variable {m m' : Machine}

theorem alike (h : m.Timerless) (halike : m.Alike m') : m'.Timerless := by
  rw [halike]
  exact ⟨h.idle, h.functions⟩

theorem write (h : m.Timerless) (name : String) (v : Variable) : (m.write name v).Timerless := by
  rw [m.write_eq]
  exact ⟨h.idle, h.functions⟩

theorem define (h : m.Timerless) (f : FunctionDef) (hbody : Stmt.armNothing f.body = true) :
    { m with functions := Table.insert m.functions f.name f }.Timerless := by
  refine ⟨h.idle, fun entry hentry => ?_⟩
  rcases Table.mem_insert hentry with hold | rfl
  · exact h.functions entry hold
  · exact hbody

end Machine.Timerless

/-! ### The limit for calls -/

namespace Machine

/-- The machine with another limit for calls. -/
def withLimit (m : Machine) (limit : Nat) : Machine := { m with maxDepth := limit }

/-- The error with which a run from this machine ends when too many calls are active. -/
def overflow (m : Machine) : RuntimeError := .stackOverflow (max m.depth m.maxDepth + 1) m.maxDepth

theorem overflow_of_depth_eq_zero {m : Machine} (h : m.depth = 0) :
    m.overflow = .stackOverflow (m.maxDepth + 1) m.maxDepth := by
  rw [overflow, h, Nat.zero_max]

theorem SameCalls.overflow_eq {m m' : Machine} (h : m.SameCalls m') : m'.overflow = m.overflow := by
  rw [overflow, overflow, h.1, h.2.1]

/-- Inside a call the error is the same. -/
theorem overflow_enter {m : Machine} (h : m.depth < m.maxDepth) (scope : Scope) :
    (m.enter scope).overflow = m.overflow := by
  have hdepth : (m.enter scope).depth = m.depth + 1 := rfl
  have hlimit : (m.enter scope).maxDepth = m.maxDepth := rfl
  rw [overflow, overflow, hdepth, hlimit, Nat.max_eq_right h, Nat.max_eq_right (Nat.le_of_lt h)]

@[simp] theorem locals_withLimit (m : Machine) (limit : Nat) : (m.withLimit limit).locals = m.locals := rfl

@[simp] theorem globals_withLimit (m : Machine) (limit : Nat) : (m.withLimit limit).globals = m.globals := rfl

@[simp] theorem heap_withLimit (m : Machine) (limit : Nat) : (m.withLimit limit).heap = m.heap := rfl

@[simp] theorem functions_withLimit (m : Machine) (limit : Nat) : (m.withLimit limit).functions = m.functions := rfl

@[simp] theorem cipher_withLimit (m : Machine) (limit : Nat) : (m.withLimit limit).cipher = m.cipher := rfl

@[simp] theorem libraries_withLimit (m : Machine) (limit : Nat) : (m.withLimit limit).libraries = m.libraries := rfl

@[simp] theorem depth_withLimit (m : Machine) (limit : Nat) : (m.withLimit limit).depth = m.depth := rfl

theorem find?_withLimit (m : Machine) (limit : Nat) (name : String) :
    (m.withLimit limit).find? name = m.find? name := rfl

theorem write_withLimit (m : Machine) (limit : Nat) (name : String) (v : Variable) :
    (m.withLimit limit).write name v = (m.write name v).withLimit limit := by
  simp only [write, locals_withLimit, globals_withLimit, depth_withLimit]
  rw [apply_ite (Machine.withLimit · limit), apply_ite (Machine.withLimit · limit)]
  rfl

end Machine

namespace Action

variable {α β : Type}

/-- An action to which the limit for calls makes no difference. -/
def Unlimited (x : Action α) : Prop :=
  ∀ (m : Machine) (limit : Nat), x (m.withLimit limit) = ((x m).1, (x m).2.withLimit limit)

theorem Unlimited.respects {x : Action α} (h : Unlimited x) (limit : Nat) :
    Respects (fun m m' => m' = m.withLimit limit) x := by
  rintro m m' rfl
  rw [h m limit]
  exact ⟨rfl, rfl⟩

theorem unlimited_of_respects {x : Action α} (h : ∀ limit, Respects (fun m m' => m' = m.withLimit limit) x) :
    Unlimited x := by
  intro m limit
  obtain ⟨houtcome, hafter⟩ := h limit m _ rfl
  exact Prod.ext houtcome hafter

theorem congruence_withLimit (limit : Nat) : Machine.Congruence fun m m' => m' = m.withLimit limit where
  heap := by
    rintro m _ rfl
    rfl
  withHeap := by
    rintro m _ rfl heap
    rfl
  printLines := by
    rintro m _ rfl lines
    rfl
  wait := by
    rintro m _ rfl nanoseconds
    rfl

theorem Uniform.unlimited {x : Action α} (h : Uniform x) : Unlimited x :=
  unlimited_of_respects fun limit => h _ (congruence_withLimit limit)

theorem unlimited_bind {x : Action α} {f : α → Action β} (hx : Unlimited x) (hf : ∀ a, Unlimited (f a)) :
    Unlimited (x >>= f) :=
  unlimited_of_respects fun limit => respects_bind (hx.respects limit) fun a => (hf a).respects limit

theorem unlimited_functionFor (name : String) (count : Nat) : Unlimited (functionFor name count) := by
  intro m limit
  simp only [functionFor, Machine.functions_withLimit]
  rcases Table.find? m.functions name with - | f
  · rfl
  · dsimp only
    split
    · rfl
    · rfl

theorem unlimited_readLine (prompt : String) : Unlimited (readLine prompt) := fun _ _ => rfl

theorem unlimited_lookup (name : String) : Unlimited (lookup name) := by
  intro m limit
  simp only [lookup, Machine.find?_withLimit]
  rcases m.find? name with - | v
  · rfl
  · rfl

theorem unlimited_openVariable (v : Variable) : Unlimited (openVariable v) := by
  unfold openVariable
  split
  · intro m limit
    simp only [decrypt, Machine.heap_withLimit, Machine.cipher_withLimit]
    rcases m.cipher.decrypt (m.heap.text v.value) with e | text
    · rfl
    · rfl
  · exact (uniform_pure v.value).unlimited

theorem unlimited_read (name : String) (reading : Reading) : Unlimited (read name reading) := by
  refine unlimited_bind (unlimited_lookup name) fun v => ?_
  cases reading with
  | opened => exact unlimited_openVariable v
  | «sealed» => exact (uniform_pure v.value).unlimited

theorem unlimited_readOpened (name : String) : Unlimited (readOpened name) :=
  unlimited_bind (unlimited_lookup name) fun v => unlimited_bind (unlimited_openVariable v) fun _ => (uniform_pure _).unlimited

theorem unlimited_store (name : String) (value : Value) (encrypt : Bool) : Unlimited (store name value encrypt) := by
  intro m limit
  unfold store
  rw [Machine.heap_withLimit, Machine.cipher_withLimit]
  cases encrypt with
  | false => exact congrArg (Prod.mk _) (m.write_withLimit limit name _)
  | true =>
    rcases m.cipher.encrypt (m.heap.text value) with e | text
    · rfl
    · exact congrArg (Prod.mk _) (m.write_withLimit limit name _)

theorem unlimited_useLibrary (name : String) : Unlimited (useLibrary name) := by
  intro m limit
  unfold useLibrary
  rw [Machine.libraries_withLimit]
  rcases m.libraries.get name with e | library
  · rfl
  · rfl

theorem unlimited_define (f : FunctionDef) :
    Unlimited (changes fun m => { m with functions := Table.insert m.functions f.name f }) := fun _ _ => rfl

end Action

/-! ### Calm steps -/

/-- A step that arms nothing, defines nothing that does, keeps the active calls and does
not fail for their number. -/
structure Calm (m : Machine) (ending : Ending) (m' : Machine) : Prop where
  timerless : m.Timerless → m'.Timerless
  calls : m.SameCalls m'
  fits : ending.isOverflow = false

theorem Calm.still {m : Machine} {ending : Ending} (h : ending.isOverflow = false) : Calm m ending m :=
  ⟨id, .refl m, h⟩

theorem Calm.trans {m m' m'' : Machine} {ending ending' : Ending} (h : Calm m ending m')
    (h' : Calm m' ending' m'') : Calm m ending' m'' :=
  ⟨h'.timerless ∘ h.timerless, h.calls.trans h'.calls, h'.fits⟩

theorem Calm.write (m : Machine) (name : String) (v : Variable) : Calm m .done (m.write name v) :=
  ⟨fun h => h.write name v, m.sameCalls_write name v, rfl⟩

namespace Action

variable {α β : Type}

/-- An action that is a calm step. -/
def IsCalm (x : Action α) : Prop := ∀ m, Calm m (x m).1.ending (x m).2

theorem Quiet.isCalm {x : Action α} (h : Quiet x) : IsCalm x := by
  intro m
  obtain ⟨halike, hordinary, -⟩ := h m
  exact ⟨fun hm => hm.alike halike, halike.sameCalls, Ending.isOverflow_of_isOrdinary hordinary⟩

theorem isCalm_readLine (prompt : String) : IsCalm (readLine prompt) :=
  fun m => ⟨fun hm => hm.alike (alike_readLine prompt m), (alike_readLine prompt m).sameCalls, rfl⟩

theorem isCalm_bind {x : Action α} {f : α → Action β} (hx : IsCalm x) (hf : ∀ a, IsCalm (f a)) :
    IsCalm (x >>= f) := by
  intro m
  have h := hx m
  show Calm m (Action.bind x f m).1.ending (Action.bind x f m).2
  unfold Action.bind
  rcases hxm : x m with ⟨outcome, m'⟩
  rw [hxm] at h
  cases outcome with
  | done a => exact h.trans (hf a m')
  | failed | clockOverflow | unfinished => exact h

theorem isCalm_openVariable (v : Variable) : IsCalm (openVariable v) := by
  intro m
  unfold openVariable
  split
  · unfold decrypt
    split
    · exact (quiet_withHeap _).isCalm m
    · exact .still rfl
  · exact .still rfl

theorem isCalm_read (name : String) (reading : Reading) : IsCalm (read name reading) := by
  refine isCalm_bind (quiet_lookup name).isCalm fun v => ?_
  cases reading with
  | opened => exact isCalm_openVariable v
  | «sealed» => exact (quiet_pure v.value).isCalm

theorem isCalm_readOpened (name : String) : IsCalm (readOpened name) :=
  isCalm_bind (quiet_lookup name).isCalm fun v => isCalm_bind (isCalm_openVariable v) fun _ => (quiet_pure _).isCalm

theorem isCalm_store (name : String) (value : Value) (encrypt : Bool) : IsCalm (store name value encrypt) := by
  intro m
  unfold store
  split
  · split
    · exact .write m name _
    · exact .still rfl
  · exact .write m name _

theorem isCalm_useLibrary (name : String) : IsCalm (useLibrary name) := by
  intro m
  unfold useLibrary
  split
  · exact ⟨fun h => ⟨h.idle, h.functions⟩, ⟨rfl, rfl, rfl⟩, rfl⟩
  · next e hget =>
    refine .still ?_
    unfold Registry.get at hget
    split at hget
    · cases hget
    · cases hget
      rfl

theorem isCalm_define (f : FunctionDef) (hbody : Stmt.armNothing f.body = true) :
    IsCalm (changes fun m => { m with functions := Table.insert m.functions f.name f }) :=
  fun _ => ⟨fun h => h.define f hbody, ⟨rfl, rfl, rfl⟩, rfl⟩

theorem isCalm_strayReturn : IsCalm (changes (·.notice .strayReturn)) :=
  fun _ => ⟨fun h => ⟨h.idle, h.functions⟩, ⟨rfl, rfl, rfl⟩, rfl⟩

end Action

theorem Machine.Timerless.functionFor {m : Machine} (hm : m.Timerless) {name : String} {count : Nat} {f : FunctionDef}
    (h : (Action.functionFor name count m).1 = .done f) : Stmt.armNothing f.body = true := by
  unfold Action.functionFor at h
  split at h
  · cases h
  · next g hfound =>
    split at h
    · cases h
      exact hm.functions _ (Table.mem_of_find? hfound)
    · cases h

end SealedScript

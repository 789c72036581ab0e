/-
SealedScript/Proofs/Machine/Printing.lean

What a print statement shows of encrypted variables: their ciphertexts.  The
statement is run from a machine and from the same machine with its encrypted
variables made plain ones that hold the ciphertexts; both runs write the same line
or fail alike, so the values behind the ciphertexts play no part.

This holds as long as the expression calls nothing, combines no variable with a value
(`+=` and its like) and counts no encrypted variable up or down.  Counting opens the
variable even for a print statement, and shows what was inside.

Main results: `print_shows_ciphertexts`, `counting_shows_secret`.
-/
import SealedScript.Proofs.Machine.Opening

namespace SealedScript

/-! ### What is found after writing -/

namespace CallStack

variable {name other : String} {v : Variable} {scopes : List Scope}

theorem findIn_of_not_held (h : scopes.any (Table.contains · name) = false) : findIn name scopes = none := by
  induction scopes with
  | nil => rfl
  | cons scope outer ih =>
    rw [List.any_cons, Bool.or_eq_false_iff] at h
    have hnone : Table.find? scope name = none := by simpa [Table.contains] using h.1
    rw [findIn, hnone]
    exact ih h.2

theorem findIn_writeIn_self (h : scopes.any (Table.contains · name) = true) :
    findIn name (writeIn name v scopes) = some v := by
  induction scopes with
  | nil => cases h
  | cons scope outer ih =>
    rw [writeIn]
    split
    · rw [findIn, Table.find?_insert_self]
    · next hscope =>
      have hnone : Table.find? scope name = none := by simpa [Table.contains] using hscope
      rw [findIn, hnone]
      refine ih ?_
      simpa [hscope] using h

theorem findIn_writeIn_of_ne (h : other ≠ name) :
    findIn other (writeIn name v scopes) = findIn other scopes := by
  induction scopes with
  | nil => rfl
  | cons scope outer ih =>
    rw [writeIn]
    split
    · rw [findIn, findIn, Table.find?_insert_of_ne scope v h]
    · rw [findIn, findIn, ih]

theorem findIn_modifyHead_self (h : scopes ≠ []) :
    findIn name (scopes.modifyHead (Table.insert · name v)) = some v := by
  cases scopes with
  | nil => exact absurd rfl h
  | cons scope outer => rw [List.modifyHead_cons, findIn, Table.find?_insert_self]

theorem findIn_modifyHead_of_ne (h : other ≠ name) :
    findIn other (scopes.modifyHead (Table.insert · name v)) = findIn other scopes := by
  cases scopes with
  | nil => rfl
  | cons scope outer => rw [List.modifyHead_cons, findIn, findIn, Table.find?_insert_of_ne scope v h]

end CallStack

namespace Machine

variable {name other : String}

theorem find?_write_self (m : Machine) (name : String) (v : Variable) : (m.write name v).find? name = some v := by
  unfold write
  split
  · next hholds =>
    have hfound : (m.locals.write name v).find? name = some v := CallStack.findIn_writeIn_self hholds
    simp only [find?, hfound]
  · next hholds =>
    have hnone : m.locals.find? name = none := CallStack.findIn_of_not_held (Bool.not_eq_true _ ▸ hholds)
    split
    · simp only [writeGlobal, find?, hnone, Table.find?_insert_self]
    · next hdepth =>
      -- a call is active, so there is an innermost scope to write into
      have hscopes : m.locals.scopes ≠ [] := by
        intro hnil
        simp [depth, m.locals.depth_eq, hnil] at hdepth
      have hfound : (m.locals.insert name v).find? name = some v := CallStack.findIn_modifyHead_self hscopes
      simp only [find?, hfound]

theorem find?_write_of_ne (m : Machine) (v : Variable) (h : other ≠ name) :
    (m.write name v).find? other = m.find? other := by
  unfold write
  split
  · have hlocal : (m.locals.write name v).find? other = m.locals.find? other := CallStack.findIn_writeIn_of_ne h
    simp only [find?, hlocal]
  · split
    · simp only [writeGlobal, find?, Table.find?_insert_of_ne _ v h]
    · have hlocal : (m.locals.insert name v).find? other = m.locals.find? other :=
        CallStack.findIn_modifyHead_of_ne h
      simp only [find?, hlocal]

end Machine

/-! ### Machines that hold the same ciphertexts -/

/-- The variable as a plain one, with the ciphertext that it holds if it is encrypted. -/
def Variable.withoutSeal (v : Variable) : Variable := ⟨v.value, false⟩

/-- The machine with all its encrypted variables made plain ones that hold the
ciphertexts. -/
def Machine.withoutSeals (m : Machine) : Machine :=
  { m with
    globals := m.globals.map fun entry => (entry.1, entry.2.withoutSeal)
    locals := ⟨m.locals.scopes.map (List.map fun entry => (entry.1, entry.2.withoutSeal)), m.locals.depth, by
      rw [List.length_map, m.locals.depth_eq]⟩ }

/-- The second variable is the first one, or the first one without its seal. -/
inductive Variable.Veils : Variable → Variable → Prop
  | same (v : Variable) : Veils v v
  | bare (v : Variable) : Veils v v.withoutSeal

theorem Variable.Veils.value_eq {v v' : Variable} (h : v.Veils v') : v'.value = v.value := by
  cases h <;> rfl

theorem Scope.veils_withoutSeal (scope : Scope) :
    Scope.Rel Variable.Veils scope (scope.map fun entry => (entry.1, entry.2.withoutSeal)) := by
  refine List.forall₂_map_right_iff.2 (List.forall₂_same.2 fun entry _ => ?_)
  exact ⟨rfl, .bare entry.2⟩

namespace Machine

theorem cipher_of_rest {m m' : Machine} (h : m'.rest = m.rest) : m'.cipher = m.cipher := by
  show m'.rest.cipher = m.rest.cipher
  rw [h]

/-- The machine without functions.  Nothing that is printed here calls one. -/
def bare (m : Machine) : Machine := { m with functions := [] }

/-- Machines whose variables hold the same, and are the same under the names for which
`plain` holds. -/
structure Veiled (plain : String → Bool) (m m' : Machine) : Prop where
  related : m.bare.Related Variable.Veils m'.bare
  same : ∀ name, plain name = true → m'.find? name = m.find? name

theorem bare_write (m : Machine) (name : String) (v : Variable) : (m.write name v).bare = m.bare.write name v := by
  have hdepth : m.bare.depth = m.depth := rfl
  unfold write
  rw [hdepth]
  show bare (if m.locals.holds name = true then _ else if _ then _ else _) = if m.locals.holds name = true then _ else _
  split
  · rfl
  · show bare (if (m.depth = 0 || Table.contains m.globals name) = true then _ else _) =
      if (m.depth = 0 || Table.contains m.globals name) = true then _ else _
    split
    · rfl
    · rfl

namespace Veiled

variable {plain : String → Bool} {m m' n n' : Machine}

theorem rest_eq (h : Veiled plain m m') : m'.rest = m.rest := h.related.rest

/-- The same variable is written into both. -/
theorem write (h : Veiled plain m m') (name : String) (v : Variable) :
    Veiled plain (m.write name v) (m'.write name v) := by
  constructor
  · rw [bare_write, bare_write]
    exact h.related.write name (.same v)
  · intro other hother
    by_cases hname : other = name
    · rw [hname, find?_write_self, find?_write_self]
    · rw [find?_write_of_ne m v hname, find?_write_of_ne m' v hname]
      exact h.same other hother

/-- Whatever leaves variables alone and does the same to the rest. -/
theorem alike (h : Veiled plain m m') (hn : m.Alike n) (hn' : m'.Alike n') (hrest : n'.rest = n.rest) :
    Veiled plain n n' := by
  have hnames : n.locals = m.locals ∧ n.globals = m.globals := by
    rw [hn]
    exact ⟨rfl, rfl⟩
  have hnames' : n'.locals = m'.locals ∧ n'.globals = m'.globals := by
    rw [hn']
    exact ⟨rfl, rfl⟩
  obtain ⟨hlocals, hglobals⟩ := hnames
  obtain ⟨hlocals', hglobals'⟩ := hnames'
  refine ⟨⟨?_, ?_, rfl, hrest⟩, fun name hname => ?_⟩
  · show List.Forall₂ _ n.locals.scopes n'.locals.scopes
    rw [hlocals, hlocals']
    exact h.related.locals
  · show Scope.Rel _ n.globals n'.globals
    rw [hglobals, hglobals']
    exact h.related.globals
  · rw [Machine.find?, Machine.find?, hlocals, hglobals, hlocals', hglobals']
    exact h.same name hname

end Veiled

/-- A machine and the same one without seals, where the plain names are those of
variables that are not encrypted. -/
theorem veiled_withoutSeals (m : Machine) :
    Veiled (fun name => (m.find? name).all fun v => !v.encrypted) m m.withoutSeals := by
  have hrelated : m.bare.Related Variable.Veils m.withoutSeals.bare := by
    refine ⟨?_, Scope.veils_withoutSeal m.globals, rfl, rfl⟩
    exact List.forall₂_map_right_iff.2 (List.forall₂_same.2 fun scope _ => scope.veils_withoutSeal)
  refine ⟨hrelated, fun name hname => ?_⟩
  have hfind : Option.Rel Variable.Veils (m.find? name) (m.withoutSeals.find? name) := hrelated.find? name
  generalize m.find? name = found at hfind hname ⊢
  generalize m.withoutSeals.find? name = found' at hfind ⊢
  cases hfind with
  | none => rfl
  | @some v v' hv =>
    cases hv with
    | same => rfl
    | bare =>
      obtain ⟨value, encrypted⟩ := v
      obtain rfl : encrypted = false := by simpa using hname
      rfl

end Machine

/-! ### Actions that do not tell them apart -/

namespace Action

variable {α β : Type} {plain : String → Bool}

/-- The action ends alike from machines whose variables hold the same, and leaves such
machines. -/
def Matched (plain : String → Bool) (x : Action α) : Prop := Respects (Machine.Veiled plain) x

theorem matched_outOfSteps : Matched plain (outOfSteps : Action α) := fun _ _ h => ⟨rfl, h⟩

/-- An action that does not look at names. -/
theorem matched_of_blind {x : Action α} (halike : ∀ m : Machine, m.Alike (x m).2) (hblind : Blind x) :
    Matched plain x := by
  intro m m' h
  obtain ⟨houtcome, hrest⟩ := hblind m m' h.rest_eq
  exact ⟨houtcome, h.alike (halike m) (halike m') hrest⟩

theorem matched_quiet {x : Action α} (hquiet : Quiet x) (huniform : Uniform x) : Matched plain x :=
  matched_of_blind (fun m => (hquiet m).1) huniform.blind

theorem matched_pure (a : α) : Matched plain (pure a) := matched_quiet (quiet_pure a) (uniform_pure a)

theorem matched_bind {x : Action α} {f : α → Action β} (hx : Matched plain x) (hf : ∀ a, Matched plain (f a)) :
    Matched plain (x >>= f) := respects_bind hx hf

/-! ### Variables -/

/-- Only what a variable holds is read. -/
theorem matched_read (name : String) : Matched plain (read name .sealed) := by
  intro m m' h
  have hfind : Option.Rel Variable.Veils (m.find? name) (m'.find? name) := h.related.find? name
  show (Action.bind (lookup name) _ m').1 = (Action.bind (lookup name) _ m).1 ∧
    Machine.Veiled plain (Action.bind (lookup name) _ m).2 (Action.bind (lookup name) _ m').2
  unfold Action.bind lookup
  generalize m.find? name = found at hfind ⊢
  generalize m'.find? name = found' at hfind ⊢
  cases hfind with
  | none => exact ⟨rfl, h⟩
  | some hv => exact ⟨congrArg Outcome.done hv.value_eq, h⟩

theorem matched_store (name : String) (value : Value) (encrypt : Bool) :
    Matched plain (store name value encrypt) := by
  intro m m' h
  unfold store
  rw [Machine.heap_of_rest h.rest_eq, Machine.cipher_of_rest h.rest_eq]
  split
  · split
    · exact ⟨rfl, h.write name _⟩
    · exact ⟨rfl, h⟩
  · exact ⟨rfl, h.write name _⟩

theorem matched_decrypt (stored : Value) : Matched plain (decrypt stored) := by
  intro m m' h
  unfold decrypt
  rw [Machine.heap_of_rest h.rest_eq, Machine.cipher_of_rest h.rest_eq]
  split
  · exact matched_quiet (quiet_withHeap _) (uniform_withHeap _) m m' h
  · exact ⟨rfl, h⟩

theorem matched_openVariable (v : Variable) : Matched plain (openVariable v) := by
  unfold openVariable
  split
  · exact matched_decrypt v.value
  · exact matched_pure v.value

/-- Counting opens the variable, so it has to be the same one in both machines. -/
theorem matched_stepVariable {target : VarRef} (hplain : plain target.name = true) (step : Step)
    (yieldsOld : Bool) : Matched plain (stepVariable target step yieldsOld) := by
  have hlookup : Matched plain (lookup target.name) := by
    intro m m' h
    unfold lookup
    rw [h.same _ hplain]
    split
    · exact ⟨rfl, h⟩
    · exact ⟨rfl, h⟩
  have hread : Matched plain (readOpened target.name) := by
    refine matched_bind hlookup fun v => matched_bind (matched_openVariable v) fun value => ?_
    exact matched_pure _
  refine matched_bind hread fun ⟨old, wasEncrypted⟩ => ?_
  refine matched_bind (matched_quiet (quiet_ofExcept (ordinary_step old step)) (uniform_ofExcept _)) fun new => ?_
  exact matched_bind (matched_store _ _ _) fun _ => matched_pure _

end Action

/-! ### Expressions -/

mutual

/-- Whether an expression calls nothing, combines no variable with a value and counts
only variables whose names are plain. -/
def Expr.shows (plain : String → Bool) : Expr → Bool
  | .literal _ | .variable _ => true
  | .list items => allShow plain items
  | .assign _ .set value => value.shows plain
  | .assign .. => false
  | .assignElement target index _ value => target.shows plain && index.shows plain && value.shows plain
  | .element target index => target.shows plain && index.shows plain
  | .binary _ lhs rhs => lhs.shows plain && rhs.shows plain
  | .not operand => operand.shows plain
  | .step target _ _ => plain target.name
  | .call .. | .method .. => false

/-- Whether all expressions do so. -/
def Expr.allShow (plain : String → Bool) : List Expr → Bool
  | [] => true
  | e :: rest => e.shows plain && allShow plain rest

end

namespace Action

/-- The two runs of every expression, with the given number of steps. -/
structure Discreet (plain : String → Bool) (steps : Nat) : Prop where
  evaluate : ∀ e : Expr, e.shows plain = true → Matched plain (evaluate steps e .sealed)
  evaluateAll : ∀ es, Expr.allShow plain es = true → Matched plain (evaluateAll steps es .sealed)

namespace Discreet

variable {plain : String → Bool} {steps : Nat} (ih : Discreet plain steps)
include ih

/-- The place that an index denotes in a list. -/
theorem place {γ : Type} {target index : Expr} (htarget : target.shows plain = true)
    (hindex : index.shows plain = true) {f : ListId → Nat → Nat → Action γ}
    (hf : ∀ id length i, Matched plain (f id length i)) :
    Matched plain (do
      let id ← listOf (← Action.evaluate steps target .sealed)
      let length ← reads (·.heap.length id)
      let i ← placeOf (← Action.evaluate steps index .sealed) length
      f id length i) := by
  refine matched_bind (ih.evaluate target htarget) fun list => ?_
  refine matched_bind (matched_quiet (quiet_listOf list) (uniform_listOf list)) fun id => ?_
  refine matched_bind (matched_quiet (quiet_reads _) (uniform_readsHeap (·.length id))) fun length => ?_
  refine matched_bind (ih.evaluate index hindex) fun place => ?_
  refine matched_bind (matched_quiet (quiet_placeOf place length) (uniform_placeOf place length)) fun i => ?_
  exact hf id length i

theorem evaluate_succ (e : Expr) (h : e.shows plain = true) :
    Matched plain (Action.evaluate (steps + 1) e .sealed) := by
  cases e with
  | literal value => exact matched_pure _
  | list items =>
    refine matched_bind (ih.evaluateAll items h) fun values => ?_
    exact matched_quiet (quiet_withHeap _) (uniform_withHeap _)
  | «variable» target => exact matched_read target.name
  | assign target op value =>
    cases op with
    | set => exact matched_bind (ih.evaluate value h) fun v => matched_store target.name v target.encrypted
    | _ => cases h
  | assignElement target index op value =>
    simp only [Expr.shows, Bool.and_eq_true] at h
    refine ih.place h.1.1 h.1.2 fun id length i => ?_
    refine matched_bind (ih.evaluate value h.2) fun rhs => ?_
    exact matched_quiet (quiet_assignElement id i op rhs) (uniform_assignElement id i op rhs)
  | element target index =>
    simp only [Expr.shows, Bool.and_eq_true] at h
    refine ih.place h.1 h.2 fun id length i => ?_
    exact matched_quiet (quiet_elementAt id i length) (uniform_elementAt id i length)
  | binary op lhs rhs =>
    simp only [Expr.shows, Bool.and_eq_true] at h
    refine matched_bind (ih.evaluate lhs h.1) fun l => matched_bind (ih.evaluate rhs h.2) fun r => ?_
    exact matched_quiet (quiet_onHeap fun heap => ordinary_apply heap op l r) (uniform_onHeap _)
  | not operand =>
    refine matched_bind (ih.evaluate operand h) fun v => ?_
    refine matched_bind (matched_quiet (quiet_reads _) (uniform_readsHeap (·.truthy v))) fun b => ?_
    exact matched_pure _
  | step target step yieldsOld => exact matched_stepVariable h step yieldsOld
  | call name args => cases h
  | method target name args => cases h

theorem evaluateAll_succ (es : List Expr) (h : Expr.allShow plain es = true) :
    Matched plain (Action.evaluateAll (steps + 1) es .sealed) := by
  cases es with
  | nil => exact matched_pure []
  | cons e rest =>
    simp only [Expr.allShow, Bool.and_eq_true] at h
    refine matched_bind (ih.evaluate e h.1) fun v => ?_
    exact matched_bind (ih.evaluateAll rest h.2) fun values => matched_pure _

end Discreet

theorem discreet (plain : String → Bool) (steps : Nat) : Discreet plain steps := by
  induction steps with
  | zero => exact ⟨fun _ _ => matched_outOfSteps, fun _ _ => matched_outOfSteps⟩
  | succ steps ih => exact ⟨ih.evaluate_succ, ih.evaluateAll_succ⟩

/-! ### Print statements -/

theorem blind_dueMoment : Blind dueMoment := by
  intro m m' h
  have hsame : m'.inTask = m.inTask ∧ m'.scheduler = m.scheduler ∧ m'.clock = m.clock ∧ m'.drift = m.drift := by
    show m'.rest.inTask = m.rest.inTask ∧ m'.rest.scheduler = m.rest.scheduler ∧
      m'.rest.clock = m.rest.clock ∧ m'.rest.drift = m.rest.drift
    rw [h]
    exact ⟨rfl, rfl, rfl, rfl⟩
  obtain ⟨hinTask, hscheduler, hclock, hdrift⟩ := hsame
  unfold dueMoment
  rw [hinTask, hscheduler]
  split
  · exact ⟨rfl, h⟩
  · split
    · exact ⟨rfl, h⟩
    · next moment _ =>
      have hnow : (m'.wait m'.drift).clock = (m.wait m.drift).clock := by
        show m'.clock + m'.drift = m.clock + m.drift
        rw [hclock, hdrift]
      refine ⟨?_, rest_change h (fun m => m.wait m.drift) fun _ => rfl⟩
      exact congrArg (fun now => Outcome.done (if moment ≤ now then some now else none)) hnow

/-- Evaluates an expression for printing and writes a line. -/
theorem matched_printed {plain : String → Bool} (steps : Nat) {e : Expr} (h : e.shows plain = true) :
    Matched plain (do
      let v ← Action.evaluate steps e .sealed
      changes fun m => m.printLine (m.heap.text v)
      pure Flow.next) := by
  refine matched_bind ((discreet plain steps).evaluate e h) fun v => matched_bind ?_ fun _ => matched_pure _
  exact matched_quiet (quiet_printLine _) (uniform_printLine (·.text v))

theorem runStmt_print_none_due {m : Machine} (h : (dueMoment m).1 = .done none) (steps : Nat) (e : Expr) :
    runStmt (steps + 2) (.print e) m = (do
      let v ← Action.evaluate (steps + 1) e .sealed
      changes fun m => m.printLine (m.heap.text v)
      pure Flow.next : Action Flow) (dueMoment m).2 := by
  have hdue : dueMoment m = (.done none, (dueMoment m).2) := Prod.ext h rfl
  show Action.bind (serveTasks (steps + 1)) _ m = _
  unfold Action.bind
  rw [serveTasks_none_due hdue]

end Action

/-- **Print statements show ciphertexts.**  If the expression calls nothing, combines no
variable with a value and counts no encrypted variable, and no task is due, then the
statement ends alike and writes the same whether encrypted variables are encrypted or
are plain ones that hold the ciphertexts. -/
theorem print_shows_ciphertexts (steps : Nat) (e : Expr) (m : Machine)
    (hshows : e.shows (fun name => (m.find? name).all fun v => !v.encrypted) = true)
    (hnone : (Action.dueMoment m).1 = .done none) :
    (Action.runStmt steps (.print e) m.withoutSeals).1 = (Action.runStmt steps (.print e) m).1 ∧
    (Action.runStmt steps (.print e) m.withoutSeals).2.console = (Action.runStmt steps (.print e) m).2.console := by
  have hveiled := m.veiled_withoutSeals
  match steps with
  | 0 => exact ⟨rfl, rfl⟩
  | 1 => exact ⟨rfl, rfl⟩
  | steps + 2 =>
    -- the moment is the same in both, so no task is due in the other one either
    obtain ⟨hdue, hafter⟩ :=
      Action.matched_of_blind (fun m => (Action.quiet_dueMoment m).1) Action.blind_dueMoment m _ hveiled
    rw [Action.runStmt_print_none_due hnone, Action.runStmt_print_none_due (hdue.trans hnone)]
    obtain ⟨houtcome, hend⟩ := Action.matched_printed (steps + 1) hshows _ _ hafter
    have hconsole := congrArg Machine.console hend.rest_eq
    exact ⟨houtcome, hconsole⟩

/-- The list `[x, y = x, y++]`. -/
def copiedSecret : Expr :=
  .list [.variable ⟨"x", true⟩, .assign ⟨"y", false⟩ .set (.variable ⟨"x", true⟩), .step ⟨"y", false⟩ .up true]

/-- A secret whose ciphertext is copied, and the copy counted. -/
theorem print_copiedSecret :
    copiedSecret.shows (fun name => (Machine.withSecret.find? name).all fun v => !v.encrypted) = true ∧
    (Action.dueMoment Machine.withSecret).1 = .done none ∧
    (Action.runStmt 9 (.print copiedSecret) Machine.withSecret.withoutSeals).2.console
      = (Action.runStmt 9 (.print copiedSecret) Machine.withSecret).2.console :=
  ⟨rfl, rfl, (print_shows_ciphertexts 9 copiedSecret Machine.withSecret rfl rfl).2⟩

/-! ### Counting -/

namespace Action

variable {m n : Machine} {target : VarRef} {step : Step} {old new stored : Value} {wasEncrypted : Bool}

/-- Counting yields the opened value, however the variable is read otherwise. -/
theorem stepVariable_yields_old (hread : readOpened target.name m = (.done (old, wasEncrypted), m))
    (hstep : old.step step = .ok new)
    (hstore : store target.name new (target.encrypted || wasEncrypted) m = (.done stored, n)) :
    stepVariable target step true m = (.done old, n) := by
  show Action.bind (readOpened target.name) _ m = _
  unfold Action.bind
  rw [hread]
  show Action.bind (ofExcept (old.step step)) _ m = _
  rw [hstep]
  show Action.bind (store target.name new (target.encrypted || wasEncrypted)) _ m = _
  unfold Action.bind
  rw [hstore]
  rfl

/-- So a print statement writes the opened value. -/
theorem print_step_old (hdue : dueMoment m = (.done none, m))
    (hread : readOpened target.name m = (.done (old, wasEncrypted), m)) (hstep : old.step step = .ok new)
    (hstore : store target.name new (target.encrypted || wasEncrypted) m = (.done stored, n)) (steps : Nat) :
    runStmt (steps + 2) (.print (.step target step true)) m = (.done .next, n.printLine (n.heap.text old)) := by
  rw [runStmt_print_none_due (congrArg Prod.fst hdue), hdue]
  show Action.bind (stepVariable target step true) _ m = _
  unfold Action.bind
  rw [stepVariable_yields_old hread hstep hstore]
  rfl

end Action

/-- A text can be counted, whatever it is. -/
theorem Value.exists_step_text (s : String) (step : Step) : ∃ new, (Value.text s).step step = .ok new := by
  have hnumber : (Value.text s).number? = some (Number.ofText s.toList) := rfl
  unfold Value.step
  rw [hnumber]
  cases Number.ofText s.toList with
  | int n => exact ⟨_, rfl⟩
  | float x => exact ⟨_, rfl⟩

/-- A machine with one variable. -/
def Machine.holding (v : Variable) : Machine := { globals := [("x", v)] }

/-- Of an encrypted whole number the number itself is printed when it is counted. -/
theorem print_counted_secret {c : String} {n : Int64}
    (hopen : Cipher.openText Cipher.defaultKey Cipher.defaultIV c = .ok (toString n.toInt)) (steps : Nat) :
    (Action.runStmt (steps + 2) (.print (.step ⟨"x", false⟩ .up true)) (.holding ⟨.text c, true⟩)).2.console.written
      = #[.line (toString n.toInt)] := by
  have htext (h : Heap) : h.text (.int n) = toString n.toInt := String.ofList_toList
  have hplace (h : Heap) : h.place (Datum.ofText (toString n.toInt)) = (.int n, h) := by
    rw [← htext h]
    exact h.place_ofText_text rfl
  have hopen' : (Machine.holding ⟨.text c, true⟩).cipher.decrypt c = .ok (toString n.toInt) := hopen
  have hdecrypt : Action.decrypt (.text c) (.holding ⟨.text c, true⟩)
      = (.done (.int n), .holding ⟨.text c, true⟩) :=
    Action.decrypt_of_opens hopen' (hplace _)
  have hread : Action.readOpened "x" (.holding ⟨.text c, true⟩)
      = (.done (.int n, true), .holding ⟨.text c, true⟩) :=
    Action.readOpened_some (v := ⟨.text c, true⟩) rfl hdecrypt
  have hstore : Action.store "x" (.int (n + 1)) true (.holding ⟨.text c, true⟩)
      = (.done (.text (Cipher.sealText Cipher.defaultKey Cipher.defaultIV (Heap.text {} (.int (n + 1))))),
        (Machine.holding ⟨.text c, true⟩).write "x"
          ⟨.text (Cipher.sealText Cipher.defaultKey Cipher.defaultIV (Heap.text {} (.int (n + 1)))), true⟩) := rfl
  rw [Action.print_step_old rfl hread rfl hstore]
  show #[Entry.line (Heap.text _ (.int n))] = _
  rw [htext]

/-- Of a plain text the text is printed when it is counted. -/
theorem print_counted_text (c : String) (steps : Nat) :
    (Action.runStmt (steps + 2) (.print (.step ⟨"x", false⟩ .up true)) (.holding ⟨.text c, false⟩)).2.console.written
      = #[.line c] := by
  obtain ⟨new, hnew⟩ := Value.exists_step_text c .up
  rw [Action.print_step_old rfl (Action.readOpened_some rfl rfl) hnew rfl]
  rfl

/-- Counting shows a secret: of `x++` what is inside is printed, and not the ciphertext,
which is printed where the variable is a plain one that holds it. -/
theorem counting_shows_secret :
    (Action.runStmt 9 (.print (.step ⟨"x", false⟩ .up true)) Machine.withSecret).2.console.written
      = #[.line "5"] ∧
    (Action.runStmt 9 (.print (.step ⟨"x", false⟩ .up true)) Machine.withSecret.withoutSeals).2.console.written
      = #[.line (Cipher.sealText Cipher.defaultKey Cipher.defaultIV "5")] ∧
    Cipher.sealText Cipher.defaultKey Cipher.defaultIV "5" ≠ "5" := by
  have hopen := Cipher.openText_sealText Cipher.defaultKey Cipher.defaultIV "5"
  have hsecret : Machine.withSecret
      = .holding ⟨.text (Cipher.sealText Cipher.defaultKey Cipher.defaultIV "5"), true⟩ := rfl
  have hbare (c : String) : (Machine.holding ⟨.text c, true⟩).withoutSeals = .holding ⟨.text c, false⟩ := rfl
  have hfive : toString (5 : Int64).toInt = "5" := by decide +kernel
  have hnine : 9 = 7 + 2 := rfl
  rw [hsecret, hbare, hnine]
  generalize Cipher.sealText Cipher.defaultKey Cipher.defaultIV "5" = c at hopen ⊢
  rw [← hfive] at hopen ⊢
  refine ⟨print_counted_secret hopen 7, print_counted_text c 7, ?_⟩
  -- a single digit is no ciphertext
  rintro rfl
  rw [hfive] at hopen
  exact absurd hopen (by decide +kernel)

end SealedScript

/-
SealedScript/Proofs/Machine/Behaviour.lean

What runs come to, without their numbers of steps.  The behaviour of something that takes
steps is the relation between the machines it begins with, the outcomes with which it ends
if it is given steps enough, and the machines it leaves then.  One thing after another
behaves like the first one and, where that ends with a value, like the second one from
there; so the behaviour of a statement is put together from those of its parts.

A run is calm throughout if nothing is armed before it and at every moment of it, however
many steps it is given.  What it goes on with is then calm throughout as well.

Main results: `Watched.behaviour_bind`, `Watched.CalmThroughout.goesOn`.
-/
import SealedScript.Proofs.Machine.Law
import SealedScript.Proofs.Machine.Patience

namespace SealedScript

/-- How something can end: from which machine, with which outcome, and leaving which
machine. -/
abbrev Behaviour (α : Type) : Type := Machine → Outcome α → Machine → Prop

namespace Behaviour

variable {α β γ : Type}

/-- Ends with this value and changes nothing. -/
def value (a : α) : Behaviour α := fun m outcome m' => outcome = .done a ∧ m' = m

/-- One after the other, unless the first one ends without a value. -/
inductive AndThen (X : Behaviour α) (F : α → Behaviour β) (m : Machine) : Outcome β → Machine → Prop
  | done {a : α} {m₁ m' : Machine} {outcome : Outcome β} :
      X m (.done a) m₁ → F a m₁ outcome m' → AndThen X F m outcome m'
  | failed {e : RuntimeError} {m' : Machine} : X m (.failed e) m' → AndThen X F m (.failed e) m'
  | clockOverflow {m' : Machine} : X m .clockOverflow m' → AndThen X F m .clockOverflow m'

variable {X Y : Behaviour α} {F G : α → Behaviour β} {H : β → Behaviour γ} {m m' : Machine} {outcome : Outcome β}

theorem eq_of_iff (h : ∀ m outcome m', X m outcome m' ↔ Y m outcome m') : X = Y :=
  funext fun m => funext fun outcome => funext fun m' => propext (h m outcome m')

theorem AndThen.mono (hfirst : ∀ outcome m', X m outcome m' → Y m outcome m')
    (hnext : ∀ a m₁, X m (.done a) m₁ → ∀ outcome m', F a m₁ outcome m' → G a m₁ outcome m')
    (h : AndThen X F m outcome m') : AndThen Y G m outcome m' := by
  cases h with
  | done hx hf => exact .done (hfirst _ _ hx) (hnext _ _ hx _ _ hf)
  | failed hx => exact .failed (hfirst _ _ hx)
  | clockOverflow hx => exact .clockOverflow (hfirst _ _ hx)

/-- What follows makes a difference only where the first one can lead. -/
theorem AndThen.congr (hfirst : ∀ outcome m', X m outcome m' ↔ Y m outcome m')
    (hnext : ∀ a m₁, X m (.done a) m₁ → ∀ outcome m', F a m₁ outcome m' ↔ G a m₁ outcome m') :
    AndThen X F m outcome m' ↔ AndThen Y G m outcome m' :=
  ⟨.mono (fun outcome m' => (hfirst outcome m').1) fun a m₁ hx outcome m' => (hnext a m₁ hx outcome m').1,
    .mono (fun outcome m' => (hfirst outcome m').2)
      fun a m₁ hy outcome m' => (hnext a m₁ ((hfirst _ _).2 hy) outcome m').2⟩

theorem andThen_assoc : AndThen (AndThen X F) H = AndThen X fun a => AndThen (F a) H := by
  refine eq_of_iff fun m outcome m' => ?_
  constructor
  · rintro (hfirst | hfirst | hfirst)
    · cases hfirst with
      | done hx hf => exact .done hx (.done hf ‹_›)
    · cases hfirst with
      | done hx hf => exact .done hx (.failed hf)
      | failed hx => exact .failed hx
    · cases hfirst with
      | done hx hf => exact .done hx (.clockOverflow hf)
      | clockOverflow hx => exact .clockOverflow hx
  · rintro (⟨hx, hrest⟩ | hx | hx)
    · cases hrest with
      | done hf hlast => exact .done (.done hx hf) hlast
      | failed hf => exact .failed (.done hx hf)
      | clockOverflow hf => exact .clockOverflow (.done hx hf)
    · exact .failed (.failed hx)
    · exact .clockOverflow (.clockOverflow hx)

theorem value_andThen (a : α) : AndThen (value a) F = F a := by
  refine eq_of_iff fun m outcome m' => ?_
  constructor
  · rintro (⟨⟨hvalue, rfl⟩, hnext⟩ | ⟨hvalue, -⟩ | ⟨hvalue, -⟩)
    · cases hvalue
      exact hnext
    · cases hvalue
    · cases hvalue
  · exact .done ⟨rfl, rfl⟩

/-- What follows in a block after its first statements, if `rest` is the behaviour of the
others. -/
def afterFlow (rest : Behaviour Flow) : Flow → Behaviour Flow
  | .next => rest
  | .returned v => value (.returned v)

theorem afterFlow_andThen (rest last : Behaviour Flow) (flow : Flow) :
    AndThen (afterFlow rest flow) (afterFlow last) = afterFlow (AndThen rest (afterFlow last)) flow := by
  cases flow with
  | next => rfl
  | returned v => exact value_andThen _

end Behaviour

/-- Nothing is armed after a record in which nothing is ever armed. -/
theorem Path.idle {m m' : Machine} {t : List Moment} (h : Path m t m')
    (hbefore : m.scheduler.tasks = []) (ht : ∀ k ∈ t, k.machine.scheduler.tasks = []) : m'.scheduler.tasks = [] := by
  induction t generalizing m with
  | nil =>
    cases h
    exact hbefore
  | cons k t ih =>
    rw [List.forall_mem_cons] at ht
    exact ih h.2 ht.1 ht.2

namespace Watched

variable {α β γ : Type}

theorem bind_assoc (x : Watched α) (f : α → Watched β) (g : β → Watched γ) :
    (x >>= f) >>= g = x >>= fun a => f a >>= g := by
  funext m
  show attempt (attempt x _ f) _ g m = attempt x _ (fun a => attempt (f a) _ g) m
  simp only [attempt]
  rcases (x m).outcome with a | e | - | -
  · dsimp only
    rcases (f a (x m).machine).outcome with b | e | - | -
    · simp only [List.append_assoc]
    · simp only [List.append_assoc]
    · rfl
    · rfl
  · simp only [stop, List.append_nil]
  · rfl
  · rfl

/-! ### What runs come to -/

/-- What something comes to that takes steps, given enough of them. -/
def behaviour (x : Nat → Watched α) : Behaviour α :=
  fun m outcome m' => outcome ≠ .unfinished ∧ ∃ steps, (x steps).plain m = (outcome, m')

/-- Something that takes steps and, given more of them than it needs, does the same.  Its
records have no gaps. -/
structure Lasting (x : Nat → Watched α) : Prop where
  steady : ∀ steps, Extends (x steps) (x (steps + 1))
  path : ∀ steps, Obeys (fun m _ t m' => Path m t m') (x steps)

namespace Lasting

theorem fixed {x : Watched α} (hpath : Obeys (fun m _ t m' => Path m t m') x) : Lasting fun _ => x :=
  ⟨fun _ => .refl x, fun _ => hpath⟩

theorem bind {x : Nat → Watched α} {f : Nat → α → Watched β} (hx : Lasting x) (hf : ∀ a, Lasting (f · a)) :
    Lasting fun steps => x steps >>= f steps :=
  ⟨fun steps => (hx.steady steps).bind fun a => (hf a).steady steps,
    fun steps => law_path.body.bind (hx.path steps) fun a => (hf a).path steps⟩

theorem shift {x : Nat → Watched α} (hx : Lasting x) : Lasting fun steps => x (steps + 1) :=
  ⟨fun steps => hx.steady (steps + 1), fun steps => hx.path (steps + 1)⟩

/-- What it comes to, it comes to with any number of steps from some number on. -/
theorem eventually {x : Nat → Watched α} (hx : Lasting x) {m m' : Machine} {outcome : Outcome α}
    (h : behaviour x m outcome m') : ∃ enough, ∀ steps, enough ≤ steps → (x steps).plain m = (outcome, m') := by
  obtain ⟨hends, enough, hrun⟩ := h
  refine ⟨enough, fun steps hle => ?_⟩
  rw [← hrun, plain, plain, eq_of_le hx.steady hle]
  exact fun hcut => hends ((congrArg Prod.fst hrun).symm.trans hcut)

end Lasting

section

variable {x : Nat → Watched α} {f : Nat → α → Watched β}

theorem behaviour_pure (a : α) : behaviour (fun _ => Watched.pure a) = Behaviour.value a := by
  refine Behaviour.eq_of_iff fun m outcome m' => ?_
  constructor
  · rintro ⟨-, steps, hrun⟩
    cases hrun
    exact ⟨rfl, rfl⟩
  · rintro ⟨rfl, rfl⟩
    exact ⟨nofun, 0, rfl⟩

/-- A step given or taken makes no difference. -/
theorem behaviour_shift (hx : Lasting x) : behaviour (fun steps => x (steps + 1)) = behaviour x := by
  refine Behaviour.eq_of_iff fun m outcome m' => ?_
  constructor
  · rintro ⟨hends, steps, hrun⟩
    exact ⟨hends, steps + 1, hrun⟩
  · intro h
    obtain ⟨enough, hruns⟩ := hx.eventually h
    exact ⟨h.1, enough, hruns (enough + 1) (Nat.le_succ enough)⟩

theorem behaviour_bind (hx : Lasting x) (hf : ∀ a, Lasting (f · a)) :
    behaviour (fun steps => x steps >>= f steps) = (behaviour x).AndThen fun a => behaviour (f · a) := by
  refine Behaviour.eq_of_iff fun m outcome m' => ?_
  constructor
  · rintro ⟨hends, steps, hrun⟩
    rw [plain_bind] at hrun
    change Action.bind _ _ _ = _ at hrun
    unfold Action.bind at hrun
    rcases hfirst : (x steps).plain m with ⟨first, m₁⟩
    rw [hfirst] at hrun
    cases first with
    | done a => exact .done ⟨nofun, steps, hfirst⟩ ⟨hends, steps, hrun⟩
    | failed e =>
      cases hrun
      exact .failed ⟨nofun, steps, hfirst⟩
    | clockOverflow =>
      cases hrun
      exact .clockOverflow ⟨nofun, steps, hfirst⟩
    | unfinished =>
      cases hrun
      exact absurd rfl hends
  · have hrun (steps : Nat) : (x steps >>= f steps).plain m =
        Action.bind (x steps).plain (fun a => (f steps a).plain) m := congrFun (plain_bind _ _) m
    rintro (⟨hfirst, hnext⟩ | hfirst | hfirst)
    · obtain ⟨enough, hruns⟩ := hx.eventually hfirst
      obtain ⟨enough', hruns'⟩ := (hf _).eventually hnext
      refine ⟨hnext.1, max enough enough', ?_⟩
      rw [hrun, Action.bind, hruns _ (Nat.le_max_left _ _)]
      exact hruns' _ (Nat.le_max_right _ _)
    · obtain ⟨-, steps, hfirst⟩ := hfirst
      exact ⟨nofun, steps, by rw [hrun, Action.bind, hfirst]⟩
    · obtain ⟨-, steps, hfirst⟩ := hfirst
      exact ⟨nofun, steps, by rw [hrun, Action.bind, hfirst]⟩

end

/-! ### Expressions and statements -/

theorem lasting_truthy (v : Value) : Lasting fun _ => act .step (.truthy v) :=
  .fixed (law_path.body.quiet (Action.quiet_reads _))

theorem lasting_pure (a : α) : Lasting fun _ => pure a := .fixed (law_path.body.pure a)

theorem lasting_evaluate (expr : Expr) (reading : Reading) : Lasting (evaluate · expr reading) :=
  ⟨fun steps => (steady steps).evaluate expr reading, fun steps => (law_path.obeyed steps).evaluate expr reading⟩

theorem lasting_serveTasks : Lasting serveTasks :=
  ⟨fun steps => (steady steps).serveTasks, fun steps => (law_path.obeyed steps).serveTasks⟩

theorem lasting_runBlock (stmts : List Stmt) : Lasting (runBlock · stmts) :=
  ⟨fun steps => (steady steps).runBlock stmts, fun steps => (law_path.obeyed steps).runBlock stmts⟩

theorem lasting_runStmt (stmt : Stmt) : Lasting (runStmt · stmt) :=
  ⟨fun steps => (steady steps).runStmt stmt, fun steps => (law_path.obeyed steps).runStmt stmt⟩

theorem lasting_forLoop (condition step : Expr) (body : List Stmt) : Lasting (forLoop · condition step body) :=
  ⟨fun steps => (steady steps).forLoop condition step body,
    fun steps => (law_path.obeyed steps).forLoop condition step body⟩

theorem lasting_whileLoop (condition : Expr) (body : List Stmt) : Lasting (whileLoop · condition body) :=
  ⟨fun steps => (steady steps).whileLoop condition body,
    fun steps => (law_path.obeyed steps).whileLoop condition body⟩

/-- Nothing follows, so nothing is added. -/
theorem behaviour_andThen_value (x : Nat → Watched α) : (behaviour x).AndThen Behaviour.value = behaviour x := by
  refine Behaviour.eq_of_iff fun m outcome m' => ⟨?_, fun h => ?_⟩
  · rintro (⟨hfirst, rfl, rfl⟩ | hfirst | hfirst) <;> exact hfirst
  · cases outcome with
    | done a => exact .done h ⟨rfl, rfl⟩
    | failed e => exact .failed h
    | clockOverflow => exact .clockOverflow h
    | unfinished => exact absurd rfl h.1

theorem behaviour_runBlock_nil : behaviour (runBlock · []) = Behaviour.value .next := by
  rw [← behaviour_shift (lasting_runBlock [])]
  exact behaviour_pure _

theorem behaviour_runBlock_cons (stmt : Stmt) (rest : List Stmt) :
    behaviour (runBlock · (stmt :: rest)) =
      (behaviour (runStmt · stmt)).AndThen (Behaviour.afterFlow (behaviour (runBlock · rest))) := by
  have hnext (flow : Flow) : Lasting fun steps => (match flow with
      | .next => runBlock steps rest
      | .returned v => pure (.returned v) : Watched Flow) := by
    cases flow with
    | next => exact lasting_runBlock rest
    | returned v => exact lasting_pure _
  rw [← behaviour_shift (lasting_runBlock _)]
  refine (behaviour_bind (lasting_runStmt stmt) hnext).trans ?_
  congr 1
  funext flow
  cases flow with
  | next => rfl
  | returned v => exact behaviour_pure _

theorem behaviour_runBlock_singleton (stmt : Stmt) : behaviour (runBlock · [stmt]) = behaviour (runStmt · stmt) := by
  have hnothing : Behaviour.afterFlow (behaviour (runBlock · [])) = Behaviour.value := by
    funext flow
    cases flow with
    | next => exact behaviour_runBlock_nil
    | returned v => rfl
  rw [behaviour_runBlock_cons, hnothing, behaviour_andThen_value]

/-- Statements behave like the first of them and then the others. -/
theorem behaviour_runBlock_append (stmts rest : List Stmt) :
    behaviour (runBlock · (stmts ++ rest)) =
      (behaviour (runBlock · stmts)).AndThen (Behaviour.afterFlow (behaviour (runBlock · rest))) := by
  induction stmts with
  | nil =>
    rw [behaviour_runBlock_nil, Behaviour.value_andThen]
    rfl
  | cons stmt stmts ih =>
    rw [List.cons_append, behaviour_runBlock_cons, behaviour_runBlock_cons, Behaviour.andThen_assoc, ih]
    simp only [Behaviour.afterFlow_andThen]

/-! ### Runs without timers -/

/-- Nothing is armed, neither before the run nor at any moment of it, once it is given
steps enough. -/
structure CalmThroughout (x : Nat → Watched α) (m : Machine) : Prop where
  before : m.scheduler.tasks = []
  moments : ∃ enough, ∀ steps, enough ≤ steps → ∀ k ∈ (x steps m).moments, k.machine.scheduler.tasks = []

theorem CalmThroughout.first {x : Nat → Watched α} {f : Nat → α → Watched β} {m : Machine}
    (h : CalmThroughout (fun steps => x steps >>= f steps) m) : CalmThroughout x m := by
  obtain ⟨hbefore, enough, hcalm⟩ := h
  refine ⟨hbefore, enough, fun steps hle => ?_⟩
  obtain ⟨t, ht⟩ := moments_bind (x steps) (f steps) m
  have hall := hcalm steps hle
  rw [ht] at hall
  exact (List.forall_mem_append.1 hall).1

theorem CalmThroughout.shift {x : Nat → Watched α} {m : Machine} (h : CalmThroughout x m) :
    CalmThroughout (fun steps => x (steps + 1)) m := by
  obtain ⟨hbefore, enough, hcalm⟩ := h
  exact ⟨hbefore, enough, fun steps hle => hcalm (steps + 1) (Nat.le_succ_of_le hle)⟩

theorem CalmThroughout.goesOn {x : Nat → Watched α} {f : Nat → α → Watched β} {m m₁ : Machine} {a : α}
    (h : CalmThroughout (fun steps => x steps >>= f steps) m) (hx : Lasting x)
    (hdone : behaviour x m (.done a) m₁) : CalmThroughout (f · a) m₁ := by
  obtain ⟨hbefore, enough, hcalm⟩ := h
  obtain ⟨enough', hruns⟩ := hx.eventually hdone
  have hmoments (steps : Nat) (hle : max enough enough' ≤ steps) :
      (∀ k ∈ (x steps m).moments, k.machine.scheduler.tasks = []) ∧
        ∀ k ∈ (f steps a m₁).moments, k.machine.scheduler.tasks = [] := by
    obtain ⟨houtcome, rfl⟩ := Prod.mk.inj (hruns steps (by omega))
    have hall := hcalm steps (by omega)
    change ∀ k ∈ (attempt _ _ _ m).moments, _ at hall
    rw [attempt_done houtcome] at hall
    exact List.forall_mem_append.1 hall
  refine ⟨?_, max enough enough', fun steps hle => (hmoments steps hle).2⟩
  obtain ⟨-, rfl⟩ := Prod.mk.inj (hruns (max enough enough') (Nat.le_max_right _ _))
  exact (hx.path _ m).idle hbefore (hmoments _ (Nat.le_refl _)).1

end Watched

end SealedScript

/-
SealedScript/Proofs/Machine/Uniform.lean

Steps that do the same to machines that differ in what they do not look at.  Most steps of
a run look at the heap only; so from two machines that are alike in the heap they end
alike, whatever the machines differ in besides: in the variables, or in the limit for
calls.

Main results: `Action.Uniform`, for each such step, and `Action.respects_bind`.
-/
import SealedScript.Machine.Evaluate

namespace SealedScript

/-! ### Actions on related machines -/

/-- A relation between machines with the same heap that is kept when both are changed alike,
in the ways in which such a step changes a machine. -/
structure Machine.Congruence (R : Machine → Machine → Prop) : Prop where
  heap : ∀ {m m'}, R m m' → m'.heap = m.heap
  withHeap : ∀ {m m'}, R m m' → ∀ heap, R { m with heap := heap } { m' with heap := heap }
  printLines : ∀ {m m'}, R m m' → ∀ lines,
    R { m with console := m.console.printLines lines } { m' with console := m'.console.printLines lines }
  wait : ∀ {m m'}, R m m' → ∀ nanoseconds, R (m.wait nanoseconds) (m'.wait nanoseconds)

namespace Action

variable {α β : Type}

/-- The action ends alike from related machines, and leaves related machines. -/
def Respects (R : Machine → Machine → Prop) (x : Action α) : Prop :=
  ∀ m m', R m m' → (x m').1 = (x m).1 ∧ R (x m).2 (x m').2

variable {R : Machine → Machine → Prop}

theorem respects_pure (a : α) : Respects R (pure a) := fun _ _ h => ⟨rfl, h⟩

theorem respects_fail (e : RuntimeError) : Respects R (fail e : Action α) := fun _ _ h => ⟨rfl, h⟩

theorem respects_bind {x : Action α} {f : α → Action β} (hx : Respects R x) (hf : ∀ a, Respects R (f a)) :
    Respects R (x >>= f) := by
  intro m m' h
  obtain ⟨houtcome, hafter⟩ := hx m m' h
  show (Action.bind x f m').1 = (Action.bind x f m).1 ∧ R (Action.bind x f m).2 (Action.bind x f m').2
  unfold Action.bind
  rcases hxm : x m with ⟨outcome, after⟩
  rcases hxm' : x m' with ⟨outcome', after'⟩
  rw [hxm, hxm'] at houtcome hafter
  obtain rfl : outcome' = outcome := houtcome
  cases outcome' with
  | done a => exact hf a after after' hafter
  | failed e => exact ⟨rfl, hafter⟩
  | clockOverflow => exact ⟨rfl, hafter⟩
  | unfinished => exact ⟨rfl, hafter⟩

/-! ### Uniform actions -/

/-- An action that looks at nothing but the heap. -/
def Uniform (x : Action α) : Prop := ∀ R, Machine.Congruence R → Respects R x

theorem uniform_pure (a : α) : Uniform (pure a) := fun _ _ => respects_pure a

theorem uniform_fail (e : RuntimeError) : Uniform (fail e : Action α) := fun _ _ => respects_fail e

theorem uniform_bind {x : Action α} {f : α → Action β} (hx : Uniform x) (hf : ∀ a, Uniform (f a)) :
    Uniform (x >>= f) :=
  fun R hR => respects_bind (hx R hR) fun a => hf a R hR

theorem uniform_ofExcept (x : Except RuntimeError α) : Uniform (ofExcept x) := by
  cases x with
  | ok a => exact uniform_pure a
  | error e => exact uniform_fail e

theorem uniform_onHeap (f : Heap → Except RuntimeError (α × Heap)) : Uniform (onHeap f) := by
  intro R hR m m' h
  unfold onHeap
  rw [hR.heap h]
  rcases f m.heap with e | ⟨a, heap⟩
  · exact ⟨rfl, h⟩
  · exact ⟨rfl, hR.withHeap h heap⟩

theorem uniform_withHeap (f : Heap → α × Heap) : Uniform (withHeap f) :=
  uniform_onHeap fun heap => .ok (f heap)

theorem uniform_readsHeap (f : Heap → α) : Uniform (reads (f ·.heap)) := by
  intro R hR m m' h
  refine ⟨?_, h⟩
  show Outcome.done (f m'.heap) = .done (f m.heap)
  rw [hR.heap h]

theorem uniform_listOf (v : Value) : Uniform (listOf v) := by
  cases v with
  | list id => exact uniform_pure id
  | _ => exact uniform_fail _

theorem uniform_placeOf (index : Value) (length : Nat) : Uniform (placeOf index length) := by
  refine uniform_bind (uniform_ofExcept _) fun n => ?_
  split
  · exact uniform_pure _
  · exact uniform_fail _

theorem uniform_elementAt (id : ListId) (i length : Nat) : Uniform (elementAt id i length) := by
  intro R hR m m' h
  unfold elementAt
  rw [hR.heap h]
  rcases (m.heap.elements id)[i]? with - | v
  · exact ⟨rfl, h⟩
  · exact ⟨rfl, h⟩

theorem uniform_assigned (op : AssignOp) {old : Action Value} (hold : Uniform old) (rhs : Value) :
    Uniform (assigned op old rhs) := by
  unfold assigned
  split
  · exact uniform_pure rhs
  · exact uniform_bind hold fun current => uniform_onHeap _

theorem uniform_setElement (id : ListId) (i : Nat) (v : Value) : Uniform (setElement id i v) := by
  intro R hR m m' h
  unfold setElement
  rw [hR.heap h]
  split
  · exact ⟨rfl, hR.withHeap h _⟩
  · exact ⟨rfl, h⟩

theorem uniform_assignElement (id : ListId) (i : Nat) (op : AssignOp) (rhs : Value) :
    Uniform (assignElement id i op rhs) := by
  have hold : Uniform fun m => elementAt id i (m.heap.length id) m :=
    uniform_bind (uniform_readsHeap (·.length id)) fun length => uniform_elementAt id i length
  exact uniform_bind (uniform_assigned op hold rhs) fun v => uniform_setElement id i v

theorem uniform_promptText (v : Value) : Uniform (promptText v) := by
  cases v with
  | text s => exact uniform_pure s
  | _ => exact uniform_fail _

theorem uniform_printLine (f : Heap → String) : Uniform (changes fun m => m.printLine (f m.heap)) := by
  intro R hR m m' h
  refine ⟨rfl, ?_⟩
  show R (m.printLine (f m.heap)) (m'.printLine (f m'.heap))
  rw [hR.heap h]
  exact hR.printLines h [f m.heap]

theorem uniform_callList (id : ListId) (method : String) (args : List Value) :
    Uniform (callList id method args) := by
  intro R hR m m' h
  unfold callList
  rw [hR.heap h]
  rcases m.heap.callList id method args with e | ⟨result, change⟩
  · exact ⟨rfl, h⟩
  · exact ⟨rfl, hR.withHeap h _⟩

theorem uniform_callLedger (id : ObjectId) (ledger : Ledger) (method : String) (args : List Value) :
    Uniform (callLedger id ledger method args) := by
  intro R hR m m' h
  unfold callLedger
  rcases ledger.call method args with e | response
  · exact ⟨rfl, h⟩
  · have hheap := hR.withHeap h ((m.heap.setObject id (.ledger response.object)).place response.result).2
    simp only [hR.heap h, true_and]
    exact hR.printLines hheap response.lines

theorem uniform_callHost (id : ObjectId) (method : String) (args : List Value) :
    Uniform (callHost id method args) := by
  intro R hR m m' h
  unfold callHost
  split
  · exact ⟨rfl, hR.wait h _⟩
  · split
    · have hheap := hR.withHeap h (m.heap.newList args.toArray).2
      simp only [hR.heap h, true_and]
      exact hR.printLines hheap _
    · exact ⟨rfl, h⟩

theorem uniform_callMethod (target : Value) (method : String) (args : List Value) :
    Uniform (callMethod target method args) := by
  cases target with
  | list id => exact uniform_callList id method args
  | object id =>
    intro R hR m m' h
    unfold callMethod
    cases hobject : m.heap.object id with
    | ledger ledger =>
      simp only [hR.heap h, hobject]
      exact uniform_callLedger id ledger method args R hR m m' h
    | host =>
      simp only [hR.heap h, hobject]
      exact uniform_callHost id method args R hR m m' h
  | _ =>
    unfold callMethod
    exact uniform_fail _

end Action

end SealedScript

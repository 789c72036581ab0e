/-
SealedScript/Proofs/Machine/Elements.lean

Elements of lists, read and written while the list itself may change.  To read an
element is to evaluate the list and then the index, and to write one is to evaluate
the new value after both; each of these can call functions and fire tasks, which
make the list longer or shorter, bind another one to the same variable, or put the
list into itself.

An index is checked against the length that the list had before the index was
evaluated, and the access comes later.

* A read finds the element as it stands then.  But where the index has changed the
  length, it can refuse a place that the list now has, and it always tells the length
  that the list had: it agrees with the list as it stands exactly if the length is
  the same or the place is there both before and after.
* A write is refused by that length before its right-hand side is evaluated, so it
  too can refuse a place that the list now has.  Otherwise it checks the place again
  when everything has been evaluated, and it sets this one slot of this one list, or
  it fails and changes nothing.

Main results: `element_read_as_it_stands`, `stale_length_shows`,
`element_assignment_sets_one_slot`, `stale_length_refuses_write`.
-/
import SealedScript.Proofs.Machine.Patience
import SealedScript.Proofs.Value.Trees

namespace SealedScript

/-! ### Places -/

/-- Whether an index denotes a place in a list of the given length. -/
def WithinLength (k : Int64) (length : Nat) : Prop := 0 ≤ k.toInt ∧ k.toInt < length

instance (k : Int64) (length : Nat) : Decidable (WithinLength k length) := inferInstanceAs (Decidable (_ ∧ _))

theorem WithinLength.toNat_lt {k : Int64} {length : Nat} (hk : WithinLength k length) : k.toInt.toNat < length := by
  obtain ⟨hlow, hhigh⟩ := hk
  omega

theorem ofNat_toNat_toInt {k : Int64} (hlow : 0 ≤ k.toInt) : Int64.ofNat k.toInt.toNat = k := by
  rw [← Int64.ofInt_eq_ofNat, Int.toNat_of_nonneg hlow, Int64.ofInt_toInt]

namespace Heap

variable {h : Heap} {id : ListId} {k : Int64} {length : Nat}

theorem position?_of_within (hk : WithinLength k length) : position? k length = some k.toInt.toNat := by
  obtain ⟨hlow, hhigh⟩ := hk
  simp [position?, hlow, hhigh]

theorem position?_of_not_within (hk : ¬ WithinLength k length) : position? k length = none := by
  rw [WithinLength, Decidable.not_and_iff_or_not] at hk
  rcases hk with hlow | hhigh
  · simp [position?, hlow]
  · simp [position?, hhigh]

/-- What reading an element comes to by the list as it stands in this heap. -/
def judged (h : Heap) (id : ListId) (k : Int64) : Outcome Value :=
  if hk : WithinLength k (h.length id) then
    have : k.toInt.toNat < (h.elements id).size := hk.toNat_lt
    .done (h.elements id)[k.toInt.toNat]
  else .failed (.indexOutOfRange k (h.length id))

theorem exists_judged_done (hk : WithinLength k (h.length id)) :
    ∃ v, (h.elements id)[k.toInt.toNat]? = some v ∧ h.judged id k = .done v :=
  ⟨_, Array.getElem?_eq_getElem hk.toNat_lt, dif_pos hk⟩

theorem judged_failed (hk : ¬ WithinLength k (h.length id)) :
    h.judged id k = .failed (.indexOutOfRange k (h.length id)) := dif_neg hk

theorem getElem?_eq_none_of_not_within (hlow : 0 ≤ k.toInt) (hk : ¬ WithinLength k (h.length id)) :
    (h.elements id)[k.toInt.toNat]? = none := by
  apply Array.getElem?_eq_none
  have hhigh : ¬ k.toInt < h.length id := fun hhigh => hk ⟨hlow, hhigh⟩
  rw [Heap.length] at hhigh
  omega

end Heap

/-! ### Reading -/

namespace Action

variable {m m₁ m₂ : Machine} {steps : Nat} {target index : Expr} {reading : Reading} {id : ListId} {v : Value}
  {k : Int64}

/-- The check of an index. -/
theorem placeOf_eq (hv : v.index = .ok k) (length : Nat) : placeOf v length m =
    (if WithinLength k length then .done k.toInt.toNat else .failed (.indexOutOfRange k length), m) := by
  have hindex : ofExcept v.index m = (.done k, m) := by
    rw [hv]
    rfl
  rw [placeOf, bind_done hindex]
  by_cases hk : WithinLength k length
  · rw [Heap.position?_of_within hk, if_pos hk]
    rfl
  · rw [Heap.position?_of_not_within hk, if_neg hk]
    rfl

/-- The access behind the check: the element is that of the list as it stands, but a failure tells
the length that was checked. -/
theorem elementAt_eq {length : Nat} (hlow : 0 ≤ k.toInt) : elementAt id k.toInt.toNat length m =
    (if WithinLength k (m.heap.length id) then m.heap.judged id k else .failed (.indexOutOfRange k length), m) := by
  by_cases hk : WithinLength k (m.heap.length id)
  · obtain ⟨v, helement, hjudged⟩ := Heap.exists_judged_done hk
    simp only [elementAt, helement, if_pos hk, hjudged]
  · simp only [elementAt, Heap.getElem?_eq_none_of_not_within hlow hk, if_neg hk, ofNat_toNat_toInt hlow]

/-- Evaluating the list and the index of an element, and what follows. -/
theorem evaluate_element (htarget : evaluate steps target reading m = (.done (.list id), m₁))
    (hindex : evaluate steps index reading m₁ = (.done v, m₂)) (hv : v.index = .ok k) :
    evaluate (steps + 1) (.element target index) reading m =
      (if WithinLength k (m₁.heap.length id) ∧ WithinLength k (m₂.heap.length id) then m₂.heap.judged id k
        else .failed (.indexOutOfRange k (m₁.heap.length id)), m₂) := by
  show (evaluate steps target reading >>= fun list => listOf list >>= fun id =>
    reads (·.heap.length id) >>= fun length => evaluate steps index reading >>= fun place =>
    placeOf place length >>= fun i => elementAt id i length) m = _
  have hlist : listOf (.list id) m₁ = (.done id, m₁) := rfl
  have hlength : reads (·.heap.length id) m₁ = (.done (m₁.heap.length id), m₁) := rfl
  rw [bind_done htarget, bind_done hlist, bind_done hlength, bind_done hindex]
  have hplace := placeOf_eq (m := m₂) hv (m₁.heap.length id)
  by_cases hk : WithinLength k (m₁.heap.length id)
  · rw [if_pos hk] at hplace
    rw [bind_done hplace, elementAt_eq hk.1]
    simp only [hk, true_and]
  · rw [if_neg hk] at hplace
    rw [bind_failed hplace, if_neg fun hboth => hk hboth.1]

end Action

section Read

variable {target index : Expr} {reading : Reading} {m m₁ m₂ : Machine} {id : ListId} {v : Value} {k : Int64}

/-- What a read comes to: the element as it stands, if the place was there before the index was
evaluated and is there afterwards. -/
theorem Expr.ComesTo.element (htarget : target.ComesTo reading m (.done (.list id)) m₁)
    (hindex : index.ComesTo reading m₁ (.done v) m₂) (hv : v.index = .ok k) :
    (Expr.element target index).ComesTo reading m
      (if WithinLength k (m₁.heap.length id) ∧ WithinLength k (m₂.heap.length id) then m₂.heap.judged id k
        else .failed (.indexOutOfRange k (m₁.heap.length id))) m₂ := by
  obtain ⟨forTarget, htarget⟩ := htarget
  obtain ⟨forIndex, hindex⟩ := hindex
  refine ⟨max forTarget forIndex + 1, fun steps hle => ?_⟩
  obtain ⟨steps, rfl⟩ := Nat.exists_eq_add_of_le' (Nat.le_of_add_left_le hle)
  exact Action.evaluate_element (htarget steps (by omega)) (hindex steps (by omega)) hv

/-- **A read is judged by the list as it stands** when list and index have been evaluated, exactly
if the index has left the length as it was or the place is there before and after.  In every other
case it fails, and tells the length from before the index was evaluated. -/
theorem element_read_as_it_stands (htarget : target.ComesTo reading m (.done (.list id)) m₁)
    (hindex : index.ComesTo reading m₁ (.done v) m₂) (hv : v.index = .ok k) :
    ((Expr.element target index).ComesTo reading m (m₂.heap.judged id k) m₂ ↔
      m₂.heap.length id = m₁.heap.length id ∨
        WithinLength k (m₁.heap.length id) ∧ WithinLength k (m₂.heap.length id)) ∧
    (¬ (WithinLength k (m₁.heap.length id) ∧ WithinLength k (m₂.heap.length id)) →
      (Expr.element target index).ComesTo reading m (.failed (.indexOutOfRange k (m₁.heap.length id))) m₂) := by
  have hread := Expr.ComesTo.element htarget hindex hv
  by_cases hboth : WithinLength k (m₁.heap.length id) ∧ WithinLength k (m₂.heap.length id)
  · rw [if_pos hboth] at hread
    exact ⟨⟨fun _ => .inr hboth, fun _ => hread⟩, fun hnot => absurd hboth hnot⟩
  · rw [if_neg hboth] at hread
    refine ⟨⟨fun hjudged => .inl ?_, fun hsame => ?_⟩, fun _ => hread⟩
    · -- the failure that is told has to be the one by which the list as it stands judges
      obtain ⟨hanswer, -⟩ := hread.unique hjudged
      by_cases hnow : WithinLength k (m₂.heap.length id)
      · obtain ⟨element, -, hdone⟩ := Heap.exists_judged_done hnow
        rw [hdone] at hanswer
        cases hanswer
      · rw [Heap.judged_failed hnow] at hanswer
        simp only [Outcome.failed.injEq, RuntimeError.indexOutOfRange.injEq, true_and] at hanswer
        exact hanswer.symm
    · rcases hsame with hsame | hthere
      · have hnow : ¬ WithinLength k (m₂.heap.length id) := fun hnow => hboth ⟨hsame ▸ hnow, hnow⟩
        rw [Heap.judged_failed hnow, hsame]
        exact hread
      · exact absurd hthere hboth

end Read

/-- A machine with these lists, of which the first one is the variable `a`. -/
def Machine.withLists (lists : Array (Array Value)) : Machine :=
  { globals := [("a", ⟨.list 0, false⟩)], heap := { lists := lists } }

/-- The variable `a`. -/
def Expr.held : Expr := .variable ⟨"a", false⟩

theorem Expr.held_comesTo (lists : Array (Array Value)) :
    Expr.held.ComesTo .opened (.withLists lists) (.done (.list 0)) (.withLists lists) := .of_evaluate 1 rfl nofun

/-- `a[a[1] = 1]`, where the index writes the very element that is then read. -/
theorem element_written_by_index :
    Expr.held.ComesTo .opened (.withLists #[#[.int 0, .int 5]]) (.done (.list 0)) (.withLists #[#[.int 0, .int 5]]) ∧
    (Expr.assignElement .held (.literal (.int 1)) .set (.literal (.int 1))).ComesTo .opened
      (.withLists #[#[.int 0, .int 5]]) (.done (.int 1)) (.withLists #[#[.int 0, .int 1]]) ∧
    (Value.int 1).index = .ok 1 ∧
    (Expr.element .held (.assignElement .held (.literal (.int 1)) .set (.literal (.int 1)))).ComesTo .opened
      (.withLists #[#[.int 0, .int 5]]) (.done (.int 1)) (.withLists #[#[.int 0, .int 1]]) := by
  have hindex : (Expr.assignElement .held (.literal (.int 1)) .set (.literal (.int 1))).ComesTo .opened
      (.withLists #[#[.int 0, .int 5]]) (.done (.int 1)) (.withLists #[#[.int 0, .int 1]]) := .of_evaluate 2 rfl nofun
  have hlist := Expr.held_comesTo #[#[.int 0, .int 5]]
  exact ⟨hlist, hindex, rfl, (element_read_as_it_stands hlist hindex rfl).1.mpr (.inl rfl)⟩

/-- The number 1, when something else has been evaluated. -/
def Expr.oneAfter (effect : Expr) : Expr := .element (.list [effect, .literal (.int 1)]) (.literal (.int 1))

/-- `[a.add(7), 1][1]`, which adds an element to `a`. -/
theorem Expr.growing_comesTo :
    (Expr.oneAfter (.method .held "add" [.literal (.int 7)])).ComesTo .opened (.withLists #[#[.int 5]])
      (.done (.int 1)) (.withLists #[#[.int 5, .int 7], #[.nil, .int 1]]) := .of_evaluate 7 rfl nofun

/-- `[a.remove(0), 1][1]`, which takes the first element out of `a`. -/
theorem Expr.shrinking_comesTo :
    (Expr.oneAfter (.method .held "remove" [.literal (.int 0)])).ComesTo .opened (.withLists #[#[.int 5, .int 6]])
      (.done (.int 1)) (.withLists #[#[.int 6], #[.nil, .int 1]]) := by
  have herased : (#[.int 5, .int 6] : Array Value).eraseIdxIfInBounds 0 = #[.int 6] := by
    simp [Array.eraseIdxIfInBounds]
  rw [← herased]
  exact .of_evaluate 7 rfl nofun

/-- Reads that are judged by a length from before.  Where `a` is `[5]`, the index of
`a[[a.add(7), 1][1]]` makes it `[5, 7]`, and place 1 is refused; where `a` is `[5, 6]`, the index
of `a[[a.remove(0), 1][1]]` makes it `[6]`, and the failure tells the length 2. -/
theorem stale_length_shows :
    ((Expr.oneAfter (.method .held "add" [.literal (.int 7)])).ComesTo .opened (.withLists #[#[.int 5]])
        (.done (.int 1)) (.withLists #[#[.int 5, .int 7], #[.nil, .int 1]]) ∧
      (Machine.withLists #[#[.int 5, .int 7], #[.nil, .int 1]]).heap.judged 0 1 = .done (.int 7) ∧
      (Expr.element .held (.oneAfter (.method .held "add" [.literal (.int 7)]))).ComesTo .opened
        (.withLists #[#[.int 5]]) (.failed (.indexOutOfRange 1 1))
        (.withLists #[#[.int 5, .int 7], #[.nil, .int 1]])) ∧
    (Expr.oneAfter (.method .held "remove" [.literal (.int 0)])).ComesTo .opened (.withLists #[#[.int 5, .int 6]])
        (.done (.int 1)) (.withLists #[#[.int 6], #[.nil, .int 1]]) ∧
      (Machine.withLists #[#[.int 6], #[.nil, .int 1]]).heap.judged 0 1 = .failed (.indexOutOfRange 1 1) ∧
      (Expr.element .held (.oneAfter (.method .held "remove" [.literal (.int 0)]))).ComesTo .opened
        (.withLists #[#[.int 5, .int 6]]) (.failed (.indexOutOfRange 1 2))
        (.withLists #[#[.int 6], #[.nil, .int 1]]) := by
  have hgrown := Expr.growing_comesTo
  have hshrunk := Expr.shrinking_comesTo
  exact ⟨⟨hgrown, rfl, (Expr.held_comesTo _).element hgrown rfl⟩,
    hshrunk, rfl, (Expr.held_comesTo _).element hshrunk rfl⟩

/-! ### Writing -/

namespace Heap

variable {h h' : Heap} {id : ListId} {i : Nat} {u : Value}

theorem elements_modifyList_self {f : Array Value → Array Value} (hid : id < h.lists.size) :
    (h.modifyList id f).elements id = f (h.elements id) := by
  simp only [elements, modifyList, Array.getD_eq_getD_getElem?, Array.getElem?_modify, if_true]
  simp [hid]

theorem elements_modifyList_of_ne {f : Array Value → Array Value} {other : ListId} (hne : other ≠ id) :
    (h.modifyList id f).elements other = h.elements other := by
  simp only [elements, modifyList, Array.getD_eq_getD_getElem?, Array.getElem?_modify, if_neg (Ne.symm hne)]

/-- A list with an element is one of the heap. -/
theorem lt_size_of_getElem? {v : Value} (hv : (h.elements id)[i]? = some v) : id < h.lists.size := by
  by_contra hid
  have hempty : h.elements id = #[] := by simp [elements, Nat.not_lt.mp hid]
  simp [hempty] at hv

/-- The value that an assignment stores, computed from the old one and the right-hand side, and the
heap in which it is one. -/
def combined (h : Heap) (op : AssignOp) (old rhs : Value) : Except RuntimeError (Value × Heap) :=
  match op.operator? with
  | none => .ok (rhs, h)
  | some op => h.apply op old rhs

/-- What an assignment leaves of a heap: one slot of one list is set, and every other element,
list and object is as it was. -/
structure SlotSet (h : Heap) (id : ListId) (i : Nat) (u : Value) (h' : Heap) : Prop where
  slot : (h'.elements id)[i]? = some u
  slots : ∀ j, j ≠ i → (h'.elements id)[j]? = (h.elements id)[j]?
  lists : ∀ other, other ≠ id → other < h.lists.size → h'.elements other = h.elements other
  objects : h'.objects = h.objects

/-- Which lists an assignment makes: none, or the one that joins the old list and the one on the
right-hand side. -/
inductive NewLists (h : Heap) (op : AssignOp) (old rhs u : Value) (h' : Heap) : Prop
  | none : h'.lists.size = h.lists.size → NewLists h op old rhs u h'
  | joined {a b : ListId} : op = .add → old = .list a → rhs = .list b → u = .list h.lists.size →
      h'.lists.size = h.lists.size + 1 → h'.elements h.lists.size = h.elements a ++ h.elements b →
      NewLists h op old rhs u h'

/-- What an operator comes to: a value, the list that joins two others, or arithmetic. -/
theorem apply_cases (h : Heap) (op : BinaryOp) (l r : Value) :
    (∃ v, h.apply op l r = .ok (v, h)) ∨
    (∃ a b, op = .add ∧ l = .list a ∧ r = .list b ∧
      h.apply op l r = .ok (h.newList (h.elements a ++ h.elements b))) ∨
    h.apply op l r = (Value.arithmetic op l r).map fun v => (v, h) := by
  unfold apply
  split
  · exact .inl ⟨_, rfl⟩
  · exact .inl ⟨_, rfl⟩
  split
  · exact .inl ⟨_, rfl⟩
  unfold applyStructured
  split
  · exact .inr (.inl ⟨_, _, rfl, rfl, rfl, rfl⟩)
  split
  · exact .inl ⟨_, rfl⟩
  · exact .inr (.inr rfl)

/-- An operator leaves the heap as it is, or adds the list that joins two others. -/
theorem apply_eq_ok {op : BinaryOp} {l r : Value} (happly : h.apply op l r = .ok (u, h')) :
    h' = h ∨ ∃ a b, op = .add ∧ l = .list a ∧ r = .list b ∧ h.newList (h.elements a ++ h.elements b) = (u, h') := by
  rcases h.apply_cases op l r with ⟨v, hv⟩ | ⟨a, b, hop, hl, hr, hjoined⟩ | harithmetic
  · cases hv.symm.trans happly
    exact .inl rfl
  · exact .inr ⟨a, b, hop, hl, hr, Except.ok.inj (hjoined.symm.trans happly)⟩
  · rw [harithmetic] at happly
    rcases hresult : Value.arithmetic op l r with e | v
    · rw [hresult] at happly
      cases happly
    · rw [hresult] at happly
      cases happly
      exact .inl rfl

theorem combined_eq_ok {op : AssignOp} {old rhs : Value} (hcombined : h.combined op old rhs = .ok (u, h')) :
    h' = h ∨ ∃ a b, op = .add ∧ old = .list a ∧ rhs = .list b ∧
      h.newList (h.elements a ++ h.elements b) = (u, h') := by
  unfold combined at hcombined
  split at hcombined
  · cases hcombined
    exact .inl rfl
  · next operator hoperator =>
    rcases apply_eq_ok hcombined with hsame | ⟨a, b, rfl, hjoined⟩
    · exact .inl hsame
    · have hop : op = .add := by
        cases op with
        | add => rfl
        | set | sub | mul | div => cases hoperator
      exact .inr ⟨a, b, hop, hjoined⟩

/-- What an operator can fail with. -/
inductive OperatorError : RuntimeError → Prop
  | divisionByZero : OperatorError .divisionByZero
  | unsupported (symbol operands : String) : OperatorError (.unsupportedOperator symbol operands)

theorem operatorError_of_arithmetic {op : BinaryOp} {l r : Value} {e : RuntimeError}
    (harithmetic : Value.arithmetic op l r = .error e) : OperatorError e := by
  unfold Value.arithmetic at harithmetic
  split at harithmetic
  · cases op with
    | div | rem =>
      unfold Number.apply at harithmetic
      dsimp only at harithmetic
      split at harithmetic
      · cases harithmetic
        exact .divisionByZero
      · cases harithmetic
    | _ => cases harithmetic
  · cases harithmetic
    exact .unsupported _ _

theorem operatorError_of_apply {op : BinaryOp} {l r : Value} {e : RuntimeError} (happly : h.apply op l r = .error e) :
    OperatorError e := by
  rcases h.apply_cases op l r with ⟨v, hv⟩ | ⟨a, b, -, -, -, hjoined⟩ | harithmetic
  · cases hv.symm.trans happly
  · cases hjoined.symm.trans happly
  · rw [harithmetic] at happly
    rcases hresult : Value.arithmetic op l r with e' | v
    · rw [hresult] at happly
      cases happly
      exact operatorError_of_arithmetic hresult
    · rw [hresult] at happly
      cases happly

theorem operatorError_of_combined {op : AssignOp} {old rhs : Value} {e : RuntimeError}
    (hcombined : h.combined op old rhs = .error e) : OperatorError e := by
  unfold combined at hcombined
  split at hcombined
  · cases hcombined
  · exact operatorError_of_apply hcombined

theorem extends_of_combined {op : AssignOp} {old rhs : Value} (hcombined : h.combined op old rhs = .ok (u, h')) :
    Extends h h' ∧ h'.objects = h.objects := by
  rcases combined_eq_ok hcombined with rfl | ⟨a, b, -, -, -, hjoined⟩
  · exact ⟨.refl h', rfl⟩
  · obtain ⟨-, rfl⟩ := Prod.mk.inj hjoined
    exact ⟨extends_newList h _, rfl⟩

/-- A value that is stored in the heap that the computation of it has left. -/
theorem slotSet_of_combined {op : AssignOp} {old rhs : Value} (hold : (h.elements id)[i]? = some old)
    (hcombined : h.combined op old rhs = .ok (u, h')) :
    SlotSet h id i u (h'.modifyList id (·.setIfInBounds i u)) := by
  obtain ⟨hext, hobjects⟩ := extends_of_combined hcombined
  have hid := lt_size_of_getElem? hold
  have hi : i < (h.elements id).size := (Array.getElem?_eq_some_iff.mp hold).1
  have hset : (h'.modifyList id (·.setIfInBounds i u)).elements id = (h.elements id).setIfInBounds i u := by
    rw [elements_modifyList_self (Nat.lt_of_lt_of_le hid hext.size_le), hext.elements_eq hid]
  refine ⟨?_, fun j hj => ?_, fun other hne hother => ?_, hobjects⟩
  · rw [hset, Array.getElem?_setIfInBounds_self_of_lt hi]
  · rw [hset, Array.getElem?_setIfInBounds_ne (Ne.symm hj)]
  · rw [elements_modifyList_of_ne hne, hext.elements_eq hother]

theorem newLists_of_combined {op : AssignOp} {old rhs : Value} (hold : (h.elements id)[i]? = some old)
    (hcombined : h.combined op old rhs = .ok (u, h')) :
    NewLists h op old rhs u (h'.modifyList id (·.setIfInBounds i u)) := by
  have hsize : (h'.modifyList id (·.setIfInBounds i u)).lists.size = h'.lists.size := Array.size_modify
  rcases combined_eq_ok hcombined with rfl | ⟨a, b, hop, ha, hb, hjoined⟩
  · exact .none hsize
  · obtain ⟨hu, rfl⟩ : _ = u ∧ (h.newList (h.elements a ++ h.elements b)).2 = h' := Prod.mk.inj hjoined
    refine .joined hop ha hb hu.symm (hsize.trans (Array.size_push _)) ?_
    -- the joined list is a new one, so the write goes elsewhere
    have hne : h.lists.size ≠ id := Nat.ne_of_gt (lt_size_of_getElem? hold)
    rw [elements_modifyList_of_ne hne, elements_newList]

end Heap

namespace Action

variable {m m₁ m₂ m₃ : Machine} {steps i : Nat} {target index value : Expr} {reading : Reading} {id : ListId}
  {op : AssignOp} {v r old : Value} {k : Int64}

/-- The value to be stored, computed from an old one that is at hand. -/
theorem assigned_eq {x : Action Value} (hx : x m = (.done old, m)) : assigned op x r m =
    match m.heap.combined op old r with
    | .error e => (.failed e, m)
    | .ok (u, heap) => (.done u, { m with heap := heap }) := by
  unfold assigned Heap.combined
  cases op.operator? with
  | none => rfl
  | some operator =>
    show (x >>= fun current => onHeap (·.apply operator current r)) m = _
    rw [bind_done hx]
    rcases happly : m.heap.apply operator old r with e | ⟨u, heap⟩
    · simp only [onHeap, happly]
    · simp only [onHeap, happly]

/-- An assignment to a place that the list has. -/
theorem assignElement_of_getElem? (hold : (m.heap.elements id)[i]? = some old) : assignElement id i op r m =
    match m.heap.combined op old r with
    | .error e => (.failed e, m)
    | .ok (u, heap) => (.done u, { m with heap := heap.modifyList id (·.setIfInBounds i u) }) := by
  let current : Action Value := fun m => elementAt id i (m.heap.length id) m
  have hcurrent : current m = (.done old, m) := by
    simp only [current, elementAt, hold]
  have hassigned : assigned op current r m = _ := assigned_eq hcurrent
  show (assigned op current r >>= fun u => setElement id i u) m = _
  rcases hcombined : m.heap.combined op old r with e | ⟨u, heap⟩
  · rw [hcombined] at hassigned
    rw [bind_failed hassigned]
  · rw [hcombined] at hassigned
    rw [bind_done hassigned]
    -- what was added to the heap has not touched the list
    have hi : i < heap.length id := by
      rw [Heap.length, (Heap.extends_of_combined hcombined).1.elements_eq (Heap.lt_size_of_getElem? hold)]
      exact (Array.getElem?_eq_some_iff.mp hold).1
    exact if_pos hi

/-- An assignment to a place that the list does not have. -/
theorem assignElement_of_none (hnone : (m.heap.elements id)[i]? = none) :
    assignElement id i op r m = (.failed (.indexOutOfRange (Int64.ofNat i) (m.heap.length id)), m) := by
  unfold assignElement assigned
  cases op.operator? with
  | none =>
    -- nothing is read here, so it is the write that finds the place missing
    exact if_neg (Nat.not_lt.mpr (Array.getElem?_eq_none_iff.mp hnone))
  | some operator =>
    have hcurrent : (fun m : Machine => elementAt id i (m.heap.length id) m) m =
        (.failed (.indexOutOfRange (Int64.ofNat i) (m.heap.length id)), m) := by
      simp only [elementAt, hnone]
    exact bind_failed (bind_failed hcurrent)

/-- Evaluating the list and the index of an assignment, and what follows: the right-hand side is
evaluated only if the list had the place before the index was evaluated. -/
theorem evaluate_assignElement (htarget : evaluate steps target reading m = (.done (.list id), m₁))
    (hindex : evaluate steps index reading m₁ = (.done v, m₂)) (hv : v.index = .ok k) :
    evaluate (steps + 1) (.assignElement target index op value) reading m =
      if WithinLength k (m₁.heap.length id) then
        (evaluate steps value reading >>= fun rhs => assignElement id k.toInt.toNat op rhs) m₂
      else (.failed (.indexOutOfRange k (m₁.heap.length id)), m₂) := by
  show (evaluate steps target reading >>= fun list => listOf list >>= fun id =>
    reads (·.heap.length id) >>= fun length => evaluate steps index reading >>= fun place =>
    placeOf place length >>= fun i => evaluate steps value reading >>= fun rhs => assignElement id i op rhs) m = _
  have hlist : listOf (.list id) m₁ = (.done id, m₁) := rfl
  have hlength : reads (·.heap.length id) m₁ = (.done (m₁.heap.length id), m₁) := rfl
  have hplace := placeOf_eq (m := m₂) hv (m₁.heap.length id)
  rw [bind_done htarget, bind_done hlist, bind_done hlength, bind_done hindex]
  by_cases hk : WithinLength k (m₁.heap.length id)
  · rw [if_pos hk] at hplace ⊢
    rw [bind_done hplace]
  · rw [if_neg hk] at hplace ⊢
    rw [bind_failed hplace]

end Action

section Write

variable {target index value : Expr} {reading : Reading} {m m₁ m₂ m₃ : Machine} {id : ListId} {v r : Value}
  {k : Int64} (op : AssignOp)

/-- A write whose place the list did not have before the index was evaluated. -/
theorem Expr.ComesTo.assignElement_refused (htarget : target.ComesTo reading m (.done (.list id)) m₁)
    (hindex : index.ComesTo reading m₁ (.done v) m₂) (hv : v.index = .ok k)
    (hk : ¬ WithinLength k (m₁.heap.length id)) :
    (Expr.assignElement target index op value).ComesTo reading m
      (.failed (.indexOutOfRange k (m₁.heap.length id))) m₂ := by
  obtain ⟨forTarget, htarget⟩ := htarget
  obtain ⟨forIndex, hindex⟩ := hindex
  refine ⟨max forTarget forIndex + 1, fun steps hle => ?_⟩
  obtain ⟨steps, rfl⟩ := Nat.exists_eq_add_of_le' (Nat.le_of_add_left_le hle)
  rw [Action.evaluate_assignElement (htarget steps (by omega)) (hindex steps (by omega)) hv, if_neg hk]

/-- A write that is not refused comes to what is assigned when everything has been evaluated. -/
theorem Expr.ComesTo.assignElement (htarget : target.ComesTo reading m (.done (.list id)) m₁)
    (hindex : index.ComesTo reading m₁ (.done v) m₂) (hv : v.index = .ok k)
    (hk : WithinLength k (m₁.heap.length id)) (hvalue : value.ComesTo reading m₂ (.done r) m₃) :
    (Expr.assignElement target index op value).ComesTo reading m
      (Action.assignElement id k.toInt.toNat op r m₃).1 (Action.assignElement id k.toInt.toNat op r m₃).2 := by
  obtain ⟨forTarget, htarget⟩ := htarget
  obtain ⟨forIndex, hindex⟩ := hindex
  obtain ⟨forValue, hvalue⟩ := hvalue
  refine ⟨max (max forTarget forIndex) forValue + 1, fun steps hle => ?_⟩
  obtain ⟨steps, rfl⟩ := Nat.exists_eq_add_of_le' (Nat.le_of_add_left_le hle)
  rw [Action.evaluate_assignElement (htarget steps (by omega)) (hindex steps (by omega)) hv, if_pos hk,
    Action.bind_done (hvalue steps (by omega))]

/-- **One slot or nothing.**  An assignment to place `k` of a list is judged by the machine `m₃` in
which everything has been evaluated, the right-hand side to `r`.

* If the list does not have the place, the assignment fails with the index and the length that the
  list has, and changes nothing.
* If it does, and the operator of a compound assignment fails on the element that stands there and
  the right-hand side, the assignment fails in the same way and changes nothing.
* Otherwise it yields the value `u` that was computed, and of the whole machine the heap alone has
  changed: the slot holds `u`, every other element, list and object is as it was, and no list is
  new but one that `+=` has joined from two, which is `u` itself. -/
def Expr.SetsOneSlot (assignment : Expr) (reading : Reading) (m : Machine) (id : ListId) (k : Int64) (op : AssignOp)
    (r : Value) (m₃ : Machine) : Prop :=
  match (m₃.heap.elements id)[k.toInt.toNat]? with
  | none => assignment.ComesTo reading m (.failed (.indexOutOfRange k (m₃.heap.length id))) m₃
  | some old =>
    match m₃.heap.combined op old r with
    | .error e => assignment.ComesTo reading m (.failed e) m₃
    | .ok (u, _) => ∃ heap, assignment.ComesTo reading m (.done u) { m₃ with heap := heap } ∧
        m₃.heap.SlotSet id k.toInt.toNat u heap ∧ m₃.heap.NewLists op old r u heap

/-- A write that is not refused. -/
theorem Expr.ComesTo.setsOneSlot (htarget : target.ComesTo reading m (.done (.list id)) m₁)
    (hindex : index.ComesTo reading m₁ (.done v) m₂) (hv : v.index = .ok k)
    (hk : WithinLength k (m₁.heap.length id)) (hvalue : value.ComesTo reading m₂ (.done r) m₃) :
    (Expr.assignElement target index op value).SetsOneSlot reading m id k op r m₃ := by
  have hwrite := htarget.assignElement op hindex hv hk hvalue
  unfold Expr.SetsOneSlot
  rcases hold : (m₃.heap.elements id)[k.toInt.toNat]? with - | old
  · rw [Action.assignElement_of_none hold, ofNat_toNat_toInt hk.1] at hwrite
    exact hwrite
  · rw [Action.assignElement_of_getElem? hold] at hwrite
    rcases hcombined : m₃.heap.combined op old r with e | ⟨u, heap⟩
    · rw [hcombined] at hwrite
      simp only [hcombined]
      exact hwrite
    · rw [hcombined] at hwrite
      simp only [hcombined]
      exact ⟨_, hwrite, Heap.slotSet_of_combined hold hcombined, Heap.newLists_of_combined hold hcombined⟩

/-- A write that fails for its place by a length from before: where the list has the place when it is
checked, this is not what the list as it stands comes to. -/
theorem Expr.ComesTo.not_setsOneSlot {assignment : Expr} {length : Nat}
    (hfailed : assignment.ComesTo reading m (.failed (.indexOutOfRange k length)) m₂)
    (hk : WithinLength k (m₂.heap.length id)) : ¬ assignment.SetsOneSlot reading m id k op r m₃ := by
  intro hslot
  unfold Expr.SetsOneSlot at hslot
  rcases hold : (m₃.heap.elements id)[k.toInt.toNat]? with - | old
  · -- the failure that is told is that of the machine after the index, where the place is there
    simp only [hold] at hslot
    obtain ⟨-, rfl⟩ := hfailed.unique hslot
    exact absurd hk.toNat_lt (Nat.not_lt.mpr (Array.getElem?_eq_none_iff.mp hold))
  · simp only [hold] at hslot
    rcases hcombined : m₃.heap.combined op old r with e | ⟨u, heap⟩
    · simp only [hcombined] at hslot
      obtain ⟨hanswer, -⟩ := hfailed.unique hslot
      cases hanswer
      cases Heap.operatorError_of_combined hcombined
    · simp only [hcombined] at hslot
      obtain ⟨heap', hdone, -⟩ := hslot
      obtain ⟨hanswer, -⟩ := hfailed.unique hdone
      cases hanswer

/-- **An assignment to an element sets one slot or nothing**, as the list stands when everything has
been evaluated, if the list had the place before the index was evaluated.

* If it did not, the assignment is refused with the index and the length that the list had then: the
  right-hand side is not evaluated, and nothing changes any more.
* So of the places that the list has when the index has been evaluated, exactly those that were there
  before are judged by the list as it stands. -/
theorem element_assignment_sets_one_slot (htarget : target.ComesTo reading m (.done (.list id)) m₁)
    (hindex : index.ComesTo reading m₁ (.done v) m₂) (hv : v.index = .ok k) :
    (¬ WithinLength k (m₁.heap.length id) → (Expr.assignElement target index op value).ComesTo reading m
      (.failed (.indexOutOfRange k (m₁.heap.length id))) m₂) ∧
    ∀ r m₃, value.ComesTo reading m₂ (.done r) m₃ →
      (WithinLength k (m₁.heap.length id) →
        (Expr.assignElement target index op value).SetsOneSlot reading m id k op r m₃) ∧
      (WithinLength k (m₂.heap.length id) →
        ((Expr.assignElement target index op value).SetsOneSlot reading m id k op r m₃ ↔
          WithinLength k (m₁.heap.length id))) := by
  refine ⟨htarget.assignElement_refused op hindex hv, fun r m₃ hvalue => ?_⟩
  have hjudged (hk : WithinLength k (m₁.heap.length id)) := htarget.setsOneSlot op hindex hv hk hvalue
  refine ⟨hjudged, fun hnow => ⟨fun hslot => ?_, hjudged⟩⟩
  by_contra hk
  -- the assignment would be refused, and what it comes to is determined
  exact (htarget.assignElement_refused op hindex hv hk).not_setsOneSlot op hnow hslot

end Write

theorem Expr.literal_comesTo (n : Int64) (m : Machine) :
    (Expr.literal (.int n)).ComesTo .opened m (.done (.int n)) m := .of_evaluate 1 rfl nofun

/-- Assignments in which the list changes under way.  Where `a` is a list that begins with itself,
`a[0] += a` joins it with itself and puts the joined list into it.  Where `a` is `[5, 6]`, the
right-hand side of `a[1] = [a.remove(0), 1][1]` takes the place away. -/
theorem assignments_to_changing_list :
    (WithinLength 0 ((Machine.withLists #[#[.list 0, .int 5]]).heap.length 0) ∧
      ∃ heap, (Expr.assignElement .held (.literal (.int 0)) .add .held).ComesTo .opened
          (.withLists #[#[.list 0, .int 5]]) (.done (.list 1))
          { Machine.withLists #[#[.list 0, .int 5]] with heap := heap } ∧
        (Machine.withLists #[#[.list 0, .int 5]]).heap.SlotSet 0 0 (.list 1) heap ∧
        (Machine.withLists #[#[.list 0, .int 5]]).heap.NewLists .add (.list 0) (.list 0) (.list 1) heap) ∧
    (WithinLength 1 ((Machine.withLists #[#[.int 5, .int 6]]).heap.length 0) ∧
      (Expr.assignElement .held (.literal (.int 1)) .set
        (.oneAfter (.method .held "remove" [.literal (.int 0)]))).ComesTo .opened
        (.withLists #[#[.int 5, .int 6]]) (.failed (.indexOutOfRange 1 1))
        (.withLists #[#[.int 6], #[.nil, .int 1]])) := by
  have hself := Expr.held_comesTo #[#[.list 0, .int 5]]
  have hpair := Expr.held_comesTo #[#[.int 5, .int 6]]
  obtain ⟨-, hjoined⟩ := element_assignment_sets_one_slot .add hself (Expr.literal_comesTo 0 _) rfl
  obtain ⟨-, hgone⟩ := element_assignment_sets_one_slot .set hpair (Expr.literal_comesTo 1 _) rfl
  exact ⟨⟨by decide, (hjoined _ _ hself).1 (by decide)⟩, by decide, (hgone _ _ Expr.shrinking_comesTo).1 (by decide)⟩

/-- A write that is refused by a length from before.  Where `a` is `[5]`, the index of
`a[[a.add(7), 1][1]] = 9` makes it `[5, 7]`; place 1 is there when it is checked, and the right-hand
side takes nothing away, but the assignment fails and tells the length 1. -/
theorem stale_length_refuses_write :
    let m := Machine.withLists #[#[.int 5]]
    let grown := Machine.withLists #[#[.int 5, .int 7], #[.nil, .int 1]]
    let index := Expr.oneAfter (.method .held "add" [.literal (.int 7)])
    let write := Expr.assignElement .held index .set (.literal (.int 9))
    Expr.held.ComesTo .opened m (.done (.list 0)) m ∧ index.ComesTo .opened m (.done (.int 1)) grown ∧
      WithinLength 1 (grown.heap.length 0) ∧ (Expr.literal (.int 9)).ComesTo .opened grown (.done (.int 9)) grown ∧
      write.ComesTo .opened m (.failed (.indexOutOfRange 1 1)) grown ∧
      ¬ write.SetsOneSlot .opened m 0 1 .set (.int 9) grown := by
  intro m grown index write
  have hlist := Expr.held_comesTo #[#[.int 5]]
  have hindex : index.ComesTo .opened m (.done (.int 1)) grown := Expr.growing_comesTo
  have hnow : WithinLength 1 (grown.heap.length 0) := by decide
  have hrefused : write.ComesTo .opened m (.failed (.indexOutOfRange 1 1)) grown :=
    hlist.assignElement_refused .set hindex rfl (by decide)
  exact ⟨hlist, hindex, hnow, Expr.literal_comesTo 9 _, hrefused, hrefused.not_setsOneSlot .set hnow⟩

end SealedScript

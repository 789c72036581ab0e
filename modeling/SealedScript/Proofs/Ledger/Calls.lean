/-
SealedScript/Proofs/Ledger/Calls.lean

What a call does to a ledger.  A call fails and changes nothing, or it opens the
account, moves an amount or refuses to, or shows something; `Ledger.Effect` has one
rule for each, and nothing else happens.  A row of calls leaves a log of its answers.

A ledger is an object of the heap, and a method of the object leaves there what the
call returns, so `Ledger.after` is the ledger that the next call finds.

Main results: `Ledger.effect`, `Ledger.object_callMethod`.
-/
import SealedScript.Machine.Methods

namespace SealedScript

/-- The amount that a value gives: whole numbers count as floating point numbers. -/
def Value.amount? : Value → Option Float
  | .int n => some (Number.toFloat (.int n))
  | .float x => some x
  | _ => none

namespace Ledger

/-- A method with its arguments. -/
structure Call where
  method : String
  args : List Value

/-- The amount in the second of two arguments. -/
def Call.amount? (c : Call) : Option Float :=
  match c.args with
  | [_, v] => v.amount?
  | _ => none

/-- What a call is answered: a result, or why it fails. -/
def answer (ledger : Ledger) (c : Call) : Except RuntimeError Datum :=
  (ledger.call c.method c.args).map Response.result

/-- The ledger after a call.  A call that fails returns none, and the ledger stays. -/
def after (ledger : Ledger) (c : Call) : Ledger :=
  match ledger.call c.method c.args with
  | .ok response => response.object
  | .error _ => ledger

/-! ### Effects -/

/-- What a call does: the ledger afterwards and the answer. -/
inductive Effect (ledger : Ledger) : Call → Ledger → Except RuntimeError Datum → Prop
  | failed (c : Call) (e : RuntimeError) : Effect ledger c ledger (.error e)
  | opened {key : String} {v : Value} {a : Float} (amount : v.amount? = some a) (address : Option String) :
      Effect ledger ⟨"init", [.text key, v]⟩ { ledger with address := address, balance := a } (.ok .nil)
  | refused {recipient : String} {v : Value} {a : Float} (amount : v.amount? = some a) (short : a > ledger.balance) :
      Effect ledger ⟨"transaction", [.text recipient, v]⟩ ledger (.ok (.bool false))
  | accepted {recipient : String} {v : Value} {a : Float} (amount : v.amount? = some a)
      (covered : ¬ a > ledger.balance) (stamp : Int32) :
      Effect ledger ⟨"transaction", [.text recipient, v]⟩
        { ledger with
          balance := ledger.balance - a,
          history := ledger.history ++ [⟨transactionId ledger.history.length, recipient, a, stamp⟩] }
        (.ok (.bool true))
  | shown {method : String} (args : List Value) (d : Datum) (hinit : method ≠ "init")
      (htransaction : method ≠ "transaction") : Effect ledger ⟨method, args⟩ ledger (.ok d)

/-- A text and an amount are two arguments, of which the first is a text and the second a number. -/
theorem textAndAmount_eq_ok {method text : String} {args : List Value} {a : Float}
    (h : textAndAmount method args = .ok (text, a)) : ∃ v, args = [.text text, v] ∧ v.amount? = some a := by
  unfold textAndAmount at h
  split at h
  · next first second =>
    cases first with
    | text s =>
      cases second with
      | int n =>
        cases h
        exact ⟨_, rfl, rfl⟩
      | float x =>
        cases h
        exact ⟨_, rfl, rfl⟩
      | nil | bool _ | text _ | list _ | object _ => cases h
    | nil | bool _ | int _ | float _ | list _ | object _ => cases h
  · cases h

section

variable (ledger : Ledger) (args : List Value)

theorem call_init :
    ledger.call "init" args = (textAndAmount "init" args).map fun arguments => ledger.init arguments.1 arguments.2 := by
  cases h : textAndAmount "init" args <;> simp [call, h, bind, Except.bind, Except.map, pure, Except.pure]

theorem call_transaction :
    ledger.call "transaction" args
      = (textAndAmount "transaction" args).map fun arguments => ledger.transaction arguments.1 arguments.2 := by
  cases h : textAndAmount "transaction" args <;> simp [call, h, bind, Except.bind, Except.map, pure, Except.pure]

theorem call_showCurrentBalance :
    ledger.call "showCurrentBalance" args
      = (checkArity "showCurrentBalance" 0 args).map fun _ => ledger.showBalance := by
  simp [call]
  rfl

theorem call_showTransactionHistory :
    ledger.call "showTransactionHistory" args
      = (checkArity "showTransactionHistory" 0 args).map fun _ => ledger.showHistory := by
  simp [call]
  rfl

end

/-- A call that fails has no effect, and one that checks its arguments first has that of the rest. -/
theorem effect_of_map {ledger : Ledger} {c : Call} {α : Type} {arguments : Except RuntimeError α}
    {respond : α → Response Ledger} (h : ledger.call c.method c.args = arguments.map respond)
    (hrespond : ∀ a, arguments = .ok a → ledger.Effect c (respond a).object (.ok (respond a).result)) :
    ledger.Effect c (ledger.after c) (ledger.answer c) := by
  rw [after, answer, h]
  cases arguments with
  | error e => exact .failed c e
  | ok a => exact hrespond a rfl

/-- **Every call has one of the effects.** -/
theorem effect (ledger : Ledger) (c : Call) : ledger.Effect c (ledger.after c) (ledger.answer c) := by
  obtain ⟨method, args⟩ := c
  by_cases hinit : method = "init"
  · subst hinit
    refine effect_of_map (ledger.call_init args) ?_
    rintro ⟨key, a⟩ harguments
    obtain ⟨v, rfl, hv⟩ := textAndAmount_eq_ok harguments
    exact .opened hv _
  by_cases htransaction : method = "transaction"
  · subst htransaction
    refine effect_of_map (ledger.call_transaction args) ?_
    rintro ⟨recipient, a⟩ harguments
    obtain ⟨v, rfl, hv⟩ := textAndAmount_eq_ok harguments
    unfold transaction
    split
    · next hshort => exact .refused hv hshort
    · next hcovered => exact .accepted hv hcovered _
  by_cases hbalance : method = "showCurrentBalance"
  · subst hbalance
    exact effect_of_map (ledger.call_showCurrentBalance args) fun _ _ => .shown args _ hinit htransaction
  by_cases hhistory : method = "showTransactionHistory"
  · subst hhistory
    exact effect_of_map (ledger.call_showTransactionHistory args) fun _ _ => .shown args _ hinit htransaction
  · have hunknown : ledger.call method args = .error (.unknownMethod typeName method) := by
      simp [call, hinit, htransaction, hbalance, hhistory]
    rw [after, answer, hunknown]
    exact .failed _ _

/-! ### Rows of calls -/

/-- A call with its answer. -/
structure Served where
  call : Call
  answer : Except RuntimeError Datum

/-- The ledger after a row of calls. -/
def serve (ledger : Ledger) (calls : List Call) : Ledger := calls.foldl after ledger

/-- The calls of a row with their answers. -/
def log (ledger : Ledger) : List Call → List Served
  | [] => []
  | c :: rest => ⟨c, ledger.answer c⟩ :: (ledger.after c).log rest

section

variable (ledger : Ledger)

@[simp] theorem serve_nil : ledger.serve [] = ledger := rfl

@[simp] theorem serve_cons (c : Call) (rest : List Call) : ledger.serve (c :: rest) = (ledger.after c).serve rest := rfl

theorem serve_append (calls more : List Call) : ledger.serve (calls ++ more) = (ledger.serve calls).serve more :=
  List.foldl_append

/-- Where a log is divided, the row of calls is. -/
theorem exists_of_log_eq_append {calls : List Call} {before behind : List Served} {s : Served}
    (h : ledger.log calls = before ++ s :: behind) :
    ∃ front c back, calls = front ++ c :: back ∧ ledger.log front = before ∧ s = ⟨c, (ledger.serve front).answer c⟩ ∧
      ((ledger.serve front).after c).log back = behind := by
  induction before generalizing ledger calls with
  | nil =>
    cases calls with
    | nil => cases h
    | cons c rest =>
      rw [log, List.nil_append, List.cons.injEq] at h
      exact ⟨[], c, rest, rfl, rfl, h.1.symm, h.2⟩
  | cons first before ih =>
    cases calls with
    | nil => cases h
    | cons c rest =>
      rw [log, List.cons_append, List.cons.injEq] at h
      obtain ⟨front, c', back, rfl, hfront, hs, hback⟩ := ih (ledger.after c) h.2
      exact ⟨c :: front, c', back, rfl, by rw [log, hfront, h.1], hs, hback⟩

end

end Ledger

/-! ### Ledgers in the heap -/

namespace Heap

mutual

/-- Data take no place among the objects. -/
theorem objects_place (h : Heap) (d : Datum) : (h.place d).2.objects = h.objects := by
  match d with
  | .nil | .bool _ | .int _ | .float _ | .text _ => rfl
  | .list items =>
    rw [place]
    exact objects_placeAll h items

theorem objects_placeAll (h : Heap) (items : List Datum) : (h.placeAll items).2.objects = h.objects := by
  match items with
  | [] => rfl
  | d :: rest =>
    rw [placeAll]
    exact (objects_placeAll (h.place d).2 rest).trans (objects_place h d)

end

theorem object_setObject {h : Heap} {id : ObjectId} {old : Object} (hold : h.object id = old) (hhost : old ≠ .host)
    (new : Object) : (h.setObject id new).object id = new := by
  have hid : id < h.objects.size := by
    refine Nat.lt_of_not_le fun hid => hhost ?_
    rw [← hold, object, Array.getD_eq_getD_getElem?, Array.getElem?_eq_none hid, Option.getD_none]
  simp [object, setObject, hid]

end Heap

/-- **A method call on a ledger in the heap leaves the ledger there that `after` tells**, and if it fails it
leaves the whole machine as it was. -/
theorem Ledger.object_callMethod {m : Machine} {id : ObjectId} {ledger : Ledger}
    (hledger : m.heap.object id = .ledger ledger) (c : Call) :
    (Action.callMethod (.object id) c.method c.args m).2.heap.object id = .ledger (ledger.after c) ∧
    ∀ e, ledger.answer c = .error e → Action.callMethod (.object id) c.method c.args m = (.failed e, m) := by
  have hcall : Action.callMethod (.object id) c.method c.args m
      = Action.callLedger id ledger c.method c.args m := by
    unfold Action.callMethod
    simp only [hledger]
  rw [hcall]
  unfold Action.callLedger after answer
  cases ledger.call c.method c.args with
  | error e =>
    refine ⟨hledger, ?_⟩
    rintro _ ⟨⟩
    rfl
  | ok response =>
    refine ⟨?_, nofun⟩
    show ((m.heap.setObject id _).place response.result).2.object id = _
    rw [Heap.object, Heap.objects_place]
    exact Heap.object_setObject hledger nofun _

end SealedScript

/-
SealedScript/Machine/Methods.lean

Methods of values.  Lists and objects have methods, other values have none.  The
host's own object moves the clock (`advance`) and echoes values (`echo`); while
it answers a call it is busy.
-/
import SealedScript.Machine

namespace SealedScript

namespace Action

/-- Calls a method of a list. -/
def callList (id : ListId) (method : String) (args : List Value) : Action Value := fun m =>
  match m.heap.callList id method args with
  | .error e => (.failed e, m)
  | .ok (result, change) => (.done result, { m with heap := m.heap.modifyList id change })

/-- Calls a method of a ledger. -/
def callLedger (id : ObjectId) (ledger : Ledger) (method : String) (args : List Value) : Action Value := fun m =>
  match ledger.call method args with
  | .error e => (.failed e, m)
  | .ok response =>
    let (result, heap) := (m.heap.setObject id (.ledger response.object)).place response.result
    (.done result, { m with heap := heap, console := m.console.printLines response.lines })

/-- The milliseconds that the first argument asks for. -/
def milliseconds (args : List Value) : Nat := ((args.head?.bind Value.int?).getD 0).toInt.toNat

/-- Calls a method of the host's object. -/
def callHost (id : ObjectId) (method : String) (args : List Value) : Action Value := fun m =>
  if method = "advance" then (.done .nil, m.wait (milliseconds args * 1000000))
  else if method = "echo" then
    let lines := args.map (m.heap.textWhile (some id))
    let (result, heap) := m.heap.newList args.toArray
    (.done result, { m with heap := heap, console := m.console.printLines lines })
  else (.failed (.unknownMethod Object.host.typeName method), m)

/-- Calls a method of a value. -/
def callMethod (target : Value) (method : String) (args : List Value) : Action Value :=
  match target with
  | .list id => callList id method args
  | .object id => fun m =>
    match m.heap.object id with
    | .ledger ledger => callLedger id ledger method args m
    | .host => callHost id method args m
  | v => fail (.unknownMethod v.typeName method)

end Action

end SealedScript

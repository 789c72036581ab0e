/-
SealedScript/Ledger.lean

A ledger with one account.  It holds an address, a balance and the transactions
that were accepted.  A transaction is refused only if its amount exceeds the
balance.  Addresses and transactions are stamped with a 32-bit hash of text,
which protects nothing.

A call returns the ledger afterwards, the lines it reports and its result; a call
that fails reports nothing and changes nothing.
-/
import SealedScript.Value.Datum

namespace SealedScript

/-- An accepted transaction. -/
structure Transaction where
  id : String
  recipient : String
  amount : Float
  stamp : Int32
  deriving Repr

/-- A ledger with the accepted transactions in order. -/
structure Ledger where
  address : Option String := none
  balance : Float := 0.0
  history : List Transaction := []
  deriving Repr, Inhabited

/-- What a call on an object does: the object afterwards, the lines it reports
and the result. -/
structure Response (α : Type) where
  object : α
  lines : List String
  result : Datum

/-! ### Hashing -/

/-- The 16-bit units of a character: one, or two for a character beyond them. -/
def unitsOfChar (c : Char) : List UInt32 :=
  let n := c.val
  if n < 0x10000 then [n]
  else
    let high : UInt32 := (n - 0x10000) >>> 10
    let low : UInt32 := (n - 0x10000) &&& 0x3FF
    [0xD800 + high, 0xDC00 + low]

/-- The polynomial hash with base 31 over the units of a text, modulo 2^32. -/
def textHash (text : String) : UInt32 :=
  (text.toList.flatMap unitsOfChar).foldl (fun h unit => 31 * h + unit) 0

/-- Checks the number of arguments of a method. -/
def checkArity (method : String) (expected : Nat) (args : List Value) : Except RuntimeError Unit :=
  if args.length = expected then .ok () else .error (.arityMismatch method expected args.length)

namespace Ledger

/-- The name of the ledger's type in texts. -/
def typeName : String := "blockchain"

/-- A line of a report with its heading. -/
def heading (text : String) : String := "[blockchain] " ++ text

/-! ### Operations -/

/-- Sets address and balance. -/
def init (ledger : Ledger) (key : String) (amount : Float) : Response Ledger :=
  let address := String.ofList (Nat.toDigits 16 (textHash key).toNat)
  { object := { ledger with address := some address, balance := amount },
    lines := [heading "Initialized:", "    Address: " ++ address, "    Balance: " ++ floatText amount],
    result := .nil }

/-- The identifier of the transaction that comes after `count` others. -/
def transactionId (count : Nat) : String := "tx-" ++ String.ofList (zeroPadded 6 (count + 1))

/-- Moves an amount out of the account unless it exceeds the balance. -/
def transaction (ledger : Ledger) (recipient : String) (amount : Float) : Response Ledger :=
  if amount > ledger.balance then
    { object := ledger, lines := [heading "Transaction failed: insufficient funds."], result := .bool false }
  else
    let id := transactionId ledger.history.length
    let stamp := (textHash (ledger.address.getD "null" ++ recipient ++ floatText amount ++ id)).toInt32
    { object := { ledger with
        balance := ledger.balance - amount,
        history := ledger.history ++ [⟨id, recipient, amount, stamp⟩] },
      lines := [heading "Transaction successful!", s!"    hashCode: {stamp.toInt}", "    transactionID: " ++ id,
        "    amount: " ++ floatText amount, "    to Address: " ++ recipient],
      result := .bool true }

/-- Reports the balance. -/
def showBalance (ledger : Ledger) : Response Ledger :=
  { object := ledger,
    lines := [heading ("Current Balance: " ++ floatText ledger.balance)],
    result := .float ledger.balance }

/-- The lines that report one transaction, with its place in the history. -/
def transactionLines (entry : Transaction × Nat) : List String :=
  [s!"  Transaction {entry.2 + 1}:", "    To Address: " ++ entry.1.recipient,
   "    Amount: " ++ floatText entry.1.amount, "    Transaction ID: " ++ entry.1.id,
   s!"    Hash Code: {entry.1.stamp.toInt}"]

/-- Reports the history and yields the identifiers in it. -/
def showHistory (ledger : Ledger) : Response Ledger :=
  { object := ledger,
    lines :=
      if ledger.history.isEmpty then [heading "No transactions found."]
      else heading "Transaction History:" :: ledger.history.zipIdx.flatMap transactionLines,
    result := .list (ledger.history.map fun t => .text t.id) }

/-! ### Calls -/

/-- An argument that has to be a text. -/
def textArgument (method : String) : Value → Except RuntimeError String
  | .text s => .ok s
  | v => .error (.typeMismatch s!"{method} expects a string, got {v.typeName}")

/-- An argument that has to be a number. -/
def amountArgument (method : String) : Value → Except RuntimeError Float
  | .int n => .ok (Number.toFloat (.int n))
  | .float x => .ok x
  | v => .error (.typeMismatch s!"{method} expects a number, got {v.typeName}")

/-- The two arguments of a method that takes a text and an amount. -/
def textAndAmount (method : String) : List Value → Except RuntimeError (String × Float)
  | [text, amount] => do
    let text ← textArgument method text
    let amount ← amountArgument method amount
    return (text, amount)
  | args => .error (.arityMismatch method 2 args.length)

/-- Calls a method by its name. -/
def call (ledger : Ledger) (method : String) (args : List Value) : Except RuntimeError (Response Ledger) :=
  if method = "init" then do
    let (key, amount) ← textAndAmount method args
    return ledger.init key amount
  else if method = "transaction" then do
    let (recipient, amount) ← textAndAmount method args
    return ledger.transaction recipient amount
  else if method = "showCurrentBalance" then do
    checkArity method 0 args
    return ledger.showBalance
  else if method = "showTransactionHistory" then do
    checkArity method 0 args
    return ledger.showHistory
  else .error (.unknownMethod typeName method)

end Ledger

end SealedScript

/-
SealedScript/Program.lean

Programs as trees: statements over expressions.  A program is a list of
statements.  References to variables carry the mark that tells whether the
variable is to be kept encrypted; names of functions, parameters, methods, units
and libraries are kept as they are spelled.
-/
import SealedScript.Token

namespace SealedScript

/-- A reference to a variable, divided into its name and its mark. -/
structure VarRef where
  name : String
  encrypted : Bool
  deriving DecidableEq, Repr, Inhabited

/-- The reference that a word denotes. -/
def VarRef.ofLexeme (lexeme : String) : VarRef :=
  match dropFront? encryptedMark lexeme.toList with
  | some bare => ⟨String.ofList bare, true⟩
  | none => ⟨lexeme, false⟩

/-- Operators with two operands. -/
inductive BinaryOp where
  | add
  | sub
  | mul
  | div
  | rem
  | eq
  | ne
  | lt
  | le
  | gt
  | ge
  | and
  | or
  deriving DecidableEq, Repr

/-- How an operator is written. -/
def BinaryOp.symbol : BinaryOp → String
  | .add => "+"
  | .sub => "-"
  | .mul => "*"
  | .div => "/"
  | .rem => "%"
  | .eq => "=="
  | .ne => "!="
  | .lt => "<"
  | .le => "<="
  | .gt => ">"
  | .ge => ">="
  | .and => "&&"
  | .or => "||"

/-- Plain assignment and its compound forms. -/
inductive AssignOp where
  | set
  | add
  | sub
  | mul
  | div
  deriving DecidableEq, Repr

/-- The operator that a compound assignment applies to the old value. -/
def AssignOp.operator? : AssignOp → Option BinaryOp
  | .set => none
  | .add => some .add
  | .sub => some .sub
  | .mul => some .mul
  | .div => some .div

/-- Counting up or down by one. -/
inductive Step where
  | up
  | down
  deriving DecidableEq, Repr

/-- How a step is written. -/
def Step.symbol : Step → String
  | .up => "++"
  | .down => "--"

/-- Constants. -/
inductive Literal where
  | bool (b : Bool)
  | int (n : Int64)
  | float (x : Float)
  | text (s : String)
  deriving Repr, Inhabited

/-- Expressions.  A step yields the value from before it iff `yieldsOld`. -/
inductive Expr where
  | literal (value : Literal)
  | list (items : List Expr)
  | variable (target : VarRef)
  | assign (target : VarRef) (op : AssignOp) (value : Expr)
  | assignElement (target index : Expr) (op : AssignOp) (value : Expr)
  | element (target index : Expr)
  | binary (op : BinaryOp) (lhs rhs : Expr)
  | not (operand : Expr)
  | step (target : VarRef) (step : Step) (yieldsOld : Bool)
  | call (name : String) (args : List Expr)
  | method (target : Expr) (name : String) (args : List Expr)
  deriving Repr, Inhabited

/-- Statements. -/
inductive Stmt where
  | print (value : Expr)
  | conditional (condition : Expr) (yes : List Stmt) (no : Option (List Stmt))
  | forLoop (start condition step : Expr) (body : List Stmt)
  | whileLoop (condition : Expr) (body : List Stmt)
  | input (prompt : Expr) (target : VarRef)
  | function (name : String) (params : List String) (body : List Stmt)
  | giveBack (value : Option Expr)
  | useLibrary (name : String)
  | trigger (time : Expr) (unit : Option String) (times : Option Expr) (action : Stmt)
  | expression (value : Expr)
  deriving Repr, Inhabited

/-- A function as a program defines it. -/
structure FunctionDef where
  name : String
  params : List String
  body : List Stmt
  deriving Repr, Inhabited

end SealedScript

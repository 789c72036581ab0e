/-
SealedScript/Proofs/Program/Unmarked.lean

Programs without the marks on their variables, and the programs for which the
marks make no difference to what is computed: they print nothing, ask for
nothing and arm nothing, and no value of an assignment is used, since that value
is what was stored and so a ciphertext where the variable is encrypted.
-/
import SealedScript.Program

namespace SealedScript

/-! ### Taking the marks away -/

/-- The reference without its mark. -/
def VarRef.unmarked (r : VarRef) : VarRef := ⟨r.name, false⟩

mutual

/-- The expression without marks. -/
def Expr.unmarked : Expr → Expr
  | .literal value => .literal value
  | .list items => .list (unmarkedAll items)
  | .variable target => .variable target.unmarked
  | .assign target op value => .assign target.unmarked op value.unmarked
  | .assignElement target index op value => .assignElement target.unmarked index.unmarked op value.unmarked
  | .element target index => .element target.unmarked index.unmarked
  | .binary op lhs rhs => .binary op lhs.unmarked rhs.unmarked
  | .not operand => .not operand.unmarked
  | .step target direction yieldsOld => .step target.unmarked direction yieldsOld
  | .call name args => .call name (unmarkedAll args)
  | .method target name args => .method target.unmarked name (unmarkedAll args)

/-- Expressions without marks. -/
def Expr.unmarkedAll : List Expr → List Expr
  | [] => []
  | expr :: rest => expr.unmarked :: unmarkedAll rest

end

theorem Expr.length_unmarkedAll (exprs : List Expr) : (unmarkedAll exprs).length = exprs.length := by
  induction exprs with
  | nil => rfl
  | cons expr rest ih => rw [unmarkedAll, List.length_cons, List.length_cons, ih]

mutual

/-- The statement without marks. -/
def Stmt.unmarked : Stmt → Stmt
  | .print value => .print value.unmarked
  | .conditional condition yes none => .conditional condition.unmarked (unmarkedAll yes) none
  | .conditional condition yes (some no) =>
    .conditional condition.unmarked (unmarkedAll yes) (some (unmarkedAll no))
  | .forLoop start condition step body =>
    .forLoop start.unmarked condition.unmarked step.unmarked (unmarkedAll body)
  | .whileLoop condition body => .whileLoop condition.unmarked (unmarkedAll body)
  | .input prompt target => .input prompt.unmarked target.unmarked
  | .function name params body => .function name params (unmarkedAll body)
  | .giveBack value => .giveBack (value.map Expr.unmarked)
  | .useLibrary name => .useLibrary name
  | .trigger time unit times action => .trigger time.unmarked unit (times.map Expr.unmarked) action.unmarked
  | .expression value => .expression value.unmarked

/-- Statements without marks. -/
def Stmt.unmarkedAll : List Stmt → List Stmt
  | [] => []
  | stmt :: rest => stmt.unmarked :: unmarkedAll rest

end

/-- The function without the marks in its body. -/
def FunctionDef.unmarked (f : FunctionDef) : FunctionDef :=
  { f with body := Stmt.unmarkedAll f.body }

/-! ### Programs that compute -/

mutual

/-- Whether no variable is assigned to inside the expression.  Steps are no
assignments, and neither is an assignment to an element of a list. -/
def Expr.assignsNowhere : Expr → Bool
  | .literal _ => true
  | .list items => assignNowhere items
  | .variable _ => true
  | .assign .. => false
  | .assignElement target index _ value =>
    target.assignsNowhere && index.assignsNowhere && value.assignsNowhere
  | .element target index => target.assignsNowhere && index.assignsNowhere
  | .binary _ lhs rhs => lhs.assignsNowhere && rhs.assignsNowhere
  | .not operand => operand.assignsNowhere
  | .step .. => true
  | .call _ args => assignNowhere args
  | .method target _ args => target.assignsNowhere && assignNowhere args

/-- Whether no variable is assigned to inside any of the expressions. -/
def Expr.assignNowhere : List Expr → Bool
  | [] => true
  | expr :: rest => expr.assignsNowhere && assignNowhere rest

end

/-- Whether a variable is assigned to at most by the expression as a whole. -/
def Expr.isClause : Expr → Bool
  | .assign _ _ value => value.assignsNowhere
  | expr => expr.assignsNowhere

mutual

/-- Whether a statement only computes: variables are assigned to by expressions as
a whole, and nothing is printed, asked for, bound or armed. -/
def Stmt.computes : Stmt → Bool
  | .conditional condition yes none => condition.assignsNowhere && compute yes
  | .conditional condition yes (some no) => condition.assignsNowhere && compute yes && compute no
  | .forLoop start condition step body =>
    start.isClause && condition.assignsNowhere && step.isClause && compute body
  | .whileLoop condition body => condition.assignsNowhere && compute body
  | .function _ _ body => compute body
  | .giveBack none => true
  | .giveBack (some value) => value.assignsNowhere
  | .expression value => value.isClause
  | .print _ => false
  | .input .. => false
  | .useLibrary _ => false
  | .trigger .. => false

/-- Whether all statements only compute. -/
def Stmt.compute : List Stmt → Bool
  | [] => true
  | stmt :: rest => stmt.computes && compute rest

end

end SealedScript

/-
SealedScript/Proofs/Program/Rendering.lean

Writing programs as tokens.  Every expression has a strength, and every place
where an expression can stand asks for one: an expression that is weaker than its
place stands in parentheses, and no other one does.

    1       assignment
    2 … 7   `||`, `&&`, `==` and `!=`, comparisons, sums, products
    8       `!` and steps in front
    9       steps behind
    10      elements and methods
    11      constants, lists, variables, calls

Assignment groups to the right: the value of an assignment stands at strength 1.
Binary operators group to the left: the left operand stands at the strength of
the operator, the right one at the next.

A rendering also counts the levels it opens at once.  Every statement opens one,
and so does every place of strength 1 (the assignment level) and every place of
strength 8 (the unary level) that an expression goes through on its way down to
its own strength.
-/
import SealedScript.Number.FloatText
import SealedScript.Program

namespace SealedScript

/-! ### Rows of tokens with levels -/

/-- Tokens without the places where they stand, and how many levels are open at
once while they are read. -/
structure Rendering where
  tokens : List (TokenKind × String)
  levels : Nat
  deriving DecidableEq, Repr

namespace Rendering

/-- A single token. -/
def one (kind : TokenKind) (lexeme : String) : Rendering := ⟨[(kind, lexeme)], 0⟩

def symbol (s : Symbol) : Rendering := one (.symbol s) (String.ofList s.spelling)

def keyword (word : Keyword) : Rendering := one (.keyword word) word.spelling

def name (lexeme : String) : Rendering := one .name lexeme

/-- One rendering behind another.  Levels that the first one opens are closed when
the second one begins. -/
protected def append (r s : Rendering) : Rendering := ⟨r.tokens ++ s.tokens, max r.levels s.levels⟩

instance : Append Rendering := ⟨Rendering.append⟩

/-- Renderings behind one another. -/
def row : List Rendering → Rendering
  | [] => ⟨[], 0⟩
  | r :: rs => r ++ row rs

/-- Renderings with commas between them. -/
def commas : List Rendering → Rendering
  | [] => row []
  | [r] => r
  | r :: rs => r ++ (symbol .comma ++ commas rs)

/-- Renderings with commas between them, and a symbol that closes them. -/
def listed (rs : List Rendering) (close : Symbol) : Rendering := row [commas rs, symbol close]

/-- A rendering inside a level of its own. -/
def opened (r : Rendering) : Rendering := ⟨r.tokens, r.levels + 1⟩

def parenthesised (r : Rendering) : Rendering := row [symbol .openParen, r, symbol .closeParen]

/-- An index in brackets behind a list. -/
def indexed (list index : Rendering) : Rendering :=
  row [list, symbol .openBracket, index, symbol .closeBracket]

def braced (rs : List Rendering) : Rendering := row [symbol .openBrace, row rs, symbol .closeBrace]

/-- An expression of the given strength inside the levels between a place, at
which it is not too weak, and that strength. -/
def entered (place strength : Nat) (r : Rendering) : Rendering :=
  let signed := if place ≤ 8 ∧ 8 ≤ strength then r.opened else r
  if place ≤ 1 then signed.opened else signed

/-- Between two places no level is opened, unless the first is one that opens a
level. -/
theorem entered_succ {place strength : Nat} (hone : 1 < place) (height : place ≠ 8) (r : Rendering) :
    entered place strength r = entered (place + 1) strength r := by
  have hsigned : (place ≤ 8 ∧ 8 ≤ strength) ↔ (place + 1 ≤ 8 ∧ 8 ≤ strength) := by omega
  simp only [entered, hsigned, Nat.not_le.2 hone, Nat.not_le.2 (Nat.lt_succ_of_lt hone), if_false]

theorem entered_one (strength : Nat) (r : Rendering) :
    entered 1 strength r = (entered 2 strength r).opened := by
  have hsigned : (1 ≤ 8 ∧ 8 ≤ strength) ↔ (2 ≤ 8 ∧ 8 ≤ strength) := by omega
  simp only [entered, hsigned, Nat.le_refl, if_true, (by decide : ¬2 ≤ 1), if_false]

theorem entered_eight {strength : Nat} (h : 8 ≤ strength) (r : Rendering) : entered 8 strength r = r.opened :=
  if_pos ⟨Nat.le_refl 8, h⟩

theorem entered_of_gt {place : Nat} (h : 8 < place) (strength : Nat) (r : Rendering) :
    entered place strength r = r := by
  have hsigned : ¬(place ≤ 8 ∧ 8 ≤ strength) := by omega
  have hone : ¬place ≤ 1 := by omega
  rw [entered, if_neg hsigned, if_neg hone]

/-- At its own place an expression enters no level, unless the place opens one. -/
theorem entered_self {place : Nat} (hone : 1 < place) (height : place ≠ 8) (r : Rendering) :
    entered place place r = r := by
  have hsigned : ¬(place ≤ 8 ∧ 8 ≤ place) := by omega
  rw [entered, if_neg hsigned, if_neg (Nat.not_le.2 hone)]

/-- An expression of the given strength at a place. -/
def placed (place strength : Nat) (r : Rendering) : Rendering :=
  if strength < place then entered place 11 (parenthesised (entered 1 strength r))
  else entered place strength r

end Rendering

open Rendering

/-! ### Operators -/

/-- The strength of an operator. -/
def BinaryOp.strength : BinaryOp → Nat
  | .or => 2
  | .and => 3
  | .eq | .ne => 4
  | .lt | .le | .gt | .ge => 5
  | .add | .sub => 6
  | .mul | .div | .rem => 7

/-- The token of an operator. -/
def BinaryOp.token : BinaryOp → Symbol
  | .or => .or
  | .and => .and
  | .eq => .equal
  | .ne => .notEqual
  | .lt => .less
  | .le => .lessEqual
  | .gt => .greater
  | .ge => .greaterEqual
  | .add => .plus
  | .sub => .minus
  | .mul => .star
  | .div => .slash
  | .rem => .percent

/-- The token of a form of assignment. -/
def AssignOp.token : AssignOp → Symbol
  | .set => .assign
  | .add => .plusAssign
  | .sub => .minusAssign
  | .mul => .starAssign
  | .div => .slashAssign

/-- The token of a step. -/
def Step.token : Step → Symbol
  | .up => .plusPlus
  | .down => .minusMinus

/-! ### Expressions -/

/-- The word for a reference: its name, behind the mark if it has one. -/
def VarRef.lexeme (r : VarRef) : String :=
  if r.encrypted then String.ofList (encryptedMark ++ r.name.toList) else r.name

/-- How strongly the parts of an expression are held together. -/
def Expr.strength : Expr → Nat
  | .assign .. | .assignElement .. => 1
  | .binary op .. => op.strength
  | .not _ | .step _ _ false => 8
  | .step _ _ true => 9
  | .element .. | .method .. => 10
  | .literal _ | .list _ | .variable _ | .call .. => 11

/-- The token of a constant, with the given spelling of floating point numbers. -/
def Literal.render (spell : Float → String) : Literal → Rendering
  | .bool true => keyword .trueWord
  | .bool false => keyword .falseWord
  | .int n => one .number (toString n.toInt)
  | .float x => one .number (spell x)
  | .text s => one .text s

mutual

/-- The tokens of an expression, apart from the parentheses it may need. -/
def Expr.render (spell : Float → String) : Expr → Rendering
  | .literal value => value.render spell
  | .list items => row [symbol .openBracket, listed (renderItems spell items) .closeBracket]
  | .variable target => name target.lexeme
  | .assign target op value =>
    row [placed 2 11 (name target.lexeme), symbol op.token, placed 1 value.strength (value.render spell)]
  | .assignElement target index op value =>
    row [placed 2 10 (indexed (placed 10 target.strength (target.render spell))
           (placed 1 index.strength (index.render spell))),
         symbol op.token, placed 1 value.strength (value.render spell)]
  | .element target index =>
    indexed (placed 10 target.strength (target.render spell))
      (placed 1 index.strength (index.render spell))
  | .binary op lhs rhs =>
    row [placed op.strength lhs.strength (lhs.render spell), symbol op.token,
         placed (op.strength + 1) rhs.strength (rhs.render spell)]
  | .not operand => row [symbol .bang, placed 8 operand.strength (operand.render spell)]
  | .step target direction false => row [symbol direction.token, placed 8 11 (name target.lexeme)]
  | .step target direction true => row [name target.lexeme, symbol direction.token]
  | .call f args => row [name f, symbol .openParen, listed (renderItems spell args) .closeParen]
  | .method target f args =>
    row [placed 10 target.strength (target.render spell), symbol .dot, name f, symbol .openParen,
         listed (renderItems spell args) .closeParen]

/-- The tokens of the items of a list, each of which may be an assignment. -/
def Expr.renderItems (spell : Float → String) : List Expr → List Rendering
  | [] => []
  | item :: rest => placed 1 item.strength (item.render spell) :: renderItems spell rest

end

/-- The tokens of an expression at a place. -/
abbrev Expr.renderAt (spell : Float → String) (place : Nat) (e : Expr) : Rendering :=
  placed place e.strength (e.render spell)

/-- The tokens of an expression that may be an assignment. -/
abbrev Expr.renderWhole (spell : Float → String) (e : Expr) : Rendering := e.renderAt spell 1

/-! ### Statements -/

mutual

/-- The tokens of a statement.  The other branch of a conditional always stands in
braces. -/
def Stmt.render (spell : Float → String) : Stmt → Rendering
  | .print value => opened (row [keyword .print, symbol .arrow, value.renderWhole spell, symbol .semicolon])
  | .conditional condition yes none =>
    opened (row [keyword .ifWord, symbol .openParen, condition.renderWhole spell, symbol .closeParen,
                 braced (renderAll spell yes)])
  | .conditional condition yes (some no) =>
    opened (row [keyword .ifWord, symbol .openParen, condition.renderWhole spell, symbol .closeParen,
                 braced (renderAll spell yes), keyword .elseWord, braced (renderAll spell no)])
  | .forLoop start condition step body =>
    opened (row [keyword .forWord, symbol .openParen, start.renderWhole spell, symbol .semicolon,
                 condition.renderWhole spell, symbol .semicolon, step.renderWhole spell, symbol .closeParen,
                 braced (renderAll spell body)])
  | .whileLoop condition body =>
    opened (row [keyword .whileWord, symbol .openParen, condition.renderWhole spell, symbol .closeParen,
                 braced (renderAll spell body)])
  | .input prompt target =>
    opened (row [keyword .input, symbol .arrow, prompt.renderWhole spell, symbol .arrow,
                 (Expr.variable target).renderWhole spell, symbol .semicolon])
  | .function f params body =>
    opened (row [keyword .function, name f, symbol .openParen, listed (params.map name) .closeParen,
                 braced (renderAll spell body), symbol .semicolon])
  | .giveBack none => opened (row [keyword .returnWord, symbol .semicolon])
  | .giveBack (some value) =>
    opened (row [keyword .returnWord, value.renderWhole spell, symbol .semicolon])
  | .useLibrary library => opened (row [keyword .use, one .text library, symbol .semicolon])
  | .trigger time unit times action =>
    opened (row [one .trigger (String.ofList triggerMark), symbol .openParen, time.renderWhole spell,
                 row (unit.toList.map name),
                 row (times.toList.map fun n => row [symbol .comma, n.renderWhole spell]),
                 symbol .closeParen, symbol .arrow, action.render spell])
  | .expression value => opened (row [value.renderWhole spell, symbol .semicolon])

/-- The tokens of each statement of a list. -/
def Stmt.renderAll (spell : Float → String) : List Stmt → List Rendering
  | [] => []
  | stmt :: rest => stmt.render spell :: renderAll spell rest

end

/-- The tokens of a program. -/
def renderProgram (spell : Float → String) (program : List Stmt) : Rendering :=
  row (Stmt.renderAll spell program)

/-! ### What can be written -/

/-- Whether a reference can be written: a name that is not marked does not begin with
the mark. -/
def VarRef.writable (r : VarRef) : Bool := r.encrypted || (dropFront? encryptedMark r.name.toList).isNone

theorem dropFront?_append (front rest : List Char) : dropFront? front (front ++ rest) = some rest := by
  induction front with
  | nil => rfl
  | cons c front ih => rw [List.cons_append, dropFront?, if_pos rfl, ih]

/-- A reference is what its word denotes. -/
theorem VarRef.ofLexeme_lexeme {r : VarRef} (h : r.writable = true) : VarRef.ofLexeme r.lexeme = r := by
  obtain ⟨name, encrypted⟩ := r
  cases encrypted with
  | true =>
    simp only [lexeme, ofLexeme, if_true, String.toList_ofList, dropFront?_append, String.ofList_toList]
  | false =>
    have hplain : dropFront? encryptedMark name.toList = none := by
      rwa [writable, Bool.false_or, Option.isNone_iff_eq_none] at h
    simp only [lexeme, ofLexeme, Bool.false_eq_true, if_false, hplain]

/-- Whether a constant can be written: whole numbers have no sign, and a floating
point number is spelled with a point and read back from its spelling. -/
def Literal.writable (spell : Float → String) : Literal → Bool
  | .bool _ => true
  | .int n => 0 ≤ n.toInt
  | .float x => (spell x).toList.contains '.' && decide (readFloat? (spell x).toList = some x)
  | .text _ => true

mutual

/-- Whether the references and constants of an expression can be written. -/
def Expr.writable (spell : Float → String) : Expr → Bool
  | .literal value => value.writable spell
  | .list items => allWritable spell items
  | .variable target => target.writable
  | .assign target _ value => target.writable && value.writable spell
  | .assignElement target index _ value =>
    target.writable spell && index.writable spell && value.writable spell
  | .element target index => target.writable spell && index.writable spell
  | .binary _ lhs rhs => lhs.writable spell && rhs.writable spell
  | .not operand => operand.writable spell
  | .step target _ _ => target.writable
  | .call _ args => allWritable spell args
  | .method target _ args => target.writable spell && allWritable spell args

/-- Whether all expressions can be written. -/
def Expr.allWritable (spell : Float → String) : List Expr → Bool
  | [] => true
  | e :: rest => e.writable spell && allWritable spell rest

end

mutual

/-- Whether the expressions and references of a statement can be written. -/
def Stmt.writable (spell : Float → String) : Stmt → Bool
  | .print value => value.writable spell
  | .conditional condition yes none => condition.writable spell && allWritable spell yes
  | .conditional condition yes (some no) =>
    condition.writable spell && allWritable spell yes && allWritable spell no
  | .forLoop start condition step body =>
    start.writable spell && condition.writable spell && step.writable spell && allWritable spell body
  | .whileLoop condition body => condition.writable spell && allWritable spell body
  | .input prompt target => prompt.writable spell && target.writable
  | .function _ _ body => allWritable spell body
  | .giveBack value => value.all (Expr.writable spell)
  | .useLibrary _ => true
  | .trigger time _ times action =>
    time.writable spell && times.all (Expr.writable spell) && action.writable spell
  | .expression value => value.writable spell

/-- Whether all statements can be written. -/
def Stmt.allWritable (spell : Float → String) : List Stmt → Bool
  | [] => true
  | stmt :: rest => stmt.writable spell && allWritable spell rest

end

end SealedScript

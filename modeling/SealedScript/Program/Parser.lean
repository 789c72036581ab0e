/-
SealedScript/Program/Parser.lean

From tokens to programs, with one token of lookahead and no way back.  Binary
operators bind in six strengths and group to the left; assignment binds weakest
and groups to the right; signs, `!` and steps in front bind stronger than any
binary operator, steps behind stronger still, and elements and methods strongest.

Statements, assignments and signed operands nest, and each of them takes one of
a fixed number of levels; the parsers for them are defined by recursion on the
levels that are left.  Loops over tokens are bounded by the number of tokens, of
which every turn takes at least one.
-/
import SealedScript.Number.FloatText
import SealedScript.Program
import SealedScript.Token.Lexer

namespace SealedScript

/-- Why a row of tokens is no program. -/
inductive ParseError where
  | unexpected (position : Position) (expected found : String)
  | invalidTarget (position : Position)
  | invalidNumber (position : Position) (lexeme : String)
  | tooDeep (position : Position) (levels : Nat)
  deriving DecidableEq, Repr

namespace ParseError

/-- The place of the token at fault. -/
def position : ParseError → Position
  | .unexpected p _ _ => p
  | .invalidTarget p => p
  | .invalidNumber p _ => p
  | .tooDeep p _ => p

/-- What is wrong there. -/
def fault : ParseError → String
  | .unexpected _ expected found => s!"expected {expected}, found {found}"
  | .invalidTarget _ => "invalid assignment target"
  | .invalidNumber _ lexeme => "invalid number literal '" ++ lexeme ++ "'"
  | .tooDeep _ levels => s!"nesting exceeds maximum of {levels} levels"

/-- What an error says. -/
def message (e : ParseError) : String := s!"parse error at {e.position.text}: {e.fault}"

end ParseError

/-- What stays the same while a row of tokens is read: the token behind the row,
which ends the program, and how many turns a loop over the row can take. -/
structure ParserContext where
  stop : Token
  turns : Nat

/-- A parser takes tokens from the front of the row.  The token behind the row is
never taken. -/
abbrev Parser (α : Type) : Type := ReaderT ParserContext (StateT (List Token) (Except ParseError)) α

namespace Parser

/-! ### Single tokens -/

/-- The next token. -/
def peek : Parser Token := do
  return (← get).headD (← read).stop

/-- What the next token is. -/
def peekKind : Parser TokenKind := do
  return (← peek).kind

/-- Takes the next token. -/
def advance : Parser Token := do
  let t ← peek
  modify List.tail
  return t

/-- Takes the next token if it is of this kind. -/
def eat (kind : TokenKind) : Parser Bool := do
  if (← peekKind) = kind then
    let _ ← advance
    return true
  else return false

/-- Fails at the next token. -/
def unexpected {α : Type} (expected : String) : Parser α := do
  let t ← peek
  throw (.unexpected t.position expected t.shown)

/-- Takes the next token, which has to be of this kind. -/
def expect (kind : TokenKind) (expected : String) : Parser Token := do
  if (← peekKind) = kind then advance else unexpected expected

/-- Takes a symbol. -/
def expectSymbol (symbol : Symbol) (expected : String) : Parser Unit := do
  let _ ← expect (.symbol symbol) expected

/-- How many turns a loop over the tokens can take. -/
def turns : Parser Nat := do
  return (← read).turns

/-! ### Rows of items -/

/-- Items up to a token at which `ends` holds. -/
def many {α : Type} (ends : TokenKind → Bool) (item : Parser α) : Nat → Parser (List α)
  | 0 => return []
  | bound + 1 => do
    if ends (← peekKind) then return []
    let x ← item
    return x :: (← many ends item bound)

/-- One or more items with commas between them. -/
def separated {α : Type} (item : Parser α) : Nat → Parser (List α)
  | 0 => return []
  | bound + 1 => do
    let x ← item
    if ← eat (.symbol .comma) then return x :: (← separated item bound) else return [x]

/-- Items with commas between them up to a closing symbol. -/
def enclosed {α : Type} (item : Parser α) (close : Symbol) (expected : String) : Parser (List α) := do
  if ← eat (.symbol close) then return []
  let items ← separated item (← turns)
  expectSymbol close expected
  return items

/-! ### Expressions -/

/-- The operators of each strength, the weakest first. -/
def precedence : List (List (Symbol × BinaryOp)) :=
  [[(.or, .or)],
   [(.and, .and)],
   [(.equal, .eq), (.notEqual, .ne)],
   [(.less, .lt), (.lessEqual, .le), (.greater, .gt), (.greaterEqual, .ge)],
   [(.plus, .add), (.minus, .sub)],
   [(.star, .mul), (.slash, .div), (.percent, .rem)]]

/-- The operator of a table that a token denotes. -/
def operator? {α : Type} (table : List (Symbol × α)) : TokenKind → Option α
  | .symbol s => table.lookup s
  | _ => none

/-- Operators of one strength and their right operands, grouped to the left of
`lhs`. -/
def chain (table : List (Symbol × BinaryOp)) (operand : Parser Expr) : Nat → Expr → Parser Expr
  | 0, lhs => return lhs
  | bound + 1, lhs => do
    match operator? table (← peekKind) with
    | none => return lhs
    | some op =>
      let _ ← advance
      let rhs ← operand
      chain table operand bound (.binary op lhs rhs)

/-- Operands with operators of the given strengths between them. -/
def binary (operand : Parser Expr) : List (List (Symbol × BinaryOp)) → Parser Expr
  | [] => operand
  | table :: tighter => do
    let first ← binary operand tighter
    chain table (binary operand tighter) (← turns) first

/-- The forms of assignment. -/
def assignments : List (Symbol × AssignOp) :=
  [(.assign, .set), (.plusAssign, .add), (.minusAssign, .sub), (.starAssign, .mul), (.slashAssign, .div)]

/-- The two steps. -/
def steps : List (Symbol × Step) := [(.plusPlus, .up), (.minusMinus, .down)]

/-- The constant that a number denotes: with a point in it a floating point
number, without one a whole number. -/
def number (t : Token) : Parser Literal :=
  let digits := t.lexeme.toList
  let value := if digits.contains '.' then (readFloat? digits).map Literal.float
    else (readInt64? digits).map Literal.int
  match value with
  | some value => return value
  | none => throw (.invalidNumber t.position t.lexeme)

/-- A constant, a name, a call, a list or an expression in parentheses. -/
def primary (expression : Parser Expr) : Parser Expr := do
  match ← peekKind with
  | .number => return .literal (← number (← advance))
  | .text => return .literal (.text (← advance).lexeme)
  | .keyword .trueWord =>
    let _ ← advance
    return .literal (.bool true)
  | .keyword .falseWord =>
    let _ ← advance
    return .literal (.bool false)
  | .name =>
    let name := (← advance).lexeme
    if ← eat (.symbol .openParen) then
      return .call name (← enclosed expression .closeParen "')' after arguments")
    else return .variable (.ofLexeme name)
  | .symbol .openParen =>
    let _ ← advance
    let inner ← expression
    expectSymbol .closeParen "')'"
    return inner
  | .symbol .openBracket =>
    let _ ← advance
    return .list (← enclosed expression .closeBracket "']' after list elements")
  | _ => unexpected "expression"

/-- Elements and methods of `target`, as many as follow. -/
def selections (expression : Parser Expr) : Nat → Expr → Parser Expr
  | 0, target => return target
  | bound + 1, target => do
    if ← eat (.symbol .openBracket) then
      let index ← expression
      expectSymbol .closeBracket "']' after index"
      selections expression bound (.element target index)
    else if ← eat (.symbol .dot) then
      let name := (← expect .name "method name after '.'").lexeme
      expectSymbol .openParen "'(' after method name"
      let args ← enclosed expression .closeParen "')' after arguments"
      selections expression bound (.method target name args)
    else return target

/-- Steps behind `target`, which has to be a variable. -/
def stepsBehind : Nat → Expr → Parser Expr
  | 0, target => return target
  | bound + 1, target => do
    match operator? steps (← peekKind) with
    | none => return target
    | some step =>
      let op ← advance
      match target with
      | .variable v => stepsBehind bound (.step v step true)
      | _ => throw (.invalidTarget op.position)

/-- An operand without signs in front. -/
def operand (expression : Parser Expr) : Parser Expr := do
  let first ← primary expression
  let selected ← selections expression (← turns) first
  stepsBehind (← turns) selected

/-- How many levels of statements and expressions may be open at once. -/
def maxNesting : Nat := 256

/-- Fails because no level is left. -/
def tooDeep {α : Type} : Parser α := do
  let t ← peek
  throw (.tooDeep t.position maxNesting)

mutual

/-- An expression, with this many levels left. -/
def expression : Nat → Parser Expr
  | 0 => tooDeep
  | level + 1 => do
    let lhs ← binary (signed level) precedence
    match operator? assignments (← peekKind) with
    | none => return lhs
    | some op =>
      let opToken ← advance
      let value ← expression level
      match lhs with
      | .variable target => return .assign target op value
      | .element target index => return .assignElement target index op value
      | _ => throw (.invalidTarget opToken.position)

/-- An operand with signs and steps in front, with this many levels left.  A
minus sign subtracts from zero. -/
def signed : Nat → Parser Expr
  | 0 => tooDeep
  | level + 1 => do
    match ← peekKind with
    | .symbol .bang =>
      let _ ← advance
      return .not (← signed level)
    | .symbol .minus =>
      let _ ← advance
      return .binary .sub (.literal (.int 0)) (← signed level)
    | kind =>
      match operator? steps kind with
      | none => operand (expression level)
      | some step =>
        let op ← advance
        match ← signed level with
        | .variable target => return .step target step false
        | _ => throw (.invalidTarget op.position)

end

/-! ### Statements -/

/-- Statements in braces. -/
def block (statement : Parser Stmt) : Parser (List Stmt) := do
  expectSymbol .openBrace "'\x7b'"
  let body ← many (fun kind => kind = .symbol .closeBrace || kind = .stop) statement (← turns)
  expectSymbol .closeBrace "'\x7d'"
  return body

/-- The rest of a conditional, whose first word has been taken.  A conditional
in the place of the other branch opens no level of its own. -/
def conditional (expression : Parser Expr) (statement : Parser Stmt) : Nat → Parser Stmt
  | 0 => unexpected "'(' after 'if'"
  | bound + 1 => do
    expectSymbol .openParen "'(' after 'if'"
    let condition ← expression
    expectSymbol .closeParen "')' after if condition"
    let yes ← block statement
    if ← eat (.keyword .elseWord) then
      if ← eat (.keyword .ifWord) then
        return .conditional condition yes (some [← conditional expression statement bound])
      else return .conditional condition yes (some (← block statement))
    else return .conditional condition yes none

/-- The rest of a counting loop. -/
def forLoop (expression : Parser Expr) (statement : Parser Stmt) : Parser Stmt := do
  expectSymbol .openParen "'(' after 'for'"
  let start ← expression
  expectSymbol .semicolon "';' after for initialization"
  let condition ← expression
  expectSymbol .semicolon "';' after for condition"
  let step ← expression
  expectSymbol .closeParen "')' after for clauses"
  return .forLoop start condition step (← block statement)

/-- The rest of a conditional loop. -/
def whileLoop (expression : Parser Expr) (statement : Parser Stmt) : Parser Stmt := do
  expectSymbol .openParen "'(' after 'while'"
  let condition ← expression
  expectSymbol .closeParen "')' after while condition"
  return .whileLoop condition (← block statement)

/-- The rest of a function definition. -/
def function (statement : Parser Stmt) : Parser Stmt := do
  let name := (← expect .name "function name").lexeme
  expectSymbol .openParen "'(' after function name"
  let param : Parser String := do return (← expect .name "parameter name").lexeme
  let params ← enclosed param .closeParen "')' after parameters"
  let body ← block statement
  expectSymbol .semicolon "';' after function definition"
  return .function name params body

/-- The rest of a statement that reads a line. -/
def input (expression : Parser Expr) : Parser Stmt := do
  expectSymbol .arrow "'->' after 'input'"
  let prompt ← expression
  expectSymbol .arrow "'->' before input target"
  let place := (← peek).position
  match ← expression with
  | .variable target =>
    expectSymbol .semicolon "';' after input statement"
    return .input prompt target
  | _ => throw (.invalidTarget place)

/-- The rest of a statement that arms a timer. -/
def trigger (expression : Parser Expr) (statement : Parser Stmt) : Parser Stmt := do
  expectSymbol .openParen "'(' after event trigger"
  let time ← expression
  let unit ← if (← peekKind) = .name then some <$> (Token.lexeme <$> advance) else pure none
  let times ← if ← eat (.symbol .comma) then some <$> expression else pure none
  expectSymbol .closeParen "')' after event trigger arguments"
  expectSymbol .arrow "'->' before event trigger action"
  return .trigger time unit times (← statement)

/-- The rest of a return statement. -/
def giveBack (expression : Parser Expr) : Parser Stmt := do
  let value ← if (← peekKind) = .symbol .semicolon then pure none else some <$> expression
  expectSymbol .semicolon "';' after return"
  return .giveBack value

/-- The rest of a print statement. -/
def print (expression : Parser Expr) : Parser Stmt := do
  expectSymbol .arrow "'->' after 'print'"
  let value ← expression
  expectSymbol .semicolon "';' after print statement"
  return .print value

/-- The rest of a statement that binds a library. -/
def useLibrary : Parser Stmt := do
  let kind ← peekKind
  if kind = .name || kind = .text then
    let name := (← advance).lexeme
    expectSymbol .semicolon "';' after use statement"
    return .useLibrary name
  else unexpected "library name after 'use'"

/-- A statement, with this many levels left. -/
def statement : Nat → Parser Stmt
  | 0 => tooDeep
  | level + 1 => do
    match ← peekKind with
    | .keyword .function => let _ ← advance; function (statement level)
    | .keyword .returnWord => let _ ← advance; giveBack (expression level)
    | .keyword .forWord => let _ ← advance; forLoop (expression level) (statement level)
    | .keyword .whileWord => let _ ← advance; whileLoop (expression level) (statement level)
    | .keyword .ifWord =>
      let _ ← advance
      conditional (expression level) (statement level) (← turns)
    | .keyword .print => let _ ← advance; print (expression level)
    | .keyword .input => let _ ← advance; input (expression level)
    | .keyword .use => let _ ← advance; useLibrary
    | .trigger => let _ ← advance; trigger (expression level) (statement level)
    | _ =>
      let value ← expression level
      expectSymbol .semicolon "';' after expression"
      return .expression value

/-- Statements up to the end. -/
def program : Parser (List Stmt) := do
  many (fun kind => kind = .stop) (statement maxNesting) (← turns)

end Parser

/-- The token that ends a row of tokens: the first of its kind, or one at the
place of the last token if the row has none. -/
def stopToken (tokens : List Token) : Token :=
  match tokens.find? fun t => t.kind = .stop with
  | some t => t
  | none => Token.stopAt (tokens.getLast?.elim Position.start Token.position)

/-- The program that a row of tokens spells.  Nothing behind the end counts. -/
def parseTokens (tokens : List Token) : Except ParseError (List Stmt) :=
  let body := tokens.takeWhile fun t => t.kind ≠ .stop
  (fun result => result.1) <$> (Parser.program ⟨stopToken tokens, body.length + 1⟩).run body

/-- Why a text is no program. -/
inductive SourceError where
  | lex (error : LexError)
  | parse (error : ParseError)
  deriving DecidableEq, Repr

/-- What an error says. -/
def SourceError.message : SourceError → String
  | .lex error => error.message
  | .parse error => error.message

/-- The place that an error names. -/
def SourceError.position : SourceError → Position
  | .lex error => error.position
  | .parse error => error.position

/-- The program that a text spells. -/
def parseProgram (source : String) : Except SourceError (List Stmt) := do
  let tokens ← (tokenize source).mapError .lex
  (parseTokens tokens).mapError .parse

end SealedScript

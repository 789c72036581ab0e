/-
SealedScript/Token.lean

Tokens: the words, literals and symbols of a program, each with the place where
it stands.  A word may carry a mark in front: `@ENC` marks a variable that is
kept encrypted, and `@EVENT_TRIGGER` opens a statement that arms a timer.  The
mark is part of the token's text.
-/

namespace SealedScript

/-- A place in a program, both counts from one. -/
structure Position where
  line : Nat
  column : Nat
  deriving DecidableEq, Repr, Inhabited

namespace Position

/-- The place where every program begins. -/
def start : Position := ⟨1, 1⟩

/-- The place behind a character that stands at `p`. -/
def next (p : Position) (c : Char) : Position :=
  if c = '\n' then ⟨p.line + 1, 1⟩ else ⟨p.line, p.column + 1⟩

/-- The place behind a text that begins at `p`. -/
def after (p : Position) (text : List Char) : Position := text.foldl next p

/-- How diagnostics write a place. -/
def text (p : Position) : String := s!"{p.line}:{p.column}"

end Position

/-- The reserved words. -/
inductive Keyword where
  | print
  | ifWord
  | elseWord
  | forWord
  | toWord
  | input
  | whileWord
  | function
  | returnWord
  | trueWord
  | falseWord
  | use
  deriving DecidableEq, Repr

/-- The spelling of a reserved word. -/
def Keyword.spelling : Keyword → String
  | .print => "print"
  | .ifWord => "if"
  | .elseWord => "else"
  | .forWord => "for"
  | .toWord => "to"
  | .input => "input"
  | .whileWord => "while"
  | .function => "function"
  | .returnWord => "return"
  | .trueWord => "true"
  | .falseWord => "false"
  | .use => "use"

/-- Every reserved word. -/
def Keyword.all : List Keyword :=
  [.print, .ifWord, .elseWord, .forWord, .toWord, .input, .whileWord, .function, .returnWord, .trueWord,
   .falseWord, .use]

/-- The reserved word with this spelling. -/
def Keyword.ofSpelling? (word : List Char) : Option Keyword :=
  Keyword.all.find? fun k => k.spelling.toList == word

/-- Operators and punctuation. -/
inductive Symbol where
  | plusPlus
  | plusAssign
  | plus
  | minusMinus
  | minusAssign
  | arrow
  | minus
  | starAssign
  | star
  | slashAssign
  | slash
  | percent
  | equal
  | assign
  | notEqual
  | bang
  | lessEqual
  | less
  | greaterEqual
  | greater
  | and
  | or
  | dot
  | comma
  | semicolon
  | openParen
  | closeParen
  | openBrace
  | closeBrace
  | openBracket
  | closeBracket
  deriving DecidableEq, Repr

/-- The spelling of a symbol. -/
def Symbol.spelling : Symbol → List Char
  | .plusPlus => ['+', '+']
  | .plusAssign => ['+', '=']
  | .plus => ['+']
  | .minusMinus => ['-', '-']
  | .minusAssign => ['-', '=']
  | .arrow => ['-', '>']
  | .minus => ['-']
  | .starAssign => ['*', '=']
  | .star => ['*']
  | .slashAssign => ['/', '=']
  | .slash => ['/']
  | .percent => ['%']
  | .equal => ['=', '=']
  | .assign => ['=']
  | .notEqual => ['!', '=']
  | .bang => ['!']
  | .lessEqual => ['<', '=']
  | .less => ['<']
  | .greaterEqual => ['>', '=']
  | .greater => ['>']
  | .and => ['&', '&']
  | .or => ['|', '|']
  | .dot => ['.']
  | .comma => [',']
  | .semicolon => [';']
  | .openParen => ['(']
  | .closeParen => [')']
  | .openBrace => ['\x7b']
  | .closeBrace => ['\x7d']
  | .openBracket => ['[']
  | .closeBracket => [']']

/-- Every symbol, the longer one before a shorter one that begins alike. -/
def Symbol.all : List Symbol :=
  [.plusPlus, .plusAssign, .plus, .minusMinus, .minusAssign, .arrow, .minus, .starAssign, .star,
   .slashAssign, .slash, .percent, .equal, .assign, .notEqual, .bang, .lessEqual, .less, .greaterEqual,
   .greater, .and, .or, .dot, .comma, .semicolon, .openParen, .closeParen, .openBrace, .closeBrace,
   .openBracket, .closeBracket]

/-- What a token is. -/
inductive TokenKind where
  | number
  | text
  | name
  | keyword (word : Keyword)
  | trigger
  | symbol (symbol : Symbol)
  | stop
  deriving DecidableEq, Repr

/-- A token: what it is, its text and where it stands.  The text of a quoted
literal is what the literal denotes, and the token that ends a program has none. -/
structure Token where
  kind : TokenKind
  lexeme : String
  position : Position
  deriving DecidableEq, Repr

namespace Token

/-- The token that ends a program. -/
def stopAt (position : Position) : Token := ⟨.stop, "", position⟩

/-- How diagnostics show a token. -/
def shown (t : Token) : String :=
  match t.kind with
  | .stop => "end of input"
  | .text => "\"" ++ t.lexeme ++ "\""
  | _ => "'" ++ t.lexeme ++ "'"

end Token

/-- The mark of a variable that is kept encrypted. -/
def encryptedMark : List Char := ['@', 'E', 'N', 'C']

/-- The mark that opens a timer statement. -/
def triggerMark : List Char := "@EVENT_TRIGGER".toList

/-- The rest of `text` behind `front`, if `text` begins with `front`. -/
def dropFront? : List Char → List Char → Option (List Char)
  | [], text => some text
  | _ :: _, [] => none
  | f :: front, c :: text => if f = c then dropFront? front text else none

end SealedScript

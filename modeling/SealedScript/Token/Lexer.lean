/-
SealedScript/Token/Lexer.lean

From text to tokens.  Between tokens stand gaps: blanks, and comments from `//`
to the end of the line.  A token is the longest text at its place that is a
number, a quoted literal, a word or a symbol.  Each reading function returns the
text it took, so that a program is always the concatenation of its gaps and the
spellings of its tokens, and places are found by walking over that text.
-/
import SealedScript.Text.Blank
import SealedScript.Text.Letter
import SealedScript.Token

namespace SealedScript

/-- Why a program has no tokens. -/
inductive LexFault where
  | unexpected (c : Char)
  | unterminated
  deriving DecidableEq, Repr

/-- A fault and the place where it was met. -/
structure LexError where
  position : Position
  fault : LexFault
  deriving DecidableEq, Repr

/-- What an error says. -/
def LexError.message (e : LexError) : String :=
  let what := match e.fault with
    | .unexpected c => "unexpected character '" ++ c.toString ++ "'"
    | .unterminated => "unterminated string literal"
  s!"lex error at {e.position.text}: {what}"

namespace Lexer

/-! ### Gaps -/

/-- Divides a text into the gap in front and the rest.  `inComment` tells whether
the text continues a comment, which ends before the line does. -/
def gap : Bool → List Char → List Char × List Char
  | _, [] => ([], [])
  | inComment, c :: rest =>
    if inComment && c != '\n' || isBlank c || (c == '/' && rest.head? == some '/') then
      let (skipped, after) := gap (inComment && c != '\n' || c == '/') rest
      (c :: skipped, after)
    else ([], c :: rest)

/-! ### Words, numbers and literals -/

/-- Whether a word may begin with `c`. -/
def startsWord (c : Char) : Bool := isLetter c || c == '_'

/-- Whether a word may go on with `c`. -/
def continuesWord (c : Char) : Bool := isLetter c || isNumeral c || c == '_'

/-- What a word is.  The mark of an encrypted variable does not keep a word from
being reserved. -/
def wordKind (word : List Char) : TokenKind :=
  if (dropFront? triggerMark word).isSome then .trigger
  else match Keyword.ofSpelling? ((dropFront? encryptedMark word).getD word) with
    | some k => .keyword k
    | none => .name

/-- The number at the front of a text: digits, at most one point, and digits. -/
def numberSpelling (text : List Char) : List Char :=
  let whole := text.takeWhile Char.isDigit
  match text.dropWhile Char.isDigit with
  | '.' :: rest => whole ++ '.' :: rest.takeWhile Char.isDigit
  | _ => whole

/-- What a character behind a backslash stands for. -/
def unescape (c : Char) : Char :=
  if c = 'n' then '\n' else if c = 't' then '\t' else c

/-- A quoted literal whose opening quote has been read: what it denotes, its
spelling from there on, and the rest of the text. -/
def literal? : List Char → Option (List Char × List Char × List Char)
  | [] => none
  | c :: rest =>
    if c = '"' then some ([], ['"'], rest)
    else if c = '\\' then
      match rest with
      | [] => none
      | d :: rest => (literal? rest).map fun (denoted, spelling, after) =>
          (unescape d :: denoted, '\\' :: d :: spelling, after)
    else (literal? rest).map fun (denoted, spelling, after) => (c :: denoted, c :: spelling, after)

/-- The symbol at the front of a text. -/
def symbol? (text : List Char) : Option Symbol :=
  Symbol.all.find? fun s => (dropFront? s.spelling text).isSome

/-! ### Tokens -/

/-- A token read off the front of a text: what it is, its text, how it was
spelled, and the rest. -/
structure Read where
  kind : TokenKind
  lexeme : List Char
  spelling : List Char
  rest : List Char

/-- The token whose lexeme is its spelling. -/
def Read.plain (kind : TokenKind) (spelling text : List Char) : Read :=
  ⟨kind, spelling, spelling, text.drop spelling.length⟩

/-- Reads the token at the front of the text `c :: rest`, which no gap precedes. -/
def token (c : Char) (rest : List Char) : Except LexFault Read :=
  let text := c :: rest
  if c.isDigit then .ok (.plain .number (numberSpelling text) text)
  else if c = '"' then
    match literal? rest with
    | some (denoted, spelling, after) => .ok ⟨.text, denoted, '"' :: spelling, after⟩
    | none => .error .unterminated
  else if startsWord c || (c == '@' && rest.head?.any isLetter) then
    let word := c :: rest.takeWhile continuesWord
    .ok (.plain (wordKind word) word text)
  else match symbol? text with
    | some s => .ok (.plain (.symbol s) s.spelling text)
    | none => .error (.unexpected c)

/-- The tokens of a text that begins at `position`.  The first argument bounds
their number; the length of the text is always enough. -/
def tokens : Nat → Position → List Char → Except LexError (List Token)
  | 0, position, _ => .ok [Token.stopAt position]
  | bound + 1, position, text =>
    let (skipped, rest) := gap false text
    let here := position.after skipped
    match rest with
    | [] => .ok [Token.stopAt here]
    | c :: rest =>
      match token c rest with
      | .error fault => .error ⟨here, fault⟩
      | .ok read => do
        let later ← tokens bound (here.after read.spelling) read.rest
        return ⟨read.kind, String.ofList read.lexeme, here⟩ :: later

end Lexer

/-- The tokens of a program, with the one that ends it. -/
def tokenize (source : String) : Except LexError (List Token) :=
  let text := source.toList
  Lexer.tokens (text.length + 1) Position.start text

end SealedScript

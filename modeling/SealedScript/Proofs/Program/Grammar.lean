/-
SealedScript/Proofs/Program/Grammar.lean

The grammar of programs, as derivations.  A phrase is a row of tokens together with
what it stands for; every rule says which tokens and smaller phrases it is made of,
in order, so a derivation uses each of its tokens exactly once.

Expressions stand at places, which are numbered by how strongly they hold their
parts together (the table of strengths is that of the rendering):

    1       phrase₂ assignment phrase₁        where phrase₂ is a variable or an element
    2 … 7   phraseₙ operator phraseₙ₊₁        for the operators of strength n
    8       `!` phrase₈,  `-` phrase₈,  step phrase₈
    9       phrase₉ step                      where phrase₉ is a variable
    10      phrase₁₀ `[` phrase₁ `]`,  phrase₁₀ `.` name `(` phrases₁ `)`
    11      constants, names, calls, lists and phrase₁ in parentheses

and what stands at a place stands at every weaker one.  Each statement has its own
words, semicolons and braces.
-/
import SealedScript.Proofs.Program.Rendering

namespace SealedScript

/-! ### Rows of phrases -/

section Rows

variable {α : Type} (D : List Token → α → Prop)

/-- Phrases one behind another. -/
inductive PhraseRow : List Token → List α → Prop
  | nil : PhraseRow [] []
  | cons {u v : List Token} {a : α} {as : List α} : D u a → PhraseRow v as → PhraseRow (u ++ v) (a :: as)

/-- One or more phrases with commas between them. -/
inductive PhraseCommas : List Token → List α → Prop
  | one {u : List Token} {a : α} : D u a → PhraseCommas u [a]
  | cons {u v : List Token} {a : α} {as : List α} {comma : Token} : D u a →
      comma.kind = .symbol .comma → PhraseCommas v as → PhraseCommas (u ++ comma :: v) (a :: as)

/-- Phrases with commas between them, and a symbol that closes them. -/
inductive PhraseList (close : Symbol) : List Token → List α → Prop
  | empty {closer : Token} : closer.kind = .symbol close → PhraseList close [closer] []
  | items {u : List Token} {as : List α} {closer : Token} : PhraseCommas D u as →
      closer.kind = .symbol close → PhraseList close (u ++ [closer]) as

/-- Phrases in braces. -/
inductive PhraseBlock : List Token → List α → Prop
  | mk {u : List Token} {as : List α} {opener closer : Token} : opener.kind = .symbol .openBrace →
      PhraseRow D u as → closer.kind = .symbol .closeBrace → PhraseBlock (opener :: (u ++ [closer])) as

end Rows

/-! ### Expressions -/

/-- `Expr.Phrase place toks e`: the tokens are a phrase for the expression, which may
stand at this place. -/
inductive Expr.Phrase : Nat → List Token → Expr → Prop
  | tighter {place : Nat} {u : List Token} {e : Expr} : Phrase (place + 1) u e → Phrase place u e
  | assign {u v : List Token} {op : Token} {target : VarRef} {form : AssignOp} {value : Expr} :
      Phrase 2 u (.variable target) → op.kind = .symbol form.token → Phrase 1 v value →
      Phrase 1 (u ++ op :: v) (.assign target form value)
  | assignElement {u v : List Token} {op : Token} {target index : Expr} {form : AssignOp} {value : Expr} :
      Phrase 2 u (.element target index) → op.kind = .symbol form.token → Phrase 1 v value →
      Phrase 1 (u ++ op :: v) (.assignElement target index form value)
  | binary {u v : List Token} {t : Token} {op : BinaryOp} {lhs rhs : Expr} :
      Phrase op.strength u lhs → t.kind = .symbol op.token → Phrase (op.strength + 1) v rhs →
      Phrase op.strength (u ++ t :: v) (.binary op lhs rhs)
  | not {u : List Token} {t : Token} {e : Expr} : t.kind = .symbol .bang → Phrase 8 u e →
      Phrase 8 (t :: u) (.not e)
  | negative {u : List Token} {t : Token} {e : Expr} : t.kind = .symbol .minus → Phrase 8 u e →
      Phrase 8 (t :: u) (.binary .sub (.literal (.int 0)) e)
  | stepBefore {u : List Token} {t : Token} {target : VarRef} {step : Step} :
      t.kind = .symbol step.token → Phrase 8 u (.variable target) →
      Phrase 8 (t :: u) (.step target step false)
  | stepBehind {u : List Token} {t : Token} {target : VarRef} {step : Step} :
      Phrase 9 u (.variable target) → t.kind = .symbol step.token →
      Phrase 9 (u ++ [t]) (.step target step true)
  | element {u v : List Token} {opener closer : Token} {target index : Expr} :
      Phrase 10 u target → opener.kind = .symbol .openBracket → Phrase 1 v index →
      closer.kind = .symbol .closeBracket →
      Phrase 10 (u ++ opener :: (v ++ [closer])) (.element target index)
  | method {u v : List Token} {dot name opener : Token} {target : Expr} {args : List Expr} :
      Phrase 10 u target → dot.kind = .symbol .dot → name.kind = .name →
      opener.kind = .symbol .openParen → PhraseList (Phrase 1) .closeParen v args →
      Phrase 10 (u ++ dot :: name :: opener :: v) (.method target name.lexeme args)
  | int {t : Token} {n : Int64} : t.kind = .number → '.' ∉ t.lexeme.toList →
      readInt64? t.lexeme.toList = some n → Phrase 11 [t] (.literal (.int n))
  | float {t : Token} {x : Float} : t.kind = .number → '.' ∈ t.lexeme.toList →
      readFloat? t.lexeme.toList = some x → Phrase 11 [t] (.literal (.float x))
  | text {t : Token} : t.kind = .text → Phrase 11 [t] (.literal (.text t.lexeme))
  | trueWord {t : Token} : t.kind = .keyword .trueWord → Phrase 11 [t] (.literal (.bool true))
  | falseWord {t : Token} : t.kind = .keyword .falseWord → Phrase 11 [t] (.literal (.bool false))
  | variable {t : Token} : t.kind = .name → Phrase 11 [t] (.variable (.ofLexeme t.lexeme))
  | call {name opener : Token} {u : List Token} {args : List Expr} : name.kind = .name →
      opener.kind = .symbol .openParen → PhraseList (Phrase 1) .closeParen u args →
      Phrase 11 (name :: opener :: u) (.call name.lexeme args)
  | parenthesised {opener closer : Token} {u : List Token} {e : Expr} :
      opener.kind = .symbol .openParen → Phrase 1 u e → closer.kind = .symbol .closeParen →
      Phrase 11 (opener :: (u ++ [closer])) e
  | list {opener : Token} {u : List Token} {items : List Expr} : opener.kind = .symbol .openBracket →
      PhraseList (Phrase 1) .closeBracket u items → Phrase 11 (opener :: u) (.list items)

/-! ### Statements -/

/-- The name of a parameter. -/
def ParameterPhrase (toks : List Token) (name : String) : Prop :=
  ∃ t : Token, toks = [t] ∧ t.kind = .name ∧ t.lexeme = name

/-- The unit of a time, where one is given. -/
inductive UnitPhrase : List Token → Option String → Prop
  | none : UnitPhrase [] none
  | some {t : Token} : t.kind = .name → UnitPhrase [t] (some t.lexeme)

/-- How often a timer fires, where this is given. -/
inductive TimesPhrase : List Token → Option Expr → Prop
  | none : TimesPhrase [] none
  | some {comma : Token} {u : List Token} {e : Expr} : comma.kind = .symbol .comma → Expr.Phrase 1 u e →
      TimesPhrase (comma :: u) (some e)

/-- `Stmt.PhraseOver S toks s`: the tokens are a phrase for the statement, in which
the statements inside it have phrases in `S`.  A conditional in the place of the
other branch is not inside the first one but goes on with it. -/
inductive Stmt.PhraseOver (S : List Token → Stmt → Prop) : List Token → Stmt → Prop
  | print {opener arrow semicolon : Token} {u : List Token} {value : Expr} :
      opener.kind = .keyword .print → arrow.kind = .symbol .arrow → Expr.Phrase 1 u value →
      semicolon.kind = .symbol .semicolon →
      PhraseOver S (opener :: arrow :: (u ++ [semicolon])) (.print value)
  | conditional {opener left right : Token} {u v : List Token} {condition : Expr} {yes : List Stmt} :
      opener.kind = .keyword .ifWord → left.kind = .symbol .openParen → Expr.Phrase 1 u condition →
      right.kind = .symbol .closeParen → PhraseBlock S v yes →
      PhraseOver S (opener :: left :: (u ++ right :: v)) (.conditional condition yes none)
  | conditionalElse {opener left right other : Token} {u v w : List Token} {condition : Expr}
      {yes no : List Stmt} :
      opener.kind = .keyword .ifWord → left.kind = .symbol .openParen → Expr.Phrase 1 u condition →
      right.kind = .symbol .closeParen → PhraseBlock S v yes → other.kind = .keyword .elseWord →
      PhraseBlock S w no →
      PhraseOver S (opener :: left :: (u ++ right :: (v ++ other :: w))) (.conditional condition yes (some no))
  | conditionalElseIf {opener left right other opener' : Token} {u v w : List Token} {condition : Expr}
      {yes : List Stmt} {no : Stmt} :
      opener.kind = .keyword .ifWord → left.kind = .symbol .openParen → Expr.Phrase 1 u condition →
      right.kind = .symbol .closeParen → PhraseBlock S v yes → other.kind = .keyword .elseWord →
      opener'.kind = .keyword .ifWord → PhraseOver S (opener' :: w) no →
      PhraseOver S (opener :: left :: (u ++ right :: (v ++ other :: opener' :: w)))
        (.conditional condition yes (some [no]))
  | forLoop {opener left first second right : Token} {u v w x : List Token} {start condition step : Expr}
      {body : List Stmt} :
      opener.kind = .keyword .forWord → left.kind = .symbol .openParen → Expr.Phrase 1 u start →
      first.kind = .symbol .semicolon → Expr.Phrase 1 v condition → second.kind = .symbol .semicolon →
      Expr.Phrase 1 w step → right.kind = .symbol .closeParen → PhraseBlock S x body →
      PhraseOver S (opener :: left :: (u ++ first :: (v ++ second :: (w ++ right :: x))))
        (.forLoop start condition step body)
  | whileLoop {opener left right : Token} {u v : List Token} {condition : Expr} {body : List Stmt} :
      opener.kind = .keyword .whileWord → left.kind = .symbol .openParen → Expr.Phrase 1 u condition →
      right.kind = .symbol .closeParen → PhraseBlock S v body →
      PhraseOver S (opener :: left :: (u ++ right :: v)) (.whileLoop condition body)
  | input {opener arrow arrow' semicolon : Token} {u v : List Token} {prompt : Expr} {target : VarRef} :
      opener.kind = .keyword .input → arrow.kind = .symbol .arrow → Expr.Phrase 1 u prompt →
      arrow'.kind = .symbol .arrow → Expr.Phrase 1 v (.variable target) →
      semicolon.kind = .symbol .semicolon →
      PhraseOver S (opener :: arrow :: (u ++ arrow' :: (v ++ [semicolon]))) (.input prompt target)
  | function {opener name left semicolon : Token} {u v : List Token} {params : List String}
      {body : List Stmt} :
      opener.kind = .keyword .function → name.kind = .name → left.kind = .symbol .openParen →
      PhraseList ParameterPhrase .closeParen u params → PhraseBlock S v body →
      semicolon.kind = .symbol .semicolon →
      PhraseOver S (opener :: name :: left :: (u ++ (v ++ [semicolon]))) (.function name.lexeme params body)
  | giveBackNothing {opener semicolon : Token} : opener.kind = .keyword .returnWord →
      semicolon.kind = .symbol .semicolon → PhraseOver S [opener, semicolon] (.giveBack none)
  | giveBack {opener semicolon : Token} {u : List Token} {value : Expr} :
      opener.kind = .keyword .returnWord → Expr.Phrase 1 u value → semicolon.kind = .symbol .semicolon →
      PhraseOver S (opener :: (u ++ [semicolon])) (.giveBack (some value))
  | useLibrary {opener name semicolon : Token} : opener.kind = .keyword .use →
      name.kind = .name ∨ name.kind = .text → semicolon.kind = .symbol .semicolon →
      PhraseOver S [opener, name, semicolon] (.useLibrary name.lexeme)
  | trigger {opener left right arrow : Token} {u v w x : List Token} {time : Expr} {unit : Option String}
      {times : Option Expr} {action : Stmt} :
      opener.kind = .trigger → left.kind = .symbol .openParen → Expr.Phrase 1 u time → UnitPhrase v unit →
      TimesPhrase w times → right.kind = .symbol .closeParen → arrow.kind = .symbol .arrow →
      S x action →
      PhraseOver S (opener :: left :: (u ++ (v ++ (w ++ right :: arrow :: x)))) (.trigger time unit times action)
  | expression {u : List Token} {semicolon : Token} {value : Expr} : Expr.Phrase 1 u value →
      semicolon.kind = .symbol .semicolon → PhraseOver S (u ++ [semicolon]) (.expression value)

/-- `Stmt.Phrase toks s`: the tokens are a phrase for the statement, and so are those of
all statements inside it. -/
inductive Stmt.Phrase : List Token → Stmt → Prop
  | mk {toks : List Token} {s : Stmt} : PhraseOver Phrase toks s → Phrase toks s

/-- The tokens are a phrase for the program. -/
def ProgramPhrase : List Token → List Stmt → Prop := PhraseRow Stmt.Phrase

theorem Stmt.PhraseOver.ne_nil {S : List Token → Stmt → Prop} {toks : List Token} {s : Stmt}
    (h : Stmt.PhraseOver S toks s) : toks ≠ [] := by
  cases h <;> simp

end SealedScript

/-
SealedScript/Proofs/Program/Lookahead.lean

How far each parser looks.  An expression ends in front of a token that does not go on
with it, and so it depends on the kind of that token.  A statement ends with a
semicolon, a brace or another statement, and is done then, except for one: a
conditional without another branch looks for `else`.  So behind a statement anything
may stand that is not `else`, and no statement begins with that.

Main results: `closed_statement` and `else_begins_no_statement`.
-/
import SealedScript.Proofs.Program.Locality
import SealedScript.Proofs.Program.RoundTrip

namespace SealedScript.Parser

variable {n n' level : Nat} {ahead follow : TokenKind → Prop} {takes : Bool}

/-! ### Expressions -/

/-- The token that ends a program is no operator. -/
theorem stop_ne_operator {α : Type} {table : List (Symbol × α)} {k : TokenKind} {a : α}
    (h : operator? table k = some a) : .stop ≠ k := by
  rintro rfl
  cases h

section Expressions

variable {operand expression : Parser Expr} {bound bound' : Nat}

/-- Operators of one strength and their right operands. -/
theorem repeats_chain (table : List (Symbol × BinaryOp)) (hoperand : Local operand) (lhs : Expr)
    (hbound : n ≤ bound) (hbound' : n' ≤ bound') :
    Repeats n n' ahead false (fun _ => False) (chain table operand bound lhs) (chain table operand bound' lhs) := by
  induction bound generalizing n n' ahead bound' lhs with
  | zero => exact .exhausted hbound
  | succ bound ih =>
    refine .turn (chain table operand · lhs) (fun c hc => .look (.inr fun _ => id) fun k _ => ?_) hbound'
    cases hop : operator? table k with
    | none => exact .done lhs
    | some op =>
      refine .advance (stop_ne_operator hop) fun t t' _ _ => ?_
      exact (hoperand _ _ _).bind fun rhs => ih (.binary op lhs rhs) (by omega) (by omega)

/-- Operands with operators of the given strengths between them. -/
theorem local_binary (hoperand : Local operand) (tables : List (List (Symbol × BinaryOp))) :
    Local (binary operand tables) := by
  induction tables with
  | nil => exact hoperand
  | cons table tighter ih =>
    intro n n' ahead
    refine (ih n n' ahead).bind fun first => .bounded fun bound bound' hbound hbound' => ?_
    exact repeats_chain table ih first hbound hbound'

/-- A number. -/
theorem repeats_number {t t' : Token} (ht : t'.lexeme = t.lexeme) :
    Repeats n n' ahead false follow (number t) (number t') := by
  unfold number
  rw [ht]
  dsimp only
  split
  · exact .done _
  · exact .failed _ _

/-- A constant, a name, a call, a list or an expression in parentheses. -/
theorem repeats_primary (hexpr : Local expression) :
    Repeats n n' ahead takes (fun _ => False) (primary expression) (primary expression) := by
  refine .taken (.look (.inl rfl) fun k _ => ?_)
  split
  · exact .advance TokenKind.noConfusion fun t t' _ ht => (repeats_number ht).last Expr.literal
  · refine .advance TokenKind.noConfusion fun t t' _ ht => ?_
    rw [ht]
    exact .done _
  · exact .advance TokenKind.noConfusion fun _ _ _ _ => .done _
  · exact .advance TokenKind.noConfusion fun _ _ _ _ => .done _
  · -- a name is that of a function if a parenthesis stands behind it
    refine .advance TokenKind.noConfusion fun t t' _ ht => ?_
    rw [ht]
    exact .eat TokenKind.noConfusion (.inr fun _ => False.elim) ((repeats_enclosed hexpr).last _) (.done _)
  · refine .advance TokenKind.noConfusion fun _ _ _ _ => ?_
    exact (hexpr _ _ _).into fun inner => .expectSymbol (.done inner)
  · exact .advance TokenKind.noConfusion fun _ _ _ _ => (repeats_enclosed hexpr).last Expr.list
  · exact .unexpected _ _

/-- Elements and methods, as many as follow. -/
theorem repeats_selections (hexpr : Local expression) (target : Expr) (hbound : n ≤ bound) (hbound' : n' ≤ bound') :
    Repeats n n' ahead false (fun _ => False) (selections expression bound target)
      (selections expression bound' target) := by
  induction bound generalizing n n' ahead bound' target with
  | zero => exact .exhausted hbound
  | succ bound ih =>
    refine .turn (selections expression · target) (fun c hc => ?_) hbound'
    refine .eat TokenKind.noConfusion (.inr fun _ => False.elim) ?_ ?_
    · refine (hexpr _ _ _).into fun index => .expectSymbol ?_
      exact ih (.element target index) (by omega) (by omega)
    · refine .eat TokenKind.noConfusion (.inr fun _ => False.elim) ?_ (.done target)
      refine .expect TokenKind.noConfusion fun t t' ht => .expectSymbol ?_
      rw [ht]
      refine (repeats_enclosed hexpr).bind fun args => ?_
      exact ih (.method target t.lexeme args) (by omega) (by omega)

/-- Steps behind a variable. -/
theorem repeats_stepsBehind (target : Expr) (hbound : n ≤ bound) (hbound' : n' ≤ bound') :
    Repeats n n' ahead false (fun _ => False) (stepsBehind bound target) (stepsBehind bound' target) := by
  induction bound generalizing n n' ahead bound' target with
  | zero => exact .exhausted hbound
  | succ bound ih =>
    refine .turn (stepsBehind · target) (fun c hc => .look (.inr fun _ => id) fun k _ => ?_) hbound'
    cases hstep : operator? steps k with
    | none => exact .done target
    | some step =>
      refine .advance (stop_ne_operator hstep) fun _ _ _ _ => ?_
      cases target with
      | «variable» v => exact ih (.step v step true) (by omega) (by omega)
      | _ => exact .failed _ _

/-- An operand without signs in front. -/
theorem repeats_operand (hexpr : Local expression) :
    Repeats n n' ahead false (fun _ => False) (Parser.operand expression) (Parser.operand expression) := by
  refine (repeats_primary hexpr).bind fun first => .bounded fun b b' hb hb' => ?_
  refine (repeats_selections hexpr first hb hb').bind fun selected => ?_
  exact .bounded fun b b' hb hb' => repeats_stepsBehind selected hb hb'

end Expressions

theorem local_signed_succ (hsigned : Local (signed level)) (hexpr : Local (expression level)) :
    Local (signed (level + 1)) := by
  intro n n' ahead
  rw [signed]
  refine .look (.inr fun _ => id) fun k _ => ?_
  split
  · exact .advance TokenKind.noConfusion fun _ _ _ _ => (hsigned _ _ _).last Expr.not
  · exact .advance TokenKind.noConfusion fun _ _ _ _ => (hsigned _ _ _).last (Expr.binary .sub (.literal (.int 0)))
  · cases hstep : operator? steps k with
    | none => exact repeats_operand hexpr
    | some step =>
      refine .advance (stop_ne_operator hstep) fun t t' _ _ => ?_
      refine (hsigned _ _ _).bind fun target => ?_
      cases target with
      | «variable» target => exact .done _
      | _ => exact .failed _ _

theorem local_expression_succ (hsigned : Local (signed level)) (hexpr : Local (expression level)) :
    Local (expression (level + 1)) := by
  intro n n' ahead
  rw [expression]
  refine (local_binary hsigned precedence n n' _).bind fun lhs => .look (.inr fun _ => id) fun k _ => ?_
  cases hop : operator? assignments k with
  | none => exact .done lhs
  | some op =>
    refine .advance (stop_ne_operator hop) fun t t' _ _ => ?_
    refine (hexpr _ _ _).bind fun value => ?_
    cases lhs with
    | «variable» target => exact .done _
    | element target index => exact .done _
    | _ => exact .failed _ _

theorem local_signed_expression (level : Nat) : Local (signed level) ∧ Local (expression level) := by
  induction level with
  | zero =>
    rw [signed, expression]
    exact ⟨fun _ _ _ => .tooDeep _, fun _ _ _ => .tooDeep _⟩
  | succ level ih =>
    obtain ⟨hsigned, hexpr⟩ := ih
    exact ⟨local_signed_succ hsigned hexpr, local_expression_succ hsigned hexpr⟩

theorem local_expression (level : Nat) : Local (expression level) := (local_signed_expression level).2

/-! ### Statements -/

section Statements

variable {expression : Parser Expr} {statement : Parser Stmt} {follow' : TokenKind → Prop}

theorem repeats_print (hexpr : Local expression) :
    Repeats n n' ahead takes follow (print expression) (print expression) := by
  refine .expectSymbol ?_
  exact (hexpr _ _ _).into fun value => .expectSymbol (.done _)

/-- A conditional behind its first word.  Where it has no other branch, no `else` may
follow. -/
theorem repeats_conditional (hexpr : Local expression) (hstmt : Closed follow' statement) {bound bound' : Nat}
    (hbound' : n' ≤ bound') :
    Repeats n n' ahead takes (fun k => k ≠ .keyword .elseWord) (conditional expression statement bound)
      (conditional expression statement bound') := by
  induction bound generalizing n n' ahead bound' takes with
  | zero => exact .unexpected _ _
  | succ bound ih =>
    refine .turn (conditional expression statement) (fun c hc => ?_) hbound'
    refine .expectSymbol ?_
    refine (hexpr _ _ _).into fun condition => ?_
    refine .expectSymbol ?_
    refine (repeats_block hstmt).bind fun yes => ?_
    refine .eat TokenKind.noConfusion (.inr fun _ => id) ?_ (.done _)
    apply Repeats.taken
    refine .eat TokenKind.noConfusion (.inl rfl) ?_ ?_
    · exact (ih (by omega)).last _
    · exact (repeats_block hstmt).last _

theorem repeats_forLoop (hexpr : Local expression) (hstmt : Closed follow' statement) :
    Repeats n n' ahead takes follow (forLoop expression statement) (forLoop expression statement) := by
  refine .expectSymbol ?_
  refine (hexpr _ _ _).into fun start => .expectSymbol ?_
  refine (hexpr _ _ _).into fun condition => .expectSymbol ?_
  refine (hexpr _ _ _).into fun step => .expectSymbol ?_
  exact (repeats_block hstmt).last _

theorem repeats_whileLoop (hexpr : Local expression) (hstmt : Closed follow' statement) :
    Repeats n n' ahead takes follow (whileLoop expression statement) (whileLoop expression statement) := by
  refine .expectSymbol ?_
  refine (hexpr _ _ _).into fun condition => .expectSymbol ?_
  exact (repeats_block hstmt).last _

theorem repeats_input (hexpr : Local expression) :
    Repeats n n' ahead takes follow (input expression) (input expression) := by
  refine .expectSymbol ?_
  refine (hexpr _ _ _).into fun prompt => .expectSymbol (.glance fun t t' => ?_)
  refine (hexpr _ _ _).into fun target => ?_
  cases target with
  | «variable» target => exact .expectSymbol (.done _)
  | _ => exact .failed _ _

theorem repeats_function (hstmt : Closed follow' statement) :
    Repeats n n' ahead takes follow (function statement) (function statement) := by
  refine .expect TokenKind.noConfusion fun t t' ht => ?_
  rw [ht]
  have hparam : Local (do return (← expect .name "parameter name").lexeme) := by
    intro n n' ahead
    refine .expect TokenKind.noConfusion fun t t' ht => ?_
    rw [ht]
    exact .done _
  refine .expectSymbol ?_
  refine (repeats_enclosed hparam).into fun params => ?_
  exact (repeats_block hstmt).into fun body => .expectSymbol (.done _)

theorem repeats_giveBack (hexpr : Local expression) :
    Repeats n n' ahead takes follow (giveBack expression) (giveBack expression) := by
  refine .taken (.look (.inl rfl) fun k _ => ?_)
  split
  · rw [pure_bind]
    exact .expectSymbol (.done _)
  · rw [bind_map_left]
    exact (hexpr _ _ _).into fun value => .expectSymbol (.done _)

theorem repeats_useLibrary : Repeats n n' ahead takes follow useLibrary useLibrary := by
  refine .taken (.look (.inl rfl) fun k _ => ?_)
  split
  · next hk =>
    apply Repeats.advance (by rintro rfl; simp at hk)
    intro t t' _ ht
    rw [ht]
    exact .expectSymbol (.done _)
  · exact .unexpected _ _

theorem repeats_unit : Repeats n n' ahead false (fun _ => False) unit? unit? := by
  refine .look (.inr fun _ => id) fun k _ => ?_
  split
  · next hk =>
    subst hk
    rw [Functor.map_map, map_eq_pure_bind]
    refine .advance TokenKind.noConfusion fun t t' _ ht => ?_
    rw [ht]
    exact .done _
  · exact .done none

theorem repeats_times (hexpr : Local expression) :
    Repeats n n' ahead false (fun _ => False) (times? expression) (times? expression) :=
  .eat TokenKind.noConfusion (.inr fun _ => False.elim) ((hexpr _ _ _).map some) (.done none)

theorem repeats_trigger (hexpr : Local expression) (hstmt : Closed follow statement) :
    Repeats n n' ahead takes follow (trigger expression statement) (trigger expression statement) := by
  rw [trigger_eq]
  refine .expectSymbol ?_
  refine (hexpr _ _ _).into fun time => ?_
  refine repeats_unit.into fun unit => (repeats_times hexpr).into fun times => ?_
  refine .expectSymbol ?_
  refine .expectSymbol ?_
  exact (hstmt _ _ _ _).last _

end Statements

/-- **Statements are closed.**  A statement takes a token, and what it takes and what it
makes of it is the same in front of any token but `else`. -/
theorem closed_statement (level : Nat) : Closed (fun k => k ≠ .keyword .elseWord) (statement level) := by
  induction level with
  | zero => exact fun _ _ _ _ => .tooDeep _
  | succ level hstmt =>
    intro n n' ahead takes
    have hexpr := local_expression level
    refine .taken (.look (.inl rfl) fun k _ => ?_)
    split
    · exact .advance TokenKind.noConfusion fun _ _ _ _ => repeats_function hstmt
    · exact .advance TokenKind.noConfusion fun _ _ _ _ => repeats_giveBack hexpr
    · exact .advance TokenKind.noConfusion fun _ _ _ _ => repeats_forLoop hexpr hstmt
    · exact .advance TokenKind.noConfusion fun _ _ _ _ => repeats_whileLoop hexpr hstmt
    · exact .advance TokenKind.noConfusion fun _ _ _ _ =>
        .bounded fun bound bound' _ hbound' => repeats_conditional hexpr hstmt hbound'
    · exact .advance TokenKind.noConfusion fun _ _ _ _ => repeats_print hexpr
    · exact .advance TokenKind.noConfusion fun _ _ _ _ => repeats_input hexpr
    · exact .advance TokenKind.noConfusion fun _ _ _ _ => repeats_useLibrary
    · exact .advance TokenKind.noConfusion fun _ _ _ _ => repeats_trigger hexpr hstmt
    · exact (hexpr _ _ _).into fun value => .expectSymbol (.done _)

/-! ### No statement begins with `else` -/

section Else

theorem else_begins_no_operand (expression : Parser Expr) :
    Yields n (· = .keyword .elseWord) (operand expression) fun _ _ => False := by
  have hprimary : Yields n (· = .keyword .elseWord) (primary expression) fun _ _ => False := by
    refine .look ?_
    rintro _ rfl
    exact .unexpected _
  exact hprimary.bind fun _ _ => False.elim

theorem else_begins_no_signed (level : Nat) :
    Yields n (· = .keyword .elseWord) (signed level) fun _ _ => False := by
  cases level with
  | zero =>
    rw [signed]
    exact .tooDeep
  | succ level =>
    rw [signed]
    refine .look ?_
    rintro _ rfl
    exact else_begins_no_operand (expression level)

theorem else_begins_no_binary {operand : Parser Expr}
    (hoperand : Yields n (· = .keyword .elseWord) operand fun _ _ => False)
    (tables : List (List (Symbol × BinaryOp))) :
    Yields n (· = .keyword .elseWord) (binary operand tables) fun _ _ => False := by
  induction tables with
  | nil => exact hoperand
  | cons table tighter ih => exact ih.bind fun _ _ => False.elim

theorem else_begins_no_expression (level : Nat) :
    Yields n (· = .keyword .elseWord) (expression level) fun _ _ => False := by
  cases level with
  | zero =>
    rw [expression]
    exact .tooDeep
  | succ level =>
    rw [expression]
    exact (else_begins_no_binary (else_begins_no_signed level) precedence).bind fun _ _ => False.elim

theorem else_begins_no_statement (level : Nat) :
    Yields n (· = .keyword .elseWord) (statement level) fun _ _ => False := by
  cases level with
  | zero => exact .tooDeep
  | succ level =>
    refine .look ?_
    rintro _ rfl
    exact (else_begins_no_expression level).bind fun _ _ => False.elim

end Else

end SealedScript.Parser

/-
SealedScript/Proofs/Program/Soundness.lean

Whatever is read as a program is a phrase for it: the tokens in front of the one that
ends them are exactly those of a derivation of the program in the grammar, so none is
skipped and none is made up.

The parser of each place yields the phrases of that place.  Loops keep the phrase in
front of them: they yield what, behind any phrase for what has been collected, makes
a phrase for the result.

Main result: `parseTokens_sound`.
-/
import SealedScript.Proofs.Program.RoundTrip
import SealedScript.Proofs.Program.Yielding

namespace SealedScript.Parser

variable {n level : Nat} {ahead : TokenKind → Prop}

/-! ### Operators -/

/-- What a token denotes is in the table. -/
theorem mem_of_operator? {α : Type} {table : List (Symbol × α)} {kind : TokenKind} {a : α}
    (h : operator? table kind = some a) : ∃ s, kind = .symbol s ∧ (s, a) ∈ table := by
  cases kind with
  | symbol s =>
    refine ⟨s, rfl, ?_⟩
    have hlookup : table.lookup s = some a := h
    obtain ⟨front, back, rfl, -⟩ := List.lookup_eq_some_iff.1 hlookup
    simp
  | _ => cases h

theorem token_of_assignment {kind : TokenKind} {op : AssignOp} (h : operator? assignments kind = some op) :
    kind = .symbol op.token := by
  obtain ⟨s, rfl, hmem⟩ := mem_of_operator? h
  have hall : ∀ entry ∈ assignments, entry.2.token = entry.1 := by decide
  rw [hall _ hmem]

theorem token_of_step {kind : TokenKind} {step : Step} (h : operator? steps kind = some step) :
    kind = .symbol step.token := by
  obtain ⟨s, rfl, hmem⟩ := mem_of_operator? h
  have hall : ∀ entry ∈ steps, entry.2.token = entry.1 := by decide
  rw [hall _ hmem]

/-- The operators of the tables have the strengths from the given one upwards. -/
def Graded : Nat → List (List (Symbol × BinaryOp)) → Prop
  | _, [] => True
  | place, table :: tighter =>
    (∀ entry ∈ table, entry.2.token = entry.1 ∧ entry.2.strength = place) ∧ Graded (place + 1) tighter

theorem graded_precedence : Graded 2 precedence := by
  refine ⟨?_, ?_, ?_, ?_, ?_, ?_, trivial⟩ <;> decide

/-! ### Binary operators -/

section Binary

variable {operand : Parser Expr}

/-- Operators of one strength behind a phrase of this strength make another one. -/
theorem yields_chain {table : List (Symbol × BinaryOp)} {place : Nat}
    (htable : ∀ entry ∈ table, entry.2.token = entry.1 ∧ entry.2.strength = place)
    (hoperand : Sound operand (Expr.Phrase (place + 1))) (bound : Nat) (lhs : Expr) :
    Yields n ahead (chain table operand bound lhs) (Behind (Expr.Phrase place) lhs) := by
  induction bound generalizing n ahead lhs with
  | zero => exact .ended _
  | succ bound ih =>
    refine .look fun k _ => ?_
    cases hop : operator? table k with
    | none => exact .ended _
    | some op =>
      obtain ⟨s, rfl, hmem⟩ := mem_of_operator? hop
      obtain ⟨htoken, rfl⟩ : op.token = s ∧ op.strength = place := htable _ hmem
      subst htoken
      refine .advance TokenKind.noConfusion fun t ht => (hoperand _).bind fun v rhs hv => ?_
      refine (ih (.binary op lhs rhs)).mono fun w e hw u hu => ?_
      -- what has been collected is a phrase again, so the loop goes on behind it
      have hphrase := hw _ (.binary hu ht hv)
      rwa [List.append_assoc, List.cons_append] at hphrase

/-- Operators of the given strengths. -/
theorem yields_binary {tables : List (List (Symbol × BinaryOp))} {place : Nat} (hgraded : Graded place tables)
    (hoperand : Sound operand (Expr.Phrase (place + tables.length))) :
    Yields n (fun _ => True) (binary operand tables) (Expr.Phrase place) := by
  induction tables generalizing n place with
  | nil => exact hoperand n
  | cons table tighter ih =>
    obtain ⟨htable, hgraded⟩ := hgraded
    rw [List.length_cons, Nat.add_comm tighter.length 1, ← Nat.add_assoc] at hoperand
    have htighter : Sound (binary operand tighter) (Expr.Phrase (place + 1)) := fun n => ih hgraded hoperand
    refine (htighter n).bind fun u first hu => .bounded fun bound _ => ?_
    exact (yields_chain htable htighter bound first).mono fun v e hv => hv u (.tighter hu)

end Binary

/-! ### Operands -/

section Operands

variable {expression : Parser Expr}

/-- A number. -/
theorem yields_number {t : Token} (ht : t.kind = .number) :
    Yields n ahead (number t) fun u value => u = [] ∧ Expr.Phrase 11 [t] (.literal value) := by
  intro ctx toks rest value _ _ _ _ hrun
  unfold number at hrun
  by_cases hpoint : '.' ∈ t.lexeme.toList
  · simp only [List.contains_iff_mem, hpoint, if_true] at hrun
    cases hread : readFloat? t.lexeme.toList with
    | none =>
      rw [hread] at hrun
      cases hrun
    | some x =>
      rw [hread] at hrun
      cases hrun
      exact ⟨[], rfl, rfl, .float ht hpoint hread⟩
  · simp only [List.contains_iff_mem, hpoint, if_false] at hrun
    cases hread : readInt64? t.lexeme.toList with
    | none =>
      rw [hread] at hrun
      cases hrun
    | some x =>
      rw [hread] at hrun
      cases hrun
      exact ⟨[], rfl, rfl, .int ht hpoint hread⟩

/-- A constant, a name, a call, a list or an expression in parentheses. -/
theorem yields_primary (hexpr : Sound expression (Expr.Phrase 1)) :
    Yields n ahead (primary expression) (Expr.Phrase 11) := by
  refine .look fun k _ => ?_
  split
  · -- a number
    refine .advance TokenKind.noConfusion fun t ht => ?_
    refine (yields_number ht).last ?_
    rintro u value ⟨rfl, hvalue⟩
    exact hvalue
  · exact .advance TokenKind.noConfusion fun t ht => .done (.text ht)
  · exact .advance TokenKind.noConfusion fun t ht => .done (.trueWord ht)
  · exact .advance TokenKind.noConfusion fun t ht => .done (.falseWord ht)
  · -- a name is that of a function if a parenthesis stands behind it
    refine .advance TokenKind.noConfusion fun t ht => .eat TokenKind.noConfusion ?_ ?_
    · exact fun opener hopener => (yields_enclosed hexpr).last fun u args hu => .call ht hopener hu
    · exact .done (.variable ht)
  · refine .advance TokenKind.noConfusion fun opener hopener => (hexpr _).bind fun u inner hu => ?_
    exact .expectSymbol fun closer hcloser => .done (.parenthesised hopener hu hcloser)
  · refine .advance TokenKind.noConfusion fun opener hopener => ?_
    exact (yields_enclosed hexpr).last fun u items hu => .list hopener hu
  · exact .unexpected _

/-- Elements and methods behind a phrase that can have them make another one. -/
theorem yields_selections (hexpr : Sound expression (Expr.Phrase 1)) (bound : Nat) (target : Expr) :
    Yields n ahead (selections expression bound target) (Behind (Expr.Phrase 10) target) := by
  induction bound generalizing n ahead target with
  | zero => exact .ended _
  | succ bound ih =>
    refine .eat TokenKind.noConfusion (fun opener hopener => ?_) (.eat TokenKind.noConfusion (fun dot hdot => ?_) ?_)
    · refine (hexpr _).bind fun v index hv => .expectSymbol fun closer hcloser => ?_
      refine (ih (.element target index)).mono fun w e hw u hu => ?_
      have hphrase := hw _ (.element hu hopener hv hcloser)
      simpa using hphrase
    · refine .expect TokenKind.noConfusion fun name hname => .expectSymbol fun opener hopener => ?_
      refine (yields_enclosed hexpr).bind fun v args hv => ?_
      refine (ih (.method target name.lexeme args)).mono fun w e hw u hu => ?_
      have hphrase := hw _ (.method hu hdot hname hopener hv)
      simpa using hphrase
    · exact .ended _

/-- Steps behind a phrase for a variable make a phrase. -/
theorem yields_stepsBehind (bound : Nat) (target : Expr) :
    Yields n ahead (stepsBehind bound target) (Behind (Expr.Phrase 9) target) := by
  induction bound generalizing n ahead target with
  | zero => exact .ended _
  | succ bound ih =>
    refine .look fun k _ => ?_
    cases hstep : operator? steps k with
    | none => exact .ended _
    | some step =>
      have hk := token_of_step hstep
      subst hk
      refine .advance TokenKind.noConfusion fun t ht => ?_
      split
      · refine (ih (.step _ step true)).mono fun w e hw u hu => ?_
        have hphrase := hw _ (.stepBehind hu ht)
        simpa using hphrase
      · exact .failed _

/-- An operand without signs in front. -/
theorem yields_operand (hexpr : Sound expression (Expr.Phrase 1)) :
    Yields n ahead (operand expression) (Expr.Phrase 9) := by
  refine (yields_primary hexpr).bind fun u first hu => .bounded fun bound _ => ?_
  refine (yields_selections hexpr bound first).bind fun v selected hv => .bounded fun bound' _ => ?_
  have hselected : Expr.Phrase 10 (u ++ v) selected := hv u (.tighter hu)
  refine (yields_stepsBehind bound' selected).mono fun w e hw => ?_
  have hphrase := hw _ (.tighter hselected)
  rwa [List.append_assoc] at hphrase

end Operands

/-! ### Expressions -/

/-- With signs and steps in front of it, an operand is a phrase for a signed one. -/
theorem yields_signed_succ (hsigned : Sound (signed level) (Expr.Phrase 8))
    (hexpr : Sound (expression level) (Expr.Phrase 1)) :
    Yields n ahead (signed (level + 1)) (Expr.Phrase 8) := by
  rw [signed]
  refine .look fun k _ => ?_
  split
  · exact .advance TokenKind.noConfusion fun t ht => (hsigned _).last fun u e hu => .not ht hu
  · exact .advance TokenKind.noConfusion fun t ht => (hsigned _).last fun u e hu => .negative ht hu
  · split
    · exact (yields_operand hexpr).mono fun u e hu => .tighter hu
    · next step hstep =>
      have hk := token_of_step hstep
      subst hk
      refine .advance TokenKind.noConfusion fun t ht => (hsigned _).bind fun u e hu => ?_
      split
      · exact .done (by rw [List.append_nil]; exact .stepBefore ht hu)
      · exact .failed _

/-- An expression, with the value behind it if it is assigned to. -/
theorem yields_expression_succ (hsigned : Sound (signed level) (Expr.Phrase 8))
    (hexpr : Sound (expression level) (Expr.Phrase 1)) :
    Yields n (fun _ => True) (expression (level + 1)) (Expr.Phrase 1) := by
  rw [expression]
  refine (yields_binary graded_precedence hsigned).bind fun u lhs hu => .look fun k _ => ?_
  split
  · exact .done (by rw [List.append_nil]; exact .tighter hu)
  · next op hop =>
    have hk := token_of_assignment hop
    subst hk
    refine .advance TokenKind.noConfusion fun t ht => (hexpr _).bind fun v value hv => ?_
    split
    · exact .done (by rw [List.append_nil]; exact .assign hu ht hv)
    · exact .done (by rw [List.append_nil]; exact .assignElement hu ht hv)
    · exact .failed _

/-- **Expressions are phrases.**  One level is taken at a time, by signs and by
assignments. -/
theorem sound_signed_expression (level : Nat) :
    Sound (signed level) (Expr.Phrase 8) ∧ Sound (expression level) (Expr.Phrase 1) := by
  induction level with
  | zero =>
    rw [signed, expression]
    exact ⟨fun n => .tooDeep, fun n => .tooDeep⟩
  | succ level ih =>
    obtain ⟨hsigned, hexpr⟩ := ih
    exact ⟨fun n => yields_signed_succ hsigned hexpr, fun n => yields_expression_succ hsigned hexpr⟩

theorem sound_expression (level : Nat) : Sound (expression level) (Expr.Phrase 1) :=
  (sound_signed_expression level).2

/-! ### Statements -/

section Statements

variable {expression : Parser Expr} {statement : Parser Stmt} {S : List Token → Stmt → Prop}
  {opener : Token}

theorem yields_print (hopener : opener.kind = .keyword .print)
    (hexpr : Sound expression (Expr.Phrase 1)) :
    Yields n ahead (print expression) fun v s => Stmt.PhraseOver S (opener :: v) s := by
  refine .expectSymbol fun arrow harrow => (hexpr _).bind fun u value hu => ?_
  exact .expectSymbol fun semicolon hsemicolon => .done (.print hopener harrow hu hsemicolon)

/-- A conditional behind its first word.  Where another one stands in the place of the
other branch, the loop goes on with it, on the same level. -/
theorem yields_conditional (hexpr : Sound expression (Expr.Phrase 1)) (hstmt : Sound statement S)
    (bound : Nat) (hopener : opener.kind = .keyword .ifWord) :
    Yields n ahead (conditional expression statement bound) fun v s => Stmt.PhraseOver S (opener :: v) s := by
  induction bound generalizing n ahead opener with
  | zero => exact .unexpected _
  | succ bound ih =>
    refine .expectSymbol fun left hleft => (hexpr _).bind fun u condition hu => ?_
    refine .expectSymbol fun right hright => (yields_block hstmt).bind fun v yes hv => ?_
    refine .eat TokenKind.noConfusion (fun other hother => .eat TokenKind.noConfusion ?_ ?_) (.done ?_)
    · intro opener' hopener'
      exact (ih hopener').last fun w no hw =>
        .conditionalElseIf hopener hleft hu hright hv hother hopener' hw
    · exact (yields_block hstmt).last fun w no hw => .conditionalElse hopener hleft hu hright hv hother hw
    · rw [List.append_nil]
      exact .conditional hopener hleft hu hright hv

theorem yields_forLoop (hopener : opener.kind = .keyword .forWord)
    (hexpr : Sound expression (Expr.Phrase 1)) (hstmt : Sound statement S) :
    Yields n ahead (forLoop expression statement) fun v s => Stmt.PhraseOver S (opener :: v) s := by
  refine .expectSymbol fun left hleft => (hexpr _).bind fun u start hu => ?_
  refine .expectSymbol fun first hfirst => (hexpr _).bind fun v condition hv => ?_
  refine .expectSymbol fun second hsecond => (hexpr _).bind fun w step hw => ?_
  refine .expectSymbol fun right hright => (yields_block hstmt).last fun x body hx => ?_
  exact .forLoop hopener hleft hu hfirst hv hsecond hw hright hx

theorem yields_whileLoop (hopener : opener.kind = .keyword .whileWord)
    (hexpr : Sound expression (Expr.Phrase 1)) (hstmt : Sound statement S) :
    Yields n ahead (whileLoop expression statement) fun v s => Stmt.PhraseOver S (opener :: v) s := by
  refine .expectSymbol fun left hleft => (hexpr _).bind fun u condition hu => ?_
  refine .expectSymbol fun right hright => (yields_block hstmt).last fun v body hv => ?_
  exact .whileLoop hopener hleft hu hright hv

theorem yields_input (hopener : opener.kind = .keyword .input)
    (hexpr : Sound expression (Expr.Phrase 1)) :
    Yields n ahead (input expression) fun v s => Stmt.PhraseOver S (opener :: v) s := by
  refine .expectSymbol fun arrow harrow => (hexpr _).bind fun u prompt hu => ?_
  refine .expectSymbol fun arrow' harrow' => .glance fun _ => (hexpr _).bind fun v target hv => ?_
  split
  · refine .expectSymbol fun semicolon hsemicolon => .done ?_
    exact .input hopener harrow hu harrow' hv hsemicolon
  · exact .failed _

theorem yields_function (hopener : opener.kind = .keyword .function)
    (hstmt : Sound statement S) :
    Yields n ahead (function statement) fun v s => Stmt.PhraseOver S (opener :: v) s := by
  refine .expect TokenKind.noConfusion fun name hname => .expectSymbol fun left hleft => ?_
  have hparam : Sound (do return (← expect .name "parameter name").lexeme) ParameterPhrase :=
    fun n => .expect TokenKind.noConfusion fun t ht => .done ⟨t, rfl, ht, rfl⟩
  refine (yields_enclosed hparam).bind fun u params hu => (yields_block hstmt).bind fun v body hv => ?_
  refine .expectSymbol fun semicolon hsemicolon => .done ?_
  exact .function hopener hname hleft hu hv hsemicolon

theorem yields_giveBack (hopener : opener.kind = .keyword .returnWord)
    (hexpr : Sound expression (Expr.Phrase 1)) :
    Yields n ahead (giveBack expression) fun v s => Stmt.PhraseOver S (opener :: v) s := by
  refine .look fun k _ => ?_
  split
  · rw [pure_bind]
    exact .expectSymbol fun semicolon hsemicolon => .done (.giveBackNothing hopener hsemicolon)
  · rw [bind_map_left]
    refine ((hexpr _).weaken fun _ _ => trivial).bind fun u value hu => ?_
    exact .expectSymbol fun semicolon hsemicolon => .done (.giveBack hopener hu hsemicolon)

theorem yields_useLibrary (hopener : opener.kind = .keyword .use) :
    Yields n ahead useLibrary fun v s => Stmt.PhraseOver S (opener :: v) s := by
  refine .look fun k _ => ?_
  split
  · next hk =>
    have hkind : k = .name ∨ k = .text := by simpa using hk
    refine .advance (by rintro rfl; simp at hkind) fun name hname => ?_
    refine .expectSymbol fun semicolon hsemicolon => .done ?_
    exact .useLibrary hopener (hname ▸ hkind) hsemicolon
  · exact .unexpected _

theorem yields_unit : Yields n ahead unit? UnitPhrase := by
  refine .look fun k _ => ?_
  split
  · next hk =>
    subst hk
    rw [Functor.map_map, map_eq_pure_bind]
    exact .advance TokenKind.noConfusion fun t ht => .done (.some ht)
  · exact .done .none

theorem yields_times (hexpr : Sound expression (Expr.Phrase 1)) :
    Yields n ahead (times? expression) TimesPhrase := by
  refine .eat TokenKind.noConfusion (fun comma hcomma => ?_) (.done .none)
  exact (hexpr _).map fun u e hu => .some hcomma hu

theorem yields_trigger (hopener : opener.kind = .trigger)
    (hexpr : Sound expression (Expr.Phrase 1)) (hstmt : Sound statement S) :
    Yields n ahead (trigger expression statement) fun v s => Stmt.PhraseOver S (opener :: v) s := by
  rw [trigger_eq]
  refine .expectSymbol fun left hleft => (hexpr _).bind fun u time hu => ?_
  refine yields_unit.bind fun v unit hv => (yields_times hexpr).bind fun w times hw => ?_
  refine .expectSymbol fun right hright => .expectSymbol fun arrow harrow => ?_
  exact (hstmt _).last fun x action hx => .trigger hopener hleft hu hv hw hright harrow hx

end Statements

/-- A statement is a phrase over those that are read with one level less. -/
theorem yields_statement_succ {S : List Token → Stmt → Prop}
    (hstmt : Sound (statement level) S) :
    Yields n ahead (statement (level + 1)) (Stmt.PhraseOver S) := by
  have hexpr := sound_expression level
  refine .look fun k _ => ?_
  split
  · exact .advance TokenKind.noConfusion fun t ht => yields_function ht hstmt
  · exact .advance TokenKind.noConfusion fun t ht => yields_giveBack ht hexpr
  · exact .advance TokenKind.noConfusion fun t ht => yields_forLoop ht hexpr hstmt
  · exact .advance TokenKind.noConfusion fun t ht => yields_whileLoop ht hexpr hstmt
  · refine .advance TokenKind.noConfusion fun t ht => .bounded fun bound _ => ?_
    exact yields_conditional hexpr hstmt bound ht
  · exact .advance TokenKind.noConfusion fun t ht => yields_print ht hexpr
  · exact .advance TokenKind.noConfusion fun t ht => yields_input ht hexpr
  · exact .advance TokenKind.noConfusion fun t ht => yields_useLibrary ht
  · exact .advance TokenKind.noConfusion fun t ht => yields_trigger ht hexpr hstmt
  · refine ((hexpr _).weaken fun _ _ => trivial).bind fun u value hu => ?_
    exact .expectSymbol fun semicolon hsemicolon => .done (.expression hu hsemicolon)

end SealedScript.Parser

namespace SealedScript

open SealedScript.Parser

/-! ### Programs -/

section Mono

variable {α : Type} {D E : List Token → α → Prop}

theorem PhraseRow.mono (hDE : ∀ u a, D u a → E u a) {u : List Token} {as : List α} (h : PhraseRow D u as) :
    PhraseRow E u as := by
  induction h with
  | nil => exact .nil
  | cons ha _ ih => exact .cons (hDE _ _ ha) ih

theorem PhraseBlock.mono (hDE : ∀ u a, D u a → E u a) {u : List Token} {as : List α}
    (h : PhraseBlock D u as) : PhraseBlock E u as := by
  obtain ⟨hopener, hbody, hcloser⟩ := h
  exact .mk hopener (hbody.mono hDE) hcloser

end Mono

namespace Stmt

/-- A phrase for a statement stays one if more is a phrase inside it. -/
theorem PhraseOver.mono {S T : List Token → Stmt → Prop} (hST : ∀ u s, S u s → T u s) {u : List Token}
    {s : Stmt} (h : PhraseOver S u s) : PhraseOver T u s := by
  induction h with
  | print h₁ h₂ hu h₃ => exact .print h₁ h₂ hu h₃
  | conditional h₁ h₂ hu h₃ hv => exact .conditional h₁ h₂ hu h₃ (hv.mono hST)
  | conditionalElse h₁ h₂ hu h₃ hv h₄ hw =>
    exact .conditionalElse h₁ h₂ hu h₃ (hv.mono hST) h₄ (hw.mono hST)
  | conditionalElseIf h₁ h₂ hu h₃ hv h₄ h₅ _ ih =>
    exact .conditionalElseIf h₁ h₂ hu h₃ (hv.mono hST) h₄ h₅ ih
  | forLoop h₁ h₂ hu h₃ hv h₄ hw h₅ hx => exact .forLoop h₁ h₂ hu h₃ hv h₄ hw h₅ (hx.mono hST)
  | whileLoop h₁ h₂ hu h₃ hv => exact .whileLoop h₁ h₂ hu h₃ (hv.mono hST)
  | input h₁ h₂ hu h₃ hv h₄ => exact .input h₁ h₂ hu h₃ hv h₄
  | function h₁ h₂ h₃ hu hv h₄ => exact .function h₁ h₂ h₃ hu (hv.mono hST) h₄
  | giveBackNothing h₁ h₂ => exact .giveBackNothing h₁ h₂
  | giveBack h₁ hu h₂ => exact .giveBack h₁ hu h₂
  | useLibrary h₁ h₂ h₃ => exact .useLibrary h₁ h₂ h₃
  | trigger h₁ h₂ hu hv hw h₃ h₄ hx => exact .trigger h₁ h₂ hu hv hw h₃ h₄ (hST _ _ hx)
  | expression hu h₁ => exact .expression hu h₁

/-- Phrases for statements with at most this many statements one inside the other,
apart from conditionals that go on with others. -/
def PhraseWithin : Nat → List Token → Stmt → Prop
  | 0 => fun _ _ => False
  | level + 1 => PhraseOver (PhraseWithin level)

theorem PhraseWithin.phrase {level : Nat} {u : List Token} {s : Stmt} (h : PhraseWithin level u s) :
    Phrase u s := by
  induction level generalizing u s with
  | zero => exact False.elim h
  | succ level ih => exact .mk (PhraseOver.mono (fun _ _ => ih) h)

theorem PhraseWithin.ne_nil {level : Nat} {u : List Token} {s : Stmt} (h : PhraseWithin level u s) : u ≠ [] := by
  cases level with
  | zero => exact False.elim h
  | succ level => exact PhraseOver.ne_nil h

end Stmt

/-- The levels that are left bound how deeply statements lie inside one another. -/
theorem Parser.sound_statement (level : Nat) : Sound (statement level) (Stmt.PhraseWithin level) := by
  induction level with
  | zero => exact fun n => .tooDeep
  | succ level ih => exact fun n => yields_statement_succ ih

/-- Where a row of tokens is read as a program, reading has come to the end of its tokens in
front of the one that ends them. -/
theorem run_of_parseTokens {tokens : List Token} {program : List Stmt} (h : parseTokens tokens = .ok program) :
    let body := tokens.takeWhile fun t => t.kind ≠ .stop
    Parser.program ⟨stopToken tokens, body.length + 1⟩ body = .ok (program, []) := by
  intro body
  let ctx : ParserContext := ⟨stopToken tokens, body.length + 1⟩
  have hparse : parseTokens tokens = (fun result => result.1) <$> Parser.program ctx body := rfl
  obtain ⟨rest, hrun⟩ : ∃ rest, Parser.program ctx body = .ok (program, rest) := by
    rw [hparse] at h
    rcases hrun : Parser.program ctx body with e | ⟨program', rest⟩
    · rw [hrun] at h
      cases h
    · rw [hrun] at h
      cases h
      exact ⟨rest, rfl⟩
  have hstmt (n : Nat) : Yields n (fun k => decide (k = .stop) = false) (statement maxNesting)
      (Stmt.PhraseWithin 256) :=
    (sound_statement 256 n).weaken fun _ _ => trivial
  have hstop : ctx.stop.kind = .stop := stopToken_kind tokens
  have hends : decide (ctx.next rest = .stop) = true :=
    ends_many hstmt (fun u s => Stmt.PhraseWithin.ne_nil) hstop ctx.turns (Nat.lt_succ_self _)
      (Nat.lt_succ_self _) hrun
  obtain ⟨used, hbody, -⟩ := (yields_many hstmt ctx.turns : Yields ctx.turns (fun _ => True) _ _) ctx body rest program
    hstop trivial (Nat.lt_succ_self _) (Nat.le_refl _) hrun
  -- no token of the body ends it, so reading has not come to a halt before its end
  have hrest : rest = [] := by
    cases rest with
    | nil => rfl
    | cons t rest =>
      have ht : t ∈ body := by
        rw [hbody]
        exact List.mem_append_right used (List.mem_cons_self ..)
      have hkind := List.mem_takeWhile_imp ht
      exact absurd (of_decide_eq_true hends) (of_decide_eq_true hkind)
  rwa [hrest] at hrun

/-- All tokens in front of the one that ends them are those of the statements. -/
theorem phraseRow_of_parseTokens {tokens : List Token} {program : List Stmt}
    (h : parseTokens tokens = .ok program) :
    PhraseRow (Stmt.PhraseWithin 256) (tokens.takeWhile fun t => t.kind ≠ .stop) program := by
  let body := tokens.takeWhile fun t => t.kind ≠ .stop
  let ctx : ParserContext := ⟨stopToken tokens, body.length + 1⟩
  have hrow : Yields ctx.turns (fun _ => True) (many (fun kind => kind = .stop) (statement maxNesting) ctx.turns)
      (PhraseRow (Stmt.PhraseWithin 256)) :=
    yields_many (fun n => (sound_statement 256 n).weaken fun _ _ => trivial) ctx.turns
  obtain ⟨used, hbody, hused⟩ := hrow ctx body [] program (stopToken_kind tokens) trivial (Nat.lt_succ_self _)
    (Nat.le_refl _) (run_of_parseTokens h)
  show PhraseRow (Stmt.PhraseWithin 256) body program
  rw [hbody, List.append_nil]
  exact hused

/-- **Parsing is sound.**  If a row of tokens is read as a program, then its tokens in
front of the first one that ends a program, or all of them if there is none, are a phrase
for the program. -/
theorem parseTokens_sound {tokens : List Token} {program : List Stmt} (h : parseTokens tokens = .ok program) :
    ProgramPhrase (tokens.takeWhile fun t => t.kind ≠ .stop) program :=
  (phraseRow_of_parseTokens h).mono fun _ _ => Stmt.PhraseWithin.phrase

/-- Tokens behind which a program has ended:

    if (a) { b = -c++; }
-/
def negativeTokens : List Token :=
  [(.keyword .ifWord, "if"), (.symbol .openParen, "("), (.name, "a"), (.symbol .closeParen, ")"),
   (.symbol .openBrace, "\x7b"), (.name, "b"), (.symbol .assign, "="), (.symbol .minus, "-"),
   (.name, "c"), (.symbol .plusPlus, "++"), (.symbol .semicolon, ";"), (.symbol .closeBrace, "\x7d"),
   (.stop, ""), (.name, "d")].map fun word : TokenKind × String => ⟨word.1, word.2, .start⟩

/-- The sign is a subtraction from zero, and nothing behind the end counts. -/
def negativeProgram : List Stmt :=
  [.conditional (.variable ⟨"a", false⟩)
    [.expression (.assign ⟨"b", false⟩ .set
      (.binary .sub (.literal (.int 0)) (.step ⟨"c", false⟩ .up true)))] none]

theorem negativeProgram_phrase :
    parseTokens negativeTokens = .ok negativeProgram ∧
    ProgramPhrase (negativeTokens.take 12) negativeProgram := by
  have hread : parseTokens negativeTokens = .ok negativeProgram := rfl
  exact ⟨hread, parseTokens_sound hread⟩

end SealedScript

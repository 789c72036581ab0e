/-
SealedScript/Proofs/Machine/Composition.lean

Programs compose.  Two texts that are programs, joined by a line break, are the program
of the statements of the first and then those of the second; and to execute it is to
execute the first text and then, if that is done, the second one.

The break keeps the tokens on both sides apart, so the joined text has the tokens of
both, those of the second at other places.  The statements of the first text are read
again in front of them, since the token that comes next is not `else`; and what is left
then are the tokens of the second text alone, which are read as they are on their own.

Main result: `programs_compose`.
-/
import SealedScript.Machine.Run
import SealedScript.Proofs.Program.Lookahead
import SealedScript.Proofs.Program.Seam
import SealedScript.Proofs.Program.Soundness

namespace SealedScript

open SealedScript.Parser

/-! ### Joined programs -/

/-- No program begins with `else`. -/
theorem next_ne_else {ctx : ParserContext} (hstop : ctx.stop.kind = .stop) {toks rest : List Token}
    {program : List Stmt} (hturns : toks.length < ctx.turns)
    (hrun : Parser.program ctx toks = .ok (program, rest)) : ctx.next toks ≠ .keyword .elseWord := by
  intro hnext
  have hmany : many (fun kind => kind = .stop) (statement maxNesting) ctx.turns ctx toks = .ok (program, rest) := hrun
  obtain ⟨bound, hbound⟩ := Nat.exists_eq_succ_of_ne_zero (Nat.ne_of_gt (Nat.zero_lt_of_lt hturns))
  rw [hbound] at hmany
  rcases many_eq_ok hmany with ⟨hends, -⟩ | ⟨-, stmt, mid, -, hstmt, -⟩
  · rw [hnext] at hends
    cases hends
  · obtain ⟨used, -, hfalse⟩ :=
      else_begins_no_statement maxNesting ctx toks mid stmt hstop hnext hturns (Nat.le_refl _) hstmt
    exact hfalse

/-- A program is read again from tokens with the same words, whatever bounds the loops. -/
theorem program_elsewhere {ctx ctx' : ParserContext} (hstop : ctx.stop.kind = .stop) (hstop' : ctx'.stop.kind = .stop)
    {toks toks' : List Token} {program : List Stmt} (hturns : toks.length < ctx.turns)
    (hrun : Parser.program ctx toks = .ok (program, [])) (hwords : toks'.map Token.word = toks.map Token.word)
    (hturns' : toks.length < ctx'.turns) {bound : Nat} (hbound : toks'.length < bound) :
    many (fun kind => kind = .stop) (statement maxNesting) bound ctx' toks' = .ok (program, []) := by
  have hlength : toks'.length = toks.length := by
    simpa using congrArg List.length hwords
  -- inner loops are bounded by the context and this one by its own bound: both have to suffice
  have hrepeats : Repeats ctx.turns (min bound ctx'.turns) (fun _ => True) false (fun _ => False)
      (many (fun kind => kind = .stop) (statement maxNesting) ctx.turns)
      (many (fun kind => kind = .stop) (statement maxNesting) bound) :=
    repeats_many (closed_statement maxNesting) (Nat.le_refl _) (Nat.min_le_left _ _)
  obtain ⟨used, htoks, -, hagain⟩ := hrepeats ctx toks [] program hstop trivial hturns (Nat.le_refl _) hrun
  rw [List.append_nil] at htoks
  subst htoks
  have hnext : ctx'.next [] = ctx.next [] := hstop'.trans hstop.symm
  have hrun' := hagain ctx' toks' [] hwords (by omega) (Nat.min_le_right _ _) (.inl hnext)
  rwa [List.append_nil] at hrun'

/-- The tokens in front of the first one that ends a program. -/
def inFront (tokens : List Token) : List Token := tokens.takeWhile fun t => t.kind ≠ .stop

theorem inFront_append {front : List Token} (hfront : ∀ t ∈ front, t.kind ≠ .stop) (behind : List Token) :
    inFront (front ++ behind) = front ++ inFront behind :=
  List.takeWhile_append_of_pos fun t ht => decide_eq_true (hfront t ht)

theorem words_inFront {us us' : List Token} (hwords : us'.map Token.word = us.map Token.word) :
    (inFront us').map Token.word = (inFront us).map Token.word := by
  have hmap (ts : List Token) : (inFront ts).map Token.word
      = (ts.map Token.word).takeWhile fun word => word.1 ≠ .stop := by
    rw [List.takeWhile_map]
    rfl
  rw [hmap, hmap, hwords]

/-- Tokens in front of one that ends them, and then those of another program. -/
theorem parseTokens_joined {front us us' : List Token} {place : Position} {x y : List Stmt}
    (hfront : ∀ t ∈ front, t.kind ≠ .stop) (hx : parseTokens (front ++ [Token.stopAt place]) = .ok x)
    (hy : parseTokens us = .ok y) (hwords : us'.map Token.word = us.map Token.word) :
    parseTokens (front ++ us') = .ok (x ++ y) := by
  have hfirst : Parser.program ⟨stopToken (front ++ [Token.stopAt place]), front.length + 1⟩ front = .ok (x, []) := by
    have hbody : inFront (front ++ [Token.stopAt place]) = front := by
      rw [inFront_append hfront]
      exact List.append_nil front
    have hrun := run_of_parseTokens hx
    rwa [← inFront, hbody] at hrun
  let ctx : ParserContext := ⟨stopToken (front ++ us'), (front ++ inFront us').length + 1⟩
  have hstop : ctx.stop.kind = .stop := stopToken_kind _
  have hturns : front.length + (inFront us').length < ctx.turns := by
    rw [← List.length_append]
    exact Nat.lt_succ_self _
  have hlength : (inFront us').length = (inFront us).length := by
    simpa using congrArg List.length (words_inFront hwords)
  have halone : Parser.program ⟨stopToken us, (inFront us).length + 1⟩ (inFront us) = .ok (y, []) :=
    run_of_parseTokens hy
  -- how many turns are left at the seam depends on the first program, so any bound has to do
  have hsecond (bound : Nat) (hbound : (inFront us').length < bound) :
      many (fun kind => kind = .stop) (statement maxNesting) bound ctx (inFront us') = .ok (y, []) :=
    program_elsewhere (stopToken_kind us) hstop (Nat.lt_succ_self _) halone (words_inFront hwords) (by omega) hbound
  have hnext : ctx.next (inFront us') ≠ .keyword .elseWord :=
    next_ne_else hstop (by omega) (hsecond ctx.turns (by omega))
  have hjoined : Parser.program ctx (front ++ inFront us') = .ok (x ++ y, []) :=
    many_append (closed_statement maxNesting) (stopToken_kind _) hnext hsecond hfirst (Nat.lt_succ_self _)
      (Nat.lt_succ_self _) hturns (by omega)
  have hparse : parseTokens (front ++ us') = (fun result => result.1) <$> Parser.program
      ⟨stopToken (front ++ us'), (inFront (front ++ us')).length + 1⟩ (inFront (front ++ us')) := rfl
  rw [hparse, inFront_append hfront, hjoined]
  rfl

theorem parseProgram_eq_ok {source : String} {program : List Stmt} :
    parseProgram source = .ok program ↔ ∃ tokens, tokenize source = .ok tokens ∧ parseTokens tokens = .ok program := by
  have hparse : parseProgram source
      = ((tokenize source).mapError .lex).bind fun tokens => (parseTokens tokens).mapError .parse := rfl
  rw [hparse]
  rcases tokenize source with e | tokens
  · exact ⟨nofun, nofun⟩
  · show (parseTokens tokens).mapError SourceError.parse = .ok program ↔ _
    rcases hprogram : parseTokens tokens with e | program'
    · simp [Except.mapError, hprogram]
    · simp [Except.mapError, hprogram]

/-- Texts that are joined by a line break. -/
theorem parseProgram_joined {a b : String} {x y : List Stmt} (ha : parseProgram a = .ok x)
    (hb : parseProgram b = .ok y) : parseProgram (a ++ "\n" ++ b) = .ok (x ++ y) := by
  obtain ⟨ts, hts, hx⟩ := parseProgram_eq_ok.mp ha
  obtain ⟨us, hus, hy⟩ := parseProgram_eq_ok.mp hb
  obtain ⟨front, place, us', rfl, hfront, htokens, hwords⟩ := tokenize_joined hts hus
  exact parseProgram_eq_ok.mpr ⟨front ++ us', htokens, parseTokens_joined hfront hx hy hwords⟩

/-! ### Joined runs -/

namespace Action

/-- Statements behind others. -/
theorem execute_append (steps : Nat) (x y : List Stmt) :
    execute steps (x ++ y) = execute steps x >>= fun _ => execute steps y := by
  induction x with
  | nil => rfl
  | cons stmt x ih =>
    funext m
    show Action.bind (runTopLevel steps stmt) (fun _ => execute steps (x ++ y)) m
      = Action.bind (Action.bind (runTopLevel steps stmt) fun _ => execute steps x) (fun _ => execute steps y) m
    rw [ih]
    unfold Action.bind
    rcases runTopLevel steps stmt m with ⟨_ | _ | _ | _, m'⟩ <;> rfl

theorem executeSource_of_parse {source : String} {program : List Stmt} (h : parseProgram source = .ok program)
    (steps : Nat) (m : Machine) :
    executeSource steps source m = (.ok (execute steps program m).1, (execute steps program m).2) := by
  unfold executeSource
  rw [h]

end Action

/-- **Programs compose.**  If two texts are programs, then

* the two with a line break between them are the program of the statements of the first
  and then those of the second;
* on any machine, to execute it is to execute the first text and, if that is done, the
  second one on the machine that it leaves; and if the first text fails or ends otherwise,
  then the joined text ends in the same way and leaves the same machine. -/
theorem programs_compose {a b : String} {x y : List Stmt} (ha : parseProgram a = .ok x) (hb : parseProgram b = .ok y) :
    parseProgram (a ++ "\n" ++ b) = .ok (x ++ y) ∧
    ∀ (steps : Nat) (m : Machine), Action.executeSource steps (a ++ "\n" ++ b) m =
      match Action.executeSource steps a m with
      | (.ok (.done ()), m') => Action.executeSource steps b m'
      | ended => ended := by
  have hjoined := parseProgram_joined ha hb
  refine ⟨hjoined, fun steps m => ?_⟩
  have hboth : Action.execute steps (x ++ y) m
      = Action.bind (Action.execute steps x) (fun _ => Action.execute steps y) m :=
    congrFun (Action.execute_append steps x y) m
  rw [Action.executeSource_of_parse hjoined, Action.executeSource_of_parse ha, hboth]
  unfold Action.bind
  rcases Action.execute steps x m with ⟨_ | _ | _ | _, m'⟩
  · exact (Action.executeSource_of_parse hb steps m').symm
  · rfl
  · rfl
  · rfl

/-- A conditional without another branch, and a comment up to the end:

    if (a) { b; } // no other branch
-/
def openEnded : String := "if (a) \x7b b; \x7d // no other branch"

def openEndedTokens : List Token :=
  [((.keyword .ifWord, "if"), 1), ((.symbol .openParen, "("), 4), ((.name, "a"), 5), ((.symbol .closeParen, ")"), 6),
   ((.symbol .openBrace, "\x7b"), 8), ((.name, "b"), 10), ((.symbol .semicolon, ";"), 11),
   ((.symbol .closeBrace, "\x7d"), 13), ((.stop, ""), 33)].map
    fun entry : (TokenKind × String) × Nat => ⟨entry.1.1, entry.1.2, ⟨1, entry.2⟩⟩

def openEndedProgram : List Stmt :=
  [.conditional (.variable ⟨"a", false⟩) [.expression (.variable ⟨"b", false⟩)] none]

theorem parseProgram_openEnded : parseProgram openEnded = .ok openEndedProgram :=
  parseProgram_eq_ok.mpr ⟨openEndedTokens, by decide +kernel, rfl⟩

/-- What is to follow:

    print -> a;
-/
def printing : String := "print -> a;"

def printingTokens : List Token :=
  [((.keyword .print, "print"), 1), ((.symbol .arrow, "->"), 7), ((.name, "a"), 10), ((.symbol .semicolon, ";"), 11),
   ((.stop, ""), 12)].map fun entry : (TokenKind × String) × Nat => ⟨entry.1.1, entry.1.2, ⟨1, entry.2⟩⟩

def printingProgram : List Stmt := [.print (.variable ⟨"a", false⟩)]

theorem parseProgram_printing : parseProgram printing = .ok printingProgram :=
  parseProgram_eq_ok.mpr ⟨printingTokens, by decide +kernel, rfl⟩

/-- A machine that knows what is asked for. -/
def Machine.knowing : Machine := { globals := [("a", ⟨.bool false, false⟩)] }

/-- The conditional does not go on with what follows.  Where it fails, nothing else is
done; where it does not, what follows is printed. -/
theorem openEnded_composes :
    parseProgram openEnded = .ok openEndedProgram ∧ parseProgram printing = .ok printingProgram ∧
    parseProgram (openEnded ++ "\n" ++ printing) = .ok (openEndedProgram ++ printingProgram) ∧
    (Action.executeSource 4 (openEnded ++ "\n" ++ printing) {}).1 = .ok (.failed (.undefinedVariable "a")) ∧
    (Action.executeSource 4 (openEnded ++ "\n" ++ printing) .knowing).2.console.written = #[.line "false"] := by
  obtain ⟨hparse, hrun⟩ := programs_compose parseProgram_openEnded parseProgram_printing
  refine ⟨parseProgram_openEnded, parseProgram_printing, hparse, ?_, ?_⟩
  · have hfails : (Action.execute 4 openEndedProgram {}).1 = .failed (.undefinedVariable "a") := rfl
    rw [hrun, Action.executeSource_of_parse parseProgram_openEnded, hfails]
  · have hdone : Action.execute 4 openEndedProgram .knowing = (.done (), .knowing) := rfl
    have hprints : (Action.execute 4 printingProgram .knowing).2.console.written = #[.line "false"] := rfl
    rw [hrun, Action.executeSource_of_parse parseProgram_openEnded, hdone]
    dsimp only
    rw [Action.executeSource_of_parse parseProgram_printing]
    exact hprints

end SealedScript

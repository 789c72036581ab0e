/-
SealedScript/Proofs/Program/RoundTrip.lean

Reading back programs: the tokens of a program are read as that program if it opens
no more levels at once than there are, and otherwise reading fails for want of
levels.  A statement is read wherever no `else` stands behind it, which a
conditional without another branch would take.
-/
import Mathlib.Data.List.TakeWhile
import SealedScript.Proofs.Program.Expressions

namespace SealedScript

open Rendering SealedScript.Parser

variable {spell : Float → String} {n : Nat}

/-! ### How statements begin -/

/-- Whether a statement can begin with such a token. -/
def TokenKind.beginsStatement : TokenKind → Bool
  | .trigger => true
  | .keyword w => w ≠ .elseWord ∧ w ≠ .toWord
  | kind => kind.beginsExpression

theorem TokenKind.beginsStatement_of_expression {kind : TokenKind} (h : kind.beginsExpression = true) :
    kind.beginsStatement = true := by
  cases kind with
  | keyword w => cases w <;> first | rfl | exact absurd h (by decide)
  | trigger => rfl
  | _ => exact h

theorem Stmt.begins (s : Stmt) (k : TokenKind) : ((s.render spell).next k).beginsStatement = true := by
  match s with
  | .expression value =>
    rw [render, next_opened, next_cons]
    exact TokenKind.beginsStatement_of_expression (value.renderAt_begins spell 1 _)
  | .conditional _ _ none | .conditional _ _ (some _) => rfl
  | .giveBack none | .giveBack (some _) => rfl
  | .print _ | .forLoop .. | .whileLoop .. | .input .. | .function .. | .useLibrary _ | .trigger .. => rfl

theorem Stmt.begins_of_mem_renderAll {body : List Stmt} {r : Rendering} (hr : r ∈ renderAll spell body)
    (k : TokenKind) : (r.next k).beginsStatement = true := by
  induction body with
  | nil => cases hr
  | cons stmt body ih =>
    rcases List.mem_cons.1 hr with rfl | hr
    · exact stmt.begins k
    · exact ih hr

/-! ### Statements in rows -/

/-- The statement is read back. -/
def Stmt.ReadBack (spell : Float → String) (s : Stmt) : Prop :=
  ∀ n, Reads n statement (s.render spell) (fun k => k ≠ .keyword .elseWord) s

/-- All statements are read back. -/
abbrev Stmt.AllReadBack (spell : Float → String) (body : List Stmt) : Prop :=
  List.Forall₂ (fun r s => ∀ n, Reads n statement r (fun k => k ≠ .keyword .elseWord) s)
    (renderAll spell body) body

namespace Stmt

/-- Statements up to a token with which none begins. -/
theorem AllReadBack.reads_many {body : List Stmt} (h : AllReadBack spell body) {ends : TokenKind → Bool}
    (hends : ∀ k, k.beginsStatement = true → ends k = false) {bound : Nat} (hbound : n ≤ bound) :
    Reads n (fun level => many ends (statement level) bound) (row (renderAll spell body))
      (fun k => ends k = true ∧ k ≠ .keyword .elseWord) body := by
  refine Parser.reads_many (fun r hr k => ?_) h n bound hbound
  have hbegin := begins_of_mem_renderAll hr k
  refine ⟨hends _ hbegin, fun heq => ?_⟩
  rw [heq] at hbegin
  exact absurd hbegin (by decide)

/-- Statements in braces. -/
theorem AllReadBack.reads_block {body : List Stmt} (h : AllReadBack spell body) :
    Reads n (fun level => block (statement level)) (braced (renderAll spell body)) (fun _ => True) body := by
  have hends (k : TokenKind) (hk : k.beginsStatement = true) :
      (decide (k = .symbol .closeBrace) || decide (k = .stop)) = false := by
    rw [Bool.or_eq_false_iff, decide_eq_false_iff_not, decide_eq_false_iff_not]
    constructor <;> rintro rfl <;> exact absurd hk (by decide)
  refine .expectSymbol (.bounded fun bound hbound => ?_)
  refine (h.reads_many hends hbound).append (.expectSymbol .done) fun k _ => ⟨rfl, ?_⟩
  exact TokenKind.noConfusion

/-! ### The kinds of statements -/

end Stmt

namespace Parser

/-- The unit of a time, where one is given. -/
def unit? : Parser (Option String) := do
  if (← peekKind) = .name then some <$> (Token.lexeme <$> advance) else pure none

/-- How often a timer fires, where this is given. -/
def times? (expression : Parser Expr) : Parser (Option Expr) := do
  if ← eat (.symbol .comma) then some <$> expression else pure none

theorem trigger_eq (expression : Parser Expr) (statement : Parser Stmt) :
    trigger expression statement = (do
      expectSymbol .openParen "'(' after event trigger"
      let time ← expression
      let unit ← unit?
      let times ← times? expression
      expectSymbol .closeParen "')' after event trigger arguments"
      expectSymbol .arrow "'->' before event trigger action"
      return .trigger time unit times (← statement)) := by
  have hite {α β : Type} {c : Prop} [Decidable c] (p q : Parser α) (f : α → Parser β) :
      (if c then p else q) >>= f = if c then p >>= f else q >>= f := apply_ite (· >>= f) c p q
  simp only [trigger, unit?, times?, bind_assoc, hite]

end Parser

namespace Stmt

theorem readBack_print {value : Expr} (hv : value.ReadBack spell) : (print value).ReadBack spell := by
  intro n
  refine Takes.opened (.look fun k _ => .advance fun _ _ => .expectSymbol ?_) rfl
  exact (hv.reads _).append (.expectSymbol .done) fun _ _ => Nat.zero_lt_one

theorem readBack_conditional {condition : Expr} {yes : List Stmt} (hc : condition.ReadBack spell)
    (hy : AllReadBack spell yes) : (conditional condition yes none).ReadBack spell := by
  intro n
  rw [render]
  refine Takes.opened (.look fun k _ => .advance fun _ _ => .bounded fun _ hbound => .turning (fun bound _ => ?_) hbound) rfl
  refine .expectSymbol ((hc.reads _).append (.expectSymbol ?_) fun _ _ => Nat.zero_lt_one)
  exact hy.reads_block.append (.eat_none (fun k hk => hk) .done) fun _ _ => trivial

theorem readBack_conditional_else {condition : Expr} {yes no : List Stmt} (hc : condition.ReadBack spell)
    (hy : AllReadBack spell yes) (hn : AllReadBack spell no) :
    (conditional condition yes (some no)).ReadBack spell := by
  intro n
  rw [render]
  refine Takes.opened (.look fun k _ => .advance fun _ _ => .bounded fun _ hbound => .turning (fun bound _ => ?_) hbound) rfl
  refine .expectSymbol ((hc.reads _).append (.expectSymbol ?_) fun _ _ => Nat.zero_lt_one)
  have hbrace : TokenKind.symbol .openBrace ≠ .keyword .ifWord := by decide
  refine hy.reads_block.append (.eat (.eat_none (fun k hk => hbrace) ?_)) fun _ _ => trivial
  exact hn.reads_block.append .done fun _ _ => trivial

theorem readBack_whileLoop {condition : Expr} {body : List Stmt} (hc : condition.ReadBack spell)
    (hb : AllReadBack spell body) : (whileLoop condition body).ReadBack spell := by
  intro n
  refine Takes.opened (.look fun k _ => .advance fun _ _ => .expectSymbol ?_) rfl
  refine (hc.reads _).append (.expectSymbol ?_) fun _ _ => Nat.zero_lt_one
  exact hb.reads_block.append .done fun _ _ => trivial

theorem readBack_forLoop {start condition step : Expr} {body : List Stmt} (hs : start.ReadBack spell)
    (hc : condition.ReadBack spell) (ht : step.ReadBack spell) (hb : AllReadBack spell body) :
    (forLoop start condition step body).ReadBack spell := by
  intro n
  refine Takes.opened (.look fun k _ => .advance fun _ _ => .expectSymbol ?_) rfl
  refine (hs.reads _).append (.expectSymbol ?_) fun _ _ => Nat.zero_lt_one
  refine (hc.reads _).append (.expectSymbol ?_) fun _ _ => Nat.zero_lt_one
  refine (ht.reads _).append (.expectSymbol ?_) fun _ _ => Nat.zero_lt_one
  exact hb.reads_block.append .done fun _ _ => trivial

theorem readBack_input {prompt : Expr} {target : VarRef} (hp : prompt.ReadBack spell) (ht : target.writable = true) :
    (input prompt target).ReadBack spell := by
  have htarget : (Expr.variable target).ReadBack spell := Expr.readBack_variable ht
  intro n
  refine Takes.opened (.look fun k _ => .advance fun _ _ => .expectSymbol ?_) rfl
  refine (hp.reads _).append (.expectSymbol (.glance fun _ => ?_)) fun _ _ => Nat.zero_lt_one
  exact (htarget.reads _).append (.expectSymbol .done) fun _ _ => Nat.zero_lt_one

/-- The name of a parameter. -/
theorem reads_name {expected : String} (x : String) :
    Reads n (fun _ => do return (← expect .name expected).lexeme) (name x) (fun _ => True) x := by
  rw [← row_singleton (name x)]
  refine .expect fun t ht => ?_
  rw [ht]
  exact .done

theorem readBack_function {f : String} {params : List String} {body : List Stmt} (hb : AllReadBack spell body) :
    (function f params body).ReadBack spell := by
  have hopen (r : Rendering) (hr : r ∈ params.map name) (k : TokenKind) : r.next k ≠ .symbol .closeParen := by
    obtain ⟨x, -, rfl⟩ := List.mem_map.1 hr
    exact TokenKind.noConfusion
  intro n
  refine Takes.opened (.look fun k _ => .advance fun _ _ => .expect fun t ht => .expectSymbol ?_) rfl
  rw [ht]
  have hnames : List.Forall₂
      (fun r x => ∀ n, Reads n (fun _ => do return (← expect .name "parameter name").lexeme) r (fun _ => True) x)
      (params.map name) params :=
    List.forall₂_map_left_iff.2 (List.forall₂_same.2 fun x _ n => reads_name x)
  refine (reads_enclosed trivial trivial (by decide) hopen hnames _).append ?_ fun _ _ => trivial
  exact hb.reads_block.append (.expectSymbol .done) fun _ _ => trivial

theorem readBack_giveBack_none : (giveBack none).ReadBack spell := by
  intro n
  refine Takes.opened (.look fun k _ => .advance fun _ _ => .look fun k _ => ?_) rfl
  simp only [next_cons, next_symbol, if_true, pure_bind]
  exact .expectSymbol .done

theorem readBack_giveBack_some {value : Expr} (hv : value.ReadBack spell) :
    (giveBack (some value)).ReadBack spell := by
  intro n
  refine Takes.opened (.look fun k _ => .advance fun _ _ => .look fun k _ => ?_) rfl
  have hbegin := value.renderAt_begins spell 1 (.symbol .semicolon)
  have hsemicolon : (value.renderWhole spell).next (.symbol .semicolon) ≠ .symbol .semicolon := by
    intro heq
    rw [heq] at hbegin
    exact absurd hbegin (by decide)
  simp only [next_cons, next_symbol, hsemicolon, if_false]
  exact ((hv.reads _).map some).append (.expectSymbol .done) fun _ _ => Nat.zero_lt_one

theorem readBack_useLibrary {library : String} : (useLibrary library).ReadBack spell := by
  intro n
  refine Takes.opened (.look fun k _ => .advance fun _ _ => .look fun k _ => .advance fun t ht => ?_) rfl
  rw [ht]
  exact .expectSymbol .done

/-- The unit of a time, where one is given. -/
theorem reads_unit (unit : Option String) :
    Reads n (fun _ => unit?) (row (unit.toList.map name)) (fun k => k ≠ .name) unit := by
  refine .look fun k hk => ?_
  cases unit with
  | none =>
    simp only [Option.toList_none, List.map_nil, next_nil, hk, if_false]
    exact .done
  | some u =>
    simp only [Option.toList_some, List.map_cons, List.map_nil, next_cons, next_name, if_true,
      map_eq_pure_bind, bind_assoc, pure_bind]
    refine .advance fun t ht => ?_
    rw [ht]
    exact .done

/-- How often a timer fires, where this is given. -/
theorem reads_times {times : Option Expr} (h : ∀ e ∈ times, e.ReadBack spell) :
    Reads n (fun level => times? (Parser.expression level))
      (row (times.toList.map fun e => row [symbol .comma, e.renderWhole spell]))
      (fun k => k.bond < 1 ∧ k ≠ .symbol .comma) times := by
  cases times with
  | none => exact .eat_none (fun k hk => hk.2) .done
  | some e =>
    rw [Option.toList_some, List.map_singleton, row_singleton]
    refine .eat ?_
    rw [row_singleton]
    exact (((h e rfl).reads _).map some).weaken fun k hk => hk.1

theorem readBack_trigger {time : Expr} {unit : Option String} {times : Option Expr} {action : Stmt}
    (ht : time.ReadBack spell) (hn : ∀ e ∈ times, e.ReadBack spell) (ha : action.ReadBack spell) :
    (trigger time unit times action).ReadBack spell := by
  intro n
  refine Takes.opened (.look fun k _ => .advance fun _ _ => ?_) rfl
  simp only [trigger_eq]
  refine .expectSymbol ((ht.reads _).append ?_ fun _ _ => ?_)
  · refine (reads_unit unit).append ?_ fun _ _ => ?_
    · refine (reads_times hn).append (.expectSymbol (.expectSymbol ?_)) fun _ _ => ?_
      · exact (ha _).append .done fun k hk => hk
      · rw [next_cons, next_symbol]
        decide
    · cases times <;> exact TokenKind.noConfusion
  · cases unit <;> cases times <;> exact Nat.zero_lt_one

theorem readBack_expression {value : Expr} (hv : value.ReadBack spell) : (expression value).ReadBack spell := by
  intro n
  refine Takes.opened (.look fun k _ => ?_) rfl
  have hread : Reads n
      (fun level => Parser.expression level >>= fun value =>
        expectSymbol .semicolon "';' after expression" >>= fun _ => pure (expression value))
      (row [value.renderWhole spell, symbol .semicolon]) (fun k => k ≠ .keyword .elseWord) (expression value) :=
    (hv.reads n).append (.expectSymbol .done) fun _ _ => Nat.zero_lt_one
  have hbegin := value.renderAt_begins spell 1 (.symbol .semicolon)
  rw [next_cons, next_cons, next_symbol]
  -- no expression begins with a word that opens another kind of statement
  generalize (value.renderWhole spell).next (.symbol .semicolon) = kind at hbegin ⊢
  cases kind with
  | keyword w => cases w <;> first | exact hread | exact absurd hbegin (by decide)
  | trigger => exact absurd hbegin (by decide)
  | _ => exact hread

/-! ### All statements -/

mutual

/-- **Every statement that can be written is read back.** -/
theorem readBack (s : Stmt) (h : s.writable spell = true) : s.ReadBack spell := by
  match s with
  | .print value => exact readBack_print (value.readBack h)
  | .conditional condition yes none =>
    rw [writable, Bool.and_eq_true] at h
    exact readBack_conditional (condition.readBack h.1) (allReadBack yes h.2)
  | .conditional condition yes (some no) =>
    rw [writable, Bool.and_eq_true, Bool.and_eq_true] at h
    exact readBack_conditional_else (condition.readBack h.1.1) (allReadBack yes h.1.2) (allReadBack no h.2)
  | .forLoop start condition step body =>
    rw [writable, Bool.and_eq_true, Bool.and_eq_true, Bool.and_eq_true] at h
    exact readBack_forLoop (start.readBack h.1.1.1) (condition.readBack h.1.1.2) (step.readBack h.1.2)
      (allReadBack body h.2)
  | .whileLoop condition body =>
    rw [writable, Bool.and_eq_true] at h
    exact readBack_whileLoop (condition.readBack h.1) (allReadBack body h.2)
  | .input prompt _ =>
    rw [writable, Bool.and_eq_true] at h
    exact readBack_input (prompt.readBack h.1) h.2
  | .function _ _ body => exact readBack_function (allReadBack body h)
  | .giveBack none => exact readBack_giveBack_none
  | .giveBack (some value) => exact readBack_giveBack_some (value.readBack h)
  | .useLibrary _ => exact readBack_useLibrary
  | .trigger time _ times action =>
    rw [writable, Bool.and_eq_true, Bool.and_eq_true, Option.all_eq_true] at h
    exact readBack_trigger (time.readBack h.1.1) (fun e he => e.readBack (h.1.2 e he)) (readBack action h.2)
  | .expression value => exact readBack_expression (value.readBack h)

theorem allReadBack (body : List Stmt) (h : allWritable spell body = true) : AllReadBack spell body := by
  match body with
  | [] => exact .nil
  | stmt :: rest =>
    rw [allWritable, Bool.and_eq_true] at h
    exact .cons (readBack stmt h.1) (allReadBack rest h.2)

end

end Stmt

/-! ### Programs -/

theorem stopToken_kind (tokens : List Token) : (stopToken tokens).kind = .stop := by
  unfold stopToken
  split
  next t h => simpa using List.find?_some h
  next => rfl

/-- Statements up to the end, with as many levels as are left. -/
theorem reads_program {program : List Stmt} (h : Stmt.AllReadBack spell program) :
    Reads n (fun level => turns >>= many (fun kind => kind = .stop) (statement level))
      (renderProgram spell program) (fun k => k = .stop) program := by
  have hends (k : TokenKind) (hk : k.beginsStatement = true) : decide (k = .stop) = false := by
    rw [decide_eq_false_iff_not]
    rintro rfl
    exact absurd hk (by decide)
  refine .bounded fun bound hbound => (h.reads_many hends hbound).weaken ?_
  rintro _ rfl
  decide

/-- **Parsing undoes printing.**  Tokens that, up to the one that ends them, are those
of a program are read as that program if it opens at most 256 levels at once, and
otherwise they are refused for want of levels. -/
theorem parseTokens_render (spell : Float → String) (program : List Stmt)
    (hwritable : Stmt.allWritable spell program = true) (tokens : List Token)
    (hspells : Spells (tokens.takeWhile fun t => t.kind ≠ .stop) (renderProgram spell program)) :
    ((renderProgram spell program).levels ≤ 256 → parseTokens tokens = .ok program) ∧
    (256 < (renderProgram spell program).levels →
      ∃ position, parseTokens tokens = .error (.tooDeep position 256)) := by
  let body := tokens.takeWhile fun t => t.kind ≠ .stop
  let ctx : ParserContext := ⟨stopToken tokens, body.length + 1⟩
  have hbody : body ++ [] = body := List.append_nil body
  have hrun : Leads (renderProgram spell program).levels 256 (Parser.program ctx body) (.ok (program, [])) := by
    have hread := reads_program (n := body.length + 1) (Stmt.allReadBack program hwritable) 256 ctx body []
      hspells (stopToken_kind tokens) (by rw [hbody]; exact Nat.lt_succ_self _) (Nat.le_refl _)
    rw [hbody] at hread
    exact hread
  have hparse : parseTokens tokens = (fun result => result.1) <$> Parser.program ctx body := rfl
  constructor
  · intro hle
    rw [hparse, hrun.1 hle]
    rfl
  · intro hlt
    obtain ⟨position, hdeep⟩ := hrun.2 hlt
    exact ⟨position, by rw [hparse, hdeep]; rfl⟩

/-- The tokens of a rendering, all at one place. -/
def Rendering.tokensAt (r : Rendering) (position : Position) : List Token :=
  r.tokens.map fun word => ⟨word.1, word.2, position⟩

theorem Rendering.spells_tokensAt {r : Rendering} (h : ∀ word ∈ r.tokens, word.1 ≠ .stop) (position : Position) :
    Spells ((r.tokensAt position).takeWhile fun t => t.kind ≠ .stop) r := by
  have hall : (r.tokensAt position).takeWhile (fun t => t.kind ≠ .stop) = r.tokensAt position := by
    refine List.takeWhile_eq_self_iff.2 fun t ht => ?_
    obtain ⟨word, hword, rfl⟩ := List.mem_map.1 ht
    exact decide_eq_true (h word hword)
  rw [Spells, hall, tokensAt, List.map_map]
  exact List.map_id r.tokens

/-- A function with both branches of a conditional, and a timer.  Only the sum needs
parentheses:

    function f(a) { if (a < 2) { return; } else { return (y + 0.5) * f(y--)[y = 0]; } };
    @EVENT_TRIGGER(1 s, 3) -> @ENCx += y[0] = !++@ENCx;
-/
def sampleProgram : List Stmt :=
  [.function "f" ["a"]
     [.conditional (.binary .lt (.variable ⟨"a", false⟩) (.literal (.int 2)))
        [.giveBack none]
        (some [.giveBack (some
          (.binary .mul (.binary .add (.variable ⟨"y", false⟩) (.literal (.float 0.5)))
            (.element (.call "f" [.step ⟨"y", false⟩ .down true])
              (.assign ⟨"y", false⟩ .set (.literal (.int 0))))))])],
   .trigger (.literal (.int 1)) (some "s") (some (.literal (.int 3)))
     (.expression (.assign ⟨"x", true⟩ .add
       (.assignElement (.variable ⟨"y", false⟩) (.literal (.int 0)) .set (.not (.step ⟨"x", true⟩ .up false)))))]

/-- A constant behind so many negations that it opens one level too many: the
statement, the expression and 255 operands. -/
def deepProgram : List Stmt := [.expression (Nat.repeat .not 254 (.literal (.bool true)))]

/-- The only floating point number of the two programs is one half. -/
def spellHalf (_ : Float) : String := "0.5"

theorem sampleProgram_read_back :
    (Stmt.allWritable spellHalf sampleProgram = true ∧ (renderProgram spellHalf sampleProgram).levels = 8 ∧
      parseTokens ((renderProgram spellHalf sampleProgram).tokensAt .start) = .ok sampleProgram) ∧
    (Stmt.allWritable spellHalf deepProgram = true ∧ (renderProgram spellHalf deepProgram).levels = 257 ∧
      ∃ position, parseTokens ((renderProgram spellHalf deepProgram).tokensAt .start) =
        .error (.tooDeep position 256)) := by
  have hwritable : Stmt.allWritable spellHalf sampleProgram = true := by decide +kernel
  have hlevels : (renderProgram spellHalf sampleProgram).levels = 8 := by decide +kernel
  have hspells := spells_tokensAt (r := renderProgram spellHalf sampleProgram) (by decide +kernel) .start
  have hdeep : Stmt.allWritable spellHalf deepProgram = true := by decide +kernel
  have hdeepLevels : (renderProgram spellHalf deepProgram).levels = 257 := by decide +kernel
  have hdeepSpells := spells_tokensAt (r := renderProgram spellHalf deepProgram) (by decide +kernel) .start
  have hread := (parseTokens_render _ _ hwritable _ hspells).1 (hlevels ▸ by decide)
  have hrefused := (parseTokens_render _ _ hdeep _ hdeepSpells).2 (hdeepLevels ▸ by decide)
  exact ⟨⟨hwritable, hlevels, hread⟩, hdeep, hdeepLevels, hrefused⟩

end SealedScript

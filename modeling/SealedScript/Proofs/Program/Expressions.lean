/-
SealedScript/Proofs/Program/Expressions.lean

Reading back expressions.  To every place of the table of strengths belongs a
parser, and the parser of a place begins with the parser of the next one.  An
expression is read by the parser of its own strength first; from there it is
brought down to the weaker places, and in parentheses it comes to all places.

Operators that group to the left, and elements and methods, are read by loops.
The left operand of such an expression is not read as a whole: what stands behind
it binds as strongly as the place allows, and the loop goes on with it.  At these
places an expression therefore counts as read when its parser is in the loop.
-/
import Mathlib.Tactic.IntervalCases
import SealedScript.Proofs.Program.Reading
import SealedScript.Proofs.Value.ReadBack

namespace SealedScript

open Rendering

/-! ### What stands behind and in front of an expression -/

/-- The place up to which a symbol, standing behind an expression, is taken for a
part of it, and 0 if it never is. -/
def Symbol.bond : Symbol → Nat
  | .assign | .plusAssign | .minusAssign | .starAssign | .slashAssign => 1
  | .or => 2
  | .and => 3
  | .equal | .notEqual => 4
  | .less | .lessEqual | .greater | .greaterEqual => 5
  | .plus | .minus => 6
  | .star | .slash | .percent => 7
  | .plusPlus | .minusMinus => 9
  | .openBracket | .dot => 10
  | .openParen => 11
  | _ => 0

def TokenKind.bond : TokenKind → Nat
  | .symbol s => s.bond
  | _ => 0

/-- Whether an operand without signs can begin with such a token. -/
def TokenKind.beginsOperand : TokenKind → Bool
  | .number | .text | .name | .keyword .trueWord | .keyword .falseWord => true
  | .symbol .openParen | .symbol .openBracket => true
  | _ => false

/-- Whether an expression can begin with such a token. -/
def TokenKind.beginsExpression : TokenKind → Bool
  | .symbol .bang | .symbol .plusPlus | .symbol .minusMinus => true
  | kind => kind.beginsOperand

theorem TokenKind.beginsExpression_of_operand {kind : TokenKind} (h : kind.beginsOperand = true) :
    kind.beginsExpression = true := by
  unfold beginsExpression
  split
  · rfl
  · rfl
  · rfl
  · exact h

theorem BinaryOp.strength_bounds (op : BinaryOp) : 2 ≤ op.strength ∧ op.strength ≤ 7 := by
  cases op <;> decide

variable {spell : Float → String}

theorem Literal.begins (value : Literal) (k : TokenKind) :
    ((value.render spell).next k).beginsOperand = true := by
  cases value with
  | bool b => cases b <;> rfl
  | int n => rfl
  | float x => rfl
  | text s => rfl

/-- A rendering at a place begins with a parenthesis or as it does elsewhere. -/
theorem Rendering.placed_begins {place strength : Nat} {r : Rendering} {k : TokenKind} {P : TokenKind → Prop}
    (hopen : P (.symbol .openParen)) (h : place ≤ strength → P (r.next k)) :
    P ((placed place strength r).next k) := by
  rw [next_placed]
  split
  · exact hopen
  · exact h (by omega)

/-- What is held together as strongly as steps behind are begins with an operand. -/
theorem Expr.begins_operand (e : Expr) (h : 9 ≤ e.strength) (k : TokenKind) :
    ((e.render spell).next k).beginsOperand = true := by
  match e with
  | .literal value => exact value.begins k
  | .list _ => rfl
  | .variable _ => rfl
  | .step _ _ true => rfl
  | .call .. => rfl
  | .element target _ =>
    rw [render, next_indexed]
    exact placed_begins (P := fun k => k.beginsOperand = true) rfl fun h => begins_operand target (by omega) _
  | .method target _ _ =>
    rw [render, next_cons]
    exact placed_begins (P := fun k => k.beginsOperand = true) rfl fun h => begins_operand target (by omega) _
  | .binary op _ _ =>
    have hstrong : 9 ≤ op.strength := h
    have := op.strength_bounds
    omega

theorem Expr.begins (e : Expr) (k : TokenKind) : ((e.render spell).next k).beginsExpression = true := by
  rcases Nat.lt_or_ge e.strength 9 with h | h
  · match e with
    | .assign .. =>
      rw [render, next_cons]
      rfl
    | .assignElement target _ _ _ =>
      rw [render, next_cons]
      refine placed_begins (P := fun k => k.beginsExpression = true) rfl fun _ => ?_
      rw [next_indexed]
      exact placed_begins (P := fun k => k.beginsExpression = true) rfl fun _ => begins target _
    | .binary _ lhs _ =>
      rw [render, next_cons]
      exact placed_begins (P := fun k => k.beginsExpression = true) rfl fun _ => begins lhs _
    | .not _ => rfl
    | .step _ direction false => cases direction <;> rfl
  · exact TokenKind.beginsExpression_of_operand (e.begins_operand h k)

theorem Expr.renderAt_begins (spell : Float → String) (e : Expr) (place : Nat) (k : TokenKind) :
    ((e.renderAt spell place).next k).beginsExpression = true :=
  placed_begins (P := fun k => k.beginsExpression = true) rfl fun _ => e.begins k

/-! ### The parser of a place -/

namespace Parser

/-- The operators of a place. -/
def operatorsAt (place : Nat) : List (Symbol × BinaryOp) := precedence.getD (place - 2) []

/-- The parser for an expression at a place. -/
def readerAt (place level : Nat) : Parser Expr :=
  match place with
  | 0 | 1 => expression level
  | 9 => operand (expression level)
  | 10 => do
    let first ← primary (expression level)
    selections (expression level) (← turns) first
  | 11 => primary (expression level)
  | place => binary (signed level) (precedence.drop (place - 2))

/-- The loop by which the parser of a place goes on. -/
def loopAt (place level bound : Nat) (first : Expr) : Parser Expr :=
  if place = 10 then selections (expression level) bound first
  else chain (operatorsAt place) (readerAt (place + 1) level) bound first

/-- Whether a place has a loop. -/
def Loops (place : Nat) : Prop := 2 ≤ place ∧ place ≤ 7 ∨ place = 10

instance (place : Nat) : Decidable (Loops place) := inferInstanceAs (Decidable (_ ∨ _))

/-- At a place with a loop the parser reads what the next place reads, and loops. -/
theorem readerAt_of_loops {place : Nat} (h : Loops place) (level : Nat) :
    readerAt place level =
      readerAt (place + 1) level >>= fun first => turns >>= fun bound => loopAt place level bound first := by
  rcases h with ⟨h₂, h₇⟩ | rfl
  · interval_cases place <;> rfl
  · rfl

/-- Steps are read behind elements and methods. -/
theorem readerAt_nine (level : Nat) :
    readerAt 9 level =
      readerAt 10 level >>= fun selected => turns >>= fun bound => stepsBehind bound selected := by
  simp only [readerAt, operand, bind_assoc]

theorem operator?_of_bond_ne {place : Nat} (hplace : 2 ≤ place ∧ place ≤ 7) {k : TokenKind}
    (hk : k.bond ≠ place) : operator? (operatorsAt place) k = none := by
  obtain ⟨h₂, h₇⟩ := hplace
  cases k with
  | symbol s => interval_cases place <;> cases s <;> first | rfl | exact absurd rfl hk
  | _ => rfl

theorem operator?_token (op : BinaryOp) : operator? (operatorsAt op.strength) (.symbol op.token) = some op := by
  cases op <;> rfl

theorem bond_token (op : BinaryOp) : op.token.bond = op.strength := by
  cases op <;> rfl

theorem bond_assignment (op : AssignOp) : op.token.bond = 1 := by
  cases op <;> rfl

theorem bond_step (direction : Step) : direction.token.bond = 9 := by
  cases direction <;> rfl

theorem operator?_assignments {k : TokenKind} (hk : k.bond < 1) : operator? assignments k = none := by
  cases k with
  | symbol s => cases s <;> first | rfl | exact absurd hk (by decide)
  | _ => rfl

theorem operator?_steps {k : TokenKind} (hk : k.bond < 9) : operator? steps k = none := by
  cases k with
  | symbol s => cases s <;> first | rfl | exact absurd hk (by decide)
  | _ => rfl

theorem operator?_step (direction : Step) : operator? steps (.symbol direction.token) = some direction := by
  cases direction <;> rfl

theorem operator?_assignment (op : AssignOp) : operator? assignments (.symbol op.token) = some op := by
  cases op <;> rfl

theorem ne_of_bond_lt {place : Nat} {s : Symbol} {k : TokenKind} (hk : k.bond < place) (hs : place ≤ s.bond) :
    k ≠ .symbol s := by
  rintro rfl
  exact absurd hk (Nat.not_lt.2 hs)

/-! ### Expressions at their places -/

variable {n place strength : Nat} {r : Rendering} {e : Expr}

/-- At a place the rendering is read as `e`; where the place has a loop, the parser
is then in the loop, and what stands behind may be read by it. -/
def Stands (place : Nat) (r : Rendering) (e : Expr) : Prop :=
  if Loops place then Enters (readerAt place) (loopAt place) r (fun k => k.bond < place + 1) e
  else ∀ n, Reads n (readerAt place) r (fun k => k.bond < place) e

theorem reads_loop_end (h : Loops place) (e : Expr) (bound : Nat) :
    Reads n (fun level => loopAt place level bound e) (row []) (fun k => k.bond < place) e := by
  rcases h with ⟨h₂, h₇⟩ | rfl
  · have hchain : place ≠ 10 := by omega
    simp only [loopAt, if_neg hchain]
    cases bound with
    | zero => exact .done
    | succ bound =>
      refine .look fun k hk => ?_
      have hnone : operator? (operatorsAt place) k = none := operator?_of_bond_ne ⟨h₂, h₇⟩ (by omega)
      simp only [next_nil, hnone]
      exact .done
  · cases bound with
    | zero => exact .done
    | succ bound =>
      exact .eat_none (fun k hk => ne_of_bond_lt hk (by decide))
        (.eat_none (fun k hk => ne_of_bond_lt hk (by decide)) .done)

theorem reads_stepsBehind_end (e : Expr) (bound : Nat) :
    Reads n (fun _ => stepsBehind bound e) (row []) (fun k => k.bond < 9) e := by
  cases bound with
  | zero => exact .done
  | succ bound =>
    refine .look fun k hk => ?_
    simp only [next_nil, operator?_steps hk]
    exact .done

namespace Stands

/-- What stands at a place is read there, in front of what binds weaker. -/
theorem reads (h : Stands place r e) (n : Nat) : Reads n (readerAt place) r (fun k => k.bond < place) e := by
  unfold Stands at h
  split at h
  next hloop => exact h.reads (reads_loop_end hloop e) fun k hk => by omega
  next => exact h n

theorem of_reads (h : ∀ n, Reads n (readerAt place) r (fun k => k.bond < place) e) (hloop : ¬Loops place) :
    Stands place r e := by
  rw [Stands, if_neg hloop]
  exact h

theorem enters (h : Stands place r e) (hloop : Loops place) :
    Enters (readerAt place) (loopAt place) r (fun k => k.bond < place + 1) e := by
  rwa [Stands, if_pos hloop] at h

theorem of_enters (h : Enters (readerAt place) (loopAt place) r (fun k => k.bond < place + 1) e)
    (hloop : Loops place) : Stands place r e := by
  rwa [Stands, if_pos hloop]

/-! ### From a place to the weaker ones -/

theorem of_next_loop (hloop : Loops place) (h : Stands (place + 1) r e) : Stands place r e := by
  refine of_enters ?_ hloop
  rw [funext (readerAt_of_loops hloop)]
  exact .of_reads h.reads

/-- No step stands behind. -/
theorem of_selected (h : Stands 10 r e) : Stands 9 r e := by
  refine of_reads (fun n => ?_) (by decide)
  rw [funext readerAt_nine]
  exact (h.reads n).followed (fun n => .bounded fun bound _ => reads_stepsBehind_end e bound) fun k hk => by omega

/-- No sign and no step stands in front. -/
theorem of_operand (h : Stands 9 r e) (hbegin : ∀ k, (r.next k).beginsOperand = true) :
    Stands 8 r.opened e := by
  refine of_reads (fun n => ?_) (by decide)
  refine Takes.opened (.look fun k _ => ?_) rfl
  have hread := (h.reads n).weaken fun k (hk : k.bond < 8) => by omega
  have hk := hbegin k
  -- a token that begins an operand is neither a sign nor a step
  generalize r.next k = kind at hk ⊢
  cases kind with
  | symbol s => cases s <;> first | exact hread | exact absurd hk (by decide)
  | _ => exact hread

/-- No assignment stands behind. -/
theorem of_binary (h : Stands 2 r e) : Stands 1 r.opened e := by
  refine of_reads (fun n => ?_) (by decide)
  refine Takes.opened ((h.reads n).followed (fun n => .look fun k hk => ?_) fun k hk => by omega) rfl
  simp only [next_nil, operator?_assignments hk]
  exact .done

/-- What stands at its own place stands at every weaker one. -/
theorem entered (h : Stands strength (entered strength strength r) e) (hmax : strength ≤ 11)
    (hbegin : 9 ≤ strength → ∀ k, (r.next k).beginsOperand = true) (place : Nat) (hone : 1 ≤ place)
    (hle : place ≤ strength) : Stands place (Rendering.entered place strength r) e := by
  rcases Nat.eq_or_lt_of_le hle with rfl | hlt
  · exact h
  · -- downwards from the own place: places 1 and 8 open a level, behind place 9 may stand steps, the
    -- others have loops
    have hnext := entered h hmax hbegin (place + 1) (by omega) (by omega)
    by_cases hfirst : place = 1
    · subst hfirst
      rw [entered_one]
      exact hnext.of_binary
    by_cases heighth : place = 8
    · subst heighth
      rw [entered_of_gt (by omega)] at hnext
      rw [entered_eight (by omega)]
      exact hnext.of_operand (hbegin hlt)
    rw [entered_succ (by omega) heighth]
    by_cases hninth : place = 9
    · subst hninth
      exact hnext.of_selected
    · exact hnext.of_next_loop (by unfold Loops; omega)
termination_by strength - place

/-- What stands anywhere stands in parentheses as strongly as a constant. -/
theorem parenthesised (h : Stands 1 r e) : Stands 11 (Rendering.parenthesised r) e := by
  refine of_reads (fun n => ?_) (by decide)
  exact .look fun k _ => .advance fun _ _ =>
    (h.reads _).append (.expectSymbol .done) fun _ _ => Nat.zero_lt_one

/-- An expression stands wherever it is placed. -/
theorem placed (h : Stands strength (Rendering.entered strength strength r) e) (hmin : 1 ≤ strength)
    (hmax : strength ≤ 11) (hbegin : 9 ≤ strength → ∀ k, (r.next k).beginsOperand = true) (place : Nat)
    (hone : 1 ≤ place) (hle : place ≤ 11) : Stands place (Rendering.placed place strength r) e := by
  rw [Rendering.placed]
  split
  · have hinner : Stands 11 (Rendering.entered 11 11 _) e := (h.entered hmax hbegin 1 (by omega) hmin).parenthesised
    exact hinner.entered (by omega) (fun _ k => rfl) place hone hle
  · exact h.entered hmax hbegin place hone (by omega)

end Stands

end Parser

/-! ### The kinds of expressions -/

open SealedScript.Parser

/-- The expression is read back from every place. -/
def Expr.ReadBack (spell : Float → String) (e : Expr) : Prop :=
  ∀ place, 1 ≤ place → place ≤ 11 → Stands place (e.renderAt spell place) e

namespace Expr

theorem ReadBack.reads {e : Expr} (h : e.ReadBack spell) (n : Nat) :
    Reads n expression (e.renderWhole spell) (fun k => k.bond < 1) e :=
  (h 1 (by decide) (by decide)).reads n

theorem strength_bounds (e : Expr) : 1 ≤ e.strength ∧ e.strength ≤ 11 := by
  unfold strength
  split
  all_goals try decide
  next op _ _ =>
    have := op.strength_bounds
    omega

/-- It suffices that an expression is read at its own place. -/
theorem readBack_of_stands {e : Expr} {place : Nat} (hplace : e.strength = place)
    (h : Stands place (entered place place (e.render spell)) e) : e.ReadBack spell := by
  subst hplace
  exact h.placed e.strength_bounds.1 e.strength_bounds.2 e.begins_operand

theorem readBack_of_reads {e : Expr} (place : Nat) (hplace : e.strength = place) (hloop : ¬Loops place)
    (h : ∀ n, Reads n (readerAt place) (entered place place (e.render spell)) (fun k => k.bond < place) e) :
    e.ReadBack spell :=
  readBack_of_stands hplace (.of_reads h hloop)

theorem readBack_of_enters {e : Expr} (place : Nat) (hplace : e.strength = place) (hloop : Loops place)
    (h : Enters (readerAt place) (loopAt place) (e.render spell) (fun k => k.bond < place + 1) e) :
    e.ReadBack spell := by
  refine readBack_of_stands hplace (.of_enters ?_ hloop)
  rwa [entered_self (by unfold Loops at hloop; omega) (by unfold Loops at hloop; omega)]

/-- A whole number has no point in it. -/
theorem number_int {t : Token} {i : Int64} (ht : t.lexeme = toString i.toInt) : number t = pure (.int i) := by
  have hpoint : (toString i.toInt).toList.contains '.' = false := by
    rw [List.contains_eq_mem, decide_eq_false_iff_not]
    intro hmem
    rcases isNumeral_of_mem_toString i.toInt hmem with h | h
    · exact absurd h (by decide)
    · exact absurd h (by decide)
  simp only [number, ht, hpoint, readInt64?_toString, Bool.false_eq_true, if_false, Option.map_some]

theorem number_float {t : Token} {x : Float} (ht : t.lexeme = spell x)
    (hpoint : (spell x).toList.contains '.' = true) (hread : readFloat? (spell x).toList = some x) :
    number t = pure (.float x) := by
  simp only [number, ht, hpoint, hread, if_true, Option.map_some]

theorem readBack_literal {value : Literal} (h : value.writable spell = true) : (literal value).ReadBack spell := by
  refine readBack_of_reads 11 rfl (by decide) fun n => ?_
  rw [render, ← row_singleton (value.render spell)]
  cases value with
  | bool b =>
    cases b
    · exact .look fun k _ => .advance fun _ _ => .done
    · exact .look fun k _ => .advance fun _ _ => .done
  | int i =>
    refine .look fun k _ => .advance fun t ht => ?_
    simp only [number_int ht, pure_bind]
    exact .done
  | float x =>
    refine .look fun k _ => .advance fun t ht => ?_
    rw [Literal.writable, Bool.and_eq_true, decide_eq_true_iff] at h
    simp only [number_float ht h.1 h.2, pure_bind]
    exact .done
  | text s =>
    refine .look fun k _ => .advance fun t ht => ?_
    rw [ht]
    exact .done

theorem readBack_variable {target : VarRef} (h : target.writable = true) : («variable» target).ReadBack spell := by
  refine readBack_of_reads 11 rfl (by decide) fun n => ?_
  rw [render, ← row_singleton (name _)]
  refine .look fun k _ => .advance fun t ht => .eat_none (fun k hk => ne_of_bond_lt hk (Nat.le_refl 11)) ?_
  simp only [ht, VarRef.ofLexeme_lexeme h, Bool.false_eq_true, if_false]
  exact .done

theorem readBack_not {operand : Expr} (h : operand.ReadBack spell) : (not operand).ReadBack spell := by
  have hoperand := h 8 (by decide) (by decide)
  refine readBack_of_reads 8 rfl (by decide) fun n => ?_
  exact Takes.opened (.look fun k _ => .advance fun _ _ => (hoperand.reads _).append .done fun k hk => hk) rfl

theorem readBack_stepBefore {target : VarRef} {direction : Step} (h : target.writable = true) :
    (step target direction false).ReadBack spell := by
  have htarget := (readBack_variable h : Expr.ReadBack spell _) 8 (by decide) (by decide)
  refine readBack_of_reads 8 rfl (by decide) fun n => ?_
  cases direction
  · exact Takes.opened (.look fun k _ => .advance fun _ _ => (htarget.reads _).append .done fun k hk => hk) rfl
  · exact Takes.opened (.look fun k _ => .advance fun _ _ => (htarget.reads _).append .done fun k hk => hk) rfl

theorem readBack_stepBehind {target : VarRef} {direction : Step} (h : target.writable = true) :
    (step target direction true).ReadBack spell := by
  have htarget := (readBack_variable h : Expr.ReadBack spell _) 10 (by decide) (by decide)
  refine readBack_of_reads 9 rfl (by decide) fun n => ?_
  rw [funext readerAt_nine, render]
  refine (htarget.reads n).append (.bounded fun bound hbound => ?_) fun k _ => ?_
  · refine .turning (L := fun _ bound => stepsBehind bound (.variable target)) (fun bound _ => ?_) hbound
    refine .look fun k _ => ?_
    simp only [next_cons, next_symbol, operator?_step]
    exact .advance fun _ _ => reads_stepsBehind_end _ _
  · rw [next_cons, next_symbol]
    exact Nat.lt_succ_of_le (Nat.le_of_eq (bond_step direction))

theorem readBack_binary {op : BinaryOp} {lhs rhs : Expr} (hl : lhs.ReadBack spell) (hr : rhs.ReadBack spell) :
    (binary op lhs rhs).ReadBack spell := by
  have hbounds := op.strength_bounds
  have hloop : Loops op.strength := .inl hbounds
  have hlhs := (hl op.strength (by omega) (by omega)).enters hloop
  have hrhs := hr (op.strength + 1) (by omega) (by omega)
  refine readBack_of_enters op.strength rfl hloop ?_
  -- the left operand has brought the parser into the loop, and the operator is one more turn of it
  refine hlhs.turn (fun n bound => ?_) (Nat.succ_pos _) fun k _ => ?_
  · have hchain : op.strength ≠ 10 := by omega
    simp only [loopAt, if_neg hchain]
    refine .look fun k _ => ?_
    simp only [next_cons, next_symbol, operator?_token]
    exact .advance fun _ _ => (hrhs.reads _).append .done fun k hk => hk
  · rw [next_cons, next_symbol]
    exact Nat.lt_succ_of_le (Nat.le_of_eq (bond_token op))

theorem readBack_element {target index : Expr} (ht : target.ReadBack spell) (hi : index.ReadBack spell) :
    (element target index).ReadBack spell := by
  have hloop : Loops 10 := .inr rfl
  have htarget := (ht 10 (by decide) (by decide)).enters hloop
  refine readBack_of_enters 10 rfl hloop ?_
  refine htarget.turn (fun n bound => ?_) (Nat.succ_pos _) fun k _ => Nat.lt_succ_self 10
  exact .eat ((hi.reads _).append (.expectSymbol .done) fun k _ => Nat.zero_lt_one)

theorem readBack_assign {target : VarRef} {op : AssignOp} {value : Expr} (ht : target.writable = true)
    (hv : value.ReadBack spell) : (assign target op value).ReadBack spell := by
  have htarget := (readBack_variable ht : Expr.ReadBack spell _) 2 (by decide) (by decide)
  refine readBack_of_reads 1 rfl (by decide) fun n => ?_
  refine Takes.opened ((htarget.reads n).append (.look fun k _ => ?_) fun k _ => ?_) rfl
  · simp only [next_cons, next_symbol, operator?_assignment]
    exact .advance fun _ _ => (hv.reads _).append .done fun k hk => hk
  · rw [next_cons, next_symbol]
    exact Nat.lt_succ_of_le (Nat.le_of_eq (bond_assignment op))

theorem readBack_assignElement {target index : Expr} {op : AssignOp} {value : Expr}
    (ht : target.ReadBack spell) (hi : index.ReadBack spell) (hv : value.ReadBack spell) :
    (assignElement target index op value).ReadBack spell := by
  have hplace := readBack_element ht hi 2 (by decide) (by decide)
  refine readBack_of_reads 1 rfl (by decide) fun n => ?_
  rw [render]
  refine Takes.opened ((hplace.reads n).append (.look fun k _ => ?_) fun k _ => ?_) rfl
  · simp only [next_cons, next_symbol, operator?_assignment]
    exact .advance fun _ _ => (hv.reads _).append .done fun k hk => hk
  · rw [next_cons, next_symbol]
    exact Nat.lt_succ_of_le (Nat.le_of_eq (bond_assignment op))

/-! ### Lists of expressions -/

/-- The expressions are read back from places for assignments. -/
abbrev ItemsReadBack (spell : Float → String) (items : List Expr) : Prop :=
  List.Forall₂ (fun r e => ∀ n, Reads n expression r (fun k => k.bond < 1) e) (renderItems spell items) items

theorem begins_of_mem_renderItems {items : List Expr} {r : Rendering} (hr : r ∈ renderItems spell items)
    (k : TokenKind) : (r.next k).beginsExpression = true := by
  induction items with
  | nil => cases hr
  | cons item items ih =>
    rcases List.mem_cons.1 hr with rfl | hr
    · exact item.renderAt_begins spell 1 k
    · exact ih hr

/-- Expressions with commas between them up to a symbol that closes them. -/
theorem ItemsReadBack.reads {items : List Expr} (h : ItemsReadBack spell items) {close : Symbol}
    (hclose : close = .closeParen ∨ close = .closeBracket) {expected : String} (n : Nat) :
    Reads n (fun level => enclosed (expression level) close expected) (listed (renderItems spell items) close)
      (fun _ => True) items := by
  have hbond : TokenKind.bond (.symbol close) < 1 := by rcases hclose with rfl | rfl <;> decide
  have hother : close ≠ .comma := by rcases hclose with rfl | rfl <;> decide
  refine reads_enclosed Nat.zero_lt_one hbond hother (fun r hr k heq => ?_) h n
  have hbegin := begins_of_mem_renderItems hr k
  rw [heq] at hbegin
  rcases hclose with rfl | rfl <;> exact absurd hbegin (by decide)

theorem readBack_list {items : List Expr} (h : ItemsReadBack spell items) : (list items).ReadBack spell := by
  refine readBack_of_reads 11 rfl (by decide) fun n => ?_
  refine .look fun k _ => .advance fun _ _ => ?_
  exact (h.reads (.inr rfl) _).append .done fun _ _ => trivial

theorem readBack_call {f : String} {args : List Expr} (h : ItemsReadBack spell args) :
    (call f args).ReadBack spell := by
  refine readBack_of_reads 11 rfl (by decide) fun n => ?_
  refine .look fun k _ => .advance fun t ht => .eat ?_
  rw [ht]
  exact (h.reads (.inl rfl) _).append .done fun _ _ => trivial

theorem readBack_method {target : Expr} {f : String} {args : List Expr} (ht : target.ReadBack spell)
    (h : ItemsReadBack spell args) : (method target f args).ReadBack spell := by
  have hloop : Loops 10 := .inr rfl
  have htarget := (ht 10 (by decide) (by decide)).enters hloop
  refine readBack_of_enters 10 rfl hloop ?_
  refine htarget.turn (fun n bound => ?_) (Nat.succ_pos _) fun k _ => Nat.lt_succ_self 10
  have hdot : TokenKind.symbol .dot ≠ .symbol .openBracket := by decide
  refine .eat_none (fun k _ => hdot) (.eat (.expect fun t ht => .expectSymbol ?_))
  rw [ht]
  exact (h.reads (.inl rfl) _).append .done fun _ _ => trivial

/-! ### All expressions -/

mutual

/-- **Every expression that can be written is read back** at every place. -/
theorem readBack (e : Expr) (h : e.writable spell = true) : e.ReadBack spell := by
  match e with
  | .literal _ => exact readBack_literal h
  | .list items => exact readBack_list (itemsReadBack items h)
  | .variable _ => exact readBack_variable h
  | .assign _ _ value =>
    rw [writable, Bool.and_eq_true] at h
    exact readBack_assign h.1 (readBack value h.2)
  | .assignElement target index _ value =>
    rw [writable, Bool.and_eq_true, Bool.and_eq_true] at h
    exact readBack_assignElement (readBack target h.1.1) (readBack index h.1.2) (readBack value h.2)
  | .element target index =>
    rw [writable, Bool.and_eq_true] at h
    exact readBack_element (readBack target h.1) (readBack index h.2)
  | .binary _ lhs rhs =>
    rw [writable, Bool.and_eq_true] at h
    exact readBack_binary (readBack lhs h.1) (readBack rhs h.2)
  | .not operand => exact readBack_not (readBack operand h)
  | .step _ _ false => exact readBack_stepBefore h
  | .step _ _ true => exact readBack_stepBehind h
  | .call _ args => exact readBack_call (itemsReadBack args h)
  | .method target _ args =>
    rw [writable, Bool.and_eq_true] at h
    exact readBack_method (readBack target h.1) (itemsReadBack args h.2)

theorem itemsReadBack (items : List Expr) (h : allWritable spell items = true) : ItemsReadBack spell items := by
  match items with
  | [] => exact .nil
  | item :: rest =>
    rw [allWritable, Bool.and_eq_true] at h
    exact .cons (readBack item h.1).reads (itemsReadBack rest h.2)

end

end Expr

end SealedScript

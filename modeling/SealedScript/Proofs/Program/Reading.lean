/-
SealedScript/Proofs/Program/Reading.lean

What it means that a parser reads a rendering: in front of any further tokens that
cannot be taken for a part of it, the parser takes exactly the rendering's tokens
and yields the given result if the levels that are left suffice, and otherwise it
fails for want of levels.

Parsers are looked at as families, indexed by the levels that are left.  There is
one rule for each of the parsers that others are made of, and the rules for loops
keep track of the tokens that are left, since these bound the turns.
-/
import Mathlib.Data.List.Forall2
import SealedScript.Program.Parser
import SealedScript.Proofs.Program.Rendering

namespace SealedScript

open Rendering

/-! ### Tokens that spell a rendering -/

theorem Rendering.nil_append (r : Rendering) : row [] ++ r = r := by
  obtain ⟨tokens, levels⟩ := r
  exact congrArg₂ Rendering.mk (List.nil_append tokens) (Nat.zero_max levels)

theorem Rendering.row_singleton (r : Rendering) : row [r] = r := by
  obtain ⟨tokens, levels⟩ := r
  exact congrArg₂ Rendering.mk (List.append_nil tokens) (Nat.max_zero levels)

/-- What a token says, apart from its place. -/
def Token.word (t : Token) : TokenKind × String := (t.kind, t.lexeme)

/-- The tokens are those of the rendering, at whatever places. -/
def Spells (toks : List Token) (r : Rendering) : Prop := toks.map Token.word = r.tokens

/-- What the next token is when these are left. -/
def ParserContext.next (ctx : ParserContext) (rest : List Token) : TokenKind := (rest.headD ctx.stop).kind

/-- What the next token is in front of a rendering, behind which one of the given
kind stands. -/
def Rendering.next (r : Rendering) (behind : TokenKind) : TokenKind := r.tokens.head?.elim behind Prod.fst

namespace Rendering

@[simp] theorem next_one (kind behind : TokenKind) (lexeme : String) : (one kind lexeme).next behind = kind := rfl

@[simp] theorem next_symbol (s : Symbol) (behind : TokenKind) : (symbol s).next behind = .symbol s := rfl

@[simp] theorem next_name (lexeme : String) (behind : TokenKind) : (name lexeme).next behind = .name := rfl

@[simp] theorem next_opened (r : Rendering) (behind : TokenKind) : r.opened.next behind = r.next behind := rfl

@[simp] theorem next_nil (behind : TokenKind) : (row []).next behind = behind := rfl

@[simp] theorem next_append (r s : Rendering) (behind : TokenKind) :
    (r ++ s).next behind = r.next (s.next behind) := by
  obtain ⟨_ | ⟨t, tokens⟩, levels⟩ := r <;> rfl

@[simp] theorem next_cons (r : Rendering) (rs : List Rendering) (behind : TokenKind) :
    (row (r :: rs)).next behind = r.next ((row rs).next behind) :=
  next_append r (row rs) behind

theorem next_commas (r : Rendering) (rs : List Rendering) (behind : TokenKind) :
    (commas (r :: rs)).next behind = r.next (if rs = [] then behind else .symbol .comma) := by
  cases rs with
  | nil => rfl
  | cons r' rs =>
    have hcons : commas (r :: r' :: rs) = r ++ (symbol .comma ++ commas (r' :: rs)) := rfl
    rw [hcons, next_append, next_append, next_symbol, if_neg (List.cons_ne_nil r' rs)]

@[simp] theorem next_parenthesised (r : Rendering) (behind : TokenKind) :
    r.parenthesised.next behind = .symbol .openParen := rfl

@[simp] theorem next_indexed (list index : Rendering) (behind : TokenKind) :
    (indexed list index).next behind = list.next (.symbol .openBracket) := by
  rw [indexed, next_cons, next_cons, next_symbol]

@[simp] theorem next_entered (place strength : Nat) (r : Rendering) (behind : TokenKind) :
    (entered place strength r).next behind = r.next behind := by
  rw [entered]
  split <;> split <;> rfl

theorem next_placed (place strength : Nat) (r : Rendering) (behind : TokenKind) :
    (placed place strength r).next behind =
      if strength < place then .symbol .openParen else r.next behind := by
  rw [placed]
  split <;> simp only [next_entered, next_parenthesised]

end Rendering

namespace Spells

variable {toks : List Token} {r s : Rendering}

theorem one {kind : TokenKind} {lexeme : String} (h : Spells toks (one kind lexeme)) :
    ∃ t, toks = [t] ∧ t.kind = kind ∧ t.lexeme = lexeme := by
  obtain ⟨t, rfl, ht⟩ := List.map_eq_singleton_iff.1 h
  exact ⟨t, rfl, congrArg Prod.fst ht, congrArg Prod.snd ht⟩

theorem append (h : Spells toks (r ++ s)) :
    ∃ front back, toks = front ++ back ∧ Spells front r ∧ Spells back s :=
  List.map_eq_append_iff.1 h

theorem length (h : Spells toks r) : toks.length = r.tokens.length := by
  rw [← (h : toks.map Token.word = r.tokens), List.length_map]

theorem next (h : Spells toks r) (ctx : ParserContext) (rest : List Token) :
    ctx.next (toks ++ rest) = r.next (ctx.next rest) := by
  rw [Rendering.next, ← (h : toks.map Token.word = r.tokens)]
  cases toks <;> rfl

end Spells

/-! ### Running out of levels -/

namespace Parser

variable {α β : Type} {m n level : Nat} {ctx : ParserContext} {toks rest : List Token}

/-- A run comes to the same as another one if as many levels as it needs are left,
and fails for want of levels otherwise. -/
def Leads (need level : Nat) (run run' : Except ParseError α) : Prop :=
  (need ≤ level → run = run') ∧ (level < need → ∃ position, run = .error (.tooDeep position maxNesting))

namespace Leads

theorem of_eq {run run' : Except ParseError α} (h : run = run') : Leads 0 level run run' :=
  ⟨fun _ => h, fun hlt => absurd hlt (Nat.not_lt_zero level)⟩

theorem trans {run₁ run₂ run₃ : Except ParseError α} (h : Leads m level run₁ run₂)
    (h' : Leads n level run₂ run₃) : Leads (max m n) level run₁ run₃ := by
  constructor
  · intro hle
    rw [h.1 (by omega), h'.1 (by omega)]
  · intro hlt
    -- the first of the two runs that needs more levels than there are fails
    rcases Nat.lt_or_ge level m with hm | hm
    · exact h.2 hm
    · rw [h.1 hm]
      exact h'.2 (by omega)

/-- A run of a parser inside a longer one. -/
theorem bind {p : Parser α} {a : α} (h : Leads m level (p ctx toks) (.ok (a, rest))) (q : α → Parser β) :
    Leads m level ((p >>= q) ctx toks) (q a ctx rest) := by
  have hrun : (p >>= q) ctx toks = (p ctx toks).bind fun x => q x.1 ctx x.2 := rfl
  rw [hrun]
  constructor
  · intro hle
    rw [h.1 hle]
    rfl
  · intro hlt
    obtain ⟨position, hp⟩ := h.2 hlt
    rw [hp]
    exact ⟨position, rfl⟩

/-- A run with one level more, which it opens. -/
theorem opened {run run' : Except ParseError α} (h : Leads m level run run') :
    Leads (m + 1) (level + 1) run run' :=
  ⟨fun hle => h.1 (by omega), fun hlt => h.2 (by omega)⟩

theorem none_left (run : Except ParseError (α × List Token)) : Leads (m + 1) 0 (tooDeep ctx toks) run :=
  ⟨fun hle => absurd hle (Nat.not_succ_le_zero m), fun _ => ⟨_, rfl⟩⟩

end Leads

/-! ### Reading -/

/-- By taking the tokens of the rendering the parsers of one family become those of
another, wherever the token behind the rendering is one that may follow it.  Fewer
than `n` tokens are left, and loops may take at least `n` turns. -/
def Takes (n : Nat) (P : Nat → Parser α) (r : Rendering) (follow : TokenKind → Prop)
    (T : Nat → Parser α) : Prop :=
  ∀ (level : Nat) (ctx : ParserContext) (toks rest : List Token), Spells toks r → follow (ctx.next rest) →
    (toks ++ rest).length < n → n ≤ ctx.turns →
    Leads r.levels level (P level ctx (toks ++ rest)) (T level ctx rest)

/-- The parsers of a family read the rendering and yield `a`. -/
abbrev Reads (n : Nat) (P : Nat → Parser α) (r : Rendering) (follow : TokenKind → Prop) (a : α) : Prop :=
  Takes n P r follow fun _ => pure a

namespace Takes

variable {P T : Nat → Parser α} {Q : Nat → α → Parser β} {U : Nat → Parser β}
variable {r s : Rendering} {rs : List Rendering} {follow follow' : TokenKind → Prop} {a : α}

theorem weaken (h : Takes n P r follow T) (hf : ∀ k, follow' k → follow k) : Takes n P r follow' T :=
  fun level ctx toks rest hs hk => h level ctx toks rest hs (hf _ hk)

/-- A loop whose bound suffices has a turn left. -/
theorem turning {L : Nat → Nat → Parser α}
    (h : ∀ bound, n ≤ bound + 1 → Takes n (fun level => L level (bound + 1)) r follow T) {bound : Nat}
    (hbound : n ≤ bound) : Takes n (fun level => L level bound) r follow T := by
  intro level ctx toks rest hs hk hn
  cases bound with
  | zero => omega
  | succ bound => exact h bound hbound level ctx toks rest hs hk hn

/-- Parsers that open a level. -/
theorem opened (h : Reads n (fun level => P (level + 1)) r follow a) (hzero : P 0 = tooDeep) :
    Reads n P r.opened follow a := by
  intro level ctx toks rest hs hk hn hturns
  cases level with
  | zero =>
    rw [hzero]
    exact .none_left _
  | succ level => exact (h level ctx toks rest hs hk hn hturns).opened

/-- Nothing is left to take. -/
theorem done : Takes n P (row []) follow P := by
  intro level ctx toks rest hs _ _ _
  obtain rfl : toks = [] := List.map_eq_nil_iff.1 hs
  exact .of_eq rfl

/-- One parser behind another, for which fewer tokens are left. -/
theorem append (hp : Reads n P r follow' a)
    (hq : Takes (n - r.tokens.length) (fun level => Q level a) s follow U)
    (hf : ∀ k, follow k → follow' (s.next k)) :
    Takes n (fun level => P level >>= Q level) (r ++ s) follow U := by
  intro level ctx toks rest hs hk hn hturns
  obtain ⟨front, back, rfl, hfront, hback⟩ := hs.append
  rw [List.append_assoc] at hn ⊢
  have hnext : follow' (ctx.next (back ++ rest)) := by
    rw [hback.next]
    exact hf _ hk
  have hlength := hfront.length
  rw [List.length_append] at hn
  have hfirst := hp level ctx front (back ++ rest) hfront hnext (by rwa [List.length_append]) hturns
  have hsecond := hq level ctx back rest hback hk (by omega) (by omega)
  exact (hfirst.bind (Q level)).trans hsecond

/-- A parser that takes nothing behind another one. -/
theorem followed (hp : Reads n P r follow' a)
    (hq : ∀ n, Takes n (fun level => Q level a) (row []) follow U) (hf : ∀ k, follow k → follow' k) :
    Takes n (fun level => P level >>= Q level) r follow U := by
  rw [← row_singleton r]
  exact hp.append (hq _) hf

/-- A parser whose result is changed. -/
theorem map (h : Reads n P r follow a) (f : α → β) :
    Reads n (fun level => f <$> P level) r follow (f a) := by
  intro level ctx toks rest hs hk hn hturns
  exact (h level ctx toks rest hs hk hn hturns).bind fun a => pure (f a)

/-- A look at the next token. -/
theorem look {Q : Nat → TokenKind → Parser β}
    (h : ∀ k, follow k → Takes n (fun level => Q level (r.next k)) r follow U) :
    Takes n (fun level => peekKind >>= Q level) r follow U := by
  intro level ctx toks rest hs hk hn hturns
  have h' := h (ctx.next rest) hk level ctx toks rest hs hk hn hturns
  rw [← hs.next] at h'
  exact h'

/-- A look at the place of the next token. -/
theorem glance {Q : Nat → Token → Parser β} (h : ∀ t, Takes n (fun level => Q level t) r follow U) :
    Takes n (fun level => peek >>= Q level) r follow U :=
  fun level ctx toks rest => h ((toks ++ rest).headD ctx.stop) level ctx toks rest

/-- A look at the bound of a loop. -/
theorem bounded {Q : Nat → Nat → Parser β}
    (h : ∀ bound, n ≤ bound → Takes n (fun level => Q level bound) r follow U) :
    Takes n (fun level => turns >>= Q level) r follow U :=
  fun level ctx toks rest hs hk hn hturns => h ctx.turns hturns level ctx toks rest hs hk hn hturns

section OneToken

variable {kind : TokenKind} {lexeme expected : String}

/-- A token that is taken. -/
theorem advance {Q : Nat → Token → Parser β}
    (h : ∀ t : Token, t.lexeme = lexeme → Takes (n - 1) (fun level => Q level t) s follow U) :
    Takes n (fun level => Parser.advance >>= Q level) (one kind lexeme ++ s) follow U := by
  intro level ctx toks rest hs hk hn hturns
  obtain ⟨front, back, rfl, hfront, hback⟩ := hs.append
  obtain ⟨t, rfl, -, ht⟩ := hfront.one
  simp only [List.cons_append, List.nil_append, List.length_cons] at hn ⊢
  have h' := h t ht level ctx back rest hback hk (by omega) (by omega)
  exact (Leads.of_eq rfl).trans h'

/-- A token that has to be of its kind, and is. -/
theorem expect {Q : Nat → Token → Parser β}
    (h : ∀ t : Token, t.lexeme = lexeme → Takes (n - 1) (fun level => Q level t) s follow U) :
    Takes n (fun level => Parser.expect kind expected >>= Q level) (one kind lexeme ++ s) follow U := by
  have hlook : Takes n
      (fun level => peekKind >>= fun k =>
        (if k = kind then Parser.advance else unexpected expected) >>= Q level)
      (one kind lexeme ++ s) follow U := by
    refine look fun k _ => ?_
    simp only [next_append, next_one, if_true]
    exact advance h
  simpa only [Parser.expect, bind_assoc] using hlook

/-- A symbol that has to be there, and is. -/
theorem expectSymbol {c : Symbol} {Q : Nat → Unit → Parser β}
    (h : Takes (n - 1) (fun level => Q level ()) s follow U) :
    Takes n (fun level => Parser.expectSymbol c expected >>= Q level) (symbol c ++ s) follow U := by
  have hexpect : Takes n (fun level => Parser.expect (.symbol c) expected >>= fun _ => Q level ())
      (symbol c ++ s) follow U := expect fun _ _ => h
  simpa only [Parser.expectSymbol, bind_assoc, pure_bind] using hexpect

/-- A token that may be of the kind, and is. -/
theorem eat {Q : Nat → Bool → Parser β} (h : Takes (n - 1) (fun level => Q level true) s follow U) :
    Takes n (fun level => Parser.eat kind >>= Q level) (one kind lexeme ++ s) follow U := by
  have hlook : Takes n
      (fun level => peekKind >>= fun k =>
        (if k = kind then Parser.advance >>= fun _ => pure true else pure false) >>= Q level)
      (one kind lexeme ++ s) follow U := by
    refine look fun k _ => ?_
    simp only [next_append, next_one, if_true, bind_assoc, pure_bind]
    exact advance fun _ _ => h
  simpa only [Parser.eat, bind_assoc] using hlook

/-- A token that may be of the kind, and is not. -/
theorem eat_none {Q : Nat → Bool → Parser β} (hkind : ∀ k, follow k → r.next k ≠ kind)
    (h : Takes n (fun level => Q level false) r follow U) :
    Takes n (fun level => Parser.eat kind >>= Q level) r follow U := by
  have hlook : Takes n
      (fun level => peekKind >>= fun k =>
        (if k = kind then Parser.advance >>= fun _ => pure true else pure false) >>= Q level)
      r follow U := by
    refine look fun k hk => ?_
    simp only [hkind k hk, if_false, pure_bind]
    exact h
  simpa only [Parser.eat, bind_assoc] using hlook

end OneToken

end Takes

/-! ### Rows of items -/

section Rows

variable {item : Nat → Parser α} {inside : TokenKind → Prop} {rs : List Rendering} {items : List α}

/-- Items with commas between them.  Every turn but the last takes a comma. -/
theorem reads_separated (hcomma : inside (.symbol .comma))
    (h : List.Forall₂ (fun r a => ∀ n, Reads n item r inside a) rs items) (hne : rs ≠ []) :
    ∀ n bound, n ≤ bound → Reads n (fun level => separated (item level) bound) (commas rs)
      (fun k => inside k ∧ k ≠ .symbol .comma) items := by
  induction h with
  | nil => exact absurd rfl hne
  | @cons r a rs items hr hrs ih =>
    intro n bound hbound
    refine .turning (fun bound hbound => ?_) hbound
    cases hrs with
    | nil =>
      -- behind the last item stands no comma
      rw [commas, ← row_singleton r]
      exact (hr n).append (.eat_none (fun k hk => hk.2) .done) fun k hk => hk.1
    | cons =>
      have hrest := ih (List.cons_ne_nil _ _) (n - r.tokens.length - 1) bound (by omega)
      exact (hr n).append (.eat (hrest.map (a :: ·))) fun _ _ => hcomma

/-- Items up to a closing symbol, with which none of them begins. -/
theorem reads_enclosed {close : Symbol} {expected : String}
    (hcomma : inside (.symbol .comma)) (hclose : inside (.symbol close)) (hne : close ≠ .comma)
    (hbegin : ∀ r ∈ rs, ∀ k, r.next k ≠ .symbol close)
    (h : List.Forall₂ (fun r a => ∀ n, Reads n item r inside a) rs items) (n : Nat) :
    Reads n (fun level => enclosed (item level) close expected) (listed rs close) (fun _ => True) items := by
  cases h with
  | nil =>
    have hempty : listed [] close = symbol close ++ row [] := nil_append _
    rw [hempty]
    exact .eat .done
  | @cons r a rs items hr hrs =>
    have hnext (k : TokenKind) : (listed (r :: rs) close).next k ≠ .symbol close := by
      rw [listed, next_cons, next_commas]
      exact hbegin r List.mem_cons_self _
    refine .eat_none (fun k _ => hnext k) (.bounded fun bound hbound => ?_)
    have hitems := reads_separated hcomma (.cons hr hrs) (List.cons_ne_nil _ _) n bound hbound
    exact hitems.append (.expectSymbol .done) fun k _ => ⟨hclose, fun h => hne (TokenKind.symbol.inj h)⟩

/-- Items up to a token that ends them, with which none of them begins. -/
theorem reads_many {ends : TokenKind → Bool}
    (hbegin : ∀ r ∈ rs, ∀ k, ends (r.next k) = false ∧ inside (r.next k))
    (h : List.Forall₂ (fun r a => ∀ n, Reads n item r inside a) rs items) :
    ∀ n bound, n ≤ bound → Reads n (fun level => many ends (item level) bound) (row rs)
      (fun k => ends k = true ∧ inside k) items := by
  induction h with
  | nil =>
    intro n bound _
    cases bound with
    | zero => exact .done
    | succ bound =>
      refine .look fun k hk => ?_
      simp only [next_nil, hk.1, if_true]
      exact .done
  | @cons r a rs items hr hrs ih =>
    intro n bound hbound
    refine .turning (fun bound hbound => .look fun k hk => ?_) hbound
    have hr' := hbegin r List.mem_cons_self
    simp only [next_cons, (hr' _).1, Bool.false_eq_true, if_false]
    -- the item begins with a token that ends nothing, so it has one
    have htaken : 0 < r.tokens.length := by
      refine List.length_pos_iff.2 fun hnil => ?_
      have hsame : r.next k = k := by rw [Rendering.next, hnil, List.head?_nil, Option.elim_none]
      have hgoes := (hr' k).1
      rw [hsame, hk.1] at hgoes
      exact Bool.noConfusion hgoes
    have hrest := ih (fun r hr => hbegin r (List.mem_cons_of_mem _ hr)) (n - r.tokens.length) bound (by omega)
    refine (hr n).append (hrest.map (a :: ·)) fun k hk => ?_
    cases rs with
    | nil => exact hk.2
    | cons r' rs =>
      rw [next_cons]
      exact (hbegin r' (List.mem_cons_of_mem _ List.mem_cons_self) _).2

end Rows

/-! ### Loops behind a first item -/

/-- The parsers of a family take the tokens of the rendering and are then in a loop,
with `a` collected and enough turns left. -/
def Enters (P : Nat → Parser α) (loop : Nat → Nat → α → Parser α) (r : Rendering)
    (follow : TokenKind → Prop) (a : α) : Prop :=
  ∀ (n level : Nat) (ctx : ParserContext) (toks rest : List Token), Spells toks r → follow (ctx.next rest) →
    (toks ++ rest).length < n → n ≤ ctx.turns →
    ∃ bound, n - r.tokens.length ≤ bound ∧
      Leads r.levels level (P level ctx (toks ++ rest)) (loop level bound a ctx rest)

namespace Enters

variable {P inner : Nat → Parser α} {loop : Nat → Nat → α → Parser α} {r s : Rendering}
variable {follow follow' : TokenKind → Prop} {a b : α}

/-- The loop begins behind the first item. -/
theorem of_reads (h : ∀ n, Reads n inner r follow a) :
    Enters (fun level => inner level >>= fun first => turns >>= fun bound => loop level bound first) loop r
      follow a := by
  intro n level ctx toks rest hs hk hn hturns
  refine ⟨ctx.turns, by omega, ?_⟩
  exact (h n level ctx toks rest hs hk hn hturns).bind fun first =>
    turns >>= fun bound => loop level bound first

/-- One more turn of the loop, in which at least one token is taken. -/
theorem turn (h : Enters P loop r follow' a)
    (hturn : ∀ n bound, Takes n (fun level => loop level (bound + 1) a) s follow fun level => loop level bound b)
    (htaken : 0 < s.tokens.length) (hf : ∀ k, follow k → follow' (s.next k)) :
    Enters P loop (r ++ s) follow b := by
  intro n level ctx toks rest hs hk hn hturns
  obtain ⟨front, back, rfl, hfront, hback⟩ := hs.append
  rw [List.append_assoc] at hn ⊢
  have hnext : follow' (ctx.next (back ++ rest)) := by
    rw [hback.next]
    exact hf _ hk
  obtain ⟨bound, hbound, hfirst⟩ := h n level ctx front (back ++ rest) hfront hnext hn hturns
  -- tokens are left, so there is a turn left, and the turn takes at least one of them
  have hlength := hfront.length
  have hlength' := hback.length
  simp only [List.length_append] at hn
  obtain ⟨bound, rfl⟩ : ∃ b, bound = b + 1 := ⟨bound - 1, by omega⟩
  have hsecond := hturn ctx.turns bound level ctx back rest hback hk
    (by rw [List.length_append]; omega) (Nat.le_refl _)
  have htokens : (r ++ s).tokens.length = r.tokens.length + s.tokens.length := List.length_append
  exact ⟨bound, by omega, hfirst.trans hsecond⟩

/-- The loop ends. -/
theorem reads (h : Enters P loop r follow' a)
    (hstop : ∀ bound, Reads n (fun level => loop level bound a) (row []) follow a)
    (hf : ∀ k, follow k → follow' k) : Reads n P r follow a := by
  intro level ctx toks rest hs hk hn hturns
  obtain ⟨bound, -, hfirst⟩ := h n level ctx toks rest hs (hf _ hk) hn hturns
  rw [List.length_append] at hn
  have hsecond := hstop bound level ctx [] rest rfl hk (by rw [List.nil_append]; omega) hturns
  exact Nat.max_zero r.levels ▸ hfirst.trans hsecond

end Enters

end Parser

end SealedScript

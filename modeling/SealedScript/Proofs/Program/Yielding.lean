/-
SealedScript/Proofs/Program/Yielding.lean

What a parser yields, by the tokens that it takes.  A parser yields a relation when,
on whatever tokens it succeeds, it has taken tokens off the front that are in the
relation with its result.  Nothing is said of tokens on which it fails.

There is one rule for each of the parsers that others are made of.  A parser often
looks at the next token before it takes it, so what is known of the next token is
part of the statement; and loops are bounded by the tokens that are left, so their
number is kept track of.
-/
import SealedScript.Proofs.Program.Grammar
import SealedScript.Proofs.Program.Reading

namespace SealedScript.Parser

variable {α β : Type} {n : Nat} {ahead : TokenKind → Prop}

/-- A run of a parser behind another one. -/
theorem bind_eq_ok {p : Parser α} {q : α → Parser β} {ctx : ParserContext} {toks rest : List Token} {b : β}
    (h : (p >>= q) ctx toks = .ok (b, rest)) :
    ∃ a mid, p ctx toks = .ok (a, mid) ∧ q a ctx mid = .ok (b, rest) := by
  have hrun : (p >>= q) ctx toks = (p ctx toks).bind fun x => q x.1 ctx x.2 := rfl
  rw [hrun] at h
  rcases hp : p ctx toks with e | ⟨a, mid⟩
  · rw [hp] at h
    cases h
  · rw [hp] at h
    exact ⟨a, mid, rfl, h⟩

/-- Whenever the parser succeeds, the tokens that it has taken are in the relation
with its result.  The next token is one of those `ahead`, fewer than `n` tokens are
left, and loops may take at least `n` turns. -/
def Yields (n : Nat) (ahead : TokenKind → Prop) (p : Parser α) (D : List Token → α → Prop) : Prop :=
  ∀ (ctx : ParserContext) (toks rest : List Token) (a : α), ctx.stop.kind = .stop → ahead (ctx.next toks) →
    toks.length < n → n ≤ ctx.turns → p ctx toks = .ok (a, rest) → ∃ used, toks = used ++ rest ∧ D used a

/-- The parser yields the relation wherever it is run. -/
abbrev Sound (p : Parser α) (D : List Token → α → Prop) : Prop := ∀ n, Yields n (fun _ => True) p D

/-- Tokens that, behind any phrase for `a`, make a phrase for `b`. -/
def Behind (D : List Token → α → Prop) (a : α) (v : List Token) (b : α) : Prop :=
  ∀ u, D u a → D (u ++ v) b

namespace Yields

variable {p : Parser α} {q : α → Parser β} {D : List Token → α → Prop} {E : List Token → β → Prop}

theorem mono {D' : List Token → α → Prop} (h : Yields n ahead p D) (hD : ∀ u a, D u a → D' u a) :
    Yields n ahead p D' := by
  intro ctx toks rest a hstop hahead hn hturns hp
  obtain ⟨used, htoks, hused⟩ := h ctx toks rest a hstop hahead hn hturns hp
  exact ⟨used, htoks, hD used a hused⟩

theorem weaken {ahead' : TokenKind → Prop} (h : Yields n ahead p D) (hk : ∀ k, ahead' k → ahead k) :
    Yields n ahead' p D :=
  fun ctx toks rest a hstop hahead => h ctx toks rest a hstop (hk _ hahead)

/-- Nothing is taken. -/
theorem done {a : α} (h : D [] a) : Yields n ahead (pure a) D := by
  intro ctx toks rest b _ _ _ _ hp
  cases hp
  exact ⟨[], rfl, h⟩

/-- Nothing stands behind what has been collected. -/
theorem ended (a : α) : Yields n ahead (pure a) (Behind D a) := by
  refine done fun u hu => ?_
  rwa [List.append_nil]

theorem failed (e : ParseError) : Yields n ahead (throw e : Parser α) D := by
  intro ctx toks rest a _ _ _ _ hp
  cases hp

theorem unexpected (expected : String) : Yields n ahead (Parser.unexpected expected : Parser α) D := by
  intro ctx toks rest a _ _ _ _ hp
  cases hp

theorem tooDeep : Yields n ahead (Parser.tooDeep : Parser α) D := by
  intro ctx toks rest a _ _ _ _ hp
  cases hp

/-- One parser behind another, for which fewer tokens are left. -/
theorem bind (hp : Yields n ahead p D)
    (hq : ∀ u a, D u a → Yields (n - u.length) (fun _ => True) (q a) fun v b => E (u ++ v) b) :
    Yields n ahead (p >>= q) E := by
  intro ctx toks rest b hstop hahead hn hturns hrun
  obtain ⟨a, mid, hrun, hrun'⟩ := bind_eq_ok hrun
  obtain ⟨u, rfl, hu⟩ := hp ctx toks mid a hstop hahead hn hturns hrun
  rw [List.length_append] at hn
  obtain ⟨v, rfl, hv⟩ := hq u a hu ctx mid rest b hstop trivial (by omega) (by omega) hrun'
  exact ⟨u ++ v, (List.append_assoc u v rest).symm, hv⟩

/-- A parser whose result is changed. -/
theorem map (hp : Yields n ahead p D) {f : α → β} (hf : ∀ u a, D u a → E u (f a)) :
    Yields n ahead (f <$> p) E := by
  refine bind hp fun u a hu => done ?_
  rw [List.append_nil]
  exact hf u a hu

/-- A last parser, whose result is changed. -/
theorem last (hp : Yields n ahead p D) {f : α → β} (hf : ∀ u a, D u a → E u (f a)) :
    Yields n ahead (p >>= fun a => pure (f a)) E :=
  map hp hf

/-- A look at the next token. -/
theorem look {q : TokenKind → Parser β} (h : ∀ k, ahead k → Yields n (· = k) (q k) E) :
    Yields n ahead (peekKind >>= q) E :=
  fun ctx toks rest b hstop hahead hn hturns hrun =>
    h (ctx.next toks) hahead ctx toks rest b hstop rfl hn hturns hrun

/-- A look at the place of the next token. -/
theorem glance {q : Token → Parser β} (h : ∀ t, Yields n ahead (q t) E) : Yields n ahead (peek >>= q) E :=
  fun ctx toks rest b hstop hahead hn hturns hrun =>
    h (toks.headD ctx.stop) ctx toks rest b hstop hahead hn hturns hrun

/-- A look at the bound of a loop. -/
theorem bounded {q : Nat → Parser β} (h : ∀ bound, n ≤ bound → Yields n ahead (q bound) E) :
    Yields n ahead (turns >>= q) E :=
  fun ctx toks rest b hstop hahead hn hturns hrun =>
    h ctx.turns hturns ctx toks rest b hstop hahead hn hturns hrun

/-- A token that is taken.  The token behind the row, which ends a program, is not. -/
theorem advance {q : Token → Parser β} (hstop : ¬ahead .stop)
    (h : ∀ t : Token, ahead t.kind → Yields (n - 1) (fun _ => True) (q t) fun v b => E (t :: v) b) :
    Yields n ahead (Parser.advance >>= q) E := by
  intro ctx toks rest b hctx hahead hn hturns hrun
  cases toks with
  | nil =>
    -- nothing is left but the token that ends the program
    have hend : ctx.next [] = .stop := hctx
    exact absurd (hend ▸ hahead) hstop
  | cons t toks =>
    rw [List.length_cons] at hn
    obtain ⟨v, rfl, hv⟩ := h t hahead ctx toks rest b hctx trivial (by omega) (by omega) hrun
    exact ⟨t :: v, rfl, hv⟩

section OneToken

variable {kind : TokenKind} {expected : String}

/-- A token that has to be of its kind. -/
theorem expect {q : Token → Parser β} (hkind : kind ≠ .stop)
    (h : ∀ t : Token, t.kind = kind → Yields (n - 1) (fun _ => True) (q t) fun v b => E (t :: v) b) :
    Yields n ahead (Parser.expect kind expected >>= q) E := by
  have hlook : Yields n ahead
      (peekKind >>= fun k => (if k = kind then Parser.advance else Parser.unexpected expected) >>= q) E := by
    refine look fun k _ => ?_
    split
    · next hk =>
      subst hk
      exact advance (fun heq => hkind heq.symm) h
    · exact bind (unexpected expected) fun _ _ hfalse => False.elim hfalse
  simpa only [Parser.expect, bind_assoc] using hlook

/-- A symbol that has to be there. -/
theorem expectSymbol {c : Symbol} {q : Unit → Parser β}
    (h : ∀ t : Token, t.kind = .symbol c → Yields (n - 1) (fun _ => True) (q ()) fun v b => E (t :: v) b) :
    Yields n ahead (Parser.expectSymbol c expected >>= q) E := by
  have hexpect : Yields n ahead (Parser.expect (.symbol c) expected >>= fun _ => q ()) E :=
    expect TokenKind.noConfusion h
  simpa only [Parser.expectSymbol, bind_assoc, pure_bind] using hexpect

/-- A token that may be of the kind. -/
theorem eat {q : Bool → Parser β} (hkind : kind ≠ .stop)
    (hyes : ∀ t : Token, t.kind = kind → Yields (n - 1) (fun _ => True) (q true) fun v b => E (t :: v) b)
    (hno : Yields n (fun k => ahead k ∧ k ≠ kind) (q false) E) :
    Yields n ahead (Parser.eat kind >>= q) E := by
  have hlook : Yields n ahead
      (peekKind >>= fun k =>
        (if k = kind then Parser.advance >>= fun _ => pure true else pure false) >>= q) E := by
    refine look fun k hk => ?_
    split
    · next heq =>
      subst heq
      rw [bind_assoc]
      exact advance (fun heq => hkind heq.symm) fun t ht => hyes t ht
    · next hne =>
      rw [pure_bind]
      exact hno.weaken fun k' hk' => ⟨hk' ▸ hk, hk' ▸ hne⟩
  simpa only [Parser.eat, bind_assoc] using hlook

end OneToken

end Yields

/-! ### Rows of items -/

section Rows

variable {item : Parser α} {D : List Token → α → Prop}

/-- Items up to a token that ends them. -/
theorem yields_many {ends : TokenKind → Bool} (hitem : ∀ n, Yields n (fun k => ends k = false) item D)
    (bound : Nat) : Yields n ahead (many ends item bound) (PhraseRow D) := by
  induction bound generalizing n ahead with
  | zero => exact .done .nil
  | succ bound ih =>
    refine .look fun k _ => ?_
    split
    · exact .done .nil
    · next hends =>
      refine ((hitem n).weaken ?_).bind fun u a hu => ih.last fun v as hv => .cons hu hv
      rintro _ rfl
      exact Bool.not_eq_true _ ▸ hends

theorem many_of_ends {ends : TokenKind → Bool} {ctx : ParserContext} {toks : List Token}
    (hends : ends (ctx.next toks) = true) (bound : Nat) :
    many ends item (bound + 1) ctx toks = .ok ([], toks) := by
  have hmany : many ends item (bound + 1) ctx toks = (if ends (ctx.next toks) = true then pure [] else
      item >>= fun x => many ends item bound >>= fun xs => pure (x :: xs) : Parser (List α)) ctx toks := rfl
  rw [hmany, if_pos hends]
  rfl

theorem many_of_not_ends {ends : TokenKind → Bool} {ctx : ParserContext} {toks : List Token}
    (hends : ends (ctx.next toks) = false) (bound : Nat) :
    many ends item (bound + 1) ctx toks =
      (item >>= fun x => many ends item bound >>= fun xs => pure (x :: xs) : Parser (List α)) ctx toks := by
  have hmany : many ends item (bound + 1) ctx toks = (if ends (ctx.next toks) = true then pure [] else
      item >>= fun x => many ends item bound >>= fun xs => pure (x :: xs) : Parser (List α)) ctx toks := rfl
  rw [hmany, if_neg (Bool.not_eq_true _ ▸ hends)]

theorem many_cons {ends : TokenKind → Bool} {ctx : ParserContext} {bound : Nat} {toks mid rest : List Token} {a : α}
    {as : List α} (hends : ends (ctx.next toks) = false) (hone : item ctx toks = .ok (a, mid))
    (hrest : many ends item bound ctx mid = .ok (as, rest)) :
    many ends item (bound + 1) ctx toks = .ok (a :: as, rest) := by
  rw [many_of_not_ends hends]
  show (item ctx toks).bind (fun x => (many ends item bound ctx x.2).bind fun xs => .ok (x.1 :: xs.1, xs.2)) = _
  rw [hone]
  show (many ends item bound ctx mid).bind (fun xs => .ok (a :: xs.1, xs.2)) = _
  rw [hrest]
  rfl

/-- A run of a row of items: none if a token comes next that ends them, and otherwise one
and then a row of further ones. -/
theorem many_eq_ok {ends : TokenKind → Bool} {ctx : ParserContext} {bound : Nat} {toks rest : List Token}
    {as : List α} (hrun : many ends item (bound + 1) ctx toks = .ok (as, rest)) :
    ends (ctx.next toks) = true ∧ as = [] ∧ rest = toks ∨
    ends (ctx.next toks) = false ∧ ∃ a mid as', item ctx toks = .ok (a, mid) ∧
      many ends item bound ctx mid = .ok (as', rest) ∧ as = a :: as' := by
  cases hends : ends (ctx.next toks) with
  | true =>
    rw [many_of_ends hends] at hrun
    cases hrun
    exact .inl ⟨rfl, rfl, rfl⟩
  | false =>
    rw [many_of_not_ends hends] at hrun
    obtain ⟨a, mid, hitem, hrun⟩ := bind_eq_ok hrun
    obtain ⟨as', rest', hrest, hpure⟩ := bind_eq_ok hrun
    cases hpure
    exact .inr ⟨rfl, a, mid, as', hitem, hrest, rfl⟩

/-- If every item takes a token and the bound exceeds the tokens that are left, then a
token that ends the items comes next. -/
theorem ends_many {ends : TokenKind → Bool} (hitem : ∀ n, Yields n (fun k => ends k = false) item D)
    (hne : ∀ u a, D u a → u ≠ []) {ctx : ParserContext} (hstop : ctx.stop.kind = .stop) (bound : Nat)
    {toks rest : List Token} {as : List α} (hbound : toks.length < bound) (hturns : toks.length < ctx.turns)
    (hrun : many ends item bound ctx toks = .ok (as, rest)) : ends (ctx.next rest) = true := by
  induction bound generalizing toks as with
  | zero => exact absurd hbound (Nat.not_lt_zero _)
  | succ bound ih =>
    rcases many_eq_ok hrun with ⟨hends, -, rfl⟩ | ⟨hends, a, mid, as', hone, hrest, -⟩
    · exact hends
    · obtain ⟨u, rfl, hu⟩ := hitem ctx.turns ctx toks mid a hstop hends hturns (Nat.le_refl _) hone
      -- the item has taken a token, so the rest is shorter
      have hshort : 0 < u.length := List.length_pos_iff.2 (hne u a hu)
      rw [List.length_append] at hbound hturns
      exact ih (by omega) (by omega) hrest

/-- Items with commas between them.  Every turn but the last takes a comma, so the
bound is never reached. -/
theorem yields_separated (hitem : Sound item D) (bound : Nat) (hbound : n ≤ bound) :
    Yields n ahead (separated item bound) (PhraseCommas D) := by
  induction bound generalizing n ahead with
  | zero =>
    intro ctx toks rest as _ _ hn
    omega
  | succ bound ih =>
    refine ((hitem n).weaken fun _ _ => trivial).bind fun u a hu => ?_
    refine .eat TokenKind.noConfusion (fun comma hcomma => ?_) (.done ?_)
    · exact (ih (by omega)).last fun v as hv => .cons hu hcomma hv
    · rw [List.append_nil]
      exact .one hu

/-- Items up to a closing symbol. -/
theorem yields_enclosed (hitem : Sound item D) {close : Symbol} {expected : String} :
    Yields n ahead (enclosed item close expected) (PhraseList D close) := by
  refine .eat TokenKind.noConfusion (fun closer hcloser => .done (.empty hcloser)) ?_
  refine .bounded fun bound hbound => (yields_separated hitem bound hbound).bind fun u as hu => ?_
  exact .expectSymbol fun closer hcloser => .done (.items hu hcloser)

/-- Statements in braces. -/
theorem yields_block {statement : Parser Stmt} {S : List Token → Stmt → Prop} (hstatement : Sound statement S) :
    Yields n ahead (block statement) (PhraseBlock S) := by
  refine .expectSymbol fun opener hopener => .bounded fun bound _ => ?_
  refine (yields_many (fun n => (hstatement n).weaken fun _ _ => trivial) bound).bind fun u body hu => ?_
  exact .expectSymbol fun closer hcloser => .done (.mk hopener hu hcloser)

end Rows

end SealedScript.Parser

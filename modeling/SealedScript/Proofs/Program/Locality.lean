/-
SealedScript/Proofs/Program/Locality.lean

Parsers look one token ahead and no further.  What a parser takes, and what it makes
of it, depends on the words of the tokens that it takes and on the kind of the token
behind them; neither on their places nor on anything further behind.  So wherever the
same words stand, with a token of that kind behind them, it does the same again.

Many parsers do not even care what comes behind what they take: one that has just
taken a closing symbol is done.  So the kinds that may follow instead are part of the
statement.  A parser that takes a token is a clean boundary for the one in front of it,
whatever follows itself.

There is one rule for each of the parsers that others are made of.  Loops are bounded
by the tokens that are left, of which there may be more in the other row, so the two
runs are not by the same parser but by two that differ in the bounds of loops.
-/
import SealedScript.Proofs.Program.Yielding

namespace SealedScript.Parser

variable {α β : Type} {n n' : Nat} {ahead follow : TokenKind → Prop} {takes : Bool}

/-- The parser does the same wherever tokens with the same words stand, fewer than `n'`,
in front of a token of the kind `next` or of one that may follow instead. -/
def Again (n' : Nat) (follow : TokenKind → Prop) (p : Parser α) (a : α) (used : List Token) (next : TokenKind) :
    Prop :=
  ∀ (ctx : ParserContext) (used' behind : List Token), used'.map Token.word = used.map Token.word →
    used.length < n' → n' ≤ ctx.turns → (ctx.next behind = next ∨ follow (ctx.next behind)) →
    p ctx (used' ++ behind) = .ok (a, behind)

/-- Whenever the first parser succeeds, it has taken tokens off the front, at least one if
`takes` holds, and the second one does the same with them elsewhere.  The next token is
one of those `ahead`, fewer than `n` tokens are left, and loops may take at least `n`
turns. -/
def Repeats (n n' : Nat) (ahead : TokenKind → Prop) (takes : Bool) (follow : TokenKind → Prop) (p p' : Parser α) :
    Prop :=
  ∀ (ctx : ParserContext) (toks rest : List Token) (a : α), ctx.stop.kind = .stop → ahead (ctx.next toks) →
    toks.length < n → n ≤ ctx.turns → p ctx toks = .ok (a, rest) →
    ∃ used, toks = used ++ rest ∧ (takes = true → used ≠ []) ∧ Again n' follow p' a used (ctx.next rest)

/-- A parser that depends on nothing else behind what it takes than the kind of the next
token. -/
abbrev Local (p : Parser α) : Prop := ∀ n n' ahead, Repeats n n' ahead false (fun _ => False) p p

/-- A parser that takes tokens, and behind which a token of any of these kinds may stand. -/
abbrev Closed (follow : TokenKind → Prop) (p : Parser α) : Prop :=
  ∀ n n' ahead takes, Repeats n n' ahead takes follow p p

/-- In front of tokens the next one is the first of them. -/
theorem next_append {used used' : List Token} (hwords : used'.map Token.word = used.map Token.word) (hne : used ≠ [])
    (ctx ctx' : ParserContext) (rest rest' : List Token) :
    ctx'.next (used' ++ rest') = ctx.next (used ++ rest) := by
  cases used with
  | nil => exact absurd rfl hne
  | cons t used =>
    obtain ⟨t', used', rfl, ht, -⟩ := List.map_eq_cons_iff.mp hwords
    exact congrArg Prod.fst ht

/-- Tokens with the same words as none are none. -/
theorem eq_nil_of_words {used : List Token} (hwords : used.map Token.word = ([] : List Token).map Token.word) :
    used = [] := List.map_eq_nil_iff.mp hwords

/-- In front of what is read again the same token comes next, unless nothing is read and
one comes that may follow instead. -/
theorem next_again {ctx ctx' : ParserContext} {used used' rest behind : List Token}
    (hwords : used'.map Token.word = used.map Token.word)
    (hnext : ctx'.next behind = ctx.next rest ∨ follow (ctx'.next behind)) :
    ctx'.next (used' ++ behind) = ctx.next (used ++ rest) ∨
      used = [] ∧ follow (ctx'.next (used' ++ behind)) := by
  by_cases hnil : used = []
  · subst hnil
    rw [eq_nil_of_words hwords]
    exact hnext.imp_right fun hfollows => ⟨rfl, hfollows⟩
  · exact .inl (next_append hwords hnil ctx ctx' rest behind)

theorem eat_of_next {kind : TokenKind} {q : Bool → Parser β} {ctx : ParserContext} {toks : List Token}
    (h : ctx.next toks = kind) : (eat kind >>= q) ctx toks = (advance >>= fun _ => q true) ctx toks := by
  have heat : (eat kind >>= q) ctx toks
      = ((if ctx.next toks = kind then advance >>= fun _ => pure true else pure false) >>= q) ctx toks := rfl
  rw [heat, if_pos h, bind_assoc]
  rfl

theorem eat_of_next_ne {kind : TokenKind} {q : Bool → Parser β} {ctx : ParserContext} {toks : List Token}
    (h : ctx.next toks ≠ kind) : (eat kind >>= q) ctx toks = q false ctx toks := by
  have heat : (eat kind >>= q) ctx toks
      = ((if ctx.next toks = kind then advance >>= fun _ => pure true else pure false) >>= q) ctx toks := rfl
  rw [heat, if_neg h, pure_bind]

namespace Repeats

variable {p p' : Parser α} {q q' : α → Parser β}

/-- What is done again with tokens that are known to be those the parser takes. -/
theorem again (h : Repeats n n' ahead takes follow p p') {ctx : ParserContext} {used rest : List Token} {a : α}
    (hstop : ctx.stop.kind = .stop) (hahead : ahead (ctx.next (used ++ rest))) (hn : (used ++ rest).length < n)
    (hturns : n ≤ ctx.turns) (hp : p ctx (used ++ rest) = .ok (a, rest)) :
    Again n' follow p' a used (ctx.next rest) := by
  obtain ⟨used', heq, -, hagain⟩ := h ctx (used ++ rest) rest a hstop hahead hn hturns hp
  rwa [List.append_cancel_right heq]

theorem weaken {ahead' follow' : TokenKind → Prop} {takes' : Bool} (h : Repeats n n' ahead takes follow p p')
    (hahead : ∀ k, ahead' k → ahead k) (htakes : takes' = true → takes = true)
    (hfollow : ∀ k, follow' k → follow k) : Repeats n n' ahead' takes' follow' p p' := by
  intro ctx toks rest a hstop hahead' hn hturns hp
  obtain ⟨used, htoks, htaken, hagain⟩ := h ctx toks rest a hstop (hahead _ hahead') hn hturns hp
  refine ⟨used, htoks, fun ht => htaken (htakes ht), fun ctx' used' behind hwords hn' hturns' hnext => ?_⟩
  exact hagain ctx' used' behind hwords hn' hturns' (hnext.imp_right (hfollow _))

/-- A parser that takes a token, where that is not asked for. -/
theorem taken (h : Repeats n n' ahead true follow p p') : Repeats n n' ahead takes follow p p' :=
  h.weaken (fun _ => id) (fun _ => rfl) fun _ => id

/-- Nothing is taken. -/
theorem done (a : α) : Repeats n n' ahead false follow (pure a) (pure a) := by
  intro ctx toks rest b _ _ _ _ hp
  cases hp
  refine ⟨[], rfl, nofun, fun ctx' used' behind hwords _ _ _ => ?_⟩
  rw [eq_nil_of_words hwords]
  rfl

theorem failed (e : ParseError) (p' : Parser α) : Repeats n n' ahead takes follow (throw e) p' := by
  intro ctx toks rest a _ _ _ _ hp
  cases hp

theorem unexpected (expected : String) (p' : Parser α) :
    Repeats n n' ahead takes follow (Parser.unexpected expected) p' := by
  intro ctx toks rest a _ _ _ _ hp
  cases hp

theorem tooDeep (p' : Parser α) : Repeats n n' ahead takes follow Parser.tooDeep p' := by
  intro ctx toks rest a _ _ _ _ hp
  cases hp

/-- One parser behind another.  If the second one takes a token, or may be followed by
nothing but what may follow the first one, then the first one sees the same again. -/
theorem follow_up {takes₁ takes₂ : Bool} {follow₁ follow₂ : TokenKind → Prop} {fewer : Nat}
    (hp : Repeats n n' ahead takes₁ follow₁ p p') (hfewer : takes₁ = true ∨ fewer = 0)
    (hfewer' : fewer ≤ 1)
    (hq : ∀ a, Repeats (n - fewer) (n' - fewer) (fun _ => True) takes₂ follow₂ (q a) (q' a))
    (hfollow : takes₂ = true ∨ ∀ k, follow₂ k → follow₁ k) :
    Repeats n n' ahead (takes₁ || takes₂) follow₂ (p >>= q) (p' >>= q') := by
  intro ctx toks rest b hstop hahead hn hturns hrun
  obtain ⟨a, mid, hrun, hrun'⟩ := bind_eq_ok hrun
  obtain ⟨u, rfl, hu, hagain⟩ := hp ctx toks mid a hstop hahead hn hturns hrun
  have hlength : fewer ≤ u.length := by
    rcases hfewer with ht | rfl
    · exact Nat.le_trans hfewer' (List.length_pos_iff.mpr (hu ht))
    · exact Nat.zero_le _
  rw [List.length_append] at hn
  obtain ⟨v, rfl, hv, hagain'⟩ := hq a ctx mid rest b hstop trivial (by omega) (by omega) hrun'
  refine ⟨u ++ v, (List.append_assoc u v rest).symm, fun ht => ?_, ?_⟩
  · rw [Bool.or_eq_true] at ht
    rcases ht with ht | ht
    · exact List.append_ne_nil_of_left_ne_nil (hu ht) v
    · exact List.append_ne_nil_of_right_ne_nil u (hv ht)
  · intro ctx' used' behind hwords hn' hturns' hnext
    rw [List.map_append] at hwords
    obtain ⟨u', v', rfl, hu', hv'⟩ := List.map_eq_append_iff.mp hwords
    rw [List.length_append] at hn'
    have hsecond := hagain' ctx' v' behind hv' (by omega) (by omega) hnext
    have hfirst : p' ctx' (u' ++ (v' ++ behind)) = .ok (a, v' ++ behind) := by
      refine hagain ctx' u' (v' ++ behind) hu' (by omega) hturns' ((next_again hv' hnext).imp_right ?_)
      rintro ⟨hnil, hfollows⟩
      exact (hfollow.resolve_left fun ht => hv ht hnil) _ hfollows
    have hbind : (p' >>= q') ctx' (u' ++ v' ++ behind) = (p' ctx' (u' ++ (v' ++ behind))).bind
        fun x => q' x.1 ctx' x.2 := by
      rw [List.append_assoc]
      rfl
    rw [hbind, hfirst]
    exact hsecond

/-- One parser behind another.  What may follow the second one may follow the first. -/
theorem bind (hp : Repeats n n' ahead false follow p p')
    (hq : ∀ a, Repeats n n' (fun _ => True) false follow (q a) (q' a)) :
    Repeats n n' ahead false follow (p >>= q) (p' >>= q') :=
  hp.follow_up (.inr rfl) (Nat.zero_le 1) hq (.inr fun _ => id)

/-- One parser behind another, which is told where to end by the token that the second one
takes. -/
theorem into (hp : Repeats n n' ahead false (fun _ => False) p p')
    (hq : ∀ a, Repeats n n' (fun _ => True) true follow (q a) (q' a)) :
    Repeats n n' ahead takes follow (p >>= q) (p' >>= q') :=
  taken (hp.follow_up (.inr rfl) (Nat.zero_le 1) hq (.inl rfl))

/-- One parser behind another that takes a token, so that fewer are left. -/
theorem taking {follow₁ : TokenKind → Prop} (hp : Repeats n n' ahead true follow₁ p p')
    (hq : ∀ a, Repeats (n - 1) (n' - 1) (fun _ => True) false follow (q a) (q' a))
    (hfollow : ∀ k, follow k → follow₁ k) : Repeats n n' ahead takes follow (p >>= q) (p' >>= q') :=
  taken (hp.follow_up (.inl rfl) (Nat.le_refl 1) hq (.inr hfollow))

/-- A last parser, whose result is changed. -/
theorem last (hp : Repeats n n' ahead takes follow p p') (f : α → β) :
    Repeats n n' ahead takes follow (p >>= fun a => pure (f a)) (p' >>= fun a => pure (f a)) := by
  have h : Repeats n n' ahead (takes || false) follow (p >>= fun a => pure (f a)) (p' >>= fun a => pure (f a)) :=
    hp.follow_up (.inr rfl) (Nat.zero_le 1) (fun a => done (f a)) (.inr fun _ => id)
  rwa [Bool.or_false] at h

theorem map (hp : Repeats n n' ahead takes follow p p') (f : α → β) :
    Repeats n n' ahead takes follow (f <$> p) (f <$> p') :=
  hp.last f

/-- A look at the next token.  If the parser goes on to take nothing, then it has seen
the token behind what it takes. -/
theorem look {q q' : TokenKind → Parser β} (hfollow : takes = true ∨ ∀ k, ¬follow k)
    (h : ∀ k, ahead k → Repeats n n' (· = k) takes follow (q k) (q' k)) :
    Repeats n n' ahead takes follow (peekKind >>= q) (peekKind >>= q') := by
  intro ctx toks rest b hstop hahead hn hturns hrun
  obtain ⟨used, rfl, hused, hagain⟩ := h _ hahead ctx toks rest b hstop rfl hn hturns hrun
  refine ⟨used, rfl, hused, fun ctx' used' behind hwords hn' hturns' hnext => ?_⟩
  have hkind : ctx'.next (used' ++ behind) = ctx.next (used ++ rest) := by
    refine (next_again hwords hnext).resolve_right fun ⟨hnil, hfollows⟩ => ?_
    exact (hfollow.resolve_left fun ht => hused ht hnil) _ hfollows
  show q' (ctx'.next (used' ++ behind)) ctx' (used' ++ behind) = .ok (b, behind)
  rw [hkind]
  exact hagain ctx' used' behind hwords hn' hturns' hnext

/-- A look at the place of the next token, on which nothing depends. -/
theorem glance {q q' : Token → Parser β} (h : ∀ t t', Repeats n n' ahead takes follow (q t) (q' t')) :
    Repeats n n' ahead takes follow (peek >>= q) (peek >>= q') := by
  intro ctx toks rest b hstop hahead hn hturns hrun
  let t := toks.headD ctx.stop
  obtain ⟨used, rfl, hused, -⟩ := h t t ctx toks rest b hstop hahead hn hturns hrun
  refine ⟨used, rfl, hused, fun ctx' used' behind => ?_⟩
  let t' := (used' ++ behind).headD ctx'.stop
  exact (h t t').again hstop hahead hn hturns hrun ctx' used' behind

/-- A look at the bound of a loop. -/
theorem bounded {q q' : Nat → Parser β}
    (h : ∀ bound bound', n ≤ bound → n' ≤ bound' → Repeats n n' ahead takes follow (q bound) (q' bound')) :
    Repeats n n' ahead takes follow (turns >>= q) (turns >>= q') := by
  intro ctx toks rest b hstop hahead hn hturns hrun
  obtain ⟨used, rfl, hused, -⟩ := h ctx.turns n' hturns (Nat.le_refl n') ctx toks rest b hstop hahead hn hturns hrun
  refine ⟨used, rfl, hused, fun ctx' used' behind hwords hn' hturns' => ?_⟩
  exact (h ctx.turns ctx'.turns hturns hturns').again hstop hahead hn hturns hrun ctx' used' behind hwords hn'
    hturns'

/-- A loop that takes a turn.  Where no token may be taken at all, there is nothing to
be done again. -/
theorem turn (loop : Nat → Parser α)
    (h : ∀ bound, n' ≤ bound + 1 → Repeats n n' ahead takes follow p (loop (bound + 1))) {bound' : Nat}
    (hbound' : n' ≤ bound') : Repeats n n' ahead takes follow p (loop bound') := by
  cases bound' with
  | zero =>
    intro ctx toks rest a hstop hahead hn hturns hrun
    obtain ⟨used, htoks, hused, -⟩ := h 0 (by omega) ctx toks rest a hstop hahead hn hturns hrun
    exact ⟨used, htoks, hused, fun ctx' used' behind _ hn' => by omega⟩
  | succ bound => exact h bound hbound'

/-- A loop whose bound leaves no turn: no token may be left then. -/
theorem exhausted (hn : n ≤ 0) : Repeats n n' ahead takes follow p p' := by
  intro ctx toks rest a _ _ hlt
  omega

/-- A token that is taken.  The token behind the row, which ends a program, is not. -/
theorem advance {q q' : Token → Parser β} (hstop : ¬ahead .stop)
    (h : ∀ t t' : Token, ahead t.kind → t'.lexeme = t.lexeme →
      Repeats (n - 1) (n' - 1) (fun _ => True) false follow (q t) (q' t')) :
    Repeats n n' ahead takes follow (Parser.advance >>= q) (Parser.advance >>= q') := by
  intro ctx toks rest b hctx hahead hn hturns hrun
  cases toks with
  | nil =>
    -- nothing is left but the token that ends the program
    have hend : ctx.next [] = .stop := hctx
    exact absurd (hend ▸ hahead) hstop
  | cons t toks =>
    rw [List.length_cons] at hn
    have hrun' : q t ctx toks = .ok (b, rest) := hrun
    obtain ⟨v, rfl, -, -⟩ := h t t hahead rfl ctx toks rest b hctx trivial (by omega) (by omega) hrun'
    refine ⟨t :: v, rfl, fun _ => List.cons_ne_nil t v, fun ctx' used' behind hwords hn' hturns' hnext => ?_⟩
    obtain ⟨t', v', rfl, ht, hv⟩ := List.map_eq_cons_iff.mp hwords
    rw [List.length_cons] at hn'
    show q' t' ctx' (v' ++ behind) = .ok (b, behind)
    exact (h t t' hahead (congrArg Prod.snd ht)).again hctx trivial (by omega) (by omega) hrun' ctx' v' behind hv
      (by omega) (by omega) hnext

section OneToken

variable {kind : TokenKind} {expected : String}

/-- A token that has to be of its kind. -/
theorem expect {q q' : Token → Parser β} (hkind : kind ≠ .stop)
    (h : ∀ t t' : Token, t'.lexeme = t.lexeme →
      Repeats (n - 1) (n' - 1) (fun _ => True) false follow (q t) (q' t')) :
    Repeats n n' ahead takes follow (Parser.expect kind expected >>= q) (Parser.expect kind expected >>= q') := by
  have hlook : Repeats n n' ahead takes follow
      (peekKind >>= fun k => (if k = kind then Parser.advance else Parser.unexpected expected) >>= q)
      (peekKind >>= fun k => (if k = kind then Parser.advance else Parser.unexpected expected) >>= q') := by
    refine taken (look (.inl rfl) fun k _ => ?_)
    split
    · next hk =>
      subst hk
      exact advance (fun heq => hkind heq.symm) fun t t' _ => h t t'
    · intro ctx toks rest b _ _ _ _ hrun
      cases hrun
  simpa only [Parser.expect, bind_assoc] using hlook

/-- A symbol that has to be there. -/
theorem expectSymbol {c : Symbol} {q q' : Unit → Parser β}
    (h : Repeats (n - 1) (n' - 1) (fun _ => True) false follow (q ()) (q' ())) :
    Repeats n n' ahead takes follow (Parser.expectSymbol c expected >>= q) (Parser.expectSymbol c expected >>= q') := by
  have hexpect : Repeats n n' ahead takes follow (Parser.expect (.symbol c) expected >>= fun _ => q ())
      (Parser.expect (.symbol c) expected >>= fun _ => q' ()) :=
    expect TokenKind.noConfusion fun _ _ _ => h
  simpa only [Parser.expectSymbol, bind_assoc, pure_bind] using hexpect

/-- A token that may be of the kind.  Where it is not, none of that kind may follow. -/
theorem eat {q q' : Bool → Parser β} (hkind : kind ≠ .stop) (hfollow : takes = true ∨ ∀ k, follow k → k ≠ kind)
    (hyes : Repeats (n - 1) (n' - 1) (fun _ => True) false follow (q true) (q' true))
    (hno : Repeats n n' (fun k => ahead k ∧ k ≠ kind) takes follow (q false) (q' false)) :
    Repeats n n' ahead takes follow (Parser.eat kind >>= q) (Parser.eat kind >>= q') := by
  intro ctx toks rest b hstop hahead hn hturns hrun
  by_cases hk : ctx.next toks = kind
  · have hadvance : Repeats n n' (· = kind) true follow (Parser.advance >>= fun _ => q true)
        (Parser.advance >>= fun _ => q' true) := advance (fun heq => hkind heq.symm) fun _ _ _ _ => hyes
    rw [eat_of_next hk] at hrun
    obtain ⟨used, rfl, hused, hagain⟩ := hadvance ctx toks rest b hstop hk hn hturns hrun
    refine ⟨used, rfl, fun _ => hused rfl, fun ctx' used' behind hwords hn' hturns' hnext => ?_⟩
    rw [eat_of_next ((next_append hwords (hused rfl) ctx ctx' rest behind).trans hk)]
    exact hagain ctx' used' behind hwords hn' hturns' hnext
  · rw [eat_of_next_ne hk] at hrun
    obtain ⟨used, rfl, hused, hagain⟩ := hno ctx toks rest b hstop ⟨hahead, hk⟩ hn hturns hrun
    refine ⟨used, rfl, hused, fun ctx' used' behind hwords hn' hturns' hnext => ?_⟩
    have hk' : ctx'.next (used' ++ behind) ≠ kind := by
      rcases next_again hwords hnext with heq | ⟨hnil, hfollows⟩
      · rwa [heq]
      · exact (hfollow.resolve_left fun ht => hused ht hnil) _ hfollows
    rw [eat_of_next_ne hk']
    exact hagain ctx' used' behind hwords hn' hturns' hnext

end OneToken

end Repeats

/-! ### Rows of items -/

section Rows

variable {item : Parser α} {bound bound' : Nat}

/-- Items up to a token that ends them, if every item takes one. -/
theorem repeats_many {ends : TokenKind → Bool} {follow : TokenKind → Prop} (hitem : Closed follow item)
    (hbound : n ≤ bound) (hbound' : n' ≤ bound') :
    Repeats n n' ahead false (fun _ => False) (many ends item bound) (many ends item bound') := by
  induction bound generalizing n n' ahead bound' with
  | zero => exact .exhausted hbound
  | succ bound ih =>
    refine .turn (many ends item) (fun c hc => .look (.inr fun _ => id) fun k _ => ?_) hbound'
    split
    · exact .done []
    · have hrest : Repeats (n - 1) (n' - 1) (fun _ => True) false (fun _ => False) (many ends item bound)
          (many ends item c) := ih (by omega) (by omega)
      exact (hitem n n' _ true).taking (fun x => hrest.last (x :: ·)) fun _ => False.elim

/-- Items that are read up to the end of a row are read again in front of further ones,
and then those.  What comes next behind the row has to be such that it may follow an
item. -/
theorem many_append {ends : TokenKind → Bool} {follow : TokenKind → Prop} {ctx ctx' : ParserContext}
    (hitem : Closed follow item) (hstop : ctx.stop.kind = .stop) {behind rest : List Token} {bs : List α}
    (hfollow : follow (ctx'.next behind))
    (hbehind : ∀ bound, behind.length < bound → many ends item bound ctx' behind = .ok (bs, rest))
    {toks : List Token} {as : List α} (hrun : many ends item bound ctx toks = .ok (as, []))
    (hbound : toks.length < bound) (hturns : toks.length < ctx.turns)
    (hbound' : toks.length + behind.length < bound') (hturns' : toks.length < ctx'.turns) :
    many ends item bound' ctx' (toks ++ behind) = .ok (as ++ bs, rest) := by
  induction bound generalizing bound' toks as with
  | zero => exact absurd hbound (Nat.not_lt_zero _)
  | succ bound ih =>
    rcases many_eq_ok hrun with ⟨-, rfl, rfl⟩ | ⟨hends, a, mid, as', hone, hmany, rfl⟩
    · exact hbehind bound' (by omega)
    · obtain ⟨used, rfl, hused, hagain⟩ :=
        hitem ctx.turns ctx'.turns (fun _ => True) true ctx toks mid a hstop trivial hturns (Nat.le_refl _) hone
      -- the item has taken a token, so the rest is shorter
      have hshort : 0 < used.length := List.length_pos_iff.mpr (hused rfl)
      rw [List.length_append] at hbound hturns hbound' hturns'
      obtain ⟨bound', rfl⟩ := Nat.exists_eq_succ_of_ne_zero (Nat.ne_of_gt (Nat.zero_lt_of_lt hbound'))
      have hnext : ctx'.next (mid ++ behind) = ctx.next mid ∨ follow (ctx'.next (mid ++ behind)) := by
        have hnext' : ctx'.next (mid ++ behind) = ctx.next (mid ++ []) ∨
            mid = [] ∧ follow (ctx'.next (mid ++ behind)) := next_again rfl (.inr hfollow)
        rw [List.append_nil] at hnext'
        exact hnext'.imp_right And.right
      have hone' : item ctx' (used ++ (mid ++ behind)) = .ok (a, mid ++ behind) :=
        hagain ctx' used (mid ++ behind) rfl (by omega) (Nat.le_refl _) hnext
      have hends' : ends (ctx'.next (used ++ (mid ++ behind))) = false := by
        rw [next_append rfl (hused rfl) ctx ctx' mid]
        exact hends
      have hmany' : many ends item bound' ctx' (mid ++ behind) = .ok (as' ++ bs, rest) :=
        ih hmany (by omega) (by omega) (by omega) (by omega)
      rw [List.append_assoc]
      exact many_cons hends' hone' hmany'

/-- Items with commas between them. -/
theorem repeats_separated (hitem : Local item) (hbound : n ≤ bound) (hbound' : n' ≤ bound') :
    Repeats n n' ahead false (fun _ => False) (separated item bound) (separated item bound') := by
  induction bound generalizing n n' ahead bound' with
  | zero => exact .exhausted hbound
  | succ bound ih =>
    refine .turn (separated item) (fun c hc => ?_) hbound'
    refine (hitem n n' ahead).bind fun x => ?_
    have hrest : Repeats (n - 1) (n' - 1) (fun _ => True) false (fun _ => False) (separated item bound)
        (separated item c) := ih (by omega) (by omega)
    exact .eat TokenKind.noConfusion (.inr fun _ => False.elim) (hrest.last (x :: ·)) (.done [x])

/-- Items up to a closing symbol.  Whatever stands behind that is not looked at. -/
theorem repeats_enclosed (hitem : Local item) {close : Symbol} {expected : String} :
    Repeats n n' ahead takes follow (enclosed item close expected) (enclosed item close expected) := by
  refine .taken (.eat TokenKind.noConfusion (.inl rfl) (.done []) (.bounded fun bound bound' hbound hbound' => ?_))
  exact (repeats_separated hitem hbound hbound').into fun items => .expectSymbol (.done items)

/-- Statements in braces. -/
theorem repeats_block {statement : Parser Stmt} {follow' : TokenKind → Prop} (hstatement : Closed follow' statement) :
    Repeats n n' ahead takes follow (block statement) (block statement) := by
  refine .expectSymbol (.bounded fun bound bound' hbound hbound' => ?_)
  exact (repeats_many hstatement hbound hbound').into fun body => .expectSymbol (.done body)

end Rows

end SealedScript.Parser

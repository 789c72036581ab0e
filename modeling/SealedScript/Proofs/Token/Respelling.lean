/-
SealedScript/Proofs/Token/Respelling.lean

Tokens written out again.  A token is written by its lexeme, and a quoted literal by
what it denotes, between quotes, with a backslash in front of every quote and every
backslash.  Behind each token but the last comes a spacing: a blank, and then any
blanks and comments that end with their lines.  Whatever the spacings are, the same
tokens are read of such a text.

A spelling belongs to one token only, so a text that is nothing but the spelling of a
token is read as that token; and a blank behind it changes nothing, since it ends
every token.

Main result: `tokenize_respelled`.
-/
import SealedScript.Proofs.Program.Seam

namespace SealedScript

/-! ### Writing tokens -/

/-- What stands between quotes for a text: its quotes and backslashes, each behind a
backslash, and everything else as it is. -/
def escaped (denoted : List Char) : List Char :=
  denoted.flatMap fun c => if c = '"' ∨ c = '\\' then ['\\', c] else [c]

/-- How a token of this kind and with this lexeme is written. -/
def TokenKind.written (kind : TokenKind) (lexeme : List Char) : List Char :=
  match kind with
  | .text => '"' :: (escaped lexeme ++ ['"'])
  | _ => lexeme

/-- Blanks, and comments with the ends of their lines. -/
inductive ClosedGap : List Char → Prop
  | nil : ClosedGap []
  | blank {c : Char} {gap : List Char} : isBlank c = true → ClosedGap gap → ClosedGap (c :: gap)
  | comment {words gap : List Char} : (∀ c ∈ words, c ≠ '\n') → ClosedGap gap →
      ClosedGap ('/' :: '/' :: (words ++ '\n' :: gap))

/-- What may stand between two tokens: a gap that begins with a blank. -/
inductive Spacing : List Char → Prop
  | mk {c : Char} {gap : List Char} : isBlank c = true → ClosedGap gap → Spacing (c :: gap)

/-- The text is made of the tokens, written one behind the other with spacings between
them. -/
inductive WrittenOut : List Token → List Char → Prop
  | none : WrittenOut [] []
  | last (t : Token) : WrittenOut [t] (t.kind.written t.lexeme.toList)
  | next {t u : Token} {ts : List Token} {spacing text : List Char} : Spacing spacing →
      WrittenOut (u :: ts) text → WrittenOut (t :: u :: ts) (t.kind.written t.lexeme.toList ++ (spacing ++ text))

/-! ### One spelling, one token -/

theorem escaped_cons (c : Char) (denoted : List Char) :
    escaped (c :: denoted) = (if c = '"' ∨ c = '\\' then ['\\', c] else [c]) ++ escaped denoted :=
  List.flatMap_cons

/-- What is written between quotes denotes the text. -/
theorem escaped_denotes (denoted : List Char) : Escaped (escaped denoted) denoted := by
  induction denoted with
  | nil => exact .nil
  | cons c denoted ih =>
    rw [escaped_cons]
    split
    · next hspecial =>
      -- a quote and a backslash stand for themselves behind a backslash
      have hself : Lexer.unescape c = c := by
        rcases hspecial with rfl | rfl
        · rfl
        · rfl
      have hescape := Escaped.escape c ih
      rwa [hself] at hescape
    · next hplain =>
      rw [not_or] at hplain
      exact .plain hplain.1 hplain.2 ih

/-- A token that is spelled somehow is spelled as it is written. -/
theorem Spelled.written {kind : TokenKind} {lexeme spelling : List Char} (h : Spelled kind lexeme spelling) :
    Spelled kind lexeme (kind.written lexeme) := by
  cases h with
  | text _ => exact .text (escaped_denotes lexeme)
  | number hnumber => exact .number hnumber
  | trigger hword hmark => exact .trigger hword hmark
  | keyword hword hwritten => exact .keyword hword hwritten
  | name hword hmark hnone => exact .name hword hmark hnone
  | symbol s => exact .symbol s

/-- What stands between quotes denotes one text only. -/
theorem Escaped.unique {body denoted denoted' : List Char} (h : Escaped body denoted) (h' : Escaped body denoted') :
    denoted = denoted' := by
  have hread := Lexer.literal?_escaped h []
  rw [Lexer.literal?_escaped h' []] at hread
  simp only [Option.some.injEq, Prod.mk.injEq, and_true] at hread
  exact hread.symm

/-- No reserved word begins with the mark of a timer statement. -/
theorem Keyword.IsWrittenAs.not_triggerMark {k : Keyword} {text : List Char} (h : k.IsWrittenAs text) :
    ¬triggerMark <+: text := by
  rcases h with rfl | rfl
  · cases k <;> decide
  · cases k <;> decide

/-- A word is one reserved word at most. -/
theorem Keyword.IsWrittenAs.unique {k k' : Keyword} {text : List Char} (h : k.IsWrittenAs text)
    (h' : k'.IsWrittenAs text) : k = k' := by
  have hspelling : ∀ k ∈ Keyword.all, ∀ k' ∈ Keyword.all, k.spelling.toList = k'.spelling.toList → k = k' := by
    decide
  have hmark : ∀ k ∈ Keyword.all, ∀ k' ∈ Keyword.all, k.spelling.toList ≠ encryptedMark ++ k'.spelling.toList := by
    decide
  rcases h with rfl | rfl <;> rcases h' with heq | heq
  · exact hspelling k k.mem_all k' k'.mem_all heq
  · exact absurd heq (hmark k k.mem_all k' k'.mem_all)
  · exact absurd heq.symm (hmark k' k'.mem_all k k.mem_all)
  · exact hspelling k k.mem_all k' k'.mem_all (List.append_cancel_left heq)

theorem Symbol.spelling_injective {s s' : Symbol} (h : s.spelling = s'.spelling) : s = s' := by
  have hspelling : ∀ s ∈ Symbol.all, ∀ s' ∈ Symbol.all, s.spelling = s'.spelling → s = s' := by
    decide +kernel
  exact hspelling s s.mem_all s' s'.mem_all h

/-- **A spelling belongs to one token only.** -/
theorem Spelled.unique {kind kind' : TokenKind} {lexeme lexeme' text : List Char} (h : Spelled kind lexeme text)
    (h' : Spelled kind' lexeme' text) : kind = kind' ∧ lexeme = lexeme' := by
  -- both are of the sort that the first character tells
  have hsort : kind.sort = kind'.sort := by
    obtain ⟨c, rest, rfl, hc⟩ := h.begins
    exact hc.symm.trans (h'.sort_eq (List.prefix_refl _)).symm
  cases h with
  | number =>
    cases h' with
    | number => exact ⟨rfl, rfl⟩
    | text | trigger | keyword | name | symbol => cases hsort
  | @text body denoted hbody =>
    generalize htext : '"' :: (body ++ ['"']) = text at h'
    cases h' with
    | @text body' denoted' hbody' =>
      have hsame : body = body' := List.append_cancel_right (List.cons.inj htext).2
      subst hsame
      exact ⟨rfl, hbody.unique hbody'⟩
    | number | trigger | keyword | name | symbol => cases hsort
  | trigger _ hmark =>
    cases h' with
    | trigger => exact ⟨rfl, rfl⟩
    | keyword _ hwritten => exact absurd hmark hwritten.not_triggerMark
    | name _ hnot _ => exact absurd hmark hnot
    | number | text | symbol => cases hsort
  | keyword _ hwritten =>
    cases h' with
    | trigger _ hmark => exact absurd hmark hwritten.not_triggerMark
    | keyword _ hwritten' => exact ⟨congrArg _ (hwritten.unique hwritten'), rfl⟩
    | name _ _ hnone => exact absurd hwritten (hnone _)
    | number | text | symbol => cases hsort
  | name _ hnot hnone =>
    cases h' with
    | trigger _ hmark => exact absurd hmark hnot
    | keyword _ hwritten => exact absurd hwritten (hnone _)
    | name => exact ⟨rfl, rfl⟩
    | number | text | symbol => cases hsort
  | symbol s =>
    generalize htext : s.spelling = text at h'
    cases h' with
    | symbol s' =>
      obtain rfl := Symbol.spelling_injective htext
      exact ⟨rfl, rfl⟩
    | number | text | trigger | keyword | name => cases hsort

namespace Lexer

/-! ### Reading a token that was written -/

/-- A text that is nothing but the spelling of a token is read as this token. -/
theorem token_spelled {kind : TokenKind} {lexeme rest : List Char} {c : Char}
    (h : Spelled kind lexeme (c :: rest)) : token c rest = .ok ⟨kind, lexeme, c :: rest, []⟩ := by
  rcases hread : token c rest with fault | read
  · exfalso
    have hfault := token_error hread
    cases fault with
    | unexpected d => exact hfault.2 kind lexeme _ h (List.prefix_refl _)
    | unterminated =>
      obtain ⟨inside, htext, hopen⟩ := hfault
      rw [htext] at h
      have hsort := h.sort_eq (List.prefix_refl _)
      generalize hspelling : '"' :: inside = spelling at h
      cases h with
      | text hbody =>
        obtain rfl := (List.cons.inj hspelling).2
        exact hopen _ _ hbody (List.prefix_refl _)
      | number | trigger | keyword | name => cases hsort
      | symbol s => cases hsort
  · -- the token that was read is as long as the text, so it is the one that the text spells
    obtain ⟨hfront, hspelled, hlongest⟩ := token_ok hread
    have hlength := hlongest kind lexeme (c :: rest) h (hfront ▸ List.prefix_refl _)
    have hrest : read.rest = [] := by
      rw [hfront, List.length_append] at hlength
      exact List.length_eq_zero_iff.mp (by omega)
    rw [hrest, List.append_nil] at hfront
    rw [hfront] at h
    obtain ⟨rfl, rfl⟩ := h.unique hspelled
    rw [hfront, ← hrest]

/-- Nothing stands there, or a blank comes first. -/
def SetApart (behind : List Char) : Prop := ∀ c ∈ behind.head?, isBlank c = true

/-- A token that is set apart from what is behind it is read as it is spelled. -/
theorem token_setApart {kind : TokenKind} {lexeme rest behind : List Char} {c : Char}
    (h : Spelled kind lexeme (c :: rest)) (hbehind : SetApart behind) :
    token c (rest ++ behind) = .ok ⟨kind, lexeme, c :: rest, behind⟩ := by
  have hread := token_spelled h
  cases behind with
  | nil => rwa [List.append_nil]
  | cons d more => exact token_separated (separates_of_isBlank (hbehind d rfl)) more hread

/-! ### Gaps in front of a token -/

/-- No token begins with a blank. -/
theorem not_blank_of_spelled {kind : TokenKind} {lexeme rest : List Char} {c : Char}
    (h : Spelled kind lexeme (c :: rest)) : isBlank c = false := by
  rw [Bool.eq_false_iff]
  intro hblank
  have hseparates := separates_of_isBlank hblank
  have hnoWord : ¬IsWord (c :: rest) := by
    intro hword
    cases hword with
    | plain hstart _ =>
      -- what a word can begin with, it can go on with
      have hcontinues : continuesWord c = true := by
        rw [startsWord, Bool.or_eq_true] at hstart
        rcases hstart with hletter | hunderscore
        · exact continuesWord_of_isLetter hletter
        · rw [continuesWord, hunderscore, Bool.or_true]
      rw [hseparates.1] at hcontinues
      cases hcontinues
    | marked _ _ => exact absurd hblank (by decide)
  generalize htext : c :: rest = text at h hnoWord
  cases h with
  | number hnumber =>
    obtain ⟨d, inner, rfl, hdigit⟩ := hnumber.begins
    rw [← (List.cons.inj htext).1, hseparates.isDigit_eq] at hdigit
    cases hdigit
  | text _ =>
    obtain ⟨rfl, -⟩ := List.cons.inj htext
    exact absurd hblank (by decide)
  | trigger hword _ | keyword hword _ | name hword _ _ => exact hnoWord hword
  | symbol s =>
    refine hseparates.2 s s.mem_all ?_
    rw [← htext]
    exact List.mem_cons_self

/-- No token begins with two slashes. -/
theorem not_slashes_of_spelled {kind : TokenKind} {lexeme rest : List Char} (h : Spelled kind lexeme ('/' :: rest)) :
    rest.head? ≠ some '/' := by
  have hsort := h.sort_eq (List.prefix_refl _)
  generalize htext : '/' :: rest = text at h
  cases h with
  | number | text | trigger | keyword | name => cases hsort
  | symbol s => cases s <;> cases htext <;> decide

/-- Nothing is skipped in front of a token that is set apart. -/
theorem gap_spelled {kind : TokenKind} {lexeme rest behind : List Char} {c : Char}
    (h : Spelled kind lexeme (c :: rest)) (hbehind : SetApart behind) :
    gap false (c :: (rest ++ behind)) = ([], c :: (rest ++ behind)) := by
  have hslashes : (c == '/' && (rest ++ behind).head? == some '/') = false := by
    rw [Bool.and_eq_false_imp]
    intro hslash
    obtain rfl := beq_iff_eq.mp hslash
    rw [beq_eq_false_iff_ne]
    cases rest with
    | nil =>
      intro hhead
      exact absurd (hbehind '/' hhead) (by decide)
    | cons d rest =>
      have hhead := not_slashes_of_spelled h
      exact hhead
  simp only [gap, not_blank_of_spelled h, hslashes, Bool.false_and, Bool.false_or, Bool.false_eq_true, if_false]

/-- The rest of a comment is skipped, and its line end as a blank. -/
theorem gap_comment {words : List Char} (hwords : ∀ c ∈ words, c ≠ '\n') (text : List Char) :
    gap true (words ++ '\n' :: text) = (words ++ '\n' :: (gap false text).1, (gap false text).2) := by
  induction words with
  | nil =>
    have hblank : isBlank '\n' = true := by decide
    simp [gap, hblank]
  | cons c words ih =>
    rw [List.forall_mem_cons] at hwords
    have hskip : (c != '\n') = true := bne_iff_ne.mpr hwords.1
    simp [gap, hskip, ih hwords.2]

/-- A closed gap is skipped as a whole. -/
theorem gap_closed {skipped : List Char} (h : ClosedGap skipped) (text : List Char) :
    gap false (skipped ++ text) = (skipped ++ (gap false text).1, (gap false text).2) := by
  induction h with
  | nil => rfl
  | @blank c skipped hblank _ ih =>
    have hslash : (c == '/') = false := by
      rw [beq_eq_false_iff_ne]
      rintro rfl
      exact absurd hblank (by decide)
    simp only [List.cons_append, gap, hblank, hslash, Bool.false_and, Bool.or_true, Bool.or_false, if_true, ih]
  | @comment words skipped hwords _ ih =>
    have hcomment := gap_comment hwords (skipped ++ text)
    simp [gap, hcomment, ih]

/-! ### Reading rows of tokens that were written -/

/-- The first token of a text that is written behind a gap, and those behind it. -/
theorem tokens_written (bound : Nat) (p : Position) {t : Token} {spelling skipped behind : List Char}
    (h : Spelled t.kind t.lexeme.toList spelling) (hskipped : ClosedGap skipped) (hbehind : SetApart behind) :
    tokens (bound + 1) p (skipped ++ (spelling ++ behind)) =
      ({ t with position := p.after skipped } :: ·) <$> tokens bound ((p.after skipped).after spelling) behind := by
  obtain ⟨c, rest, rfl, -⟩ := h.begins
  have hgap := gap_closed hskipped (c :: (rest ++ behind))
  rw [gap_spelled h hbehind, List.append_nil] at hgap
  rw [List.cons_append, tokens_cons (congrArg Prod.snd hgap) (token_setApart h hbehind), hgap, String.ofList_toList]

/-- What is read of tokens that are written out behind a gap.  The induction is on how
they are written out; each of them takes up a character at least, so the bound suffices
for the rest. -/
theorem tokens_writtenOut {ts : List Token} {text skipped : List Char} (h : WrittenOut ts text)
    (hspelled : ∀ t ∈ ts, ∃ spelling, Spelled t.kind t.lexeme.toList spelling) (hskipped : ClosedGap skipped)
    {bound : Nat} (hbound : (skipped ++ text).length < bound) (p : Position) :
    ∃ ts' place, tokens bound p (skipped ++ text) = .ok (ts' ++ [Token.stopAt place]) ∧
      ts'.map Token.word = ts.map Token.word := by
  induction h generalizing skipped bound p with
  | none =>
    obtain ⟨bound, rfl⟩ := Nat.exists_eq_succ_of_ne_zero (Nat.ne_of_gt (Nat.zero_lt_of_lt hbound))
    have hgap := gap_closed hskipped []
    exact ⟨[], _, tokens_of_gap (congrArg Prod.snd hgap), rfl⟩
  | last t =>
    obtain ⟨spelling, ht⟩ := hspelled t List.mem_cons_self
    obtain ⟨c, rest, hcons, -⟩ := ht.written.begins
    rw [List.length_append, hcons, List.length_cons] at hbound
    obtain ⟨bound, rfl⟩ : ∃ more, bound = more + 1 + 1 := ⟨bound - 2, by omega⟩
    have hend (q : Position) : tokens (bound + 1) q [] = .ok [Token.stopAt q] := tokens_of_gap rfl
    have hread := tokens_written (bound + 1) p ht.written hskipped (nofun : SetApart [])
    rw [hend, List.append_nil] at hread
    exact ⟨[{ t with position := p.after skipped }], _, hread, rfl⟩
  | @next t u ts spacing text hspacing _ ih =>
    rw [List.forall_mem_cons] at hspelled
    obtain ⟨⟨spelling, ht⟩, hrest⟩ := hspelled
    obtain ⟨c, rest, hcons, -⟩ := ht.written.begins
    obtain ⟨bound, rfl⟩ := Nat.exists_eq_succ_of_ne_zero (Nat.ne_of_gt (Nat.zero_lt_of_lt hbound))
    obtain @⟨d, gap, hblank, hgap⟩ := hspacing
    have hroom : (d :: gap ++ text).length < bound := by
      rw [List.length_append, List.length_append, hcons, List.length_cons] at hbound
      omega
    obtain ⟨ts', place, htokens, hwords⟩ := ih hrest (.blank hblank hgap) hroom
      ((p.after skipped).after (t.kind.written t.lexeme.toList))
    have hbehind : SetApart (d :: gap ++ text) := fun e he => Option.some.inj he ▸ hblank
    have hread := tokens_written bound p ht.written hskipped hbehind
    rw [htokens] at hread
    exact ⟨{ t with position := p.after skipped } :: ts', place, hread, congrArg (t.word :: ·) hwords⟩

end Lexer

/-- Every token of a layout is spelled somehow. -/
theorem Layout.spelled {before behind : List Char} {pieces : List Piece} (h : Layout before pieces behind) :
    ∀ t ∈ pieces.map Piece.token, ∃ spelling, Spelled t.kind t.lexeme.toList spelling := by
  induction pieces generalizing before with
  | nil => exact List.forall_mem_nil _
  | cons p pieces ih =>
    obtain ⟨hp, hpieces⟩ := h
    exact List.forall_mem_cons.2 ⟨⟨p.spelling, hp.spelled⟩, ih hpieces⟩

/-- **Tokens are read again from what is written of them.**  Let the tokens of a source be
written out, each by its lexeme or, if it is a quoted literal, by its text with escapes
between quotes, and with any spacings between them.  Then the text has the same tokens,
up to their places. -/
theorem tokenize_respelled {source : String} {ts : List Token} {place : Position} {text : List Char}
    (hsource : tokenize source = .ok (ts ++ [Token.stopAt place])) (htext : WrittenOut ts text) :
    ∃ ts' place', tokenize (String.ofList text) = .ok (ts' ++ [Token.stopAt place']) ∧
      ts'.map (fun t => (t.kind, t.lexeme)) = ts.map (fun t => (t.kind, t.lexeme)) := by
  have hlayout := Lexer.tokens_layout (source.toList.length + 1) [] source.toList (Nat.lt_succ_self _)
  have hread : Lexer.tokens (source.toList.length + 1) (Position.behind []) source.toList
      = .ok (ts ++ [Token.stopAt place]) := hsource
  rw [hread] at hlayout
  obtain ⟨pieces, gap, -, hpieces, -, htokens⟩ := hlayout
  obtain ⟨rfl, -⟩ := List.append_inj' htokens rfl
  have hagain := Lexer.tokens_writtenOut htext hpieces.spelled .nil (Nat.lt_succ_self _) .start
  rw [List.nil_append] at hagain
  rw [tokenize, String.toList_ofList]
  exact hagain

/-- The tokens of `@ENCx+="\n\"\\"/1.;`, where the literal denotes a line end, a quote and a
backslash. -/
def divisionTokens : List Token :=
  [⟨.name, "@ENCx", ⟨1, 1⟩⟩, ⟨.symbol .plusAssign, "+=", ⟨1, 6⟩⟩, ⟨.text, "\n\"\\", ⟨1, 8⟩⟩,
   ⟨.symbol .slash, "/", ⟨1, 16⟩⟩, ⟨.number, "1.", ⟨1, 17⟩⟩, ⟨.symbol .semicolon, ";", ⟨1, 19⟩⟩]

/-- The same tokens in other words: the literal holds the line end itself, and a comment stands
behind the slash. -/
def divisionText : List Char :=
  ['@', 'E', 'N', 'C', 'x'] ++ (['\n'] ++ (['+', '='] ++ ([' ', ' '] ++
    (['"', '\n', '\\', '"', '\\', '\\', '"'] ++ ([' '] ++ (['/'] ++ ([' ', '/', '/', '/', '\n'] ++
    (['1', '.'] ++ (['\t'] ++ [';'])))))))))

theorem divisionText_written : WrittenOut divisionTokens divisionText := by
  have hblank : ClosedGap [' '] := .blank (by decide) .nil
  have hcomment : ClosedGap ('/' :: '/' :: (['/'] ++ '\n' :: [])) :=
    .comment (List.forall_mem_singleton.2 (by decide)) .nil
  refine .next (.mk (by decide) .nil) ?_
  refine .next (.mk (by decide) hblank) ?_
  refine .next (.mk (by decide) .nil) ?_
  refine .next (.mk (by decide) hcomment) ?_
  exact .next (.mk (by decide) .nil) (.last _)

theorem tokenize_divisionText :
    tokenize "@ENCx+=\"\\n\\\"\\\\\"/1.;" = .ok (divisionTokens ++ [Token.stopAt ⟨1, 20⟩]) ∧
    WrittenOut divisionTokens divisionText ∧
    ∃ ts' place', tokenize (String.ofList divisionText) = .ok (ts' ++ [Token.stopAt place']) ∧
      ts'.map (fun t => (t.kind, t.lexeme)) = divisionTokens.map (fun t => (t.kind, t.lexeme)) := by
  have hsource : tokenize "@ENCx+=\"\\n\\\"\\\\\"/1.;" = .ok (divisionTokens ++ [Token.stopAt ⟨1, 20⟩]) := by
    decide +kernel
  exact ⟨hsource, divisionText_written, tokenize_respelled hsource divisionText_written⟩

end SealedScript

/-
SealedScript/Proofs/Token/Lossless.lean

A program is laid out by its tokens: it consists of gaps and of spellings of the
tokens, in turn, and nothing else.  A gap is made of blanks and of comments, each of
which runs up to the end of its line.  Every token stands in its longest spelling,
at the place that is found by counting the line ends and the characters in front of
it, and no gap could begin where it stands, so there is only one such layout.

Where reading fails, the same holds of everything in front of the place that the
error names, and the error tells what stands there.

Main result: `tokenize_lossless`.
-/
import Mathlib.Data.List.Induction
import SealedScript.Proofs.Token.Spelling

namespace SealedScript

/-! ### Places -/

/-- The place behind a text that begins a program: line ends are counted, and the
characters behind the last of them. -/
def Position.behind (text : List Char) : Position :=
  ⟨1 + text.count '\n', 1 + (text.reverse.takeWhile (· ≠ '\n')).length⟩

theorem Position.after_append (p : Position) (text more : List Char) :
    p.after (text ++ more) = (p.after text).after more :=
  List.foldl_append

/-- Walking over a text leads to the place behind it. -/
theorem Position.start_after (text : List Char) : start.after text = behind text := by
  induction text using List.reverseRecOn with
  | nil => rfl
  | append_singleton text c ih =>
    rw [after_append, ih]
    show next (behind text) c = behind (text ++ [c])
    by_cases hc : c = '\n'
    · subst hc
      simp [next, behind]
      omega
    · simp [next, behind, hc]
      omega

/-- Walking on behind a text. -/
theorem Position.behind_after (text more : List Char) : (behind text).after more = behind (text ++ more) := by
  rw [← start_after, ← after_append, start_after]

/-! ### Gaps -/

/-- A line ends in front of the text, or the program does. -/
def AtLineEnd (text : List Char) : Prop := ∀ c ∈ text.head?, c = '\n'

/-- `Gap gap behind` says that `gap` is made of blanks and comments when `behind`
stands behind it.  A comment runs up to the end of its line. -/
inductive Gap : List Char → List Char → Prop
  | nil (behind : List Char) : Gap [] behind
  | blank {c : Char} {gap behind : List Char} : isBlank c = true → Gap gap behind → Gap (c :: gap) behind
  | comment {words gap behind : List Char} : (∀ c ∈ words, c ≠ '\n') → AtLineEnd (gap ++ behind) →
      Gap gap behind → Gap ('/' :: '/' :: (words ++ gap)) behind

/-- A blank or a comment stands at the front of the text. -/
def BeginsGap (text : List Char) : Prop :=
  (∃ c rest, text = c :: rest ∧ isBlank c = true) ∨ ['/', '/'] <+: text

/-- The rest of a comment, and the gap behind it. -/
def GapInComment (gap behind : List Char) : Prop :=
  ∃ words gap', gap = words ++ gap' ∧ (∀ c ∈ words, c ≠ '\n') ∧ AtLineEnd (gap' ++ behind) ∧ Gap gap' behind

namespace Lexer

/-- What is skipped is a gap, or in a comment the rest of it and a gap behind it, and
nothing is left to skip. -/
theorem gap_skips {inComment : Bool} {text skipped after : List Char}
    (h : gap inComment text = (skipped, after)) :
    text = skipped ++ after ∧ ¬BeginsGap after ∧
    (if inComment then GapInComment skipped after else Gap skipped after) := by
  induction text generalizing inComment skipped with
  | nil =>
    cases h
    refine ⟨rfl, by simp [BeginsGap], ?_⟩
    cases inComment with
    | false => exact .nil []
    | true => exact ⟨[], [], rfl, by simp, by simp [AtLineEnd], .nil []⟩
  | cons c rest ih =>
    rw [gap] at h
    split at h
    · next hskip =>
      rcases hread : gap (inComment && c != '\n' || c == '/') rest with ⟨skipped', after'⟩
      rw [hread] at h
      cases h
      obtain ⟨rfl, hstops, hgap⟩ := ih hread
      refine ⟨rfl, hstops, ?_⟩
      cases inComment with
      | true =>
        by_cases hc : c = '\n'
        · -- the comment has ended, and the line end is a blank of the gap
          subst hc
          exact ⟨[], '\n' :: skipped', rfl, by simp, by simp [AtLineEnd], .blank (by decide) hgap⟩
        · have hgap' : GapInComment skipped' after := by simpa [hc] using hgap
          obtain ⟨words, gap', rfl, hwords, hend, hgap'⟩ := hgap'
          exact ⟨c :: words, gap', rfl, List.forall_mem_cons.2 ⟨hc, hwords⟩, hend, hgap'⟩
      | false =>
        by_cases hblank : isBlank c = true
        · have hslash : c ≠ '/' := by
            rintro rfl
            exact absurd hblank (by decide)
          exact .blank hblank (by simpa [hslash] using hgap)
        · -- two slashes: the second one is the first character of what the comment says
          have hslashes : c = '/' ∧ (skipped' ++ after).head? = some '/' := by simpa [hblank] using hskip
          obtain ⟨rfl, hhead⟩ := hslashes
          have hgap' : GapInComment skipped' after := by simpa using hgap
          obtain ⟨words, gap', rfl, hwords, hend, hgap'⟩ := hgap'
          cases words with
          | nil => exact absurd (hend '/' hhead) (by decide)
          | cons d words =>
            have hd : d = '/' := by simpa using hhead
            subst hd
            exact .comment (fun e he => hwords e (List.mem_cons_of_mem _ he)) hend hgap'
    · next hstop =>
      simp only [Bool.or_eq_true, Bool.and_eq_true, not_or] at hstop
      obtain ⟨⟨hcomment, hblank⟩, hslashes⟩ := hstop
      cases h
      refine ⟨rfl, ?_, ?_⟩
      · rintro (⟨d, rest', heq, hd⟩ | hslashes')
        · cases heq
          exact hblank hd
        · obtain ⟨rfl, after, rfl⟩ := List.cons_prefix_cons.1 hslashes'
          simp at hslashes
      · cases inComment with
        | false => exact .nil _
        | true =>
          -- a comment stops at a line end only, and that is blank
          have hc : c = '\n' := by simpa using hcomment
          subst hc
          exact absurd (by decide) hblank

end Lexer

/-! ### Layouts -/

/-- A token with its spelling and the gap in front of it. -/
structure Piece where
  gap : List Char
  spelling : List Char
  token : Token

namespace Piece

/-- What a piece takes up of a program. -/
def text (p : Piece) : List Char := p.gap ++ p.spelling

/-- A piece fits between the text in front of it and the text behind it: its gap is
one and could not be longer, its token is spelled as long as possible, and it stands
at the place that the token names. -/
structure Fits (p : Piece) (before behind : List Char) : Prop where
  gap : Gap p.gap (p.spelling ++ behind)
  clear : ¬BeginsGap (p.spelling ++ behind)
  spelled : Spelled p.token.kind p.token.lexeme.toList p.spelling
  longest : IsLongest p.spelling behind
  place : p.token.position = Position.behind (before ++ p.gap)

end Piece

/-- What pieces take up of a program. -/
def piecesText (pieces : List Piece) : List Char := pieces.flatMap Piece.text

/-- Pieces fit one behind another between the text in front of them and the text
behind them. -/
def Layout : List Char → List Piece → List Char → Prop
  | _, [], _ => True
  | before, p :: pieces, behind =>
    p.Fits before (piecesText pieces ++ behind) ∧ Layout (before ++ p.text) pieces behind

/-- The tokens lay out a whole text, which stands behind `before`, and the last one
of them ends it. -/
def LaidOut (before text : List Char) (tokens : List Token) : Prop :=
  ∃ pieces gap, text = piecesText pieces ++ gap ∧ Layout before pieces gap ∧ Gap gap [] ∧
    tokens = pieces.map Piece.token ++ [Token.stopAt (Position.behind (before ++ text))]

/-- A text, which stands behind `before`, is laid out up to the place of an error, and
what the error says stands there. -/
def LaidOutUpTo (before text : List Char) (e : LexError) : Prop :=
  ∃ pieces gap rest, text = piecesText pieces ++ (gap ++ rest) ∧ Layout before pieces (gap ++ rest) ∧
    Gap gap rest ∧ e.position = Position.behind (before ++ (piecesText pieces ++ gap)) ∧ e.fault.Stands rest

section OnePiece

variable {p : Piece} {before text : List Char}

theorem LaidOut.cons {tokens : List Token} (hp : p.Fits before text)
    (h : LaidOut (before ++ p.text) text tokens) :
    LaidOut before (p.text ++ text) (p.token :: tokens) := by
  obtain ⟨pieces, gap, rfl, hlayout, hgap, rfl⟩ := h
  refine ⟨p :: pieces, gap, ?_, ⟨hp, hlayout⟩, hgap, ?_⟩
  · simp [piecesText]
  · simp

theorem LaidOutUpTo.cons {e : LexError} (hp : p.Fits before text)
    (h : LaidOutUpTo (before ++ p.text) text e) : LaidOutUpTo before (p.text ++ text) e := by
  obtain ⟨pieces, gap, rest, rfl, hlayout, hgap, hposition, hfault⟩ := h
  refine ⟨p :: pieces, gap, rest, ?_, ⟨hp, hlayout⟩, hgap, ?_, hfault⟩
  · simp [piecesText]
  · rw [hposition]
    simp [piecesText]

end OnePiece

/-- Every token but the last is spelled somewhere, and the end of a program is not. -/
theorem Layout.ne_stop {before behind : List Char} {pieces : List Piece} (h : Layout before pieces behind) :
    ∀ t ∈ pieces.map Piece.token, t.kind ≠ .stop := by
  induction pieces generalizing before with
  | nil => simp
  | cons p pieces ih =>
    obtain ⟨hp, hpieces⟩ := h
    refine List.forall_mem_cons.2 ⟨fun hstop => ?_, ih hpieces⟩
    have hspelled := hp.spelled
    rw [hstop] at hspelled
    cases hspelled

/-! ### Reading a program -/

/-- What is read of a text that stands behind `before`, if the bound exceeds its
length.  Every token takes up at least one character, so the bound suffices for the
rest. -/
theorem Lexer.tokens_layout (bound : Nat) (before text : List Char) (hbound : text.length < bound) :
    match Lexer.tokens bound (Position.behind before) text with
    | .ok tokens => LaidOut before text tokens
    | .error e => LaidOutUpTo before text e := by
  induction bound generalizing before text with
  | zero => exact absurd hbound (Nat.not_lt_zero _)
  | succ bound ih =>
    rw [tokens]
    rcases hskip : gap false text with ⟨skipped, rest⟩
    obtain ⟨rfl, hclear, hgap⟩ := gap_skips hskip
    simp only [Position.behind_after]
    cases rest with
    | nil =>
      refine ⟨[], skipped, by simp [piecesText], trivial, hgap, ?_⟩
      simp
    | cons c rest =>
      rcases hread : token c rest with fault | read
      · simp only [hread]
        exact ⟨[], skipped, c :: rest, by simp [piecesText], trivial, hgap, by simp [piecesText], token_error hread⟩
      · simp only [hread]
        have hstands := token_ok hread
        rw [hstands.front] at hbound hclear hgap ⊢
        -- the token with the gap in front of it is the first piece
        let p : Piece :=
          ⟨skipped, read.spelling, ⟨read.kind, String.ofList read.lexeme, Position.behind (before ++ skipped)⟩⟩
        have hspelled : Spelled p.token.kind p.token.lexeme.toList p.spelling := by
          simpa [p] using hstands.spelled
        have hfits : p.Fits before read.rest := ⟨hgap, hclear, hspelled, hstands.longest, rfl⟩
        have hshort : read.rest.length < bound := by
          obtain ⟨d, inner, hd, _⟩ := hstands.spelled.begins
          simp [hd] at hbound
          omega
        have hlater := ih (before ++ p.text) read.rest hshort
        have htext : before ++ skipped ++ read.spelling = before ++ p.text := List.append_assoc _ _ _
        rw [← List.append_assoc]
        simp only [htext]
        generalize tokens bound (Position.behind (before ++ p.text)) read.rest = result at hlater ⊢
        cases result with
        | error e => exact LaidOutUpTo.cons hfits hlater
        | ok later => exact LaidOut.cons hfits hlater

/-- **A program is laid out by its tokens.**  It consists of gaps and of spellings of
the tokens in turn, each as long as possible and at the place that its token names,
and only the last token is the one that ends a program.  Where there are no tokens
this holds up to the place of the error, at which no token is spelled or a literal
is opened and never closed. -/
theorem tokenize_lossless (source : String) :
    match tokenize source with
    | .ok tokens => LaidOut [] source.toList tokens ∧ ∀ t ∈ tokens.dropLast, t.kind ≠ .stop
    | .error e => LaidOutUpTo [] source.toList e := by
  have hlayout := Lexer.tokens_layout (source.toList.length + 1) [] source.toList (Nat.lt_succ_self _)
  show match Lexer.tokens (source.toList.length + 1) (Position.behind []) source.toList with
    | .ok tokens => LaidOut [] source.toList tokens ∧ ∀ t ∈ tokens.dropLast, t.kind ≠ .stop
    | .error e => LaidOutUpTo [] source.toList e
  generalize Lexer.tokens (source.toList.length + 1) (Position.behind []) source.toList = result at hlayout ⊢
  cases result with
  | error e => exact hlayout
  | ok tokens =>
    refine ⟨hlayout, ?_⟩
    obtain ⟨pieces, gap, _, hpieces, _, rfl⟩ := hlayout
    rw [List.dropLast_concat]
    exact hpieces.ne_stop

end SealedScript

/-
SealedScript/Proofs/Program/Seam.lean

The tokens of two texts that are joined by a line end are those of the first one and
then those of the second one.  Nothing is merged and nothing is lost at the seam: a
blank ends every number, word and symbol, a literal is closed before its text ends,
and a comment ends with its line.

What a token is does not depend on its place, so the tokens of the second text say
the same as before, further on.

Main result: `tokenize_joined`.
-/
import SealedScript.Proofs.Program.Reading
import SealedScript.Proofs.Token.Lossless

namespace SealedScript

namespace Lexer

/-! ### Characters between tokens -/

/-- A character that stands in no token but a literal. -/
def Separates (d : Char) : Prop := continuesWord d = false ∧ ∀ s ∈ Symbol.all, d ∉ s.spelling

/-- The code points of the blanks. -/
def blankCodes : List Nat := Blank.ranges.flatMap fun r => List.range' r.1 (r.2 + 1 - r.1)

theorem mem_blankCodes {d : Char} (h : isBlank d = true) : d.toNat ∈ blankCodes := by
  obtain ⟨r, hr, hbounds⟩ := List.any_eq_true.mp h
  simp only [Bool.and_eq_true, decide_eq_true_eq] at hbounds
  refine List.mem_flatMap.mpr ⟨r, hr, List.mem_range'_1.mpr ⟨hbounds.1, ?_⟩⟩
  omega

/-- Blanks separate tokens.  There are few of them, and each is looked at. -/
theorem separates_of_isBlank {d : Char} (h : isBlank d = true) : Separates d := by
  have hall : ∀ n ∈ blankCodes, continuesWord (Char.ofNat n) = false ∧
      ∀ s ∈ Symbol.all, Char.ofNat n ∉ s.spelling := by
    decide +kernel
  have hd := hall d.toNat (mem_blankCodes h)
  rwa [Char.ofNat_toNat] at hd

namespace Separates

variable {d : Char} (h : Separates d)
include h

theorem isLetter_eq : isLetter d = false := by
  have hword := h.1
  simp only [continuesWord, Bool.or_eq_false_iff] at hword
  exact hword.1.1

theorem isDigit_eq : d.isDigit = false := by
  have hword := h.1
  simp only [continuesWord, Bool.or_eq_false_iff] at hword
  cases hdigit : d.isDigit with
  | false => rfl
  | true =>
    -- a digit is an ASCII character, and there numerals are decided by comparison
    obtain ⟨_, hnine⟩ := Char.isDigit_iff_toNat.1 hdigit
    have hascii : d.toNat < 0x80 := Nat.lt_of_le_of_lt hnine (by decide)
    have hnumeral := hword.1.2
    rw [isNumeral, if_pos hascii, hdigit] at hnumeral
    cases hnumeral

theorem ne_point : d ≠ '.' := by
  rintro rfl
  exact h.2 .dot (by decide) (List.mem_singleton.mpr rfl)

end Separates

/-! ### Tokens in front of a separator -/

theorem takeWhile_separated {p : Char → Bool} {d : Char} (h : p d = false) (text more : List Char) :
    (text ++ d :: more).takeWhile p = text.takeWhile p := by
  induction text with
  | nil => simp [h]
  | cons c text ih => simp [List.takeWhile_cons, ih]

theorem dropWhile_separated {p : Char → Bool} {d : Char} (h : p d = false) (text more : List Char) :
    (text ++ d :: more).dropWhile p = text.dropWhile p ++ d :: more := by
  induction text with
  | nil => simp [h]
  | cons c text ih =>
    by_cases hc : p c = true
    · simp [hc, ih]
    · simp [hc]

section Tokens

variable {d : Char} (hd : Separates d) (more : List Char)

include hd in
theorem numberSpelling_separated (text : List Char) :
    numberSpelling (text ++ d :: more) = numberSpelling text := by
  unfold numberSpelling
  rw [takeWhile_separated hd.isDigit_eq, dropWhile_separated hd.isDigit_eq]
  rcases text.dropWhile Char.isDigit with - | ⟨c, rest⟩
  · -- the digits go up to the separator, which is no point
    have hpoint := hd.ne_point
    simp only [List.nil_append]
    split
    · next heq => exact absurd (List.cons.inj heq).1 hpoint
    · rfl
  · rw [List.cons_append]
    by_cases hc : c = '.'
    · subst hc
      simp only [takeWhile_separated hd.isDigit_eq]
    · split
      · next heq => exact absurd (List.cons.inj heq).1 hc
      · split
        · next heq => exact absurd (List.cons.inj heq).1 hc
        · rfl

/-- A literal that is closed stays the same, whatever is written behind it. -/
theorem literal?_append {text denoted spelling after : List Char}
    (h : literal? text = some (denoted, spelling, after)) (more : List Char) :
    literal? (text ++ more) = some (denoted, spelling, after ++ more) := by
  obtain ⟨body, rfl, hbody, rfl⟩ := literal?_some h
  have hread := literal?_escaped hbody (after ++ more)
  simpa using hread

include hd in
theorem symbol?_separated (text : List Char) : symbol? (text ++ d :: more) = symbol? text := by
  have hfront : ∀ s ∈ Symbol.all,
      (dropFront? s.spelling (text ++ d :: more)).isSome = (dropFront? s.spelling text).isSome := by
    intro s hs
    rw [Bool.eq_iff_iff, dropFront?_isSome_iff, dropFront?_isSome_iff]
    constructor
    · rintro ⟨behind, heq⟩
      -- otherwise the separator would be a character of the symbol
      rcases List.append_eq_append_iff.mp heq with ⟨rest, rfl, -⟩ | ⟨rest, hspelling, hbehind⟩
      · exact List.prefix_append _ _
      · cases rest with
        | nil => exact (hspelling.trans (List.append_nil text)) ▸ List.prefix_refl _
        | cons e rest =>
          obtain ⟨rfl, -⟩ := List.cons.inj hbehind
          refine absurd ?_ (hd.2 s hs)
          rw [hspelling]
          exact List.mem_append_right _ List.mem_cons_self
    · exact fun hfront => hfront.trans (List.prefix_append _ _)
  unfold symbol?
  generalize Symbol.all = symbols at hfront
  induction symbols with
  | nil => rfl
  | cons s symbols ih =>
    rw [List.forall_mem_cons] at hfront
    simp only [List.find?_cons, hfront.1, ih hfront.2]

/-- A plain token is the same, as long as the text is enough for it. -/
theorem Read.plain_append (kind : TokenKind) {spelling text : List Char} (h : spelling <+: text)
    (more : List Char) :
    Read.plain kind spelling (text ++ more) =
      { Read.plain kind spelling text with rest := (Read.plain kind spelling text).rest ++ more } := by
  simp only [Read.plain, List.drop_append_of_le_length h.length_le]

include hd in
/-- **A separator ends every token.** -/
theorem token_separated {c : Char} {rest : List Char} {read : Read} (h : token c rest = .ok read) :
    token c (rest ++ d :: more) = .ok { read with rest := read.rest ++ d :: more } := by
  have hletter : (rest ++ d :: more).head?.any isLetter = rest.head?.any isLetter := by
    cases rest with
    | nil => exact hd.isLetter_eq
    | cons => rfl
  simp only [token] at h
  simp only [token, hletter, ← List.cons_append]
  split at h
  · next hdigit =>
    cases h
    rw [if_pos hdigit, numberSpelling_separated hd, Read.plain_append]
    exact (isNumber_numberSpelling rest hdigit).2
  · next hdigit =>
    rw [if_neg hdigit]
    split at h
    · next hquote =>
      rw [if_pos hquote]
      split at h
      · next hread =>
        cases h
        rw [literal?_append hread]
      · cases h
    · next hquote =>
      rw [if_neg hquote]
      split at h
      · next hword =>
        cases h
        rw [if_pos hword, takeWhile_separated hd.1, Read.plain_append]
        exact List.cons_prefix_cons.mpr ⟨rfl, List.takeWhile_prefix _⟩
      · next hword =>
        rw [if_neg hword, symbol?_separated hd]
        split at h
        · next s hsymbol =>
          cases h
          simp only [Read.plain_append (.symbol s) (symbol?_some hsymbol).1]
        · cases h

end Tokens

/-! ### Gaps in front of a line end -/

/-- A gap in front of a line end stops where it did before, or it goes on behind the line
end, where no comment is open. -/
theorem gap_joined (inComment : Bool) (text more : List Char) :
    gap inComment (text ++ '\n' :: more) =
      if (gap inComment text).2 = [] then
        ((gap inComment text).1 ++ '\n' :: (gap false more).1, (gap false more).2)
      else ((gap inComment text).1, (gap inComment text).2 ++ '\n' :: more) := by
  induction text generalizing inComment with
  | nil =>
    have hblank : isBlank '\n' = true := by decide
    simp [gap, hblank]
  | cons c text ih =>
    -- a last slash begins a comment as little as before
    have hslash : ((text ++ '\n' :: more).head? == some '/') = (text.head? == some '/') := by
      cases text with
      | nil => rfl
      | cons => rfl
    simp only [List.cons_append, gap, hslash, ih]
    split
    · split
      · rfl
      · rfl
    · rfl

/-! ### Rows of tokens -/

/-- What is left behind a token is shorter. -/
theorem length_rest_lt {c : Char} {rest : List Char} {read : Read} (h : token c rest = .ok read) :
    read.rest.length < (c :: rest).length := by
  have hstands := token_ok h
  obtain ⟨d, inner, hd, _⟩ := hstands.spelled.begins
  rw [hstands.front, hd, List.cons_append, List.length_cons, List.length_append]
  omega

theorem length_gap_le (text : List Char) : (gap false text).2.length ≤ text.length := by
  obtain ⟨htext, -⟩ := gap_skips (Prod.ext rfl rfl : gap false text = ((gap false text).1, (gap false text).2))
  have hlength := congrArg List.length htext
  rw [List.length_append] at hlength
  omega

/-- A text in which only a gap stands has no tokens but the one that ends it. -/
theorem tokens_of_gap {bound : Nat} {p : Position} {text : List Char} (hgap : (gap false text).2 = []) :
    tokens (bound + 1) p text = .ok [Token.stopAt (p.after (gap false text).1)] := by
  simp only [tokens, hgap]

/-- The tokens of a text in which a token comes first. -/
theorem tokens_cons {bound : Nat} {p : Position} {text rest : List Char} {c : Char} {read : Read}
    (hgap : (gap false text).2 = c :: rest) (hread : token c rest = .ok read) :
    tokens (bound + 1) p text =
      (⟨read.kind, String.ofList read.lexeme, p.after (gap false text).1⟩ :: ·) <$>
        tokens bound ((p.after (gap false text).1).after read.spelling) read.rest := by
  simp only [tokens, hgap, hread]
  rfl

/-- The first token of a text that has tokens, and those behind it. -/
theorem tokens_cons_ok {bound : Nat} {p : Position} {text rest : List Char} {c : Char} {ts : List Token}
    (hgap : (gap false text).2 = c :: rest) (h : tokens (bound + 1) p text = .ok ts) :
    ∃ read later, token c rest = .ok read ∧ read.rest.length < text.length ∧
      tokens bound ((p.after (gap false text).1).after read.spelling) read.rest = .ok later ∧
      ts = ⟨read.kind, String.ofList read.lexeme, p.after (gap false text).1⟩ :: later := by
  rcases hread : token c rest with fault | read
  · simp only [tokens, hgap, hread] at h
    cases h
  · rw [tokens_cons hgap hread] at h
    rcases hlater : tokens bound ((p.after (gap false text).1).after read.spelling) read.rest with e | later
    · rw [hlater] at h
      cases h
    · rw [hlater] at h
      cases h
      have hlength := length_gap_le text
      rw [hgap] at hlength
      exact ⟨read, later, rfl, Nat.lt_of_lt_of_le (length_rest_lt hread) hlength, hlater, rfl⟩

/-- The words of a text do not depend on its place, nor on the gap in front of them. -/
theorem tokens_elsewhere {bound bound' : Nat} {p p' : Position} {text text' : List Char} {ts : List Token}
    (h : tokens bound p text = .ok ts) (hsame : (gap false text').2 = (gap false text).2)
    (hbound : text.length < bound) (hbound' : text'.length < bound') :
    ∃ ts', tokens bound' p' text' = .ok ts' ∧ ts'.map Token.word = ts.map Token.word := by
  induction bound generalizing bound' p p' text text' ts with
  | zero => exact absurd hbound (Nat.not_lt_zero _)
  | succ bound ih =>
    obtain ⟨bound', rfl⟩ := Nat.exists_eq_succ_of_ne_zero (Nat.ne_of_gt (Nat.zero_lt_of_lt hbound'))
    rcases hgap : (gap false text).2 with - | ⟨c, rest⟩
    · rw [tokens_of_gap hgap] at h
      cases h
      exact ⟨_, tokens_of_gap (hsame.trans hgap), rfl⟩
    · obtain ⟨read, later, hread, hshort, hlater, rfl⟩ := tokens_cons_ok hgap h
      have hlength' := length_gap_le text'
      rw [hsame, hgap] at hlength'
      have hshort' := Nat.lt_of_lt_of_le (length_rest_lt hread) hlength'
      obtain ⟨later', hlater', hwords⟩ := ih hlater rfl (by omega) (Nat.lt_of_lt_of_le hshort' (Nat.le_of_lt_succ hbound'))
      rw [tokens_cons (hsame.trans hgap) hread, hlater']
      exact ⟨_, rfl, congrArg (_ :: ·) hwords⟩

/-- The tokens of a text in front of a line end are those it has alone, without the one
that ended it, and then those of the text behind the line end.  The induction is on the
tokens in front of it. -/
theorem tokens_joined {bound bound' : Nat} {p : Position} {text more : List Char} {ts us : List Token}
    (h : tokens bound p text = .ok ts) (hmore : tokens (more.length + 1) .start more = .ok us)
    (hbound : text.length < bound) (hbound' : (text ++ '\n' :: more).length < bound') :
    ∃ front place us', ts = front ++ [Token.stopAt place] ∧ (∀ t ∈ front, t.kind ≠ .stop) ∧
      tokens bound' p (text ++ '\n' :: more) = .ok (front ++ us') ∧ us'.map Token.word = us.map Token.word := by
  induction bound generalizing bound' p text ts with
  | zero => exact absurd hbound (Nat.not_lt_zero _)
  | succ bound ih =>
    have hjoined := gap_joined false text more
    rcases hgap : (gap false text).2 with - | ⟨c, rest⟩
    · rw [tokens_of_gap hgap] at h
      cases h
      rw [if_pos hgap] at hjoined
      obtain ⟨us', htokens, hwords⟩ : ∃ us', tokens bound' p (text ++ '\n' :: more) = .ok us' ∧ _ :=
        tokens_elsewhere hmore (by rw [hjoined]) (Nat.lt_succ_self _) hbound'
      exact ⟨[], _, us', rfl, List.forall_mem_nil _, htokens, hwords⟩
    · obtain ⟨read, later, hread, hshort, hlater, rfl⟩ := tokens_cons_ok hgap h
      rw [hgap, if_neg (List.cons_ne_nil c rest), List.cons_append] at hjoined
      have hread' := token_separated (separates_of_isBlank (by decide : isBlank '\n' = true)) more hread
      have hkind : read.kind ≠ .stop := by
        intro hstop
        have hspelled := (token_ok hread).spelled
        rw [hstop] at hspelled
        cases hspelled
      obtain ⟨bound', rfl⟩ := Nat.exists_eq_succ_of_ne_zero (Nat.ne_of_gt (Nat.zero_lt_of_lt hbound'))
      rw [List.length_append] at hbound'
      have hroom : (read.rest ++ '\n' :: more).length < bound' := by
        rw [List.length_append]
        omega
      obtain ⟨front, place, us', rfl, hfront, htokens, hwords⟩ := ih hlater (by omega) hroom
      refine ⟨_ :: front, place, us', rfl, List.forall_mem_cons.mpr ⟨hkind, hfront⟩, ?_, hwords⟩
      rw [tokens_cons (congrArg Prod.snd hjoined) hread', hjoined, htokens]
      rfl

end Lexer

/-- **The tokens of joined texts** are those of the first one in front of its end, and then
those of the second one, at other places. -/
theorem tokenize_joined {a b : String} {ts us : List Token} (ha : tokenize a = .ok ts) (hb : tokenize b = .ok us) :
    ∃ front place us', ts = front ++ [Token.stopAt place] ∧ (∀ t ∈ front, t.kind ≠ .stop) ∧
      tokenize (a ++ "\n" ++ b) = .ok (front ++ us') ∧ us'.map Token.word = us.map Token.word := by
  have htext : (a ++ "\n" ++ b).toList = a.toList ++ '\n' :: b.toList := by
    simp [String.toList_append]
  unfold tokenize
  rw [htext]
  exact Lexer.tokens_joined ha hb (Nat.lt_succ_self _) (Nat.lt_succ_self _)

end SealedScript

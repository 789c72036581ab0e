/-
SealedScript/Proofs/Token/Spelling.lean

How tokens are spelled, and that a token is read at its longest.  The spellings of
each kind are given without reference to how they are read: numbers are digits with
at most one point, words begin with a letter, an underscore or a mark, a quoted
literal ends with its first quote that no backslash precedes, and symbols are listed.

The first character tells numbers, literals, words and symbols apart, so a longer
spelling at the same place would have to be of the same sort; for each of the four
sorts this is excluded on its own.

Main results: `Lexer.token_ok` and `Lexer.token_error`.
-/
import Mathlib.Data.List.TakeWhile
import SealedScript.Proofs.Program.Rendering
import SealedScript.Token.Lexer

namespace SealedScript

/-! ### Spellings -/

theorem Keyword.mem_all (k : Keyword) : k ∈ Keyword.all := by
  cases k <;> decide

theorem Symbol.mem_all (s : Symbol) : s ∈ Symbol.all := by
  cases s <;> decide

/-- Digits, with at most one point behind the first of them. -/
inductive IsNumber : List Char → Prop
  | whole {digits : List Char} : digits ≠ [] → (∀ c ∈ digits, c.isDigit = true) → IsNumber digits
  | decimal {digits fraction : List Char} : digits ≠ [] → (∀ c ∈ digits, c.isDigit = true) →
      (∀ c ∈ fraction, c.isDigit = true) → IsNumber (digits ++ '.' :: fraction)

/-- A word, whose first letter may stand behind an `@`. -/
inductive IsWord : List Char → Prop
  | plain {c : Char} {rest : List Char} : Lexer.startsWord c = true →
      (∀ d ∈ rest, Lexer.continuesWord d = true) → IsWord (c :: rest)
  | marked {c : Char} {rest : List Char} : isLetter c = true →
      (∀ d ∈ rest, Lexer.continuesWord d = true) → IsWord ('@' :: c :: rest)

/-- What stands between the quotes of a literal, and what it denotes.  No quote and
no backslash stands for itself unless a backslash precedes it. -/
inductive Escaped : List Char → List Char → Prop
  | nil : Escaped [] []
  | plain {c : Char} {body denoted : List Char} : c ≠ '"' → c ≠ '\\' → Escaped body denoted →
      Escaped (c :: body) (c :: denoted)
  | escape {body denoted : List Char} (c : Char) : Escaped body denoted →
      Escaped ('\\' :: c :: body) (Lexer.unescape c :: denoted)

/-- The word is this reserved word, with or without the mark of an encrypted
variable. -/
def Keyword.IsWrittenAs (k : Keyword) (text : List Char) : Prop :=
  text = k.spelling.toList ∨ text = encryptedMark ++ k.spelling.toList

/-- How tokens are spelled: `Spelled kind lexeme text` says that the text is a
spelling of the token with this kind and lexeme. -/
inductive Spelled : TokenKind → List Char → List Char → Prop
  | number {text : List Char} : IsNumber text → Spelled .number text text
  | text {body denoted : List Char} : Escaped body denoted →
      Spelled .text denoted ('"' :: (body ++ ['"']))
  | trigger {text : List Char} : IsWord text → triggerMark <+: text → Spelled .trigger text text
  | keyword {k : Keyword} {text : List Char} : IsWord text → k.IsWrittenAs text →
      Spelled (.keyword k) text text
  | name {text : List Char} : IsWord text → ¬triggerMark <+: text → (∀ k : Keyword, ¬k.IsWrittenAs text) →
      Spelled .name text text
  | symbol (s : Symbol) : Spelled (.symbol s) s.spelling s.spelling

/-- No longer spelling of any token stands where `text` stands, with `rest` behind
it. -/
def IsLongest (text rest : List Char) : Prop :=
  ∀ kind lexeme longer, Spelled kind lexeme longer → longer <+: text ++ rest → longer.length ≤ text.length

/-- No token is spelled at the front of the text. -/
def NoneSpelled (text : List Char) : Prop :=
  ∀ kind lexeme spelling, Spelled kind lexeme spelling → ¬spelling <+: text

/-- What a fault says of the text at whose front it was met: no token is spelled
there, or a literal is opened and never closed. -/
def LexFault.Stands : LexFault → List Char → Prop
  | .unexpected c, text => (∃ rest, text = c :: rest) ∧ NoneSpelled text
  | .unterminated, text => ∃ inside, text = '"' :: inside ∧
      ∀ body denoted, Escaped body denoted → ¬body ++ ['"'] <+: inside

/-! ### The four sorts of spellings -/

/-- The sorts of spellings that a first character tells apart. -/
inductive SpellingSort where
  | number
  | literal
  | word
  | symbol
  deriving DecidableEq

/-- The sort of what begins with a character. -/
def SpellingSort.of (c : Char) : SpellingSort :=
  if c.isDigit then .number
  else if c = '"' then .literal
  else if Lexer.startsWord c || c == '@' then .word
  else .symbol

/-- The sort of a token. -/
def TokenKind.sort : TokenKind → SpellingSort
  | .number => .number
  | .text => .literal
  | .name | .keyword _ | .trigger => .word
  | .symbol _ | .stop => .symbol

/-- A letter is neither a digit nor a quote. -/
theorem isLetter_spec {c : Char} (h : isLetter c = true) : c.isDigit = false ∧ c ≠ '"' := by
  have hquote : c ≠ '"' := by
    rintro rfl
    exact absurd h (by decide)
  refine ⟨?_, hquote⟩
  cases hdigit : c.isDigit with
  | false => rfl
  | true =>
    -- a digit is an ASCII character, and there letters are decided by comparison
    obtain ⟨_, hnine⟩ := Char.isDigit_iff_toNat.1 hdigit
    have hascii : c.toNat < 0x80 := Nat.lt_of_le_of_lt hnine (by decide)
    have hletter : (c.isUpper || c.isLower) = true := by
      rw [isLetter, if_pos hascii] at h
      exact h
    have hlarge : 65 ≤ c.toNat := by
      rcases Bool.or_eq_true .. ▸ hletter with hupper | hlower
      · have hbounds : 'A'.val ≤ c.val ∧ c.val ≤ 'Z'.val := of_decide_eq_true hupper
        exact UInt32.le_iff_toNat_le.1 hbounds.1
      · have hbounds : (decide ('a'.val ≤ c.val) && decide (c.val ≤ 'z'.val)) = true := hlower
        have hfrom : 'a'.val ≤ c.val := of_decide_eq_true (Bool.and_eq_true .. ▸ hbounds).1
        exact Nat.le_trans (by decide) (UInt32.le_iff_toNat_le.1 hfrom)
    exact absurd (hlarge.trans hnine) (by decide)

theorem startsWord_spec {c : Char} (h : Lexer.startsWord c = true) : c.isDigit = false ∧ c ≠ '"' := by
  rw [Lexer.startsWord, Bool.or_eq_true, beq_iff_eq] at h
  rcases h with hletter | rfl
  · exact isLetter_spec hletter
  · decide

theorem SpellingSort.of_startsWord {c : Char} (h : Lexer.startsWord c = true) : of c = .word := by
  obtain ⟨hdigit, hquote⟩ := startsWord_spec h
  simp [of, hdigit, hquote, h]

theorem SpellingSort.of_symbol (s : Symbol) : ∃ c rest, s.spelling = c :: rest ∧ of c = .symbol := by
  cases s <;> exact ⟨_, _, rfl, by decide⟩

/-- A number begins with a digit. -/
theorem IsNumber.begins {text : List Char} (h : IsNumber text) :
    ∃ c rest, text = c :: rest ∧ c.isDigit = true := by
  cases h with
  | whole hne hdigits =>
    obtain ⟨c, rest, rfl⟩ := List.exists_cons_of_ne_nil hne
    exact ⟨c, rest, rfl, hdigits c List.mem_cons_self⟩
  | decimal hne hdigits _ =>
    obtain ⟨c, rest, rfl⟩ := List.exists_cons_of_ne_nil hne
    exact ⟨c, _, rfl, hdigits c List.mem_cons_self⟩

theorem IsWord.begins {text : List Char} (h : IsWord text) :
    ∃ c rest, text = c :: rest ∧ SpellingSort.of c = .word := by
  cases h with
  | plain hstart _ => exact ⟨_, _, rfl, SpellingSort.of_startsWord hstart⟩
  | marked _ _ => exact ⟨_, _, rfl, by decide⟩

/-- **The first character of a spelling tells its sort.** -/
theorem Spelled.begins {kind : TokenKind} {lexeme text : List Char} (h : Spelled kind lexeme text) :
    ∃ c rest, text = c :: rest ∧ SpellingSort.of c = kind.sort := by
  cases h with
  | number hnumber =>
    obtain ⟨c, rest, rfl, hdigit⟩ := hnumber.begins
    exact ⟨c, rest, rfl, by simp [SpellingSort.of, hdigit, TokenKind.sort]⟩
  | text _ => exact ⟨_, _, rfl, by decide⟩
  | trigger hword _ | keyword hword _ | name hword _ _ => exact hword.begins
  | symbol s => exact SpellingSort.of_symbol s

/-- A spelling at the front of a text is of the sort of the text's first character. -/
theorem Spelled.sort_eq {kind : TokenKind} {lexeme spelling rest : List Char} {c : Char}
    (h : Spelled kind lexeme spelling) (hfront : spelling <+: c :: rest) : kind.sort = SpellingSort.of c := by
  obtain ⟨d, inner, rfl, hd⟩ := h.begins
  obtain ⟨rfl, _⟩ := List.cons_prefix_cons.1 hfront
  exact hd.symm

/-- Spellings of the sort of words are words. -/
theorem Spelled.isWord {kind : TokenKind} {lexeme text : List Char} (h : Spelled kind lexeme text)
    (hsort : kind.sort = .word) : IsWord text := by
  cases h with
  | trigger hword _ | keyword hword _ | name hword _ _ => exact hword
  | number _ | text _ | symbol _ => cases hsort

namespace Lexer

/-! ### Numbers -/

/-- The number at the front of a text, where one stands. -/
theorem isNumber_numberSpelling {c : Char} (rest : List Char) (hc : c.isDigit = true) :
    IsNumber (numberSpelling (c :: rest)) ∧ numberSpelling (c :: rest) <+: c :: rest := by
  have hsplit := List.takeWhile_append_dropWhile (p := Char.isDigit) (l := c :: rest)
  have hne : (c :: rest).takeWhile Char.isDigit ≠ [] := by
    simp [hc]
  have hdigits : ∀ d ∈ (c :: rest).takeWhile Char.isDigit, d.isDigit = true :=
    fun d hd => List.mem_takeWhile_imp hd
  unfold numberSpelling
  generalize (c :: rest).takeWhile Char.isDigit = digits at hsplit hne hdigits ⊢
  split
  · next after hafter =>
    rw [hafter] at hsplit
    refine ⟨.decimal hne hdigits fun d hd => List.mem_takeWhile_imp hd, ?_⟩
    rw [← hsplit, List.prefix_append_right_inj, List.cons_prefix_cons]
    exact ⟨rfl, List.takeWhile_prefix _⟩
  · exact ⟨.whole hne hdigits, hsplit ▸ List.prefix_append _ _⟩

/-- No longer number stands there. -/
theorem length_le_numberSpelling {number text : List Char} (h : IsNumber number) (hfront : number <+: text) :
    number.length ≤ (numberSpelling text).length := by
  obtain ⟨rest, rfl⟩ := hfront
  cases h with
  | whole _ hdigits =>
    have htake : ((number ++ rest).takeWhile Char.isDigit) = number ++ rest.takeWhile Char.isDigit :=
      List.takeWhile_append_of_pos hdigits
    unfold numberSpelling
    rw [htake]
    split <;> simp
  | @decimal digits fraction _ hdigits hfraction =>
    have htext : (digits ++ '.' :: fraction) ++ rest = digits ++ '.' :: (fraction ++ rest) := by simp
    -- the point ends the digits in front of it
    have htake : (digits ++ '.' :: (fraction ++ rest)).takeWhile Char.isDigit = digits := by
      rw [List.takeWhile_append_of_pos hdigits]
      simp
    have hdrop : (digits ++ '.' :: (fraction ++ rest)).dropWhile Char.isDigit = '.' :: (fraction ++ rest) := by
      rw [List.dropWhile_append_of_pos hdigits]
      rfl
    have hbehind : (fraction ++ rest).takeWhile Char.isDigit = fraction ++ rest.takeWhile Char.isDigit :=
      List.takeWhile_append_of_pos hfraction
    simp only [htext, numberSpelling, htake, hdrop, hbehind]
    simp

/-! ### Quoted literals -/

/-- What is read behind an opening quote stands between two quotes. -/
theorem literal?_some {text denoted spelling after : List Char}
    (h : literal? text = some (denoted, spelling, after)) :
    ∃ body, spelling = body ++ ['"'] ∧ Escaped body denoted ∧ text = spelling ++ after := by
  fun_induction literal? text generalizing denoted spelling after with
  | case1 => cases h
  | case2 rest =>
    cases h
    exact ⟨[], rfl, .nil, rfl⟩
  | case3 => cases h
  | case4 c rest _ ih =>
    obtain ⟨⟨denoted', spelling', after'⟩, hread, heq⟩ := Option.map_eq_some_iff.1 h
    cases heq
    obtain ⟨body, rfl, hbody, rfl⟩ := ih hread
    exact ⟨'\\' :: c :: body, rfl, .escape c hbody, rfl⟩
  | case5 c rest hquote hbackslash ih =>
    obtain ⟨⟨denoted', spelling', after'⟩, hread, heq⟩ := Option.map_eq_some_iff.1 h
    cases heq
    obtain ⟨body, rfl, hbody, rfl⟩ := ih hread
    exact ⟨c :: body, rfl, .plain hquote hbackslash hbody, rfl⟩

/-- A literal is read up to its closing quote, whatever stands behind it. -/
theorem literal?_escaped {body denoted : List Char} (h : Escaped body denoted) (after : List Char) :
    literal? (body ++ '"' :: after) = some (denoted, body ++ ['"'], after) := by
  induction h with
  | nil => cases after <;> simp [literal?]
  | @plain c body denoted hquote hbackslash _ ih =>
    -- a body is followed by a quote at least, so there is a second character
    obtain ⟨d, rest, hbody⟩ : ∃ d rest, body ++ '"' :: after = d :: rest :=
      List.exists_cons_of_ne_nil (by simp)
    rw [hbody] at ih
    simp only [List.cons_append, hbody, literal?, hquote, hbackslash, if_false, ih, Option.map_some]
  | escape c _ ih => simp [literal?, ih]

/-! ### Words -/

theorem continuesWord_of_isLetter {c : Char} (h : isLetter c = true) : continuesWord c = true := by
  simp [continuesWord, h]

/-- The word at the front of a text, where one stands. -/
theorem isWord_takeWhile {c : Char} {rest : List Char}
    (h : (startsWord c || (c == '@' && rest.head?.any isLetter)) = true) :
    IsWord (c :: rest.takeWhile continuesWord) := by
  have hrest (d : Char) (text : List Char) (hd : d ∈ text.takeWhile continuesWord) : continuesWord d = true :=
    List.mem_takeWhile_imp hd
  rw [Bool.or_eq_true, Bool.and_eq_true, beq_iff_eq] at h
  rcases h with hstart | ⟨rfl, hletter⟩
  · exact .plain hstart fun d hd => hrest d rest hd
  · cases rest with
    | nil => cases hletter
    | cons d rest =>
      have hd : isLetter d = true := by simpa using hletter
      rw [List.takeWhile_cons_of_pos (continuesWord_of_isLetter hd)]
      exact .marked hd fun e he => hrest e rest he

/-- No longer word stands there. -/
theorem length_le_takeWhile {word rest : List Char} {c : Char} (h : IsWord word) (hfront : word <+: c :: rest) :
    word.length ≤ (c :: rest.takeWhile continuesWord).length := by
  -- every character of a word but the first continues it
  have hinner : ∃ inner, word = c :: inner ∧ ∀ d ∈ inner, continuesWord d = true := by
    cases h with
    | plain _ hrest =>
      obtain ⟨rfl, _⟩ := List.cons_prefix_cons.1 hfront
      exact ⟨_, rfl, hrest⟩
    | marked hletter hrest =>
      obtain ⟨rfl, _⟩ := List.cons_prefix_cons.1 hfront
      exact ⟨_, rfl, List.forall_mem_cons.2 ⟨continuesWord_of_isLetter hletter, hrest⟩⟩
  obtain ⟨inner, rfl, hcontinue⟩ := hinner
  obtain ⟨_, after, rfl⟩ := List.cons_prefix_cons.1 hfront
  rw [List.takeWhile_append_of_pos hcontinue]
  simp

/-- What begins like a word is one. -/
theorem not_isWord {c : Char} {rest word : List Char} (hfront : word <+: c :: rest)
    (h : (startsWord c || (c == '@' && rest.head?.any isLetter)) = false) : ¬IsWord word := by
  intro hword
  rw [Bool.or_eq_false_iff] at h
  cases hword with
  | plain hstart _ =>
    obtain ⟨rfl, _⟩ := List.cons_prefix_cons.1 hfront
    rw [h.1] at hstart
    cases hstart
  | marked hletter _ =>
    obtain ⟨rfl, after, rfl⟩ := List.cons_prefix_cons.1 hfront
    simp [hletter] at h

theorem dropFront?_isSome_iff {front text : List Char} : (dropFront? front text).isSome = true ↔ front <+: text := by
  fun_induction dropFront? front text with
  | case1 text => simp
  | case2 c front => simp
  | case3 front c text ih => simpa using ih
  | case4 f front c text hne => simp [List.cons_prefix_cons, hne]

theorem ofSpelling?_some {k : Keyword} {word : List Char} (h : Keyword.ofSpelling? word = some k) :
    word = k.spelling.toList := by
  have hk := List.find?_some h
  exact (beq_iff_eq.1 hk).symm

theorem ofSpelling?_none {word : List Char} (h : Keyword.ofSpelling? word = none) (k : Keyword) :
    word ≠ k.spelling.toList := by
  have hk := List.find?_eq_none.1 h k k.mem_all
  rintro rfl
  exact hk (beq_self_eq_true _)

theorem sort_wordKind (word : List Char) : (wordKind word).sort = .word := by
  unfold wordKind
  split
  · rfl
  · split <;> rfl

/-- A word is a spelling of what it is taken for. -/
theorem spelled_wordKind {word : List Char} (h : IsWord word) : Spelled (wordKind word) word word := by
  unfold wordKind
  split
  · next htrigger => exact .trigger h (dropFront?_isSome_iff.1 htrigger)
  · next htrigger =>
    rw [dropFront?_isSome_iff] at htrigger
    -- the mark in front is dropped, if there is one
    have hbare : ∀ bare, (dropFront? encryptedMark word).getD word = bare →
        word = bare ∨ word = encryptedMark ++ bare := by
      rintro _ rfl
      cases hmark : dropFront? encryptedMark word with
      | none => exact .inl rfl
      | some bare =>
        obtain ⟨rest, rfl⟩ := dropFront?_isSome_iff.1 (by rw [hmark]; rfl : (dropFront? encryptedMark word).isSome)
        rw [dropFront?_append] at hmark
        exact .inr (congrArg (encryptedMark ++ ·) (Option.some.inj hmark))
    split
    · next k hk => exact .keyword h (hbare _ (ofSpelling?_some hk))
    · next hnone =>
      refine .name h htrigger fun k hk => ?_
      have hne := ofSpelling?_none hnone k
      rcases hk with rfl | rfl
      · -- no reserved word begins with the mark
        have hplain : dropFront? encryptedMark k.spelling.toList = none := by cases k <;> decide
        exact hne (by rw [hplain]; rfl)
      · exact hne (by rw [dropFront?_append]; rfl)

/-! ### Symbols -/

/-- No symbol continues one that is listed before it. -/
theorem symbols_ordered :
    Symbol.all.Pairwise fun s t => s.spelling <+: t.spelling → t.spelling.length ≤ s.spelling.length := by
  decide

theorem symbol?_some {text : List Char} {s : Symbol} (h : symbol? text = some s) :
    s.spelling <+: text ∧ ∀ t : Symbol, t.spelling <+: text → t.spelling.length ≤ s.spelling.length := by
  obtain ⟨hs, before, behind, hall, hbefore⟩ := List.find?_eq_some_iff_append.1 h
  rw [dropFront?_isSome_iff] at hs
  refine ⟨hs, fun t ht => ?_⟩
  have hmem : t ∈ before ++ s :: behind := by
    rw [← hall]
    cases t <;> decide
  rcases List.mem_append.1 hmem with ht' | ht'
  · -- a symbol listed before the one that was found does not stand there
    have hnot := hbefore t ht'
    rw [Bool.not_eq_true', ← Bool.not_eq_true, dropFront?_isSome_iff] at hnot
    exact absurd ht hnot
  rcases List.mem_cons.1 ht' with rfl | ht'
  · exact Nat.le_refl _
  · -- if one listed behind it were longer it would continue it
    have hordered := symbols_ordered
    rw [hall, List.pairwise_append, List.pairwise_cons] at hordered
    rcases Nat.le_total t.spelling.length s.spelling.length with hle | hle
    · exact hle
    · exact hordered.2.1.1 t ht' (List.prefix_of_prefix_length_le hs ht hle)

theorem symbol?_none {text : List Char} (h : symbol? text = none) (s : Symbol) : ¬s.spelling <+: text := by
  have hs := List.find?_eq_none.1 h s s.mem_all
  rwa [dropFront?_isSome_iff] at hs

/-! ### The token at the front of a text -/

/-- The token that was read stands at the front of the text, in a spelling of it, and
no longer spelling stands there. -/
structure Read.Stands (read : Read) (text : List Char) : Prop where
  front : text = read.spelling ++ read.rest
  spelled : Spelled read.kind read.lexeme read.spelling
  longest : IsLongest read.spelling read.rest

namespace Read.Stands

variable {c : Char} {rest : List Char}

/-- A token that is its own spelling stands there if every other spelling of its sort
is no longer. -/
theorem of_plain {kind : TokenKind} {spelling : List Char} (hfront : spelling <+: c :: rest)
    (hspelled : Spelled kind spelling spelling)
    (hlongest : ∀ kind' lexeme longer, Spelled kind' lexeme longer → kind'.sort = kind.sort →
      longer <+: c :: rest → longer.length ≤ spelling.length) :
    (Read.plain kind spelling (c :: rest)).Stands (c :: rest) := by
  have hrest : c :: rest = spelling ++ (c :: rest).drop spelling.length := by
    obtain ⟨after, hafter⟩ := hfront
    rw [← hafter, List.drop_left]
  refine ⟨hrest, hspelled, fun kind' lexeme longer hlonger hprefix => ?_⟩
  have hprefix' : longer <+: c :: rest := by
    rw [hrest]
    exact hprefix
  refine hlongest kind' lexeme longer hlonger ?_ hprefix'
  rw [hlonger.sort_eq hprefix', hspelled.sort_eq hfront]

theorem number (hdigit : c.isDigit = true) :
    (Read.plain .number (numberSpelling (c :: rest)) (c :: rest)).Stands (c :: rest) := by
  obtain ⟨hnumber, hfront⟩ := isNumber_numberSpelling rest hdigit
  apply of_plain hfront (.number hnumber)
  intro kind lexeme longer hlonger hsort hprefix
  cases hlonger with
  | number hnumber' => exact length_le_numberSpelling hnumber' hprefix
  | _ => cases hsort

theorem literal {denoted spelling after : List Char} (hread : literal? rest = some (denoted, spelling, after)) :
    Read.Stands ⟨.text, denoted, '"' :: spelling, after⟩ ('"' :: rest) := by
  obtain ⟨body, rfl, hbody, rfl⟩ := literal?_some hread
  refine ⟨rfl, .text hbody, fun kind lexeme longer hlonger hprefix => ?_⟩
  have hsort : kind.sort = .literal := hlonger.sort_eq hprefix
  cases hlonger with
  | @text body' denoted' hbody' =>
    -- both end with the first closing quote, which is the one that the reader finds
    have hinside : body' ++ ['"'] <+: body ++ ['"'] ++ after := (List.cons_prefix_cons.1 hprefix).2
    obtain ⟨after', hsame⟩ := hinside
    have hread' := literal?_escaped hbody' after'
    rw [List.append_assoc, List.singleton_append] at hsame
    rw [hsame, hread] at hread'
    simp only [Option.some.injEq, Prod.mk.injEq] at hread'
    simp [hread'.2.1]
  | _ => cases hsort

theorem word (hword : (startsWord c || (c == '@' && rest.head?.any isLetter)) = true) :
    (Read.plain (wordKind (c :: rest.takeWhile continuesWord)) (c :: rest.takeWhile continuesWord)
      (c :: rest)).Stands (c :: rest) := by
  have hspelled := spelled_wordKind (isWord_takeWhile hword)
  apply of_plain (List.cons_prefix_cons.2 ⟨rfl, List.takeWhile_prefix _⟩) hspelled
  intro kind lexeme longer hlonger hsort hprefix
  exact length_le_takeWhile (hlonger.isWord (hsort.trans (sort_wordKind _))) hprefix

theorem symbol {s : Symbol} (hs : symbol? (c :: rest) = some s) :
    (Read.plain (.symbol s) s.spelling (c :: rest)).Stands (c :: rest) := by
  obtain ⟨hfront, hbest⟩ := symbol?_some hs
  apply of_plain hfront (.symbol s)
  intro kind lexeme longer hlonger hsort hprefix
  cases hlonger with
  | symbol t => exact hbest t hprefix
  | _ => cases hsort

end Read.Stands

/-- **A token is read in its longest spelling.** -/
theorem token_ok {c : Char} {rest : List Char} {read : Read} (h : token c rest = .ok read) :
    read.Stands (c :: rest) := by
  simp only [token] at h
  split at h
  · next hdigit =>
    cases h
    exact .number hdigit
  split at h
  · next hquote =>
    subst hquote
    split at h
    · next hread =>
      cases h
      exact .literal hread
    · cases h
  split at h
  · next hword =>
    cases h
    exact .word hword
  split at h
  · next hs =>
    cases h
    exact .symbol hs
  · cases h

/-- **Where no token is read, none is spelled or a literal is not closed.** -/
theorem token_error {c : Char} {rest : List Char} {fault : LexFault} (h : token c rest = .error fault) :
    fault.Stands (c :: rest) := by
  simp only [token] at h
  split at h
  · cases h
  next hdigit =>
  split at h
  · next hquote =>
    subst hquote
    split at h
    · cases h
    next hnone =>
    cases h
    refine ⟨rest, rfl, ?_⟩
    rintro body denoted hbody ⟨after, rfl⟩
    -- a literal that is closed would have been read
    rw [List.append_assoc, List.singleton_append, literal?_escaped hbody after] at hnone
    cases hnone
  next hquote =>
  split at h
  · cases h
  next hword =>
  split at h
  · cases h
  next hnone =>
  cases h
  refine ⟨⟨rest, rfl⟩, fun kind lexeme spelling hspelled hprefix => ?_⟩
  cases hspelled with
  | number hnumber =>
    obtain ⟨d, inner, rfl, hd⟩ := hnumber.begins
    obtain ⟨rfl, _⟩ := List.cons_prefix_cons.1 hprefix
    exact hdigit hd
  | text _ => exact hquote (List.cons_prefix_cons.1 hprefix).1.symm
  | trigger hisWord _ | keyword hisWord _ | name hisWord _ _ =>
    exact not_isWord hprefix (Bool.not_eq_true _ ▸ hword) hisWord
  | symbol s => exact symbol?_none hnone s hprefix

end Lexer

end SealedScript

/-
SealedScript/Proofs/Program/Nesting.lean

How deeply statements lie inside one another in a program that has been read.  Each
statement takes one of 256 levels, save a conditional in the place of the other branch
of another one, `else if`: it lies inside the other one but takes no level.

So a statement lies inside fewer than 256 others, and one more for each `else if` of
the row of tokens.  Without any `else if` fewer than 256 is right, and a program that
is deeper, written with braces only, is refused.  With `else if` there is no bound.

Main results: `nesting_bounded`, `elseIfChain_read`.
-/
import SealedScript.Proofs.Program.Soundness

namespace SealedScript

open Rendering SealedScript.Parser

/-! ### Statements inside statements -/

/-- The statements that lie directly inside a statement. -/
def Stmt.inner : Stmt → List Stmt
  | .conditional _ yes none => yes
  | .conditional _ yes (some no) => yes ++ no
  | .forLoop _ _ _ body => body
  | .whileLoop _ body => body
  | .function _ _ body => body
  | .trigger _ _ _ action => [action]
  | .print _ | .input .. | .giveBack _ | .useLibrary _ | .expression _ => []

/-- `Stmt.Enclosed body n t`: among the statements `t` lies inside `n` others, one
inside the other. -/
inductive Stmt.Enclosed : List Stmt → Nat → Stmt → Prop
  | here {body : List Stmt} {t : Stmt} : t ∈ body → Enclosed body 0 t
  | inside {body : List Stmt} {s t : Stmt} {n : Nat} : s ∈ body → Enclosed s.inner n t →
      Enclosed body (n + 1) t

namespace Stmt.Enclosed

variable {body body' : List Stmt} {s t : Stmt} {n : Nat}

theorem not_nil : ¬Enclosed [] n t := by
  rintro (h | ⟨h, -⟩) <;> cases h

theorem append (h : Enclosed (body ++ body') n t) : Enclosed body n t ∨ Enclosed body' n t := by
  cases h with
  | here ht => exact (List.mem_append.1 ht).imp .here .here
  | inside hs ht => exact (List.mem_append.1 hs).imp (.inside · ht) (.inside · ht)

/-- Among a single statement there is itself and what lies inside it. -/
theorem singleton (h : Enclosed [s] n t) : n = 0 ∨ ∃ m, n = m + 1 ∧ Enclosed s.inner m t := by
  cases h with
  | here _ => exact .inl rfl
  | inside hs ht =>
    obtain rfl := List.mem_singleton.1 hs
    exact .inr ⟨_, rfl, ht⟩

end Stmt.Enclosed

/-! ### Conditionals that go on with others -/

/-- How often `if` stands directly behind `else`. -/
def elseIfs : List Token → Nat
  | t :: t' :: rest =>
    (if t.kind = .keyword .elseWord ∧ t'.kind = .keyword .ifWord then 1 else 0) + elseIfs (t' :: rest)
  | _ => 0

/-- One row behind another. -/
theorem elseIfs_append_le (u v : List Token) : elseIfs u + elseIfs v ≤ elseIfs (u ++ v) := by
  induction u with
  | nil => exact Nat.le_of_eq (Nat.zero_add _)
  | cons t u ih =>
    cases u with
    | nil =>
      -- only the last token of the first row gets another one behind it
      cases v with
      | nil => exact Nat.le_refl 0
      | cons t' v => simp [elseIfs]
    | cons t' u =>
      simp only [List.cons_append, elseIfs] at ih ⊢
      omega

/-- A row within another one. -/
theorem elseIfs_le_of_infix {u v : List Token} (h : u <:+: v) : elseIfs u ≤ elseIfs v := by
  obtain ⟨front, back, rfl⟩ := h
  have hback := elseIfs_append_le (front ++ u) back
  have hfront := elseIfs_append_le front u
  omega

theorem elseIfs_elseIf {other opener : Token} (hother : other.kind = .keyword .elseWord)
    (hopener : opener.kind = .keyword .ifWord) (u : List Token) :
    elseIfs (other :: opener :: u) = 1 + elseIfs (opener :: u) := by
  simp [elseIfs, hother, hopener]

/-! ### What the levels allow -/

namespace Stmt

variable {S : List Token → Stmt → Prop} {level n : Nat} {u : List Token} {body : List Stmt} {s t : Stmt}

/-- In all these phrases at most `level` statements lie one inside the other, and one
more for each `else if`. -/
def WithinLevels (level : Nat) (S : List Token → Stmt → Prop) : Prop :=
  ∀ u s, S u s → ∀ n t, Enclosed [s] n t → n < level + elseIfs u

theorem WithinLevels.row (hS : WithinLevels level S) (hrow : PhraseRow S u body) (h : Enclosed body n t) :
    n < level + elseIfs u := by
  induction hrow with
  | nil => exact absurd h Enclosed.not_nil
  | @cons u v s body hs _ ih =>
    have happend := elseIfs_append_le u v
    have hsplit : Enclosed ([s] ++ body) n t := h
    rcases hsplit.append with hfirst | hrest
    · have hlt := hS u s hs n t hfirst
      omega
    · have hlt := ih hrest
      omega

/-- Statements in braces within a longer row of tokens. -/
theorem WithinLevels.block (hS : WithinLevels level S) {v : List Token} (hblock : PhraseBlock S v body)
    (hv : v <:+: u) (h : Enclosed body n t) : n < level + elseIfs u := by
  cases hblock with
  | @mk w body opener closer _ hrow _ =>
    have hlt := hS.row hrow h
    have hinner : elseIfs w ≤ elseIfs (opener :: (w ++ [closer])) :=
      elseIfs_le_of_infix ⟨[opener], [closer], rfl⟩
    have houter := elseIfs_le_of_infix hv
    omega

/-- What lies inside a statement, by its kind.  A conditional in the place of the other
branch lies inside the first one without taking a level, but then an `else if` stands
in front of it. -/
theorem WithinLevels.inner (hS : WithinLevels level S) (hs : PhraseOver S u s) (h : Enclosed s.inner n t) :
    n < level + elseIfs u := by
  induction hs generalizing n with
  | print | input | giveBackNothing | giveBack | useLibrary | expression =>
    exact absurd h Enclosed.not_nil
  | @conditional opener left right u v _ _ _ _ _ _ hv =>
    exact hS.block hv ⟨opener :: left :: (u ++ [right]), [], by simp⟩ h
  | @conditionalElse opener left right other u v w _ _ _ _ _ _ _ hv _ hw =>
    rcases Enclosed.append h with hyes | hno
    · exact hS.block hv ⟨opener :: left :: (u ++ [right]), other :: w, by simp⟩ hyes
    · exact hS.block hw ⟨opener :: left :: (u ++ right :: (v ++ [other])), [], by simp⟩ hno
  | @conditionalElseIf opener left right other opener' u v w _ _ no _ _ _ _ hv hother hopener' _ ih =>
    rcases Enclosed.append h with hyes | hno
    · exact hS.block hv ⟨opener :: left :: (u ++ [right]), other :: opener' :: w, by simp⟩ hyes
    · -- the `else if` in front of the conditional counts for it
      have hle : elseIfs (other :: opener' :: w) ≤
          elseIfs (opener :: left :: (u ++ right :: (v ++ other :: opener' :: w))) :=
        elseIfs_le_of_infix ⟨opener :: left :: (u ++ right :: v), [], by simp⟩
      rw [elseIfs_elseIf hother hopener'] at hle
      rcases hno.singleton with rfl | ⟨m, rfl, hm⟩
      · omega
      · have hlt := ih hm
        omega
  | @forLoop opener left first second right u v w x _ _ _ _ _ _ _ _ _ _ _ _ hx =>
    exact hS.block hx ⟨opener :: left :: (u ++ first :: (v ++ second :: (w ++ [right]))), [], by simp⟩ h
  | @whileLoop opener left right u v _ _ _ _ _ _ hv =>
    exact hS.block hv ⟨opener :: left :: (u ++ [right]), [], by simp⟩ h
  | @function opener name left semicolon u v _ _ _ _ _ _ hv _ =>
    exact hS.block hv ⟨opener :: name :: left :: u, [semicolon], by simp⟩ h
  | @trigger opener left right arrow u v w x _ _ _ action _ _ _ _ _ _ _ hx =>
    have hlt := hS x action hx n t h
    have hle : elseIfs x ≤ elseIfs (opener :: left :: (u ++ (v ++ (w ++ right :: arrow :: x)))) :=
      elseIfs_le_of_infix ⟨opener :: left :: (u ++ (v ++ (w ++ [right, arrow]))), [], by simp⟩
    omega

/-- Each level allows one statement more. -/
theorem withinLevels_phraseWithin (level : Nat) : WithinLevels level (PhraseWithin level) := by
  induction level with
  | zero =>
    intro u s hs
    exact False.elim hs
  | succ level ih =>
    intro u s hs n t h
    rcases h.singleton with rfl | ⟨m, rfl, hm⟩
    · omega
    · have hlt := ih.inner hs hm
      omega

end Stmt

/-! ### Programs in braces -/

namespace Rendering

@[simp] theorem levels_nil : (row []).levels = 0 := rfl

@[simp] theorem levels_cons (r : Rendering) (rs : List Rendering) :
    (row (r :: rs)).levels = max r.levels (row rs).levels := rfl

theorem levels_braced (rs : List Rendering) : (braced rs).levels = (row rs).levels := by
  show max 0 (max (row rs).levels (max 0 0)) = (row rs).levels
  simp

theorem levels_append (rs rs' : List Rendering) :
    (row (rs ++ rs')).levels = max (row rs).levels (row rs').levels := by
  induction rs with
  | nil => simp
  | cons r rs ih => rw [List.cons_append, levels_cons, levels_cons, ih, Nat.max_assoc]

theorem levels_le_of_mem {r : Rendering} {rs : List Rendering} (h : r ∈ rs) : r.levels ≤ (row rs).levels := by
  induction rs with
  | nil => cases h
  | cons r' rs ih =>
    rw [levels_cons]
    rcases List.mem_cons.1 h with rfl | h
    · exact Nat.le_max_left ..
    · exact (ih h).trans (Nat.le_max_right ..)

theorem levels_lt_opened {r : Rendering} {rs : List Rendering} (h : r ∈ rs) :
    r.levels < (opened (row rs)).levels :=
  Nat.lt_succ_of_le (levels_le_of_mem h)

end Rendering

namespace Stmt

variable {spell : Float → String} {n : Nat} {body : List Stmt} {s t : Stmt}

theorem renderAll_eq_map (body : List Stmt) : renderAll spell body = body.map (render spell) := by
  induction body with
  | nil => rfl
  | cons s body ih => rw [renderAll, ih, List.map_cons]

/-- A statement opens a level around all that lies inside it. -/
theorem levels_inner_lt (s : Stmt) : (row (renderAll spell s.inner)).levels < (s.render spell).levels := by
  match s with
  | .conditional condition yes none =>
    rw [inner, render, ← levels_braced]
    exact levels_lt_opened (by simp)
  | .conditional condition yes (some no) =>
    rw [inner, render, renderAll_eq_map, List.map_append, levels_append, ← renderAll_eq_map,
      ← renderAll_eq_map, ← levels_braced, ← levels_braced]
    exact Nat.max_lt.2 ⟨levels_lt_opened (by simp), levels_lt_opened (by simp)⟩
  | .forLoop _ _ _ _ | .whileLoop _ _ | .function _ _ _ =>
    rw [inner, render, ← levels_braced]
    exact levels_lt_opened (by simp)
  | .trigger _ _ _ _ =>
    rw [inner, render, renderAll, renderAll, row_singleton]
    exact levels_lt_opened (by simp)
  | .giveBack none | .giveBack (some _) | .print _ | .input _ _ | .useLibrary _ | .expression _ =>
    exact Nat.succ_pos _

/-- A program in braces opens a level for each statement around another one. -/
theorem Enclosed.lt_levels (h : Enclosed body n t) : n < (row (renderAll spell body)).levels := by
  induction h with
  | @here body t ht =>
    have hmem : t.render spell ∈ renderAll spell body := by
      rw [renderAll_eq_map]
      exact List.mem_map_of_mem ht
    exact (Nat.zero_le _).trans_lt ((levels_inner_lt t).trans_le (levels_le_of_mem hmem))
  | @inside body s t n hs _ ih =>
    have hmem : s.render spell ∈ renderAll spell body := by
      rw [renderAll_eq_map]
      exact List.mem_map_of_mem hs
    have hinner : (row (renderAll spell s.inner)).levels < (s.render spell).levels := levels_inner_lt s
    have hle := levels_le_of_mem hmem
    omega

end Stmt

/-! ### The bound -/

/-- Tokens whose statements are read from a rendering are read as the program if there
are levels enough, and are refused otherwise. -/
theorem leads_of_reads {tokens : List Token} {r : Rendering} {program : List Stmt}
    (hreads : ∀ n, Reads n (fun level => turns >>= many (fun kind => kind = .stop) (statement level)) r
      (fun k => k = .stop) program)
    (hspells : Spells (tokens.takeWhile fun t => t.kind ≠ .stop) r) :
    Leads r.levels 256 (parseTokens tokens) (.ok program) := by
  let body := tokens.takeWhile fun t => t.kind ≠ .stop
  let ctx : ParserContext := ⟨stopToken tokens, body.length + 1⟩
  have hlength : (body ++ []).length < body.length + 1 := by simp
  have hrun := hreads (body.length + 1) 256 ctx body [] hspells (stopToken_kind tokens) hlength (Nat.le_refl _)
  rw [List.append_nil] at hrun
  have hparse : parseTokens tokens = (fun result => result.1) <$> Parser.program ctx body := rfl
  rw [hparse]
  constructor
  · intro hle
    have hok : Parser.program ctx body = .ok (program, []) := hrun.1 hle
    rw [hok]
    rfl
  · intro hlt
    obtain ⟨position, hdeep⟩ := hrun.2 hlt
    have herror : Parser.program ctx body = .error (.tooDeep position maxNesting) := hdeep
    rw [herror]
    exact ⟨position, rfl⟩

/-- **Nesting is bounded, save for `else if`.**  In a program that has been read, a
statement lies inside fewer statements than 256 and the number of `else if`s together.
The tokens of a program in braces are refused for want of levels if one of its
statements lies inside 256 others. -/
theorem nesting_bounded (tokens : List Token) :
    (∀ program, parseTokens tokens = .ok program → ∀ n s, Stmt.Enclosed program n s →
      n < 256 + elseIfs (tokens.takeWhile fun t => t.kind ≠ .stop)) ∧
    (∀ spell program, Stmt.allWritable spell program = true →
      Spells (tokens.takeWhile fun t => t.kind ≠ .stop) (renderProgram spell program) →
      ∀ n s, Stmt.Enclosed program n s → 256 ≤ n →
        ∃ position, parseTokens tokens = .error (.tooDeep position 256)) := by
  constructor
  · intro program hparse n s hs
    exact (Stmt.withinLevels_phraseWithin 256).row (phraseRow_of_parseTokens hparse) hs
  · intro spell program hwritable hspells n s hs hn
    have hdeep : n < (renderProgram spell program).levels := hs.lt_levels
    have hread := Stmt.allReadBack program hwritable
    exact (leads_of_reads (fun _ => reads_program hread) hspells).2 (hn.trans_lt hdeep)

/-! ### Conditionals without a bound -/

/-- Conditionals each of which, but the last, goes on with the next one. -/
def elseIfChain : Nat → Stmt
  | 0 => .conditional (.literal (.bool true)) [] none
  | k + 1 => .conditional (.literal (.bool true)) [] (some [elseIfChain k])

/-- The tokens behind the first `if`:

    (true) {} else if (true) {} … else if (true) {}
-/
def elseIfTail (spell : Float → String) : Nat → Rendering
  | 0 => row [symbol .openParen, (Expr.literal (.bool true)).renderWhole spell, symbol .closeParen, braced []]
  | k + 1 => row [symbol .openParen, (Expr.literal (.bool true)).renderWhole spell, symbol .closeParen,
      braced [], keyword .elseWord, keyword .ifWord, elseIfTail spell k]

/-- The tokens of the conditionals, with one level for all of them. -/
def elseIfRendering (spell : Float → String) (k : Nat) : Rendering :=
  opened (row [keyword .ifWord, elseIfTail spell k])

variable {spell : Float → String} {n : Nat}

theorem elseIfTail_levels (k : Nat) : (elseIfTail spell k).levels = 2 := by
  induction k with
  | zero => rfl
  | succ k ih =>
    simp only [elseIfTail, levels_cons, ih]
    rfl

theorem elseIfChain_enclosed (k : Nat) : Stmt.Enclosed [elseIfChain k] k (elseIfChain 0) := by
  induction k with
  | zero => exact .here (List.mem_singleton.2 rfl)
  | succ k ih => exact .inside (List.mem_singleton.2 rfl) ih

/-- The conditionals are read one behind the other, on the levels of the first. -/
theorem reads_elseIfTail (k : Nat) {bound : Nat} (hbound : n ≤ bound) :
    Reads n (fun level => conditional (expression level) (statement level) bound) (elseIfTail spell k)
      (fun kind => kind ≠ .keyword .elseWord) (elseIfChain k) := by
  have hcondition : (Expr.literal (.bool true)).ReadBack spell := Expr.readBack_literal rfl
  have hyes : Stmt.AllReadBack spell [] := .nil
  induction k generalizing n bound with
  | zero =>
    refine .turning (fun bound _ => ?_) hbound
    refine .expectSymbol ((hcondition.reads _).append (.expectSymbol ?_) fun _ _ => Nat.zero_lt_one)
    exact hyes.reads_block.append (.eat_none (fun _ hk => hk) .done) fun _ _ => trivial
  | succ k ih =>
    refine .turning (fun bound hbound => ?_) hbound
    refine .expectSymbol ((hcondition.reads _).append (.expectSymbol ?_) fun _ _ => Nat.zero_lt_one)
    refine hyes.reads_block.append (.eat (.eat ?_)) fun _ _ => trivial
    exact (ih (by omega)).append .done fun _ hk => hk

theorem reads_elseIfRendering (k : Nat) :
    Reads n statement (elseIfRendering spell k) (fun kind => kind ≠ .keyword .elseWord) (elseIfChain k) := by
  refine Takes.opened (.look fun _ _ => .advance fun _ _ => .bounded fun bound hbound => ?_) rfl
  rw [row_singleton]
  exact reads_elseIfTail k (by omega)

/-- No token of the conditionals ends a program. -/
theorem elseIfTail_goes_on (k : Nat) : ∀ word ∈ (elseIfTail spell k).tokens, word.1 ≠ .stop := by
  induction k with
  | zero =>
    show ∀ word ∈ [_, _, _, _, _], _
    decide
  | succ k ih =>
    -- seven tokens stand in front of those of the next conditional
    show ∀ word ∈ [_, _, _, _, _, _, _] ++ ((elseIfTail spell k).tokens ++ []), word.1 ≠ .stop
    rw [List.append_nil]
    exact List.forall_mem_append.2 ⟨by decide, ih⟩

theorem elseIfRendering_goes_on (k : Nat) : ∀ word ∈ (elseIfRendering spell k).tokens, word.1 ≠ .stop := by
  show ∀ word ∈ [_] ++ ((elseIfTail spell k).tokens ++ []), word.1 ≠ .stop
  rw [List.append_nil]
  exact List.forall_mem_append.2 ⟨by decide, elseIfTail_goes_on k⟩

/-- **With `else if` nesting has no bound.**  However many conditionals go on with one
another, they are read, and the last one lies inside all the others. -/
theorem elseIfChain_read (spell : Float → String) (k : Nat) :
    parseTokens ((elseIfRendering spell k).tokensAt .start) = .ok [elseIfChain k] ∧
    Stmt.Enclosed [elseIfChain k] k (elseIfChain 0) := by
  have hitems : List.Forall₂ (fun r s => ∀ n, Reads n statement r (fun kind => kind ≠ .keyword .elseWord) s)
      [elseIfRendering spell k] [elseIfChain k] :=
    .cons (fun n => reads_elseIfRendering k) .nil
  have hbegin : ∀ r ∈ [elseIfRendering spell k], ∀ kind,
      decide (r.next kind = .stop) = false ∧ r.next kind ≠ .keyword .elseWord := by
    intro r hr kind
    obtain rfl := List.mem_singleton.1 hr
    show decide (TokenKind.keyword .ifWord = .stop) = false ∧ TokenKind.keyword .ifWord ≠ .keyword .elseWord
    decide
  have hreads (n : Nat) : Reads n
      (fun level => turns >>= many (fun kind => kind = .stop) (statement level))
      (row [elseIfRendering spell k]) (fun kind => kind = .stop) [elseIfChain k] := by
    refine .bounded fun bound hbound => (reads_many hbegin hitems n bound hbound).weaken ?_
    rintro _ rfl
    decide
  rw [row_singleton] at hreads
  have hlevels : (elseIfRendering spell k).levels = 3 := by
    show max 0 (max (elseIfTail spell k).levels 0) + 1 = 3
    rw [elseIfTail_levels]
    rfl
  refine ⟨?_, elseIfChain_enclosed k⟩
  exact (leads_of_reads hreads (spells_tokensAt (elseIfRendering_goes_on k) .start)).1 (hlevels ▸ by decide)

/-- 256 times `else if`, which is read although a statement lies inside 256 others. -/
theorem nesting_of_elseIfs : ∃ program n s,
    parseTokens ((elseIfRendering spellHalf 256).tokensAt .start) = .ok program ∧
    Stmt.Enclosed program n s ∧ ¬n < 256 := by
  obtain ⟨hread, henclosed⟩ := elseIfChain_read spellHalf 256
  exact ⟨_, 256, _, hread, henclosed, Nat.lt_irrefl 256⟩

/-! ### Loops in loops -/

/-- Loops one inside the other, around a `return`. -/
def loopsWithin : Nat → Stmt
  | 0 => .giveBack none
  | k + 1 => .whileLoop (.literal (.bool true)) [loopsWithin k]

theorem loopsWithin_writable (k : Nat) : Stmt.allWritable spell [loopsWithin k] = true := by
  induction k with
  | zero => rfl
  | succ k ih =>
    show ((true && Stmt.allWritable spell [loopsWithin k]) && true) = true
    rw [ih]
    rfl

/-- No token of the loops ends a program. -/
theorem loopsWithin_goes_on (k : Nat) : ∀ word ∈ ((loopsWithin k).render spell).tokens, word.1 ≠ .stop := by
  induction k with
  | zero =>
    show ∀ word ∈ [_, _], _
    decide
  | succ k ih =>
    show ∀ word ∈ [_, _, _, _, _] ++ (((((loopsWithin k).render spell).tokens ++ []) ++ [_]) ++ []), word.1 ≠ .stop
    rw [List.append_nil, List.append_nil]
    exact List.forall_mem_append.2 ⟨by decide, List.forall_mem_append.2 ⟨ih, by decide⟩⟩

theorem loopsWithin_enclosed (k : Nat) : Stmt.Enclosed [loopsWithin k] k (loopsWithin 0) := by
  induction k with
  | zero => exact .here (List.mem_singleton.2 rfl)
  | succ k ih => exact .inside (List.mem_singleton.2 rfl) ih

/-- The bound of a chain of conditionals, and loops that are refused. -/
theorem nesting_of_loops_and_elseIfs :
    300 < 256 + elseIfs ((elseIfRendering spellHalf 300).tokensAt .start |>.takeWhile fun t => t.kind ≠ .stop) ∧
    ∃ position, parseTokens ((renderProgram spellHalf [loopsWithin 256]).tokensAt .start) =
      .error (.tooDeep position 256) := by
  obtain ⟨hread, henclosed⟩ := elseIfChain_read spellHalf 300
  have hprogram : renderProgram spellHalf [loopsWithin 256] = (loopsWithin 256).render spellHalf :=
    row_singleton _
  have hspells : Spells (((renderProgram spellHalf [loopsWithin 256]).tokensAt .start).takeWhile
      fun t => t.kind ≠ .stop) (renderProgram spellHalf [loopsWithin 256]) := by
    rw [hprogram]
    exact spells_tokensAt (loopsWithin_goes_on 256) .start
  constructor
  · exact (nesting_bounded _).1 _ hread 300 _ henclosed
  · exact (nesting_bounded _).2 _ _ (loopsWithin_writable 256) hspells 256 _ (loopsWithin_enclosed 256)
      (Nat.le_refl 256)

end SealedScript

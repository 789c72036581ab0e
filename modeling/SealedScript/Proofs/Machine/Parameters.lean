/-
SealedScript/Proofs/Machine/Parameters.lean

What a parameter is in the body of its function.  A call begins with a scope of its
own, in which each parameter is entered with its argument.  A reference in the body
is looked for in that scope first, so whatever the callers and the global scope hold
under the same name is out of sight.

The two sides name variables differently.  A parameter is entered under the word as it
is spelled, with its mark, and a reference is looked for under the bare name.  So a
parameter without the mark of encryption is read back as its argument, and one with the
mark is not: no reference finds it, and the word is read as if the call had not begun.

Main results: `parameters_read_as_written`, `marked_parameter_out_of_reach`.
-/
import Mathlib.Data.List.Nodup
import SealedScript.Proofs.Machine.Composition
import SealedScript.Proofs.Machine.Opening

namespace SealedScript

/-! ### The scope of a call -/

namespace Action

/-- Entering one parameter. -/
def bindParameter (scope : Scope) (pair : String × Value) : Scope := Table.insert scope pair.1 ⟨pair.2, false⟩

variable {pairs : List (String × Value)} {name : String} {a : Value}

theorem find?_bindParameters_of_not_mem (hname : name ∉ pairs.map Prod.fst) (scope : Scope) :
    Table.find? (pairs.foldl bindParameter scope) name = Table.find? scope name := by
  induction pairs generalizing scope with
  | nil => rfl
  | cons pair rest ih =>
    rw [List.map_cons, List.mem_cons, not_or] at hname
    rw [List.foldl_cons, ih hname.2, bindParameter, Table.find?_insert_of_ne _ _ hname.1]

theorem find?_bindParameters_of_mem (hdiffer : (pairs.map Prod.fst).Nodup) (hmem : (name, a) ∈ pairs) (scope : Scope) :
    Table.find? (pairs.foldl bindParameter scope) name = some ⟨a, false⟩ := by
  induction pairs generalizing scope with
  | nil => cases hmem
  | cons pair rest ih =>
    obtain ⟨hfirst, hrest⟩ := List.nodup_cons.mp hdiffer
    rw [List.foldl_cons]
    rcases List.mem_cons.mp hmem with rfl | hmem
    · -- no later parameter has the name, so what was entered first stays
      rw [find?_bindParameters_of_not_mem hfirst, bindParameter, Table.find?_insert_self]
    · exact ih hrest hmem _

variable {f : FunctionDef} {args : List Value}

theorem callScope_eq : callScope f args = (f.params.zip args).foldl bindParameter [] := rfl

theorem find?_callScope (hdiffer : f.params.Nodup) (hcount : args.length = f.params.length)
    (hmem : (name, a) ∈ f.params.zip args) : Table.find? (callScope f args) name = some ⟨a, false⟩ := by
  rw [callScope_eq]
  apply find?_bindParameters_of_mem _ hmem
  rwa [List.map_fst_zip (Nat.le_of_eq hcount.symm)]

theorem find?_callScope_of_not_mem (hcount : args.length = f.params.length) (hname : name ∉ f.params) :
    Table.find? (callScope f args) name = none := by
  rw [callScope_eq]
  apply find?_bindParameters_of_not_mem
  rwa [List.map_fst_zip (Nat.le_of_eq hcount.symm)]

/-! ### Reading in a call -/

theorem inCall_eq {α : Type} {x : Action α} {m : Machine} (hdepth : m.depth < m.maxDepth) :
    inCall f args x m
      = ((x (m.enter (callScope f args))).1, (x (m.enter (callScope f args))).2.leave) := by
  show (if m.maxDepth < m.depth + 1 then _ else _) = _
  rw [if_neg (by omega)]
  rfl

variable {scope : Scope} {m : Machine}

theorem find?_enter {v : Variable} (h : Table.find? scope name = some v) : (m.enter scope).find? name = some v := by
  simp only [Machine.find?, Machine.enter, CallStack.find?, CallStack.push, CallStack.findIn, h]

theorem find?_enter_of_none (h : Table.find? scope name = none) : (m.enter scope).find? name = m.find? name := by
  simp only [Machine.find?, Machine.enter, CallStack.find?, CallStack.push, CallStack.findIn, h]

/-- To open a variable is to look at the key and the heap, not at the scopes. -/
theorem openVariable_enter (v : Variable) :
    openVariable v (m.enter scope) = ((openVariable v m).1, (openVariable v m).2.enter scope) := by
  obtain ⟨value, encrypted⟩ := v
  cases encrypted with
  | false => rfl
  | true =>
    show decrypt value (m.enter scope) = ((decrypt value m).1, (decrypt value m).2.enter scope)
    have hcipher : (m.enter scope).cipher = m.cipher := rfl
    have hheap : (m.enter scope).heap = m.heap := rfl
    rcases hopen : m.cipher.decrypt (m.heap.text value) with e | text
    · simp only [decrypt, hcipher, hheap, hopen]
    · simp only [decrypt, hcipher, hheap, hopen]
      rfl

/-- What the scope of a call does not hold is read as if the call had not begun. -/
theorem read_enter_of_none (h : Table.find? scope name = none) :
    read name .opened (m.enter scope) = ((read name .opened m).1, (read name .opened m).2.enter scope) := by
  have henter := find?_enter_of_none (m := m) h
  rcases hfound : m.find? name with _ | v
  · rw [read_none hfound, read_none (henter.trans hfound)]
  · rw [read_found hfound, read_found (henter.trans hfound), openVariable_enter]

theorem inCall_read_of_mem (hdiffer : f.params.Nodup) (hcount : args.length = f.params.length)
    (hdepth : m.depth < m.maxDepth) (hmem : (name, a) ∈ f.params.zip args) :
    inCall f args (read name .opened) m = (.done a, m) := by
  rw [inCall_eq hdepth, read_found (find?_enter (find?_callScope hdiffer hcount hmem))]
  rfl

theorem inCall_read_of_not_mem (hcount : args.length = f.params.length) (hdepth : m.depth < m.maxDepth)
    (hname : name ∉ f.params) : inCall f args (read name .opened) m = read name .opened m := by
  rw [inCall_eq hdepth, read_enter_of_none (find?_callScope_of_not_mem hcount hname)]
  rfl

end Action

/-! ### Words and references -/

namespace VarRef

variable {p : String}

theorem encrypted_ofLexeme_iff : (ofLexeme p).encrypted = true ↔ encryptedMark <+: p.toList := by
  rw [← Lexer.dropFront?_isSome_iff, ofLexeme]
  rcases dropFront? encryptedMark p.toList with _ | bare <;> simp

theorem name_ofLexeme_of_unmarked (h : (ofLexeme p).encrypted = false) : (ofLexeme p).name = p := by
  unfold ofLexeme at h ⊢
  split at h
  · cases h
  · rfl

theorem name_ofLexeme_of_marked {bare : List Char} (h : p.toList = encryptedMark ++ bare) :
    (ofLexeme p).name.toList = bare := by
  rw [ofLexeme, h, dropFront?_append, String.toList_ofList]

/-- No word has the mark twice, since no `@` stands behind its first letter. -/
theorem unmarked_name_ofLexeme (hword : IsWord p.toList) (h : (ofLexeme p).encrypted = true) :
    (ofLexeme (ofLexeme p).name).encrypted = false := by
  obtain ⟨bare, hbare⟩ := encrypted_ofLexeme_iff.mp h
  rw [← Bool.not_eq_true, encrypted_ofLexeme_iff, name_ofLexeme_of_marked hbare.symm]
  rintro ⟨rest, rfl⟩
  rw [← hbare] at hword
  have hat : Lexer.continuesWord '@' = true := by
    cases hword with
    | plain hstart _ => cases hstart
    | marked _ hrest => exact hrest '@' (by simp [encryptedMark])
  cases hat

end VarRef

/-- The name under which a marked parameter is looked for is not the one under which any is entered. -/
theorem name_not_mem_params {params : List String} (hwords : ∀ p ∈ params, IsWord p.toList)
    (hdiffer : (params.map fun p => (VarRef.ofLexeme p).name).Nodup) {p : String} (hp : p ∈ params)
    (hmarked : (VarRef.ofLexeme p).encrypted = true) : (VarRef.ofLexeme p).name ∉ params := by
  intro hmem
  have hplain := VarRef.unmarked_name_ofLexeme (hwords p hp) hmarked
  -- an unmarked parameter with the name would denote the same variable
  have hsame : (VarRef.ofLexeme p).name = p :=
    List.inj_on_of_nodup_map hdiffer hmem hp (VarRef.name_ofLexeme_of_unmarked hplain)
  rw [hsame, hmarked] at hplain
  cases hplain

/-- What a parameter is at the beginning of its function's body, as it is spelled in the list of
parameters: its argument if it is not marked, whatever the callers and the global scope hold; and
what it would be without the call if it is. -/
theorem parameters_read_as_written {f : FunctionDef} {args : List Value} {m : Machine}
    (hwords : ∀ p ∈ f.params, IsWord p.toList)
    (hdiffer : (f.params.map fun p => (VarRef.ofLexeme p).name).Nodup) (hcount : args.length = f.params.length)
    (hdepth : m.depth < m.maxDepth) {p : String} {a : Value} (hp : (p, a) ∈ f.params.zip args) :
    (∀ here behind, parseTokens [⟨.name, p, here⟩, ⟨.symbol .semicolon, ";", behind⟩]
      = .ok [.expression (.variable (.ofLexeme p))]) ∧
    ∀ steps, Action.inCall f args (Action.evaluate (steps + 1) (.variable (.ofLexeme p)) .opened) m =
      if (VarRef.ofLexeme p).encrypted then Action.evaluate (steps + 1) (.variable (.ofLexeme p)) .opened m
      else (.done a, m) := by
  refine ⟨fun here behind => rfl, fun steps => ?_⟩
  show Action.inCall f args (Action.read (VarRef.ofLexeme p).name .opened) m
    = if (VarRef.ofLexeme p).encrypted then Action.read (VarRef.ofLexeme p).name .opened m else (.done a, m)
  cases hmark : (VarRef.ofLexeme p).encrypted with
  | false =>
    rw [if_neg Bool.false_ne_true, VarRef.name_ofLexeme_of_unmarked hmark]
    exact Action.inCall_read_of_mem (List.Nodup.of_map _ hdiffer) hcount hdepth hp
  | true =>
    have hname := name_not_mem_params hwords hdiffer (List.of_mem_zip hp).1 hmark
    rw [if_pos rfl, Action.inCall_read_of_not_mem hcount hdepth hname]

/-! ### Parameters on a machine -/

/-- A function whose body is not looked at here:

    function f(x, @p, @ENCz) { };
-/
def threeParameters : FunctionDef := ⟨"f", ["x", "@p", "@ENCz"], []⟩

/-- A machine in a call that has variables with these names, as the global scope has. -/
def Machine.crowded : Machine :=
  { globals := [("x", ⟨.int 1, false⟩), ("@p", ⟨.int 2, false⟩), ("z", ⟨.int 3, false⟩)]
    locals := CallStack.empty.push [("x", ⟨.int 7, false⟩), ("@p", ⟨.int 8, true⟩), ("@ENCz", ⟨.int 9, false⟩)] }

theorem isWord_threeParameters : ∀ p ∈ threeParameters.params, IsWord p.toList := by
  rintro p (_ | ⟨_, _ | ⟨_, _ | ⟨_, ⟨⟩⟩⟩⟩)
  · exact .plain rfl (List.all_eq_true.mp rfl)
  · exact .marked rfl (List.all_eq_true.mp rfl)
  · exact .marked rfl (List.all_eq_true.mp rfl)

/-- The first two parameters hide what the caller and the global scope have.  The third one is entered,
but what is read is the variable of the global scope. -/
theorem parameters_among_others :
    Action.inCall threeParameters [.int 4, .text "t", .int 6]
      (Action.evaluate 1 (.variable ⟨"x", false⟩) .opened) .crowded = (.done (.int 4), .crowded) ∧
    Action.inCall threeParameters [.int 4, .text "t", .int 6]
      (Action.evaluate 1 (.variable ⟨"@p", false⟩) .opened) .crowded = (.done (.text "t"), .crowded) ∧
    Action.inCall threeParameters [.int 4, .text "t", .int 6]
      (Action.evaluate 1 (.variable ⟨"z", true⟩) .opened) .crowded = (.done (.int 3), .crowded) := by
  have hdiffer : (threeParameters.params.map fun p => (VarRef.ofLexeme p).name).Nodup := by decide
  have hread {p : String} {a : Value} (hp : (p, a) ∈ threeParameters.params.zip [.int 4, .text "t", .int 6]) :=
    parameters_read_as_written (m := .crowded) isWord_threeParameters hdiffer rfl (by decide) hp
  exact ⟨(hread (.head _)).2 0, (hread (.tail _ (.head _))).2 0, (hread (.tail _ (.tail _ (.head _)))).2 0⟩

/-- A function that yields its argument, which is marked, and a call of it:

    function f(@ENCp) { return @ENCp; }; r = f(5);
-/
def markedParameter : String := "function f(@ENCp) \x7b return @ENCp; \x7d; r = f(5);"

def markedParameterTokens : List Token :=
  [((.keyword .function, "function"), 1), ((.name, "f"), 10), ((.symbol .openParen, "("), 11), ((.name, "@ENCp"), 12),
   ((.symbol .closeParen, ")"), 17), ((.symbol .openBrace, "\x7b"), 19), ((.keyword .returnWord, "return"), 21),
   ((.name, "@ENCp"), 28), ((.symbol .semicolon, ";"), 33), ((.symbol .closeBrace, "\x7d"), 35),
   ((.symbol .semicolon, ";"), 36), ((.name, "r"), 38), ((.symbol .assign, "="), 40), ((.name, "f"), 42),
   ((.symbol .openParen, "("), 43), ((.number, "5"), 44), ((.symbol .closeParen, ")"), 45),
   ((.symbol .semicolon, ";"), 46), ((.stop, ""), 47)].map
    fun entry : (TokenKind × String) × Nat => ⟨entry.1.1, entry.1.2, ⟨1, entry.2⟩⟩

def yieldsMarked : FunctionDef := ⟨"f", ["@ENCp"], [.giveBack (some (.variable ⟨"p", true⟩))]⟩

theorem parseProgram_markedParameter : parseProgram markedParameter
    = .ok [.function yieldsMarked.name yieldsMarked.params yieldsMarked.body,
        .expression (.assign ⟨"r", false⟩ .set (.call "f" [.literal (.int 5)]))] :=
  parseProgram_eq_ok.mpr ⟨markedParameterTokens, by decide +kernel, rfl⟩

/-- A machine with a global variable that has the name of the parameter without its mark. -/
def Machine.withNamesake : Machine := { globals := [("p", ⟨.int 7, false⟩)] }

/-- The parameter is accepted, and it is the only one, but its function does not find it: the call fails,
or it yields what another variable holds. -/
theorem marked_parameter_out_of_reach :
    parseProgram markedParameter = .ok [.function yieldsMarked.name yieldsMarked.params yieldsMarked.body,
      .expression (.assign ⟨"r", false⟩ .set (.call "f" [.literal (.int 5)]))] ∧
    (∀ here behind, parseTokens [⟨.name, "@ENCp", here⟩, ⟨.symbol .semicolon, ";", behind⟩]
      = .ok [.expression (.variable ⟨"p", true⟩)]) ∧
    Action.inCall yieldsMarked [.int 5] (Action.evaluate 1 (.variable ⟨"p", true⟩) .opened) {}
      = (.failed (.undefinedVariable "p"), {}) ∧
    Action.inCall yieldsMarked [.int 5] (Action.evaluate 1 (.variable ⟨"p", true⟩) .opened) .withNamesake
      = (.done (.int 7), .withNamesake) ∧
    (Action.executeSource 8 markedParameter {}).1 = .ok (.failed (.undefinedVariable "p")) := by
  have hword : VarRef.ofLexeme "@ENCp" = ⟨"p", true⟩ := by decide
  refine ⟨parseProgram_markedParameter, fun here behind => ?_, rfl, rfl, ?_⟩
  · rw [← hword]
    rfl
  · rw [Action.executeSource_of_parse parseProgram_markedParameter]
    rfl

end SealedScript

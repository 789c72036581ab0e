/-
SealedScript/Proofs/Machine/Concealment.lean

What a print statement shows of a variable that was written encrypted: one line,
whose length follows from the length of the text that was encrypted and from
nothing else.

The length is counted layer by layer.  Padding rounds up to the next multiple of
sixteen bytes beyond the text, blocks keep their number, and three bytes take four
symbols.  So the line is longer than the text, whatever the two are, and cannot be
the text itself.  On the side of the machine the variable that was written is the
one that is found, in whichever scope it came to stand, and printing asks for the
ciphertext, with or without the mark in front of the name.

Main result: `printed_line_conceals`.
-/
import SealedScript.Proofs.Cipher.Canonical
import SealedScript.Proofs.Machine.Printing

namespace SealedScript

/-! ### The length of a ciphertext -/

theorem Base64.length_encode (bytes : List UInt8) : (encode bytes).length = 4 * ((bytes.length + 2) / 3) := by
  fun_induction encode bytes with
  | case1 => rfl
  | case2 => simp
  | case3 => simp
  | case4 x y z rest a b c ih =>
    simp only [List.length_cons, ih]
    omega

theorem Chain.length_encrypt (keys : KeySchedule) (previous : Block) (blocks : List Block) :
    (Chain.encrypt keys previous blocks).length = blocks.length := by
  induction blocks generalizing previous with
  | nil => rfl
  | cons x rest ih => rw [Chain.encrypt, List.length_cons, ih, List.length_cons]

theorem length_encryptBytes (key iv : Block) (message : List UInt8) :
    (encryptBytes key iv message).length = 16 * (message.length / 16 + 1) := by
  obtain ⟨blocks, hblocks, hbytes⟩ := exists_blocksOfBytes? _ (pad message) (length_pad_eq message)
  rw [encryptBytes, hblocks, Option.getD_some, length_bytesOfBlocks, Chain.length_encrypt, ← length_bytesOfBlocks,
    hbytes, length_pad_eq]

/-- A character takes at least one byte. -/
theorem length_le_length_bytesOfText (text : String) : text.length ≤ (bytesOfText text).length := by
  rw [← String.ofList_toList (s := text), bytesOfText, String.toUTF8_eq_toByteArray, String.toByteArray_ofList,
    List.utf8Encode, List.toList_data_toByteArray, String.length_ofList]
  induction text.toList with
  | nil => exact Nat.le_refl 0
  | cons c rest ih =>
    have hc : 0 < (String.utf8EncodeChar c).length := by
      rw [String.length_utf8EncodeChar]
      exact c.utf8Size_pos
    rw [List.flatMap_cons, List.length_append, List.length_cons]
    omega

namespace Cipher

variable (key iv : Block) (text : String)

/-- Padding rounds up to whole blocks, and every third of the bytes adds a symbol. -/
theorem length_sealText :
    (sealText key iv text).length = 4 * ((16 * ((bytesOfText text).length / 16 + 1) + 2) / 3) := by
  rw [sealText, String.length_ofList, List.length_map, Base64.length_encode, length_encryptBytes]

/-- The characters of a ciphertext: letters, digits, two signs and the filler. -/
theorem sealText_symbols :
    ∀ c ∈ (sealText key iv text).toList, c.isAlphanum = true ∨ c = '+' ∨ c = '/' ∨ c = '=' := by
  have all : ∀ n : Fin 64, (Char.ofNat (Base64.symbol n).toNat).isAlphanum = true ∨
      Char.ofNat (Base64.symbol n).toNat = '+' ∨ Char.ofNat (Base64.symbol n).toNat = '/' ∨
      Char.ofNat (Base64.symbol n).toNat = '=' := by
    decide +kernel
  intro c hc
  rw [sealText, String.toList_ofList] at hc
  obtain ⟨b, hb, rfl⟩ := List.mem_map.1 hc
  rcases Base64.encode_isSymbol _ b hb with rfl | ⟨n, hn, rfl⟩
  · decide
  · exact all ⟨n, hn⟩

theorem length_bytesOfText_lt_sealText : (bytesOfText text).length < (sealText key iv text).length := by
  rw [length_sealText]
  omega

end Cipher

/-! ### Writing and printing -/

namespace Action

variable {m : Machine} {name : String} {v : Value}

theorem store_encrypted {text : String} (h : m.cipher.encrypt (m.heap.text v) = .ok text) :
    store name v true m = (.done (.text text), m.write name ⟨.text text, true⟩) := by
  unfold store
  rw [if_pos rfl, h]

/-- For printing, a variable is evaluated to what is stored, marked or not. -/
theorem evaluate_variable_sealed {stored : Variable} (hfound : m.find? name = some stored) (steps : Nat)
    (mark : Bool) : evaluate (steps + 1) (.variable ⟨name, mark⟩) .sealed m = (.done stored.value, m) := by
  show Action.bind (lookup name) _ m = _
  unfold Action.bind lookup
  rw [hfound]
  rfl

/-- A print statement shows what is stored under a name, once the tasks that were due have
left it there. -/
theorem runStmt_print_variable {served : Machine} {steps : Nat} {text : String} {encrypted : Bool}
    (hserved : serveTasks (steps + 1) m = (.done (), served))
    (hfound : served.find? name = some ⟨.text text, encrypted⟩) (mark : Bool) :
    runStmt (steps + 2) (.print (.variable ⟨name, mark⟩)) m = (.done .next, served.printLine text) := by
  show Action.bind (serveTasks (steps + 1)) _ m = _
  unfold Action.bind
  rw [hserved]
  show Action.bind (evaluate (steps + 1) (.variable ⟨name, mark⟩) .sealed) _ served = _
  unfold Action.bind
  rw [evaluate_variable_sealed hfound]
  rfl

end Action

/-- **The line that is printed conceals the text.**  After a value has been written encrypted,
the name is evaluated for printing to one and the same line with and without the mark, and this
is the line that a print statement writes, as long as no task that is due before it writes the
variable again.  The line has four symbols for every three bytes of the padded text, begun ones
included, is longer than the text and differs from it. -/
theorem printed_line_conceals (key iv : Block) (m : Machine) (name : String) (v : Value)
    (hcipher : m.cipher = Cipher.standard key iv) :
    ∃ line after, Action.store name v true m = (.done (.text line), after) ∧
      (∀ steps mark, Action.evaluate (steps + 1) (.variable ⟨name, mark⟩) .sealed after
        = (.done (.text line), after)) ∧
      (∀ steps served, Action.serveTasks (steps + 1) after = (.done (), served) →
        served.find? name = after.find? name → ∀ mark,
        Action.runStmt (steps + 2) (.print (.variable ⟨name, mark⟩)) after
          = (.done .next, served.printLine line)) ∧
      line.length = 4 * ((16 * ((bytesOfText (m.heap.text v)).length / 16 + 1) + 2) / 3) ∧
      (∀ c ∈ line.toList, c.isAlphanum = true ∨ c = '+' ∨ c = '/' ∨ c = '=') ∧
      (bytesOfText (m.heap.text v)).length < line.length ∧ (m.heap.text v).length < line.length ∧
      line ≠ m.heap.text v := by
  have hencrypt : m.cipher.encrypt (m.heap.text v) = .ok (Cipher.sealText key iv (m.heap.text v)) := by
    rw [hcipher]
    rfl
  have hbytes := Cipher.length_bytesOfText_lt_sealText key iv (m.heap.text v)
  have hlonger := Nat.lt_of_le_of_lt (length_le_length_bytesOfText (m.heap.text v)) hbytes
  refine ⟨_, _, Action.store_encrypted hencrypt, ?_, ?_, Cipher.length_sealText key iv _,
    Cipher.sealText_symbols key iv _, hbytes, hlonger, ?_⟩
  · exact fun steps mark => Action.evaluate_variable_sealed (Machine.find?_write_self ..) steps mark
  · intro steps served hserved hkept mark
    rw [Machine.find?_write_self] at hkept
    exact Action.runStmt_print_variable hserved hkept mark
  · intro heq
    rw [heq] at hlonger
    exact Nat.lt_irrefl _ hlonger

/-- A machine that holds the list `[7, 12345]`, inside a call. -/
def Machine.withList : Machine :=
  { heap := { lists := #[#[.int 7, .int 12345]] }, locals := CallStack.empty.push [] }

/-- The list is written with ten characters, and its ciphertext with twenty-four. -/
theorem printed_line_conceals_list :
    Machine.withList.cipher = Cipher.standard Cipher.defaultKey Cipher.defaultIV ∧
    ∃ line after, Action.store "x" (.list 0) true Machine.withList = (.done (.text line), after) ∧
      Action.runStmt 2 (.print (.variable ⟨"x", true⟩)) after = (.done .next, after.printLine line) ∧
      Action.runStmt 2 (.print (.variable ⟨"x", false⟩)) after = (.done .next, after.printLine line) ∧
      line.length = 24 ∧ line ≠ "[7, 12345]" := by
  have htext : Machine.withList.heap.text (.list 0) = "[7, 12345]" := by decide +kernel
  obtain ⟨line, after, hstore, -, hprint, hlength, -, -, -, hne⟩ :=
    printed_line_conceals Cipher.defaultKey Cipher.defaultIV Machine.withList "x" (.list 0) rfl
  have hserved : Action.serveTasks 1 after = (.done (), after) := by
    obtain rfl : _ = after := congrArg Prod.snd hstore
    rfl
  rw [htext] at hlength hne
  exact ⟨rfl, line, after, hstore, hprint 0 after hserved rfl true, hprint 0 after hserved rfl false,
    hlength.trans (by decide +kernel), hne⟩

end SealedScript

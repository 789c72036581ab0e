/-
SealedScript/Proofs/CommandLine/Options.lean

Arguments are read back from the words that spell them.  What arguments ask for is
spelled by options in any order, each in words of its own, and then, behind a double
dash, the script.  A path or a program may be any text, also one that looks like an
option; it stands in the word of its option, and in the next one if it is empty.

An option then means the same whatever words follow, but for `-f` on its own: it takes
the next word unless that one begins with a dash.  All words that can come next do.
And since each option sets a field that no other one sets, their order is of no
importance.

Main result: `Arguments.ofWords_spelled`.
-/
import SealedScript.CommandLine.Arguments

namespace SealedScript

namespace Arguments

/-! ### Options -/

/-- What a single option asks for. -/
inductive Flag where
  | debug
  | help
  | skip
  | file (path : String)
  | program (text : String)
  deriving DecidableEq

namespace Flag

/-- The words that spell an option. -/
def words : Flag → List String
  | debug => ["-d"]
  | help => ["-h"]
  | skip => ["-f"]
  | file path => if path = "" then ["-f", path] else ["-f" ++ path]
  | program text => if text = "" then ["-c", text] else ["-c" ++ text]

/-- The arguments with an option taken. -/
def apply (a : Arguments) : Flag → Arguments
  | debug => { a with debug := true }
  | help => { a with help := true }
  | skip => { a with config := .skip }
  | file path => { a with config := .file path }
  | program text => { a with command := some text }

/-- The arguments ask for this. -/
def AskedBy (a : Arguments) : Flag → Prop
  | debug => a.debug = true
  | help => a.help = true
  | skip => a.config = .skip
  | file path => a.config = .file path
  | program text => a.command = some text

/-- Options of the same arguments do not get in each other's way. -/
theorem apply_comm {a : Arguments} {x y : Flag} (hx : x.AskedBy a) (hy : y.AskedBy a) (b : Arguments) :
    apply (apply b x) y = apply (apply b y) x := by
  cases x <;> cases y <;> simp_all [AskedBy, apply]

end Flag

/-- The options that arguments ask for. -/
def flags (a : Arguments) : List Flag :=
  (if a.debug then [.debug] else []) ++ (if a.help then [.help] else []) ++
  (match a.config with
    | .search => []
    | .skip => [.skip]
    | .file path => [.file path]) ++
  (a.command.map Flag.program).toList

theorem askedBy_of_mem_flags {a : Arguments} {flag : Flag} (h : flag ∈ a.flags) : flag.AskedBy a := by
  simp only [flags, List.mem_append] at h
  rcases h with ((h | h) | h) | h
  · split at h
    · next hdebug =>
      obtain rfl := List.mem_singleton.mp h
      exact hdebug
    · cases h
  · split at h
    · next hhelp =>
      obtain rfl := List.mem_singleton.mp h
      exact hhelp
    · cases h
  · split at h
    · cases h
    · next hconfig =>
      obtain rfl := List.mem_singleton.mp h
      exact hconfig
    · next path hconfig =>
      obtain rfl := List.mem_singleton.mp h
      exact hconfig
  · obtain ⟨text, hcommand, rfl⟩ := Option.map_eq_some_iff.mp (Option.mem_toList.mp h)
    exact hcommand

/-- Taken one after another, the options make up all but the script. -/
theorem foldl_flags (a : Arguments) : a.flags.foldl Flag.apply {} = { a with script := .standardInput } := by
  obtain ⟨config, command, script, debug, help⟩ := a
  cases config <;> cases command <;> cases debug <;> cases help <;> rfl

/-- The order in which the options are taken does not matter. -/
theorem foldl_of_perm {a : Arguments} {order : List Flag} (h : order.Perm a.flags) :
    order.foldl Flag.apply {} = { a with script := .standardInput } := by
  have hasked : ∀ flag ∈ order, flag.AskedBy a := fun flag hflag => askedBy_of_mem_flags (h.mem_iff.mp hflag)
  rw [h.foldl_eq' (fun x hx y hy b => Flag.apply_comm (hasked x hx) (hasked y hy) b), foldl_flags]

/-! ### Words of options -/

/-- A word with letters behind its dash is taken letter by letter. -/
theorem words_letters (a : Arguments) {word : String} (c : Char) (letters : List Char)
    (hword : word.toList = '-' :: c :: letters) (hc : c ≠ '-') (rest : List String) :
    words a .nothing (word :: rest) = (a.letters (c :: letters)).bind fun (a, want) => words a want rest := by
  have hdashed : dashed word = true := by simp [dashed, hword]
  have hdashes : word ≠ "--" := by
    rintro rfl
    exact hc (List.cons.inj (List.cons.inj hword).2).1.symm
  have hdash : word ≠ "-" := by
    rintro rfl
    cases (List.cons.inj hword).2
  rw [words]
  simp only [withValue?, withoutValue, hdashes, hdash, hdashed, hword, List.tail_cons, Bool.not_true, decide_false,
    Bool.or_self, Bool.false_eq_true, if_false]
  cases a.letters (c :: letters) <;> rfl

/-- The words of an option begin with a dash. -/
theorem Flag.exists_words_eq (flag : Flag) : ∃ word rest, flag.words = word :: rest ∧ dashed word = true := by
  have happend (letter : Char) (text : String) : dashed (String.ofList ['-', letter] ++ text) = true := by
    simp [dashed]
  cases flag with
  | file path =>
    rw [words]
    split
    · exact ⟨_, _, rfl, rfl⟩
    · exact ⟨_, _, rfl, happend 'f' path⟩
  | program text =>
    rw [words]
    split
    · exact ⟨_, _, rfl, rfl⟩
    · exact ⟨_, _, rfl, happend 'c' text⟩
  | debug | help | skip => exact ⟨_, _, rfl, rfl⟩

/-- What follows an option cannot be taken for its value. -/
def Apart (rest : List String) : Prop := ∀ word ∈ rest.head?, dashed word = true

theorem Flag.apart (flag : Flag) (rest : List String) : Apart (flag.words ++ rest) := by
  obtain ⟨word, others, hwords, hdashed⟩ := flag.exists_words_eq
  rw [hwords]
  intro w hw
  cases hw
  exact hdashed

/-- An `-f` on its own skips the settings. -/
theorem words_configPath (a : Arguments) {rest : List String} (hrest : Apart rest) :
    words a .configPath rest = words { a with config := .skip } .nothing rest := by
  cases rest with
  | nil => rfl
  | cons word rest =>
    have hdashed : dashed word = true := hrest word rfl
    simp only [words, withValue?, withoutValue, hdashed, if_true]

/-- **The words of an option are read as the option.** -/
theorem words_flag (a : Arguments) (flag : Flag) {rest : List String} (hrest : Apart rest) :
    words a .nothing (flag.words ++ rest) = words (flag.apply a) .nothing rest := by
  -- a value that is not empty is the rest of the word
  have hvalue {text : String} (h : text ≠ "") : text.toList.isEmpty = false := by
    rw [List.isEmpty_eq_false_iff]
    exact fun hnil => h (String.toList_eq_nil_iff.mp hnil)
  cases flag with
  | debug => exact words_letters a 'd' [] rfl (by decide) rest
  | help => exact words_letters a 'h' [] rfl (by decide) rest
  | skip => exact (words_letters a 'f' [] rfl (by decide) rest).trans (words_configPath a hrest)
  | file path =>
    by_cases h : path = ""
    · subst h
      exact words_letters a 'f' [] rfl (by decide) ("" :: rest)
    · have hword : ("-f" ++ path).toList = '-' :: 'f' :: path.toList := String.toList_append
      have hletters : a.letters ('f' :: path.toList) = .ok (Flag.apply a (.file path), .nothing) := by
        simp [letters, hvalue h, Flag.apply]
      rw [Flag.words, if_neg h, List.singleton_append, words_letters a _ _ hword (by decide), hletters]
      rfl
  | program text =>
    by_cases h : text = ""
    · subst h
      exact words_letters a 'c' [] rfl (by decide) ("" :: rest)
    · have hword : ("-c" ++ text).toList = '-' :: 'c' :: text.toList := String.toList_append
      have hletters : a.letters ('c' :: text.toList) = .ok (Flag.apply a (.program text), .nothing) := by
        simp [letters, hvalue h, Flag.apply]
      rw [Flag.words, if_neg h, List.singleton_append, words_letters a _ _ hword (by decide), hletters]
      rfl

/-- Options are read one after another. -/
theorem words_flags (a : Arguments) (order : List Flag) {closing : List String} (hclosing : Apart closing) :
    words a .nothing (order.flatMap Flag.words ++ closing) = words (order.foldl Flag.apply a) .nothing closing := by
  induction order generalizing a with
  | nil => rfl
  | cons flag order ih =>
    have hrest : Apart (order.flatMap Flag.words ++ closing) := by
      cases order with
      | nil => exact hclosing
      | cons next order =>
        rw [List.flatMap_cons, List.append_assoc]
        exact next.apart _
    rw [List.flatMap_cons, List.append_assoc, words_flag a flag hrest, ih, List.foldl_cons]

/-! ### The script -/

/-- The words behind the options: those of the script, if one is asked for. -/
inductive Closes : ScriptSource → List String → Prop
  | nothing : Closes .standardInput []
  | dashes : Closes .standardInput ["--"]
  | script (path : String) : Closes (.file path) ["--", path]

theorem Closes.apart {script : ScriptSource} {closing : List String} (h : Closes script closing) : Apart closing := by
  intro word hword
  cases h <;> cases hword <;> rfl

/-- **Arguments are read back from the words that spell them**, in whatever order the
options stand, if they ask for no program and script at once and for no script with the
name of standard input. -/
theorem ofWords_spelled (a : Arguments) {order : List Flag} (horder : order.Perm a.flags) {closing : List String}
    (hclosing : Closes a.script closing) (hone : a.command = none ∨ a.script = .standardInput)
    (hnamed : a.script ≠ .file "-") :
    ofWords (order.flatMap Flag.words ++ closing) = .ok a := by
  have hwords := words_flags {} order hclosing.apart
  rw [foldl_of_perm horder] at hwords
  show (words {} .nothing _).bind _ = _
  rw [hwords]
  obtain ⟨config, command, script, debug, help⟩ := a
  cases hclosing with
  | nothing | dashes => rfl
  | script path =>
    have hpath : path ≠ "-" := fun h => hnamed (h ▸ rfl)
    obtain rfl : command = none := hone.resolve_right nofun
    show withScript _ [path] = _
    simp [withScript, hpath]

/-- Arguments whose values all look like something else. -/
def lookalike : Arguments :=
  { config := .file "", script := .file "-weird.cs", debug := true, help := true }

theorem ofWords_lookalike :
    [Flag.help, .file "", .debug].Perm lookalike.flags ∧ Closes lookalike.script ["--", "-weird.cs"] ∧
      (lookalike.command = none ∨ lookalike.script = .standardInput) ∧ lookalike.script ≠ .file "-" ∧
      ofWords ["-h", "-f", "", "-d", "--", "-weird.cs"] = .ok lookalike := by
  have horder : [Flag.help, .file "", .debug].Perm lookalike.flags := by decide
  exact ⟨horder, .script _, .inl rfl, by decide, ofWords_spelled lookalike horder (.script _) (.inl rfl) (by decide)⟩

end Arguments

end SealedScript

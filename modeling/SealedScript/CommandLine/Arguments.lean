/-
SealedScript/CommandLine/Arguments.lean

The arguments of the command.  Options are single letters and may stand in one
word; `-f` and `-c` take the rest of their word as a value, or the next word.
`--` ends the options, and `-` in place of a script means standard input.
-/

namespace SealedScript

/-- Where the settings come from. -/
inductive ConfigChoice where
  | search
  | skip
  | file (path : String)
  deriving DecidableEq, Repr, Inhabited

/-- Where the program comes from if it is not given in the arguments. -/
inductive ScriptSource where
  | standardInput
  | file (path : String)
  deriving DecidableEq, Repr, Inhabited

/-- What the arguments ask for. -/
structure Arguments where
  config : ConfigChoice := .search
  command : Option String := none
  script : ScriptSource := .standardInput
  debug : Bool := false
  help : Bool := false
  deriving DecidableEq, Repr, Inhabited

/-- Why arguments are refused. -/
inductive ArgumentError where
  | missingProgram
  | unknownOption (letter : Char)
  | tooMany (count : Nat)
  | programAndScript
  deriving DecidableEq, Repr

/-- What an error says. -/
def ArgumentError.message : ArgumentError → String
  | .missingProgram => "-c requires program text"
  | .unknownOption letter => "unknown option: -" ++ letter.toString
  | .tooMany count => s!"too many arguments ({count})"
  | .programAndScript => "-c cannot be combined with a script file"

namespace Arguments

/-- The help text. -/
def usage : String :=
  "usage: cipherscript [-d] [-f[<file>]] [-c<source>] [<script> | -]\n\n" ++
  "  -d          log at debug level to stderr\n" ++
  "  -f<file>    load configuration from <file>\n" ++
  "  -f          skip the user configuration file\n" ++
  "  -c<source>  run <source> instead of a script file\n" ++
  "  -h          show this help\n\n" ++
  "With no script and no -c, the program is read from standard input."

/-- What an option at the end of its word still waits for. -/
inductive Want where
  | nothing
  | configPath
  | program
  deriving DecidableEq, Repr

/-- Takes the letters of a word of options. -/
def letters (a : Arguments) : List Char → Except ArgumentError (Arguments × Want)
  | [] => .ok (a, .nothing)
  | c :: rest =>
    if c = 'd' then letters { a with debug := true } rest
    else if c = 'h' then letters { a with help := true } rest
    else if c = 'f' then
      if rest.isEmpty then .ok (a, .configPath)
      else .ok ({ a with config := .file (String.ofList rest) }, .nothing)
    else if c = 'c' then
      if rest.isEmpty then .ok (a, .program)
      else .ok ({ a with command := some (String.ofList rest) }, .nothing)
    else .error (.unknownOption c)

/-- Whether a word begins with a dash. -/
def dashed (word : String) : Bool := word.toList.head? == some '-'

/-- Gives up waiting for a value: `-f` without one skips the settings, and `-c`
needs one. -/
def withoutValue (a : Arguments) : Want → Except ArgumentError Arguments
  | .nothing => .ok a
  | .configPath => .ok { a with config := .skip }
  | .program => .error .missingProgram

/-- Takes a word as the value that an option waits for, if it can be one. -/
def withValue? (a : Arguments) (word : String) : Want → Option Arguments
  | .nothing => none
  | .configPath => if dashed word then none else some { a with config := .file word }
  | .program => some { a with command := some word }

/-- Takes all words, the first of which may be the value that an option waits
for.  The second result holds those that are no options. -/
def words (a : Arguments) (want : Want) : List String → Except ArgumentError (Arguments × List String)
  | [] => (a.withoutValue want).map fun a => (a, [])
  | word :: rest =>
    match a.withValue? word want with
    | some a => words a .nothing rest
    | none =>
      match a.withoutValue want with
      | .error e => .error e
      | .ok a =>
        if word = "--" then .ok (a, rest)
        else if !dashed word || word = "-" then
          (words a .nothing rest).map fun (a, others) => (a, word :: others)
        else
          match a.letters word.toList.tail with
          | .error e => .error e
          | .ok (a, want) => words a want rest

/-- Names the script among the words that are no options. -/
def withScript (a : Arguments) : List String → Except ArgumentError Arguments
  | [] => .ok a
  | [path] =>
    if path = "-" then .ok a
    else if a.command.isSome then .error .programAndScript
    else .ok { a with script := .file path }
  | others => .error (.tooMany others.length)

/-- Reads the arguments of the command. -/
def ofWords (args : List String) : Except ArgumentError Arguments := do
  let (a, others) ← words {} .nothing args
  withScript a others

end Arguments

end SealedScript

/-
SealedScript/CommandLine/Command.lean

The command: what a run of it writes and how it ends, as a function of its
arguments, the environment, the files and standard input.  Settings come from the
file that is asked for, or from the first that exists of one in the home
directory and one in the current directory; the environment overrides them.  A
log of what went wrong without ending the run is kept apart from the messages.
-/
import SealedScript.CommandLine.Arguments
import SealedScript.CommandLine.FileTree
import SealedScript.Machine.Run

namespace SealedScript

/-- What the command finds when it starts: its arguments, the environment, the
files, standard input, and the moment on the wall clock in nanoseconds from the
beginning of 1970. -/
structure Surroundings where
  args : List String
  environment : String → Option String
  file : String → PathTarget
  standardInput : List UInt8
  wall : Int

/-- What the command has done when it ends. -/
structure Report where
  code : Nat := 0
  output : String := ""
  messages : String := ""
  log : List String := []
  deriving DecidableEq, Repr

namespace Command

/-! ### The log -/

/-- How much is logged. -/
inductive LogLevel where
  | off
  | error
  | warn
  | info
  | debug
  | trace
  deriving DecidableEq, Repr

/-- The levels by their names. -/
def levelNames : List (String × LogLevel) :=
  [("off", .off), ("error", .error), ("warn", .warn), ("info", .info), ("debug", .debug), ("trace", .trace)]

/-- The level that a directive asks for.  An empty one asks for errors, and one
that names no level is about other programs. -/
def levelOf (directive : String) : LogLevel :=
  if directive.isEmpty then .error
  else (levelNames.lookup (String.ofList (directive.toList.map Char.toLower))).getD .off

/-- The level of a run: the debug option comes first, then two variables of the
environment, then the settings. -/
def logLevel (s : Surroundings) (a : Arguments) (settings : Settings) : LogLevel :=
  if a.debug then .debug
  else
    let directive := s.environment "CIPHERSCRIPT_LOG" <|> s.environment "RUST_LOG" <|> settings.log
    directive.elim .warn levelOf

/-- A line of the log with the level from which on it is shown. -/
structure LogLine where
  isError : Bool
  text : String

/-- The line for a setting that was not taken. -/
def LogLine.ofSetting (e : SettingError) : LogLine := ⟨false, "WARN config: " ++ e.message⟩

/-- The line for a notice. -/
def LogLine.ofNotice : Notice → LogLine
  | .strayReturn => ⟨true, "ERROR " ++ RuntimeError.returnOutsideFunction.message⟩
  | .taskFailed task error =>
    ⟨false, s!"WARN scheduled task failed; dropping it task={task} error={error.message}"⟩

/-- The lines that are shown at a level. -/
def shownLines (level : LogLevel) (lines : List LogLine) : List String :=
  (lines.filter fun line =>
    match level with
    | .off => false
    | .error => line.isError
    | _ => true).map LogLine.text

/-! ### Inputs -/

/-- The path of a file in a directory. -/
def joinPath (directory name : String) : String :=
  if directory.isEmpty || directory.toList.getLast? = some '/' then directory ++ name else directory ++ "/" ++ name

/-- Where settings are looked for. -/
def searchPaths (s : Surroundings) : List String :=
  (s.environment "HOME").toList.map (joinPath · ".cipherscriptrc") ++ ["./.cipherscriptrc"]

/-- The settings of the first file that exists; one that cannot be read counts
as empty. -/
def searchSettings (s : Surroundings) : Settings × List SettingError :=
  match (searchPaths s).find? fun path => (s.file path).isSomewhere with
  | none => ({}, [])
  | some path =>
    match (s.file path).text with
    | .ok text => Settings.ofText text
    | .error _ => ({}, [])

/-- The variables of the environment that the command looks at. -/
def variableNames : List String := ["HOME", "CIPHERSCRIPT_LOG", "RUST_LOG"] ++ Settings.overrides.map Prod.fst

/-- The files that the command may read. -/
def paths (s : Surroundings) (a : Arguments) : List String :=
  let settingsPaths := match a.config with
    | .search => searchPaths s
    | .skip => []
    | .file path => [path]
  match a.script with
  | .standardInput => settingsPaths
  | .file path => settingsPaths ++ [path]

/-- Whether the program stands on standard input. -/
def readsProgram (a : Arguments) : Bool := a.command.isNone && a.script = .standardInput

/-- A message of the command. -/
def complaint (text : String) : String := "cipherscript: " ++ text ++ "\n"

/-- The settings that the arguments ask for. -/
def fileSettings (s : Surroundings) : ConfigChoice → Except String (Settings × List SettingError)
  | .skip => .ok ({}, [])
  | .search => .ok (searchSettings s)
  | .file path =>
    match (s.file path).text with
    | .ok text => .ok (Settings.ofText text)
    | .error fault => .error (complaint (path ++ ": " ++ fault.message))

/-- The settings of a run. -/
def settings (s : Surroundings) (a : Arguments) : Except String (Settings × List SettingError) :=
  (fileSettings s a.config).map fun (fromFile, errors) =>
    let (all, more) := fromFile.applyEnvironment s.environment
    (all, errors ++ more)

/-- The text of a line without its end. -/
def withoutReturn (line : List UInt8) : List UInt8 :=
  if line.getLast? = some 13 then line.dropLast else line

/-- Lines of standard input up to the first that is no text, at which reading
fails for good.  The last one has no line end. -/
def arrivalsOf : List (List UInt8) → List Arrival
  | [] => []
  | [last] =>
    if last.isEmpty then []
    else match textOfBytes? last with
      | some text => [.line text 0]
      | none => [.failure ReadFault.notText.message]
  | line :: rest =>
    match textOfBytes? line with
    | some _ => .line ((textOfBytes? (withoutReturn line)).getD "") 0 :: arrivalsOf rest
    | none => [.failure ReadFault.notText.message]

/-- What reads of standard input come to. -/
def arrivals (bytes : List UInt8) : List Arrival := arrivalsOf (bytes.splitOnP (· == 10))

/-- The text of the program, and what is left of standard input for it to read. -/
def source (s : Surroundings) (a : Arguments) : Except String (String × List Arrival) :=
  let arrivals := arrivals s.standardInput
  match a.command, a.script with
  | some text, _ => .ok (text, arrivals)
  | none, .file path =>
    match (s.file path).text with
    | .ok text => .ok (text, arrivals)
    | .error fault => .error (complaint (path ++ ": " ++ fault.message))
  | none, .standardInput =>
    match textOfBytes s.standardInput with
    | .ok text => .ok (text, [])
    | .error fault => .error (complaint ("reading stdin: " ++ fault.message))

/-! ### Runs -/

/-- What a look at the clock takes while a program runs. -/
def drift : Nat := 1000

/-- What it takes from the first read of a run until standard input delivers: the
lines are fetched beside the run, which begins then. -/
def startup : Nat := 100000

/-- The machine of a run. -/
def machine (settings : Settings) (arrivals : List Arrival) (wall : Int) : Machine :=
  { Machine.ofSettings settings with
    console :=
      { arrivals := arrivals,
        style := if settings.echoPrompt then .beforeWait else .never,
        startup := startup },
    drift := drift,
    wallOrigin := wall }

/-- The exit code and the message for the end of a run. -/
def ending : Outcome RunEnd → Nat × String
  | .done _ => (0, "")
  | .failed e => (1, complaint e.message)
  | .clockOverflow => (101, complaint "overflow when adding duration to instant")
  | .unfinished => (1, complaint "out of steps")

/-- A run that is about to begin. -/
structure Job where
  level : LogLevel
  warnings : List LogLine
  text : String
  machine : Machine

/-- Gets a run ready.  The command ends at once if it cannot begin, or if it is
asked for help. -/
def prepareFor (s : Surroundings) (a : Arguments) : Except Report Job :=
  if a.help then .error { output := Arguments.usage ++ "\n" }
  else match settings s a with
    | .error message => .error { code := 1, messages := message }
    | .ok (settings, errors) =>
      let level := logLevel s a settings
      let warnings := errors.map LogLine.ofSetting
      match source s a with
      | .error message => .error { code := 1, messages := message, log := shownLines level warnings }
      | .ok (text, arrivals) => .ok ⟨level, warnings, text, machine settings arrivals s.wall⟩

/-- Gets a run ready from the words of the command. -/
def prepare (s : Surroundings) : Except Report Job :=
  match Arguments.ofWords s.args with
  | .error e => .error { code := 2, messages := complaint e.message ++ Arguments.usage ++ "\n" }
  | .ok a => prepareFor s a

/-- Runs a program text. -/
def run (m : Machine) (text : String) : Machine × Nat × String :=
  match parseProgram text with
  | .error e => (m, 1, complaint e.message)
  | .ok program =>
    let (outcome, m) := Action.runProgram ampleSteps program m
    (m, ending outcome)

/-- What a run leaves behind. -/
def Job.report (job : Job) : Report :=
  let (m, code, message) := run job.machine job.text
  { code := code,
    output := m.console.transcript,
    messages := message,
    log := shownLines job.level (job.warnings ++ m.notices.toList.map LogLine.ofNotice) }

/-- What the command does. -/
def respond (s : Surroundings) : Report :=
  match prepare s with
  | .error report => report
  | .ok job => job.report

end Command

end SealedScript

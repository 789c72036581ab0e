/-
SealedScript/Main.lean

The command as a process.  It gathers what the command looks at and then takes
the turns of the run one after another in real time: what a turn writes is shown
when it has ended, and before a turn of the timers the process sleeps until the
next task is due.

Lines are fetched from standard input when a turn asks for them.  A turn that
found nothing left is taken again from the same machine with more lines; since
turns are functions it does the same again up to that read, and what it wrote
until then, the prompt among it, is shown only once.
-/
import SealedScript.CommandLine.Command
import Std.Time.DateTime.Timestamp

namespace SealedScript

namespace Terminal

/-! ### Surroundings -/

/-- What a path leads to. -/
def targetOf (path : String) : IO PathTarget := do
  match ← (IO.FS.readBinFile path).toBaseIO with
  | .ok bytes => return .file bytes.toList
  | .error (.permissionDenied ..) => return .locked
  | .error (.inappropriateType _ code _) => return if code = 21 then .directory else .nowhere .notDirectory
  | .error (.invalidArgument ..) => return .nowhere .nameTooLong
  | .error _ => return .nowhere .missing

/-- The rest of a stream after the bytes already read. -/
partial def remainder (input : IO.FS.Stream) (before : ByteArray) : IO ByteArray := do
  let chunk ← input.read 65536
  if chunk.isEmpty then return before else remainder input (before ++ chunk)

/-- The surroundings of this process.  Standard input is read only if the program
stands there. -/
def surroundings (args : List String) : IO Surroundings := do
  let environment ← Command.variableNames.mapM fun name => do return (name, ← IO.getEnv name)
  let now ← Std.Time.Timestamp.now
  let bare : Surroundings :=
    { args := args,
      environment := fun name => (environment.lookup name).join,
      file := fun _ => .nowhere .missing,
      standardInput := [],
      wall := now.toNanosecondsSinceUnixEpoch.val }
  match Arguments.ofWords args with
  | .error _ => return bare
  | .ok a =>
    if a.help then return bare
    let files ← (Command.paths bare a).mapM fun path => do return (path, ← targetOf path)
    let input ← if Command.readsProgram a then remainder (← IO.getStdin) .empty else pure .empty
    return { bare with
      file := fun path => (files.lookup path).getD (.nowhere .missing),
      standardInput := input.toList }

/-! ### Output -/

/-- Writes on a stream; one that is closed does not end the run. -/
def put (stream : IO.FS.Stream) (text : String) : IO Unit := do
  let _ ← (stream.putStr text *> stream.flush).toBaseIO

/-- Writes entries of a console. -/
def present (entries : Array Entry) : IO Unit := do
  put (← IO.getStdout) (String.join (entries.toList.map Entry.shown))

/-- Writes lines of the log. -/
def presentLog (level : Command.LogLevel) (lines : List Command.LogLine) : IO Unit := do
  put (← IO.getStderr) (String.join ((Command.shownLines level lines).map (· ++ "\n")))

/-- Writes a report and yields the exit code. -/
def conclude (report : Report) : IO UInt32 := do
  put (← IO.getStdout) report.output
  put (← IO.getStderr) (String.join (report.log.map (· ++ "\n")) ++ report.messages)
  return report.code.toUInt32

/-! ### Runs -/

/-- A run of this process: the moment it began on a clock that never goes back,
what is logged, and whether standard input may hold more. -/
structure Session where
  start : Nat
  level : Command.LogLevel
  inputOpen : IO.Ref Bool

namespace Session

/-- The nanoseconds since the run began. -/
def elapsed (s : Session) : IO Nat := return (← IO.monoNanosNow) - s.start

/-- Sleeps until a moment of the run. -/
partial def sleepUntil (s : Session) (moment : Nat) : IO Unit := do
  let now ← s.elapsed
  if now < moment then
    IO.sleep (min ((moment - now + 999999) / 1000000) 86400000).toUInt32
    s.sleepUntil moment

/-- What standard input holds next: a line if it is a terminal, and else all that
is left. -/
def fetch (s : Session) : IO (List Arrival) := do
  let input ← IO.getStdin
  if ← input.isTty then
    let asked ← IO.monoNanosNow
    let line ← input.getLine
    let waited := (← IO.monoNanosNow) - asked
    s.inputOpen.set !line.isEmpty
    return (Command.arrivals (bytesOfText line)).map fun arrival =>
      match arrival with
      | .line text _ => .line text waited
      | .failure what => .failure what
  else
    s.inputOpen.set false
    return Command.arrivals (← remainder input .empty).toList

/-- Takes a turn from a machine, of whose entries some have been shown. -/
partial def perform {α : Type} (s : Session) (x : Action α) (m : Machine) (seen : Nat) :
    IO (Outcome α × Machine) := do
  let (outcome, after) := x m
  let written := after.console.written
  match after.console.dryAt, ← s.inputOpen.get with
  | some dry, true =>
    present (written.extract seen dry)
    let more ← s.fetch
    let console := { m.console with arrivals := m.console.arrivals ++ more }
    s.perform x { m with console := console } (max seen dry)
  | _, _ =>
    present (written.extract seen written.size)
    presentLog s.level (after.notices.toList.map Command.LogLine.ofNotice)
    let console := { after.console with written := #[], dryAt := none }
    return (outcome, { after with console := console, notices := #[] })

/-- Takes the turns of a run: one for each statement, then those of the timers. -/
partial def run (s : Session) (program : List Stmt) (m : Machine) : IO (Outcome RunEnd) := do
  if program.isEmpty then
    if let some moment := m.scheduler.nextWakeup then s.sleepUntil moment
  let turn := match program with
    | [] => Action.timerTurn ampleSteps
    | stmt :: _ => Action.statementTurn ampleSteps stmt
  let now ← s.elapsed
  match ← s.perform turn { m with clock := max m.clock now } 0 with
  | (.done none, m) => s.run program.tail m
  | (.done (some ended), _) => return .done ended
  | (.failed e, _) => return .failed e
  | (.clockOverflow, _) => return .clockOverflow
  | (.unfinished, _) => return .unfinished

end Session

/-- Does a job in real time. -/
def perform (job : Command.Job) : IO UInt32 := do
  presentLog job.level job.warnings
  match parseProgram job.text with
  | .error e => conclude { code := 1, messages := Command.complaint e.message }
  | .ok program =>
    let session : Session := ⟨← IO.monoNanosNow, job.level, ← IO.mkRef true⟩
    let (code, message) := Command.ending (← session.run program job.machine)
    conclude { code := code, messages := message }

end Terminal

end SealedScript

/-- Runs the command. -/
def main (args : List String) : IO UInt32 := do
  match SealedScript.Command.prepare (← SealedScript.Terminal.surroundings args) with
  | .error report => SealedScript.Terminal.conclude report
  | .ok job => SealedScript.Terminal.perform job

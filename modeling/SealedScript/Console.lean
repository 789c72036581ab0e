/-
SealedScript/Console.lean

The console of a program: what it has written, and the lines that are still to
arrive.  A read waits for the next line, at most for a given time; a read that
ran out of time can be resumed.  Consoles differ in when a prompt is written: a
recording console writes it when the read is answered, an interactive one before
the wait, once for each line, and a silent one never.

Lines are fetched from the first read on, and some time passes until anything can
come in.  A read that does not wait that long runs out of time.
-/

namespace SealedScript

/-- What a console has written. -/
inductive Entry where
  | line (text : String)
  | prompt (text : String)
  deriving DecidableEq, Repr

/-- How an entry looks: a line ends, and a prompt stays on its line. -/
def Entry.shown : Entry → String
  | .line text => text ++ "\n"
  | .prompt text => text ++ " "

/-- What happens to a read: a line comes in after some nanoseconds, or the read
fails. -/
inductive Arrival where
  | line (text : String) (delay : Nat)
  | failure (what : String)
  deriving DecidableEq, Repr

/-- When prompts are written. -/
inductive PromptStyle where
  | onAnswer
  | beforeWait
  | never
  deriving DecidableEq, Repr, Inhabited

/-- How a read ends. -/
inductive Answer where
  | line (text : String)
  | ended
  | timedOut
  | failed (what : String)
  deriving DecidableEq, Repr

/-- A console.

* `waiting` tells that a prompt has been shown whose line has not come in yet.
* `startup` is the time that reads still have to wait until anything can come in.
* `dryAt` is the number of entries that had been written when a read first found
  nothing left. -/
structure Console where
  written : Array Entry := #[]
  arrivals : List Arrival := []
  style : PromptStyle := .onAnswer
  waiting : Bool := false
  startup : Nat := 0
  dryAt : Option Nat := none
  deriving Repr, Inhabited

namespace Console

/-- Writes a line. -/
def printLine (c : Console) (text : String) : Console := { c with written := c.written.push (.line text) }

/-- Writes lines. -/
def printLines (c : Console) (lines : List String) : Console := lines.foldl printLine c

/-- Begins or resumes a read. -/
def ask (c : Console) (prompt : String) : Console :=
  match c.style with
  | .beforeWait =>
    if c.waiting then c else { c with written := c.written.push (.prompt prompt), waiting := true }
  | _ => { c with waiting := true }

/-- Ends a read that was answered. -/
def answered (c : Console) (prompt : String) : Console :=
  match c.style with
  | .onAnswer => { c with written := c.written.push (.prompt prompt), waiting := false }
  | _ => { c with waiting := false }

/-- Notes that a read found nothing left. -/
def ranDry (c : Console) : Console := { c with dryAt := c.dryAt <|> some c.written.size }

/-- Takes what comes in next, waiting at most for `limit`.  The results are how the
read ended, how long it took, and the console afterwards. -/
def receive (c : Console) (prompt : String) (limit : Option Nat) : Answer × Nat × Console :=
  match c.arrivals with
  | [] => (.ended, 0, c.ranDry.answered prompt)
  | .failure what :: rest => (.failed what, 0, { c with arrivals := rest, waiting := false })
  | .line text delay :: rest =>
    match limit with
    | none => (.line text, delay, { c with arrivals := rest }.answered prompt)
    | some limit =>
      if limit < delay then (.timedOut, limit, { c with arrivals := .line text (delay - limit) :: rest })
      else (.line text, delay, { c with arrivals := rest }.answered prompt)

/-- The time that a read takes at least before it gives up. -/
def glance : Nat := 1000

/-- Reads a line, waiting at most for `limit`.  The results are those of `receive`. -/
def read (c : Console) (prompt : String) (limit : Option Nat) : Answer × Nat × Console :=
  let c := c.ask prompt
  if limit.any (· < c.startup) then
    let waited := max (limit.getD 0) glance
    (.timedOut, waited, { c with startup := c.startup - waited })
  else
    let (answer, elapsed, after) := { c with startup := 0 }.receive prompt (limit.map (· - c.startup))
    (answer, c.startup + elapsed, after)

/-! ### What was written -/

/-- The lines among what was written. -/
def lines (c : Console) : List String :=
  c.written.toList.filterMap fun e => match e with
    | .line text => some text
    | .prompt _ => none

/-- The prompts among what was written. -/
def prompts (c : Console) : List String :=
  c.written.toList.filterMap fun e => match e with
    | .line _ => none
    | .prompt text => some text

/-- Everything written, as one text. -/
def transcript (c : Console) : String := String.join (c.written.toList.map Entry.shown)

end Console

end SealedScript

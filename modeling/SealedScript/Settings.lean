/-
SealedScript/Settings.lean

Settings from a text of `key = value` lines and from the environment.  Blank
lines and lines that begin with `#` or `;` do not count, and unknown keys are
passed over.  A line or variable that cannot be used is reported and changes
nothing; of several good ones the last wins.
-/
import SealedScript.Cipher
import SealedScript.Number.Integer
import SealedScript.Text.Quoted

namespace SealedScript

/-- What a run can be told from outside. -/
structure Settings where
  maxCallDepth : Nat := 256
  cipherKey : Block := Cipher.defaultKey
  cipherIV : Block := Cipher.defaultIV
  log : Option String := none
  echoPrompt : Bool := true
  deriving DecidableEq, Repr, Inhabited

/-- Why a setting is not taken. -/
inductive SettingFault where
  | notAssignment (line : String)
  | badDepth (value : String)
  | badLength (key : String) (length : Nat)
  | badSwitch (value : String)
  deriving DecidableEq, Repr

/-- What a fault says. -/
def SettingFault.message : SettingFault → String
  | .notAssignment line => s!"expected `key = value`, found {quoted line}"
  | .badDepth value => s!"max_call_depth must be a positive integer, got {quoted value}"
  | .badLength key length => s!"{key} must be exactly 16 bytes, got {length}"
  | .badSwitch value => s!"echo_prompt must be true or false, got {quoted value}"

/-- A fault with the line or the variable that holds it. -/
inductive SettingError where
  | line (number : Nat) (fault : SettingFault)
  | variable (name : String) (fault : SettingFault)
  deriving DecidableEq, Repr

/-- What an error says. -/
def SettingError.message : SettingError → String
  | .line number fault => s!"line {number}: {fault.message}"
  | .variable name fault => s!"{name}: {fault.message}"

namespace Settings

/-- Sixteen bytes given as text. -/
def block (key value : String) : Except SettingFault Block :=
  let bytes := bytesOfText value
  match Block.ofList? bytes with
  | some b => .ok b
  | none => .error (.badLength key bytes.length)

/-- A switch, in any case. -/
def switch? (value : String) : Option Bool :=
  let word := String.ofList (value.toList.map Char.toLower)
  if word ∈ ["true", "on", "yes", "1"] then some true
  else if word ∈ ["false", "off", "no", "0"] then some false
  else none

/-- Sets one key. -/
def set (s : Settings) (key value : String) : Except SettingFault Settings :=
  if key = "max_call_depth" then
    match readSize? value.toList with
    | some n => if 1 ≤ n then .ok { s with maxCallDepth := n } else .error (.badDepth value)
    | none => .error (.badDepth value)
  else if key = "cipher_key" then (block key value).map fun b => { s with cipherKey := b }
  else if key = "cipher_iv" then (block key value).map fun b => { s with cipherIV := b }
  else if key = "log" then .ok { s with log := if value.isEmpty then none else some value }
  else if key = "echo_prompt" then
    match switch? value with
    | some b => .ok { s with echoPrompt := b }
    | none => .error (.badSwitch value)
  else .ok s

/-! ### Lines -/

/-- The value without the quotes around it. -/
def unquote (value : List Char) : List Char :=
  match value with
  | '"' :: rest => if rest.getLast? = some '"' then rest.dropLast else value
  | _ => value

/-- The key and the value of a line, which the first `=` divides. -/
def assignment? (line : List Char) : Option (String × String) :=
  match line.dropWhile (· ≠ '=') with
  | [] => none
  | _ :: value =>
    some (String.ofList (trim (line.takeWhile (· ≠ '='))), String.ofList (unquote (trim value)))

/-- Takes one line of a text. -/
def setLine (s : Settings) (line : List Char) : Except SettingFault Settings :=
  let line := trim line
  if line.isEmpty || line.head? = some '#' || line.head? = some ';' then .ok s
  else match assignment? line with
    | none => .error (.notAssignment (String.ofList line))
    | some (key, value) => s.set key value

/-- Takes lines one after another, of which the first has the given number. -/
def setLines (s : Settings) (number : Nat) : List (List Char) → Settings × List SettingError
  | [] => (s, [])
  | line :: rest =>
    match s.setLine line with
    | .ok s => setLines s (number + 1) rest
    | .error fault =>
      let (s, errors) := setLines s (number + 1) rest
      (s, .line number fault :: errors)

/-- The settings in a text, and what is wrong with it. -/
def ofText (text : String) : Settings × List SettingError :=
  setLines {} 1 (text.toList.splitOnP (· == '\n'))

/-! ### The environment -/

/-- The variables that override a key. -/
def overrides : List (String × String) :=
  [("CIPHERSCRIPT_MAX_DEPTH", "max_call_depth"), ("CIPHERSCRIPT_KEY", "cipher_key"),
   ("CIPHERSCRIPT_IV", "cipher_iv")]

/-- Takes the given overrides from an environment, one after another. -/
def overrideBy (lookup : String → Option String) (s : Settings) :
    List (String × String) → Settings × List SettingError
  | [] => (s, [])
  | (name, key) :: rest =>
    match lookup name with
    | none => overrideBy lookup s rest
    | some value =>
      match s.set key value with
      | .ok s => overrideBy lookup s rest
      | .error fault =>
        let (s, errors) := overrideBy lookup s rest
        (s, .variable name fault :: errors)

/-- The settings with what an environment overrides. -/
def applyEnvironment (s : Settings) (lookup : String → Option String) : Settings × List SettingError :=
  overrideBy lookup s overrides

/-- The cipher for encrypted variables. -/
def cipher (s : Settings) : Cipher := Cipher.standard s.cipherKey s.cipherIV

end Settings

end SealedScript

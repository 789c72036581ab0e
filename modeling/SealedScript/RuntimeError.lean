/-
SealedScript/RuntimeError.lean

What can go wrong while a program runs.  No construct of the language catches an
error: it ends the statement at the top level, the task or the call from outside
in which it arose.  `halted` is not a failure but travels the same way: it ends a
run because a counted task has made its last run.
-/
import SealedScript.Cipher
import SealedScript.Schedule.Fault

namespace SealedScript

/-- Errors of a running program. -/
inductive RuntimeError where
  | undefinedVariable (name : String)
  | undefinedFunction (name : String)
  | arityMismatch (name : String) (expected found : Nat)
  | divisionByZero
  | indexOutOfRange (index : Int64) (length : Nat)
  | unsupportedOperator (op operands : String)
  | typeMismatch (what : String)
  | encryption (error : CipherError)
  | decryption (error : CipherError)
  | invalidSchedule (fault : ScheduleFault)
  | unknownLibrary (name : String)
  | unknownMethod (target method : String)
  | returnOutsideFunction
  | stackOverflow (depth limit : Nat)
  | input (what : String)
  | halted (task : Nat)
  deriving DecidableEq, Repr

/-- What an error says. -/
def RuntimeError.message : RuntimeError → String
  | .undefinedVariable name => s!"undefined variable: {name}"
  | .undefinedFunction name => s!"undefined function: {name}"
  | .arityMismatch name expected found => s!"function {name} expects {expected} arguments but got {found}"
  | .divisionByZero => "division by zero"
  | .indexOutOfRange index length => s!"index {index.toInt} out of range (length {length})"
  | .unsupportedOperator op operands => "unsupported operator '" ++ op ++ "' for " ++ operands
  | .typeMismatch what => s!"type mismatch: {what}"
  | .encryption error => s!"encryption failed: {error.message}"
  | .decryption error => s!"decryption failed: {error.message}"
  | .invalidSchedule fault => s!"invalid schedule parameters: {fault.message}"
  | .unknownLibrary name => s!"unknown library: {name}"
  | .unknownMethod target method => "unknown method '" ++ method ++ "' on " ++ target
  | .returnOutsideFunction => "return statement outside of function"
  | .stackOverflow depth limit => s!"call stack overflow: depth {depth} exceeds maximum of {limit}"
  | .input what => s!"input failed: {what}"
  | .halted task => s!"halted by scheduled task {task}"

end SealedScript

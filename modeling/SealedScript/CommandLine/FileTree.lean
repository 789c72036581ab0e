/-
SealedScript/CommandLine/FileTree.lean

Files and directories, and where a path leads among them.  A path is walked name
by name from the root, or from the directory in which the walk starts.  Every
name has to be looked up in a directory, so the first thing on the way that is
missing, is no directory or has too long a name is what the walk reports.
-/
import SealedScript.Text.Bytes

namespace SealedScript

/-- Why a text is not read. -/
inductive ReadFault where
  | missing
  | denied
  | notDirectory
  | directory
  | nameTooLong
  | notText
  deriving DecidableEq, Repr

/-- What a fault says. -/
def ReadFault.message : ReadFault → String
  | .missing => "No such file or directory (os error 2)"
  | .denied => "Permission denied (os error 13)"
  | .notDirectory => "Not a directory (os error 20)"
  | .directory => "Is a directory (os error 21)"
  | .nameTooLong => "File name too long (os error 36)"
  | .notText => "stream did not contain valid UTF-8"

/-- Reads bytes as text. -/
def textOfBytes (bytes : List UInt8) : Except ReadFault String :=
  match textOfBytes? bytes with
  | some text => .ok text
  | none => .error .notText

/-- What a path leads to. -/
inductive PathTarget where
  | nowhere (fault : ReadFault)
  | directory
  | locked
  | file (bytes : List UInt8)
  deriving DecidableEq, Repr

namespace PathTarget

/-- Whether the path leads anywhere. -/
def isSomewhere : PathTarget → Bool
  | nowhere _ => false
  | _ => true

/-- The text at the end of the path. -/
def text : PathTarget → Except ReadFault String
  | nowhere fault => .error fault
  | directory => .error .directory
  | locked => .error .denied
  | file bytes => textOfBytes bytes

end PathTarget

/-- A place: the names on the way to it from the root. -/
abbrev Place : Type := List String

/-- Files with their contents, directories that exist even if nothing lies in
them, and the directory in which relative paths start. -/
structure FileTree where
  files : List (Place × List UInt8)
  directories : List Place := []
  start : Place := []

namespace FileTree

/-- How many bytes a name may have. -/
def maxName : Nat := 255

/-- The first number of bytes that is too large for a path. -/
def pathBound : Nat := 4096

/-- Whether a directory lies at a place: one that was given, or one on the way to
something else. -/
def isDirectory (t : FileTree) (place : Place) : Bool :=
  (t.start :: t.directories).any (place.isPrefixOf ·) ||
    t.files.any fun f => place.isPrefixOf f.1 && place != f.1

/-- Whether anything lies at a place. -/
def has (t : FileTree) (place : Place) : Bool := t.isDirectory place || (t.files.lookup place).isSome

/-- Goes on by one name. -/
def step (t : FileTree) (place : Place) (name : String) : Except ReadFault Place :=
  if !t.isDirectory place then .error .notDirectory
  else if name = "." then .ok place
  else if name = ".." then .ok place.dropLast
  else if maxName < (bytesOfText name).length then .error .nameTooLong
  else if t.has (place ++ [name]) then .ok (place ++ [name])
  else .error .missing

/-- Goes on by names, one after another. -/
def walk (t : FileTree) (place : Place) : List String → Except ReadFault Place
  | [] => .ok place
  | name :: rest => do t.walk (← t.step place name) rest

/-- The names in a path.  A slash at the end asks for a directory, as a dot
behind it does. -/
def namesIn (path : String) : List String :=
  let names := ((path.toList.splitOnP (· == '/')).filter fun name => !name.isEmpty).map String.ofList
  if path.toList.getLast? = some '/' then names ++ ["."] else names

/-- What a path leads to. -/
def find (t : FileTree) (path : String) : PathTarget :=
  if path.isEmpty then .nowhere .missing
  else if pathBound ≤ (bytesOfText path).length then .nowhere .nameTooLong
  else
    match t.walk (if path.toList.head? = some '/' then [] else t.start) (namesIn path) with
    | .error fault => .nowhere fault
    | .ok place =>
      match t.files.lookup place with
      | some bytes => .file bytes
      | none => .directory

end FileTree

end SealedScript

/-
Why edits are not applied.

Main statements: `EditError.message`.
-/
import Graft.Parse.Error

namespace Graft

/-! ### Access to files -/

/-- Why a file cannot be read or written. -/
inductive IoError where
  | notFound
  /-- The file is not text. -/
  | notText
  | isDirectory
  | notDirectory
  | alreadyExists
  | nameTooLong
  /-- The path or the command holds the character zero. -/
  | zeroCharacter
  /-- Any other cause, as the system words it. -/
  | other (reason : String)
deriving DecidableEq, Repr

namespace IoError

/-- The name of a cause in reports for programs. -/
def name : IoError → String
  | notFound => "NotFound"
  | notText => "InvalidData"
  | isDirectory | notDirectory | alreadyExists | nameTooLong | zeroCharacter | other _ => "Other"

/-- The words of the system for a cause. -/
def reason : IoError → String
  | notFound => "No such file or directory"
  | notText => "stream did not contain valid UTF-8"
  | isDirectory => "Is a directory"
  | notDirectory => "Not a directory"
  | alreadyExists => "File exists"
  | nameTooLong => "File name too long"
  | zeroCharacter => "file name contained an unexpected NUL byte"
  | other reason => reason

/-- The number of the system for a cause. -/
def number? : IoError → Option Nat
  | notFound => some 2
  | isDirectory => some 21
  | notDirectory => some 20
  | alreadyExists => some 17
  | nameTooLong => some 36
  | notText | zeroCharacter | other _ => none

def message (e : IoError) : String :=
  e.reason ++ match e.number? with
    | some n => " (os error " ++ n.repr ++ ")"
    | none => ""

end IoError

/-! ### Edits -/

inductive EditError where
  | io (path : Text) (cause : IoError)
  | parse (error : ParseError)
  /-- There is no class to edit. -/
  | noClass
  /-- There is no declaration to import for. -/
  | noDeclaration
  /-- The file returns no array. -/
  | noArray
  /-- The code of a method does not parse. -/
  | brokenMethod
  /-- The code of a method declares none. -/
  | noMethod
  | unsupportedValue (kind : String)
deriving DecidableEq, Repr

namespace EditError

/-- The name of a cause in reports for programs. -/
def name : EditError → String
  | io .. => "Io"
  | parse _ => "Parse"
  | noClass | noDeclaration | noArray => "MissingDeclaration"
  | brokenMethod | noMethod => "InvalidMethod"
  | unsupportedValue _ => "UnsupportedValue"

def message : EditError → String
  | io path cause => "cannot access `" ++ String.ofList path ++ "`: " ++ cause.message
  | parse error => "parse error: " ++ error.message
  | noClass => "Class declaration not found."
  | noDeclaration => "Class, interface, or trait declaration not found."
  | noArray => "Configuration array not found."
  | brokenMethod => "Could not parse method code."
  | noMethod => "Code does not contain a method declaration."
  | unsupportedValue kind => "unsupported value: " ++ kind

end EditError

end Graft

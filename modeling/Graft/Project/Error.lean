/-
Why a step of a routine fails.

Main statements: `ToolError`, `ToolError.message`.
-/
import Graft.Edit.Error

namespace Graft

inductive ToolError where
  | io (path : Text) (cause : IoError)
  | edit (error : EditError)
  /-- A file of answers does not hold a JSON object. -/
  | json (path : Text)
  /-- A command was not started. -/
  | spawn (line : Text) (cause : IoError)
  /-- A command ended with a code other than zero, or was killed. -/
  | command (line : Text) (code : Option Nat)
  | unknownCommand (tool : String) (word : Text)
deriving DecidableEq, Repr

namespace ToolError

/-- The name of a cause in reports for programs. -/
def name : ToolError → String
  | io .. => "Io"
  | edit error => error.name
  | json _ => "Json"
  | spawn .. => "Spawn"
  | command .. => "Command"
  | unknownCommand .. => "UnknownCommand"

def message : ToolError → String
  | io path cause => (EditError.io path cause).message
  | edit error => error.message
  | json path => "invalid answers file `" ++ String.ofList path ++ "`"
  | spawn line cause => "cannot start `" ++ String.ofList line ++ "`: " ++ cause.message
  | command line code =>
    "`" ++ String.ofList line ++ "` failed" ++
      match code with
      | some code => " with exit code " ++ String.ofList (Text.ofNat code)
      | none => ""
  | unknownCommand tool word => "unknown " ++ tool ++ " command `" ++ String.ofList word ++ "`"

end ToolError

end Graft

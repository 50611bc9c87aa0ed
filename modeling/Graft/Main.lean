/-
The program: the disk of the machine behind the commands.

Main statements: `instance : Disk IO`, `main`.
-/
import Graft.CommandLine.Run

namespace Graft

/-! ### The disk -/

/-- The words of the system for a cause with a number. -/
def numbered (reason : String) (code : UInt32) : IoError := .other (reason ++ " (os error " ++ toString code ++ ")")

def IoError.ofSystem : IO.Error → IoError
  | .noFileOrDirectory .. => .notFound
  | .inappropriateType _ code _ => if code = 21 then .isDirectory else .notDirectory
  | .alreadyExists .. => .alreadyExists
  | .permissionDenied _ code _ => numbered "Permission denied" code
  | .resourceExhausted _ code _ => numbered "No space left on device" code
  | e => .other (toString e)

instance : Disk IO where
  readText path := do
    match ← (IO.FS.readBinFile (String.ofList path)).toBaseIO with
    | .ok bytes => return match String.fromUTF8? bytes with
      | some s => .ok s.toList
      | none => .error .notText
    | .error e => return .error (.ofSystem e)
  writeText path t := do
    match ← (IO.FS.writeFile (String.ofList path) (String.ofList t)).toBaseIO with
    | .ok () => return .ok ()
    | .error e => return .error (.ofSystem e)

end Graft

/-! ### The program -/

/-- Runs a command, prints what it says and ends with its code. -/
def main (args : List String) : IO UInt32 := do
  let printed ← Graft.CommandLine.run (args.map String.toList)
  (← IO.getStdout).putStr printed.out
  (← IO.getStderr).putStr printed.err
  return printed.code.toUInt32

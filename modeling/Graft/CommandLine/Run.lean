/-
The commands of the program.

A command reads and writes files through a disk; what it prints and the code that it ends with are its value.

Main statements: `CommandLine.run` (the program on its arguments).
-/
import Graft.CommandLine.Args
import Graft.Edit.Queue
import Graft.Outline
import Graft.Project.Files

namespace Graft.CommandLine

/-! ### What a run prints -/

/-- The texts for the two outputs and the exit code. -/
structure Printed where
  code : Nat := 0
  out : String := ""
  err : String := ""
deriving DecidableEq, Repr

def usage : String :=
  String.intercalate "\n"
    ["postkit - post-install scaffolding tools",
      "",
      "Usage: postkit <command> [options]",
      "",
      "Commands:",
      "  php <file> [edits...]       Edit a PHP class, keeping its formatting",
      "  config <file> <key> <value> Set a value in a config array",
      "  env <KEY> <VALUE>           Set a key in the project's .env",
      "  parse <file>                Print the outline of a PHP file",
      "  lex <file>                  Print the tokens of a PHP file",
      "  help                        Show this message",
      "",
      "Run `postkit php` without edits to list the edit flags.",
      "Set RUST_LOG=debug to trace what each edit does.",
      ""]

/-! ### Commands -/

section
variable {m : Type → Type} [Monad m] [Disk m]

/-- What a command prints, unless it fails. -/
abbrev Command (m : Type → Type) := ExceptT CommandError m String

/-- The text that edits make of a file. -/
def preview (path : Text) (edits : List Edit) : Command m := do
  match applyEdits (← readInput path) edits with
  | .ok t => return String.ofList t
  | .error e => throw (.edit e)

/-- Edits a file. -/
def saveEdits (path : Text) (edits : List Edit) : ExceptT CommandError m Unit := ExceptT.mk do
  let queue : EditQueue := .ofEdits path edits
  let (saved, _) ← queue.save
  return (saved.map fun _ => ()).mapError .edit

def editClass (a : PhpArgs) : Command m := do
  if a.dryRun then preview a.file a.edits
  else
    saveEdits a.file a.edits
    return "Updated " ++ String.ofList a.file ++ "\n"

def editConfig (a : ConfigArgs) : Command m := do
  let edits : List Edit := [.setConfig a.key a.value]
  if a.dryRun then preview a.file edits
  else
    saveEdits a.file edits
    return "Set " ++ String.ofList a.key ++ " in " ++ String.ofList a.file ++ "\n"

def editEnvironment (a : EnvArgs) : Command m := do
  ExceptT.mk do return (← setEnvironment a.dir a.key a.value).mapError .tool
  return "Set " ++ String.ofList a.key ++ " in " ++ String.ofList (environmentFile a.dir) ++ "\n"

/-- The outline of a file. -/
def showOutline (path : Text) : Command m := do
  match Arena.empty.parseFile (← readInput path) with
  | (.ok f, _) => return "Outline of '" ++ String.ofList path ++ "':\n" ++ String.ofList f.outline
  | (.error e, a) => throw (.parse path (e.describe a))

/-- The tokens of a file. -/
def showTokens (path : Text) : Command m := do
  let tokens := Lexer.lex (← readInput path)
  let lines := tokens.map fun t => "  " ++ t.toText ++ "\n"
  return "Tokens for '" ++ String.ofList path ++ "' (" ++ Nat.repr tokens.length ++ " tokens):\n" ++ String.join lines

/-! ### The program -/

/-- What is printed for a command in the end; `help` goes with wrong arguments. -/
def report (help : String) : Except CommandError String → Printed
  | .ok out => ⟨0, out, ""⟩
  | .error (.usage t) => ⟨2, "", "error: " ++ String.ofList t ++ "\n\n" ++ help ++ "\n"⟩
  | .error e => ⟨1, "", "error: " ++ e.message ++ "\n"⟩

/-- A command on the first of its arguments. -/
def withPath (name : String) (f : Text → Command m) : List Text → m Printed
  | [] => return ⟨1, "", "Usage: postkit " ++ name ++ " <file.php>\n"⟩
  | path :: _ => do return report "" (← (f path).run)

/-- The program on its arguments. -/
def run : List Text → m Printed
  | [] => return ⟨0, usage, ""⟩
  | command :: args =>
    match String.ofList command with
    | "php" => do return report PhpArgs.help (← (PhpArgs.parse args >>= editClass).run)
    | "config" => do return report ConfigArgs.help (← (liftExcept (ConfigArgs.parse args) >>= editConfig).run)
    | "env" => do return report EnvArgs.help (← (liftExcept (EnvArgs.parse args) >>= editEnvironment).run)
    | "parse" => withPath "parse" showOutline args
    | "lex" => withPath "lex" showTokens args
    | "help" | "--help" | "-h" => return ⟨0, usage, ""⟩
    | _ => return ⟨1, usage, "Unknown command: " ++ String.ofList command ++ "\n\n"⟩
where
  /-- Arguments that were read without a disk. -/
  liftExcept {α : Type} (a : Except CommandError α) : ExceptT CommandError m α := ExceptT.mk (pure a)

end

end Graft.CommandLine

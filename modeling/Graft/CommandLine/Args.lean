/-
Arguments of the commands that change files.

The arguments of `php` are taken one by one.  Each is a switch, a flag with a value that queues an edit, or the file;
the code of a method is read from the file that its flag names as soon as the flag is met.

Main statements:

* `CommandError`, why a command fails;
* `Argument.ofText`, the kinds of arguments;
* `flagEdit`, the edit behind a flag;
* `PhpArgs.parse`, `ConfigArgs.parse`, `EnvArgs.parse`.
-/
import Graft.Edit
import Graft.Project.Error
import Graft.Project.FileTree

namespace Graft

/-! ### Errors -/

/-- Why a command fails. -/
inductive CommandError where
  /-- The arguments are wrong; the text says what was expected. -/
  | usage (expected : Text)
  | read (path : Text) (cause : IoError)
  /-- A parse error with its line and column. -/
  | parse (path : Text) (description : String)
  | edit (error : EditError)
  | tool (error : ToolError)
deriving DecidableEq, Repr

namespace CommandError

def message : CommandError → String
  | usage expected => String.ofList expected
  | read path cause => "cannot read `" ++ String.ofList path ++ "`: " ++ cause.message
  | parse path description => String.ofList path ++ ":" ++ description
  | edit error => error.message
  | tool error => error.message

end CommandError

/-! ### Kinds of arguments -/

inductive Argument where
  | dryRun
  /-- A flag with the value behind its first equals sign. -/
  | flag (name value : Text)
  /-- Anything else with a dash in front. -/
  | unknown (text : Text)
  | file (path : Text)
deriving DecidableEq, Repr

namespace Argument

def ofText (t : Text) : Argument :=
  if t = "--dry-run".toList then dryRun
  else if t.startsWith ['-', '-'] then
    match Text.cut? '=' t with
    | some (name, value) => flag name value
    | none => unknown t
  else if t.startsWith ['-'] then unknown t
  else file t

end Argument

/-! ### Flags -/

/-- What a flag asks for. -/
inductive Request where
  | edit (e : Edit)
  /-- To add the method whose code a file holds. -/
  | method (path : Text)
deriving BEq, Repr

/-- A value for an array, perhaps with its key: `target,value` or `target,key,value`. -/
def additionOf (value : Text) : Except CommandError Edit := do
  let some (target, rest) := Text.cut? ',' value
    | throw (.usage "--add-to-array expects <target>,[<key>,]<value>".toList)
  let (key, value) := match Text.cut? ',' rest with
    | some (key, value) => (some key, value)
    | none => (none, rest)
  return .addToArray target key (← (Scalar.ofArgument value).mapError .edit)

/-- What to take from an array: `target,search`. -/
def removalOf (value : Text) : Except CommandError Edit :=
  match Text.cut? ',' value with
  | some (target, search) => .ok (.removeFromArray target search)
  | none => .error (.usage "--remove-from-array expects <target>,<search>".toList)

def unknownOption (t : Text) : CommandError := .usage ("unknown option `".toList ++ t ++ ['`'])

/-- What a flag with a value asks for. -/
def requestOf (name value : Text) : Except CommandError Request :=
  match String.ofList name with
  | "--add-trait" => .ok (.edit (.addTrait value))
  | "--remove-trait" => .ok (.edit (.removeTrait value))
  | "--add-interface" => .ok (.edit (.addInterface value))
  | "--remove-interface" => .ok (.edit (.removeInterface value))
  | "--add-import" => .ok (.edit (.addImport value))
  | "--remove-import" => .ok (.edit (.removeImport value))
  | "--add-method" => .ok (.method value)
  | "--remove-method" => .ok (.edit (.removeMethod value))
  | "--add-to-array" => .edit <$> additionOf value
  | "--remove-from-array" => .edit <$> removalOf value
  | _ => .error (unknownOption name)

section
variable {m : Type → Type} [Monad m] [Disk m]

/-- The text of a file that a command reads. -/
def readInput (path : Text) : ExceptT CommandError m Text :=
  ExceptT.mk do return (← Disk.readText path).mapError (.read path)

/-- The edit behind a flag. -/
def flagEdit (name value : Text) : ExceptT CommandError m Edit := do
  match requestOf name value with
  | .error e => throw e
  | .ok (.edit e) => return e
  | .ok (.method path) => return .addMethod (← readInput path)

/-! ### Edits of a class -/

structure PhpArgs where
  file : Text
  edits : List Edit
  dryRun : Bool
deriving BEq, Repr

/-- The arguments that have been taken so far. -/
structure PhpDraft where
  file : Option Text := none
  edits : List Edit := []
  dryRun : Bool := false

namespace PhpDraft

/-- Takes one more argument. -/
def accept (d : PhpDraft) (t : Text) : ExceptT CommandError m PhpDraft := do
  match Argument.ofText t with
  | .dryRun => return { d with dryRun := true }
  | .flag name value => return { d with edits := d.edits ++ [← flagEdit name value] }
  | .unknown t => throw (unknownOption t)
  | .file path =>
    if d.file.isSome then throw (.usage ("unexpected argument `".toList ++ path ++ ['`']))
    else return { d with file := some path }

/-- The arguments, when a file and an edit are among them. -/
def finish (d : PhpDraft) : Except CommandError PhpArgs :=
  match d.file with
  | none => .error (.usage "missing file path".toList)
  | some file => if d.edits.isEmpty then .error (.usage "no edits given".toList) else .ok ⟨file, d.edits, d.dryRun⟩

end PhpDraft

def PhpArgs.parse (args : List Text) : ExceptT CommandError m PhpArgs := do
  let d ← args.foldlM PhpDraft.accept {}
  match d.finish with
  | .ok a => return a
  | .error e => throw e

end

def PhpArgs.help : String :=
  String.intercalate "\n"
    ["Usage: postkit php <file> [edits...] [--dry-run]",
      "",
      "Edits, applied in the order given:",
      "  --add-trait=<name>             --remove-trait=<name>",
      "  --add-interface=<name>         --remove-interface=<name>",
      "  --add-import=<name>            --remove-import=<name>",
      "  --add-method=<snippet-file>    --remove-method=<name>",
      "  --add-to-array=<target>,[<key>,]<value>",
      "  --remove-from-array=<target>,<search>",
      "",
      "Values are JSON scalars when they parse as JSON, strings otherwise."]

/-! ### Configuration values -/

structure ConfigArgs where
  file : Text
  key : Text
  value : Scalar
  dryRun : Bool
deriving BEq, Repr

namespace ConfigArgs

def help : String := "Usage: postkit config <file> <key.path> <value> [--dry-run]"

def parse (args : List Text) : Except CommandError ConfigArgs :=
  let isSwitch (t : Text) : Bool := Argument.ofText t == .dryRun
  match args.filter (!isSwitch ·) with
  | [file, key, value] => do return ⟨file, key, ← (Scalar.ofArgument value).mapError .edit, args.any isSwitch⟩
  | _ => .error (.usage help.toList)

end ConfigArgs

/-! ### Variables of the environment -/

structure EnvArgs where
  dir : Text
  key : Text
  value : Text
deriving DecidableEq, Repr

namespace EnvArgs

def help : String := "Usage: postkit env <KEY> <VALUE> [--dir=<project>]"

/-- The directory that an argument chooses. -/
def chosenDir? (t : Text) : Option Text := Text.strip? "--dir=".toList t

/-- The last directory that was chosen counts. -/
def parse (args : List Text) : Except CommandError EnvArgs :=
  match args.filter fun t => (chosenDir? t).isNone with
  | [key, value] => .ok ⟨(args.filterMap chosenDir?).getLast?.getD ['.'], key, value⟩
  | _ => .error (.usage help.toList)

end EnvArgs

end Graft

/-
Routines that set up a project.

A routine is a list of steps in the directory of a project.  Steps edit files, run commands, and may depend on the
answers that were given before.  A step that fails ends its list; what was done before stays done.

Main statements:

* `Step`, what a routine can do;
* `Step.perform`, `Step.performAll`, over the state `Project`;
* `editFile`, which edits a file and reports on it.
-/
import Graft.Edit.Queue
import Graft.Project.Answers
import Graft.Project.Files
import Graft.Shell.Run

namespace Graft

/-! ### Steps -/

/-- A question about the answers. -/
inductive Question where
  | selected (key value : Text)
  | confirmed (key : Text)
  | answered (key : Text) (value : Document)

def Question.holds (a : Answers) : Question → Bool
  | selected key value => a.selected key value
  | confirmed key => a.confirmed key
  | answered key value => a.answered key value

/-- A step of a routine.  Files are named relative to the directory of the project. -/
inductive Step where
  | copy (source target : Text)
  | delete (paths : List Text)
  | edit (file : Text) (change : TextEdit)
  | publish (source : Text)
  | env (key value : Text)
  /-- Sets values in a configuration file. -/
  | config (file : Text) (values : List (Text × Scalar))
  /-- Edits a file, and with `again` applies the edits a second time. -/
  | php (file : Text) (edits : List Edit) (render again : Bool)
  | loadAnswers (file : Text)
  | answer (key : Text)
  | note (text : Text)
  | composer (command : Text) (packages : List Text)
  | npm (command : Text) (packages : List Text)
  | artisan (command : Text)
  | migrate
  | vendorPublish (provider : Text)
  | run (command : Text)
  | rebuildAssets
  /-- A step that is known to fail. -/
  | refuse (error : ToolError)
  /-- One list of steps or the other. -/
  | branch (question : Question) (yes no : List Step)
  /-- A step of a project in another directory, where nothing has been answered. -/
  | within (dir : Text) (step : Step)

/-! ### The state of a routine -/

structure Project where
  tree : FileTree
  dir : Text
  answers : Answers
  /-- What steps noted, in order. -/
  notes : List Text

namespace Project

/-- The project in the outermost directory. -/
def start (tree : FileTree) (answers : Answers) : Project := ⟨tree, ['.'], answers, []⟩

/-- The path of a file of the project; the empty path is the project itself. -/
def path (p : Project) (file : Text) : Text := if file.isEmpty then p.dir else Path.join p.dir file

end Project

/-- An action on a project.  What it did before an error stays done. -/
abbrev Routine := ExceptT ToolError (StateM Project)

/-- An action on the files of a project, as a part of a routine. -/
def onFiles {α : Type} (f : Project → FileAction α) : Routine α := fun p =>
  let (result, tree) := f p p.tree
  (result, { p with tree := tree })

/-! ### Edits of files -/

/-- What came of the edits of a file. -/
structure FileReport where
  name : Option Text
  /-- The text that the edits make, when it was asked for. -/
  rendered : Option (Except EditError (Option Text))
  saved : Except EditError Bool
  /-- The edits that were not saved. -/
  pending : List Edit
  /-- What came of the second time. -/
  savedAgain : Option (Except EditError Bool)

/-- Edits a file and reports on it. -/
def editFile (path : Text) (edits : List Edit) (render again : Bool) : StateM FileTree FileReport := do
  let queue : EditQueue := .ofEdits path edits
  let rendered ← if render then some <$> queue.render else pure none
  let (saved, left) ← queue.save
  let savedAgain ← if again then some <$> Prod.fst <$> (left.enqueue (edits.map .ofEdit)).save else pure none
  return ⟨Path.fileName? path, rendered, saved, left.pending, savedAgain⟩

/-- Sets values in a configuration file, all of them or none. -/
def configure (path : Text) (values : List (Text × Scalar)) : FileAction Unit := ExceptT.mk do
  let queue : EditQueue := .ofEdits path (values.map fun (key, value) => .setConfig key value)
  let (saved, _) ← queue.save
  return (saved.map fun _ => ()).mapError .edit

/-- Reads answers from a file. -/
def readAnswers (path : Text) (tree : FileTree) : Except ToolError Answers := do
  let t ← (tree.readText path).mapError (.io path)
  match Answers.ofText? t with
  | some a => return a
  | none => throw (.json path)

/-! ### Commands -/

/-- Words on one line. -/
def commandLine (words : List Text) : Text := Text.join [' '] words

/-- Runs a command in a directory. -/
def runCommand (dir command : Text) : FileAction Unit := fun tree =>
  if command.contains (Char.ofNat 0) then (.error (.spawn command .zeroCharacter), tree)
  else match tree.find dir with
  | .error e => (.error (.spawn command e), tree)
  | .ok (.file ..) => (.error (.spawn command .notDirectory), tree)
  | .ok .directory =>
    let (code, tree) := Shell.run tree dir command
    (if code = some 0 then .ok () else .error (.command command code), tree)

/-- The words with which a tool is called for one of its commands. -/
def composerWords? (command : Text) : Option (List String) :=
  match String.ofList command with
  | "require" => some ["composer", "require"]
  | "require-dev" => some ["composer", "require", "--dev"]
  | "remove" => some ["composer", "remove"]
  | _ => none

/-- The words with which a tool is called for one of its commands. -/
def npmWords? (command : Text) : Option (List String) :=
  match String.ofList command with
  | "install" => some ["npm", "install"]
  | "install-dev" => some ["npm", "install", "--save-dev"]
  | "remove" => some ["npm", "remove"]
  | _ => none

/-- Runs a tool that takes packages. -/
def runTool (dir : Text) (tool : String) (command : Text) (words : Option (List String)) (packages : List Text) :
    FileAction Unit :=
  match words with
  | some words => runCommand dir (commandLine (words.map String.toList ++ packages))
  | none => throw (.unknownCommand tool command)

/-- Runs a command of the application. -/
def runArtisan (dir command : Text) : FileAction Unit := runCommand dir ("php artisan ".toList ++ command)

/-! ### Running steps -/

/-- What a step answers. -/
inductive Outcome where
  | done
  | answer (value : Option Document)
  | report (file : FileReport)

namespace Step

/-- A step on files that has nothing to answer. -/
def files (f : Project → FileAction Unit) : Routine Outcome := do
  onFiles f
  return .done

mutual

/-- Runs a step. -/
def perform : Step → Routine Outcome
  | copy source target => files fun p => copyFile (Path.join p.dir source) (Path.join p.dir target)
  | delete paths => files fun p => deleteFiles (paths.map (Path.join p.dir))
  | edit file change => files fun p => ExceptT.mk (changeText (Path.join p.dir file) change.apply)
  | publish source => files fun p => Graft.publish (Path.join p.dir source) p.dir
  | env key value => files fun p => ExceptT.mk (setEnvironment p.dir key value)
  | config file values => files fun p => configure (Path.join p.dir file) values
  | php file edits render again =>
    onFiles fun p => ExceptT.lift (.report <$> editFile (p.path file) edits render again)
  | loadAnswers file => do
    let p ← get
    match readAnswers (Path.join p.dir file) p.tree with
    | .ok answers =>
      set { p with answers := answers }
      return .done
    | .error e => throw e
  | answer key => do return .answer ((← get).answers.get? key)
  | note text => do
    modify fun p => { p with notes := p.notes ++ [text] }
    return .done
  | composer command packages => files fun p => runTool p.dir "composer" command (composerWords? command) packages
  | npm command packages => files fun p => runTool p.dir "npm" command (npmWords? command) packages
  | artisan command => files fun p => runArtisan p.dir command
  | migrate => files fun p => runArtisan p.dir "migrate".toList
  | vendorPublish provider => files fun p =>
    runArtisan p.dir ("vendor:publish --provider=\"".toList ++ provider ++ ['"'])
  | run command => files fun p => runCommand p.dir command
  | rebuildAssets => files fun p => do
    runCommand p.dir "npm install".toList
    runCommand p.dir "npm run build".toList
  | refuse error => throw error
  | branch question yes no => do
    if question.holds (← get).answers then performAll yes else performAll no
    return .done
  | within dir step => do
    let p ← get
    -- The tree and the notes are shared; the directory and the answers come back also after an error.
    set { p with dir := Path.join ['.'] dir, answers := .empty }
    tryFinally step.perform (modify fun q => { q with dir := p.dir, answers := p.answers })
termination_by structural s => s

/-- Runs steps up to the first that fails. -/
def performAll : List Step → Routine Unit
  | [] => return
  | s :: ss => do
    let _ ← s.perform
    performAll ss
termination_by structural s => s

end

end Step

end Graft

/-
Operations on the files of a project.

Main statements:

* `TextEdit.apply`, what an edit of a text makes of it;
* `changeText`, which reads a file, changes its text and writes it back, over any disk;
* `copyFile`, `deleteFiles`, `publish`, over a tree of files; what has been done before an error stays done.
-/
import Graft.Project.FileTree
import Graft.Project.Error
import Graft.Project.Lines

namespace Graft

/-! ### Texts -/

/-- An edit of a text. -/
inductive TextEdit where
  | replace (search by_ : Text)
  | deleteLines (search : Text)
  | replaceLine (search line : Text)
  | appendAfter (search line : Text)
  | append (tail : Text)
  | uncomment (search : Text)
  | stripBlock (tag : Text)
  | removeBlock (tag : Text)
deriving DecidableEq, Repr

def TextEdit.apply : TextEdit → Text → Text
  | replace search by_ => Text.replace search by_
  | deleteLines search => Lines.deleteContaining search
  | replaceLine search line => Lines.replaceContaining search line
  | appendAfter search line => Lines.appendAfter search line
  | append tail => (· ++ tail)
  | uncomment search => Lines.uncomment search
  | stripBlock tag => Lines.stripBlock tag
  | removeBlock tag => Lines.removeBlock tag

section
variable {m : Type → Type} [Monad m] [Disk m]

/-- Reads a file, changes its text and writes it back. -/
def changeText (path : Text) (change : Text → Text) : m (Except ToolError Unit) := do
  match ← Disk.readText path with
  | .error e => return .error (.io path e)
  | .ok t => return (← Disk.writeText path (change t)).mapError (.io path)

/-- The file with the environment of a project. -/
def environmentFile (dir : Text) : Text := Path.join dir ".env".toList

/-- Sets a variable in the environment of a project. -/
def setEnvironment (dir key value : Text) : m (Except ToolError Unit) :=
  changeText (environmentFile dir) (Lines.setVariable key value)

end

/-! ### Files -/

/-- An action on a tree of files.  What it did before an error stays done. -/
abbrev FileAction := ExceptT ToolError (StateM FileTree)

/-- One change of the tree; the path is what an error is reported for. -/
def attempt (path : Text) (change : FileTree → Except IoError FileTree) : FileAction Unit := fun tree =>
  match change tree with
  | .ok tree => (.ok (), tree)
  | .error e => (.error (.io path e), tree)

/-- Creates a directory and those above it. -/
def createDirectories (path : Text) : FileAction Unit := fun tree =>
  let (tree, result) := tree.createDirectories path
  (result.mapError (.io path), tree)

/-- Copies a file and creates the directories above the target. -/
def copyFile (source target : Text) : FileAction Unit := do
  createDirectories (Path.parent target)
  attempt source (·.copy source target)

/-- Deletes files; there may be none. -/
def deleteFiles (paths : List Text) : FileAction Unit := paths.forM fun path => attempt path (·.removeFile path)

/-- Copies every file under a directory to its place under another. -/
def publish (source target : Text) : FileAction Unit := do
  match (← get).filesUnder source with
  | .error e => throw (.io source e)
  | .ok files => files.forM fun p => copyFile (Path.join source p.toText) (Path.join target p.toText)

end Graft

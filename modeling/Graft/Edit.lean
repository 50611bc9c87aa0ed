/-
Edits and their application.

A queue of edits is first prepared: every edit checks the file as it was read and reads the code it brings, so that a
queue fails before anything changes.  The edits are then run in order on a copy of the tree, and the result is printed
over the text of the file.  Edits of a class change the first class that they meet and no other one.

Main statements: `Edit`, `PreparedEdit.prepare`, `PreparedEdit.run`, `applyEach`, `applyEdits`.
-/
import Graft.Edit.Class
import Graft.Edit.Config
import Graft.Edit.Import
import Graft.Parse.File
import Graft.Print.File

namespace Graft

/-! ### Edits -/

inductive Edit where
  | addImport (name : Text)
  | removeImport (name : Text)
  | addTrait (name : Text)
  | removeTrait (name : Text)
  | addInterface (name : Text)
  | removeInterface (name : Text)
  /-- The code is a declaration of a method. -/
  | addMethod (code : Text)
  | removeMethod (name : Text)
  | addToArray (target : Text) (key : Option Text) (value : Scalar)
  | removeFromArray (target search : Text)
  | setConfig (path : Text) (value : Scalar)
deriving BEq, Repr

namespace Edit

def name : Edit → String
  | addImport _ => "add-import"
  | removeImport _ => "remove-import"
  | addTrait _ => "add-trait"
  | removeTrait _ => "remove-trait"
  | addInterface _ => "add-interface"
  | removeInterface _ => "remove-interface"
  | addMethod _ => "add-method"
  | removeMethod _ => "remove-method"
  | addToArray .. => "add-to-array"
  | removeFromArray .. => "remove-from-array"
  | setConfig .. => "set-config"

/-- What an edit needs of the file as it was read. -/
def require (f : File) : Edit → Except EditError Unit
  | addImport _ => if f.declaresAny [.cls, .interface, .trait] then .ok () else .error .noDeclaration
  | addTrait _ | addInterface _ => if f.declaresAny [.cls] then .ok () else .error .noClass
  | setConfig .. => if f.returnedArray?.isSome then .ok () else .error .noArray
  | _ => .ok ()

/-- What an edit of a class makes of the class; `method` is what its code declares. -/
def onClass? (method : Option Method) : Edit → Option (ClassLike → ClassLike)
  | addTrait name => some (·.addTrait name)
  | removeTrait name => some (·.removeTrait name)
  | addInterface name => some (·.addInterface name)
  | removeInterface name => some (·.removeInterface name)
  | addMethod _ => some fun c => (method.map fun m => c.addMethod m).getD c
  | removeMethod name => some (·.removeMethod name)
  | addToArray target key value => some (·.addToArray target key value)
  | removeFromArray target search => some (·.removeFromArray target search)
  | addImport _ | removeImport _ | setConfig .. => none

/-- What any other edit makes of the file. -/
def onFile (f : File) : Edit → File
  | addImport name => f.updateUnit (Graft.addImport (normalizedName name))
  | removeImport name => Graft.removeImport (normalizedName name) f
  | setConfig path value => Graft.setConfig path value f
  | _ => f

end Edit

/-! ### Prepared edits -/

/-- An edit on its way. -/
structure PreparedEdit where
  edit : Edit
  /-- The edit has met its class. -/
  spent : Bool
  /-- The method that its code declares. -/
  method : Option Method
deriving BEq

namespace PreparedEdit

def ofEdit (e : Edit) : PreparedEdit := ⟨e, false, none⟩

/-- Checks the file and reads the code of a method into the arena.  The arena keeps what was read even on an error. -/
def prepare (p : PreparedEdit) (f : File) (a : Arena) : Except EditError PreparedEdit × Arena :=
  match p.edit with
  | .addMethod code =>
    match a.parseMethod code with
    | (.error _, a) => (.error .brokenMethod, a)
    | (.ok none, a) => (.error .noMethod, a)
    | (.ok (some m), a) => (.ok { p with method := some m }, a.register (.method m))
  | e => ((e.require f).map fun _ => p, a)

/-- Runs the edit on a file. -/
def run (p : PreparedEdit) (f : File) : PreparedEdit × File :=
  match p.edit.onClass? p.method with
  | none => (p, p.edit.onFile f)
  | some g =>
    if p.spent then (p, f)
    else match f.updateClass? g with
      | some f => ({ p with spent := true }, f)
      | none => (p, f)

end PreparedEdit

/-! ### Queues -/

/-- Prepares edits on their way in order, up to the first that fails. -/
def prepareEach (f : File) : List PreparedEdit → Arena → Except EditError (List PreparedEdit × Arena)
  | [], a => .ok ([], a)
  | p :: ps, a =>
    match p.prepare f a with
    | (.error err, _) => .error err
    | (.ok p, a) => (prepareEach f ps a).map fun (ps, a) => (p :: ps, a)

/-- Prepares edits that have not been on their way before. -/
def prepareAll (f : File) (edits : List Edit) (a : Arena) : Except EditError (List PreparedEdit × Arena) :=
  prepareEach f (edits.map .ofEdit) a

theorem prepareAll_cons (f : File) (e : Edit) (es : List Edit) (a : Arena) :
    prepareAll f (e :: es) a =
      match (PreparedEdit.ofEdit e).prepare f a with
      | (.error err, _) => .error err
      | (.ok p, a) => (prepareAll f es a).map fun (ps, a) => (p :: ps, a) := rfl

/-- Runs prepared edits in order. -/
def runAll (ps : List PreparedEdit) (f : File) : File := ps.foldl (fun f p => (p.run f).2) f

/-- The text of a file with edits on their way applied.  They are prepared and run as copies, so that what an edit has
met and read is gone with the text. -/
def applyEach (source : Text) (edits : List PreparedEdit) : Except EditError Text :=
  match Arena.empty.parseFile source with
  | (.error e, _) => .error (.parse e)
  | (.ok f, a) => (prepareEach f edits a).map fun (ps, a) => (runAll ps f).print f a

/-- The text of a file with edits applied. -/
def applyEdits (source : Text) (edits : List Edit) : Except EditError Text :=
  match Arena.empty.parseFile source with
  | (.error e, _) => .error (.parse e)
  | (.ok f, a) => (prepareAll f edits a).map fun (ps, a) => (runAll ps f).print f a

theorem applyEach_map_ofEdit (source : Text) (edits : List Edit) :
    applyEach source (edits.map .ofEdit) = applyEdits source edits := rfl

end Graft

/-
Adding and removing imports of classes.

Main statements: `addImport`, `removeImport`.
-/
import Graft.Tree.File
import Graft.Tree.Order

namespace Graft

namespace Import

/-- The full names of the classes that the statement imports. -/
def classNames (d : Import) : List Text :=
  (d.items.filter fun i => d.importsClasses && i.isClass).map d.qualified

/-- The statement without the class items that `p` accepts by their full names. -/
def dropClasses (p : Text → Bool) (d : Import) : Import :=
  if d.importsClasses then { d with items := d.items.filter fun i => !(i.isClass && p (d.qualified i)) } else d

end Import

namespace Stmt

def import? : Stmt → Option Import
  | .imports d => some d
  | _ => none

def isDeclare : Stmt → Bool
  | .declare _ => true
  | _ => false

end Stmt

/-! ### Adding -/

/-- The index of the element behind the last one that `p` accepts. -/
def behindLast? {α : Type} (p : α → Bool) : List α → Option Nat
  | [] => none
  | a :: as => ((behindLast? p as).map (· + 1)).or (if p a then some 1 else none)

/-- The index for a new import: behind the last one, or else behind what declares at the start. -/
def importIndex (stmts : List Stmt) : Nat :=
  (behindLast? (fun s => s.import?.isSome) stmts).getD (stmts.takeWhile Stmt.isDeclare).length

/-- Statements with the import of a class, unless some statement already imports it. -/
def addImport (name : Text) (stmts : List Stmt) : List Stmt :=
  if (stmts.filterMap Stmt.import?).any fun d => d.classNames.contains name then stmts
  else insertAt (importIndex stmts) (.imports (.fresh name)) stmts

/-! ### Removing -/

/-- The full name `qualified` is meant by `name`, a full or a simple name. -/
def isMeantBy (name qualified : Text) : Bool := qualified == name || simpleName qualified == name

/-- A statement without the imports of a class; nothing when no item is left. -/
def Stmt.withoutImport? (name : Text) : Stmt → Option Stmt
  | .imports d =>
    let d := d.dropClasses (isMeantBy name)
    if d.items.isEmpty then none else some (.imports d)
  | s => some s

/-- A statement of a file without the imports of a class; nothing when no item is left. -/
def TopStmt.withoutImport? (name : Text) : TopStmt → Option TopStmt
  | .inside n => some (.inside { n with stmts := n.stmts.filterMap (Stmt.withoutImport? name) })
  | .plain s => (s.withoutImport? name).map .plain

/-- A file without the imports of a class. -/
def removeImport (name : Text) (f : File) : File :=
  { f with stmts := f.stmts.filterMap (TopStmt.withoutImport? name) }

end Graft

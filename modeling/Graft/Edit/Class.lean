/-
Edits of a class: its traits, interfaces, methods and arrays.

Main statements: `ClassLike.addTrait`, `ClassLike.addInterface`, `ClassLike.addMethod`, `ClassLike.addToArray` and
the removals beside them; `File.updateClass?` finds the class.
-/
import Graft.Edit.Scalar
import Graft.Tree.File

namespace Graft

/-! ### Arrays -/

namespace ArrayLit

/-- The array has an entry with the key; without a key, it has an entry without one that holds the value. -/
def holds (key : Option Text) (value : Scalar) (a : ArrayLit Expr) : Bool :=
  match key with
  | some key => (a.entry? key).isSome
  | none => a.items.any fun i => i.key.isNone && value.isHeldBy i.value

/-- The array with one more entry, unless it has it. -/
def appendEntry (key : Option Text) (value : Scalar) (a : ArrayLit Expr) : ArrayLit Expr :=
  if holds key value a then a
  else { a with items := a.items ++ [.fresh (key.map Expr.freshString) value.toExpr] }

/-- The array without the entries of a key and the entries without a key that hold a string. -/
def dropEntries (search : Text) (a : ArrayLit Expr) : ArrayLit Expr :=
  { a with items := a.items.filter fun i => !(i.hasKey search || i.hasValue search) }

end ArrayLit

namespace ClassLike

/-! ### Traits -/

/-- The class using a trait: named in its first clause, or in a new clause that becomes its first member. -/
def addTrait (name : Text) (c : ClassLike) : ClassLike :=
  if c.usesTrait (simpleName name) then c
  else
    let grow : Member → Option Member
      | .traitUse clause => some (.traitUse { clause with names := clause.names ++ [.fresh name] })
      | _ => none
    { c with members := (updateFirst? grow c.members).getD (.traitUse (.fresh [.fresh name]) :: c.members) }

/-- A member without the names of a trait; nothing when a clause has no name left. -/
def withoutTrait? (simple : Text) : Member → Option Member
  | .traitUse clause =>
    let names := clause.names.filter (·.simple != simple)
    if names.isEmpty then none else some (.traitUse { clause with names })
  | m => some m

def removeTrait (name : Text) (c : ClassLike) : ClassLike :=
  { c with members := c.members.filterMap (withoutTrait? (simpleName name)) }

/-! ### Interfaces -/

def addInterface (name : Text) (c : ClassLike) : ClassLike :=
  if c.implementsInterface (simpleName name) then c
  else { c with interfaces := c.interfaces ++ [.fresh name] }

def removeInterface (name : Text) (c : ClassLike) : ClassLike :=
  { c with interfaces := c.interfaces.filter (·.simple != simpleName name) }

/-! ### Methods -/

/-- The class with a method behind its members, unless it has one of that name. -/
def addMethod (m : Method) (c : ClassLike) : ClassLike :=
  if c.hasMethod m.name.text then c else { c with members := c.members ++ [.method m] }

def removeMethod (name : Text) (c : ClassLike) : ClassLike :=
  { c with members := c.members.filter fun m => !(m.method?.any fun f => f.name.text.sameIgnoringCase name) }

/-! ### Entries of arrays -/

def addToArray (target : Text) (key : Option Text) (value : Scalar) (c : ClassLike) : ClassLike :=
  c.updateTarget target (ArrayLit.appendEntry key value)

def removeFromArray (target search : Text) (c : ClassLike) : ClassLike :=
  c.updateTarget target (ArrayLit.dropEntries search)

end ClassLike

/-! ### The class of a file -/

namespace Stmt

/-- A class declaration with the class changed. -/
def updateClass? (f : ClassLike → ClassLike) : Stmt → Option Stmt
  | .classLike c => if c.kind = .cls then some (.classLike (f c)) else none
  | _ => none

end Stmt

namespace TopStmt

/-- A statement with the first class in it changed. -/
def updateClass? (f : ClassLike → ClassLike) : TopStmt → Option TopStmt
  | .inside n => (updateFirst? (Stmt.updateClass? f) n.stmts).map fun stmts => .inside { n with stmts }
  | .plain s => (s.updateClass? f).map .plain

end TopStmt

namespace File

/-- The file with its first class changed, in the order of its text; nothing when it declares none. -/
def updateClass? (g : ClassLike → ClassLike) (f : File) : Option File :=
  (updateFirst? (TopStmt.updateClass? g) f.stmts).map fun stmts => { f with stmts }

/-- The first class of the file, in the order of its text. -/
def firstClass? (f : File) : Option ClassLike :=
  ((f.stmts.flatMap TopStmt.flat).filterMap Stmt.classLike?).find? fun c => c.kind == .cls

end File

end Graft

/-
Changing parts of a tree by their place in it.

Main statements: `File.onClassLike`, `File.onReturnedArray`, `ClassLike.onMember`.
-/
import Graft.Tree.File
import Graft.Tree.Order

namespace Graft

/-! ### Parts of members -/

/-- The member with its trait clause changed, if it is one. -/
def Member.onTraitUse (g : TraitUse → TraitUse) : Member → Member
  | .traitUse c => .traitUse (g c)
  | m => m

/-- The member with its property declaration changed, if it is one. -/
def Member.onProperty (g : Property → Property) : Member → Member
  | .property p => .property (g p)
  | m => m

/-- The member with its method changed, if it is one. -/
def Member.onMethod (g : Method → Method) : Member → Member
  | .method m => .method (g m)
  | m => m

/-- The member with the statements of its body changed, if it is a method with one. -/
def Member.onBody (g : List BodyStmt → List BodyStmt) : Member → Member :=
  Member.onMethod fun m => { m with body := m.body.map fun b => { b with stmts := g b.stmts } }

/-- The direct statements of the body of a method. -/
def Member.bodyStmts (m : Member) : List BodyStmt :=
  ((m.method?.bind Method.body).map Block.stmts).getD []

/-- The clause with its names changed. -/
def Member.onTraitNames (g : List Name → List Name) : Member → Member :=
  Member.onTraitUse fun c => { c with names := g c.names }

/-- The declaration with its properties changed. -/
def Member.onPropertyItems (g : List PropertyItem → List PropertyItem) : Member → Member :=
  Member.onProperty fun p => { p with items := g p.items }

/-- The return statement with another value, if it is one. -/
def BodyStmt.returning (value : Option Expr) : BodyStmt → BodyStmt
  | .ret r => .ret { r with expr := value }
  | s => s

/-! ### Parts of classes -/

namespace ClassLike

def onMembers (g : List Member → List Member) (c : ClassLike) : ClassLike := { c with members := g c.members }

/-- The class with one of its members changed. -/
def onMember (i : Nat) (g : Member → Member) : ClassLike → ClassLike := onMembers fun ms => ms.modify i g

def onInterfaces (g : List Name → List Name) (c : ClassLike) : ClassLike := { c with interfaces := g c.interfaces }

end ClassLike

/-! ### Parts of statements -/

/-- The statement with its import changed, if it is one. -/
def Stmt.onImport (g : Import → Import) : Stmt → Stmt
  | .imports d => .imports (g d)
  | s => s

/-- The statement with the items of its import changed. -/
def Stmt.onImportItems (g : List ImportItem → List ImportItem) : Stmt → Stmt :=
  Stmt.onImport fun d => { d with items := g d.items }

/-- The return statement with another value, if it is one. -/
def Stmt.returning (value : Option Expr) : Stmt → Stmt
  | .ret r => .ret { r with expr := value }
  | s => s

/-! ### Parts of files -/

/-- The statements with the class of the given number among their classes changed. -/
def updateClassAt (g : ClassLike → ClassLike) : Nat → List Stmt → List Stmt
  | _, [] => []
  | 0, .classLike c :: ss => .classLike (g c) :: ss
  | n + 1, .classLike c :: ss => .classLike c :: updateClassAt g n ss
  | n, s :: ss => s :: updateClassAt g n ss

namespace File

def onTop (g : List TopStmt → List TopStmt) (f : File) : File := { f with stmts := g f.stmts }

/-- The file with one of the classes of its unit changed. -/
def onClassLike (i : Nat) (g : ClassLike → ClassLike) : File → File := updateUnit (updateClassAt g i)

/-- The file with the array that its unit returns changed. -/
def onReturnedArray (g : ArrayLit Expr → ArrayLit Expr) : File → File :=
  updateUnit (updateFirst fun s => s.return?.bind fun r => (r.updateArray? g).map .ret)

end File

/-! ### Parts of arrays -/

/-- The array with its entries changed. -/
def ArrayLit.onItems (g : List (ArrayItem Expr) → List (ArrayItem Expr)) (a : ArrayLit Expr) : ArrayLit Expr :=
  { a with items := g a.items }

/-- A literal with the value of another one of its kind; its place and origin stay. -/
def Expr.withValueOf (e value : Expr) : Expr :=
  match e, value with
  | .array a, .array b => .array { a with items := b.items }
  | .string a, .string b => .string { a with value := b.value }
  | .int a, .int b => .int { a with value := b.value }
  | .float a, .float b => .float { a with value := b.value }
  | .const a, .const b => .const { a with text := b.text }
  | e, _ => e

/-! ### Verbatim nodes -/

/-- A node of which only the place is kept, with or without its origin. -/
def Verbatim.ofNode {α : Type} [Placed α] (node : α) (keepOrigin : Bool) : Verbatim :=
  ⟨if keepOrigin then Placed.origin node else none, Placed.span node⟩

end Graft

/-
Classes, interfaces, traits and enums with their members.

Main statements: `ClassLike.targetArray?` (the array that array edits of a class address), `ClassLike.updateTarget`
(the class with that array changed).
-/
import Graft.Tree.Expr
import Graft.Tree.First

/-! ### Modifiers and kinds -/

namespace Graft

/-- A set of modifiers, one bit each. -/
structure Modifiers where
  bits : Nat
deriving DecidableEq, Repr

namespace Modifiers

def none : Modifiers := ⟨0⟩

/-- The keywords with their bits. -/
def keywords : List (String × Nat) :=
  [("public", 1), ("protected", 2), ("private", 4), ("static", 8), ("abstract", 16), ("final", 32),
    ("readonly", 64), ("var", 128)]

/-- The modifier that a word is, in any case of letters. -/
def ofKeyword? (word : Text) : Option Modifiers :=
  (keywords.find? fun (k, _) => k.toList == word.lower).map fun (_, bit) => ⟨bit⟩

def union (m n : Modifiers) : Modifiers := ⟨m.bits ||| n.bits⟩

end Modifiers

inductive ClassKind where
  | cls
  | interface
  | trait
  | enum
deriving DecidableEq, Repr

namespace ClassKind

def keyword : ClassKind → String
  | cls => "class"
  | interface => "interface"
  | trait => "trait"
  | enum => "enum"

/-- The kind that a word declares, in any case of letters. -/
def ofKeyword? (word : Text) : Option ClassKind :=
  [cls, interface, trait, enum].find? fun k => k.keyword.toList == word.lower

end ClassKind

/-! ### Statements of method bodies -/

/-- A return statement. -/
structure ReturnStmt where
  origin : Option NodeId
  span : Span
  expr : Option Expr
deriving BEq

instance : Placed ReturnStmt := ⟨ReturnStmt.origin, ReturnStmt.span⟩

namespace ReturnStmt

/-- A return statement that was not read from text. -/
def fresh (expr : Option Expr) : ReturnStmt := ⟨none, .dummy, expr⟩

/-- The array literal that is returned. -/
def array? (r : ReturnStmt) : Option (ArrayLit Expr) := r.expr.bind Expr.array?

/-- The statement with the array literal that it returns changed, if it returns one. -/
def updateArray? (f : ArrayLit Expr → ArrayLit Expr) (r : ReturnStmt) : Option ReturnStmt :=
  r.array?.map fun a => { r with expr := some (.array (f a)) }

end ReturnStmt

/-- A direct statement of a method body. -/
inductive BodyStmt where
  | ret (stmt : ReturnStmt)
  | other (text : Verbatim)
deriving BEq

namespace BodyStmt

def origin : BodyStmt → Option NodeId
  | .ret s => s.origin
  | .other s => s.origin

def span : BodyStmt → Span
  | .ret s => s.span
  | .other s => s.span

instance : Placed BodyStmt := ⟨origin, span⟩

def return? : BodyStmt → Option ReturnStmt
  | .ret s => some s
  | .other _ => none

end BodyStmt

/-- A method body in braces. -/
structure Block where
  origin : Option NodeId
  span : Span
  /-- The text between the braces. -/
  body : Span
  stmts : List BodyStmt
deriving BEq

/-! ### Members -/

/-- A clause that uses traits. -/
structure TraitUse where
  origin : Option NodeId
  span : Span
  /-- The text of the names. -/
  namesRegion : Span
  names : List Name
  /-- The braced block that resolves conflicts. -/
  adaptations : Option Span
deriving DecidableEq

/-- A clause that was not read from text. -/
def TraitUse.fresh (names : List Name) : TraitUse := ⟨none, .dummy, .dummy, names, none⟩

structure PropertyItem where
  origin : Option NodeId
  span : Span
  /-- The name without its dollar sign. -/
  name : Ident
  default : Option Expr
deriving BEq

instance : Placed PropertyItem := ⟨PropertyItem.origin, PropertyItem.span⟩

/-- A declaration of one or more properties. -/
structure Property where
  origin : Option NodeId
  span : Span
  modifiers : Modifiers
  items : List PropertyItem
deriving BEq

structure Method where
  origin : Option NodeId
  span : Span
  modifiers : Modifiers
  name : Ident
  /-- Absent for methods that are only declared. -/
  body : Option Block
deriving BEq

inductive Member where
  | traitUse (clause : TraitUse)
  | property (property : Property)
  | method (method : Method)
  /-- A constant, an enum case or anything else. -/
  | other (text : Verbatim)
deriving BEq

namespace Member

def origin : Member → Option NodeId
  | .traitUse m => m.origin
  | .property m => m.origin
  | .method m => m.origin
  | .other m => m.origin

def span : Member → Span
  | .traitUse m => m.span
  | .property m => m.span
  | .method m => m.span
  | .other m => m.span

instance : Placed Member := ⟨origin, span⟩

def method? : Member → Option Method
  | .method m => some m
  | _ => none

def traitUse? : Member → Option TraitUse
  | .traitUse c => some c
  | _ => none

end Member

/-! ### Classes -/

structure ClassLike where
  origin : Option NodeId
  span : Span
  kind : ClassKind
  modifiers : Modifiers
  name : Ident
  parents : List Name
  interfaces : List Name
  /-- The clause of the implemented interfaces, from the end of the token before its keyword to its last name. -/
  interfacesClause : Option Span
  /-- The text of the implemented names. -/
  interfacesRegion : Span
  /-- Where a new clause is inserted. -/
  interfacesAnchor : Nat
  /-- The text between the braces. -/
  body : Span
  members : List Member
deriving BEq

namespace ClassLike

/-- A clause of the class names a trait whose last segment is `simple`. -/
def usesTrait (c : ClassLike) (simple : Text) : Bool :=
  (c.members.filterMap Member.traitUse?).any fun clause => clause.names.any (·.simple == simple)

def implementsInterface (c : ClassLike) (simple : Text) : Bool := c.interfaces.any (·.simple == simple)

/-- A method of the class has the name, in any case of letters. -/
def hasMethod (c : ClassLike) (name : Text) : Bool :=
  (c.members.filterMap Member.method?).any fun m => m.name.text.sameIgnoringCase name

end ClassLike

/-! ### The array that an array edit addresses -/

namespace PropertyItem

/-- The array that is the default of a property called `target`. -/
def target? (target : Text) (item : PropertyItem) : Option (ArrayLit Expr) :=
  if item.name.text = target then item.default.bind Expr.array? else none

/-- The property called `target` with the array that is its default changed. -/
def updateTarget? (target : Text) (f : ArrayLit Expr → ArrayLit Expr) (item : PropertyItem) :
    Option PropertyItem :=
  (item.target? target).map fun a => { item with default := some (.array (f a)) }

end PropertyItem

namespace Method

/-- The array of the first direct statement that returns one. -/
def returnedArray? (m : Method) : Option (ArrayLit Expr) :=
  m.body.bind fun b => b.stmts.findSome? fun s => s.return?.bind ReturnStmt.array?

/-- The method with the array that it returns changed. -/
def updateReturned (f : ArrayLit Expr → ArrayLit Expr) (m : Method) : Method :=
  { m with
    body := m.body.map fun b =>
      { b with stmts := updateFirst (fun s => s.return?.bind fun r => (r.updateArray? f).map .ret) b.stmts } }

end Method

namespace Member

/-- Whether a member decides what `target` addresses, and the array it then is: a property of that name with an array
default, or a method of that name, which decides even when it returns no array. -/
def target? (target : Text) : Member → Option (Option (ArrayLit Expr))
  | .property p => (p.items.findSome? (·.target? target)).map some
  | .method m => if m.name.text = target then some m.returnedArray? else none
  | _ => none

/-- The member with the array that `target` addresses changed, if the member decides what that is. -/
def updateTarget? (target : Text) (f : ArrayLit Expr → ArrayLit Expr) : Member → Option Member
  | .property p => (updateFirst? (·.updateTarget? target f) p.items).map fun items => .property { p with items }
  | .method m => if m.name.text = target then some (.method (m.updateReturned f)) else none
  | _ => none

end Member

namespace ClassLike

/-- The array that `target` addresses: that of the first member which decides it. -/
def targetArray? (c : ClassLike) (target : Text) : Option (ArrayLit Expr) :=
  (c.members.findSome? (·.target? target)).join

/-- The class with the array that `target` addresses changed; the class itself where it addresses nothing. -/
def updateTarget (c : ClassLike) (target : Text) (f : ArrayLit Expr → ArrayLit Expr) : ClassLike :=
  { c with members := updateFirst (·.updateTarget? target f) c.members }

end ClassLike

end Graft

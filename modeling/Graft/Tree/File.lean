/-
Files: their namespaces, imports and declarations.

A file is a list of statements, some of which are namespaces with statements of their own; namespaces do not nest.
The declaration unit is the body of the first namespace, or the whole list when there is none; it is where edits look
for declarations.

Main statements: `File.unit`, `File.updateUnit`, `unit_updateUnit` (an update of the unit is what the unit then is).
-/
import Graft.Tree.Class

/-! ### Imports -/

namespace Graft

inductive ImportKind where
  | normal
  | function
  | const
deriving DecidableEq, Repr

structure ImportItem where
  origin : Option NodeId
  span : Span
  /-- The kind of this item alone, inside a mixed group. -/
  kind : Option ImportKind
  name : Name
  /-- The name that the item has in this file. -/
  localName : Option Ident
deriving DecidableEq

instance : Placed ImportItem := ⟨ImportItem.origin, ImportItem.span⟩

/-- The item imports a class, as far as its own kind tells. -/
def ImportItem.isClass (i : ImportItem) : Bool := i.kind == none || i.kind == some .normal

/-- An import statement: one or more names, perhaps grouped behind a common stem. -/
structure Import where
  origin : Option NodeId
  span : Span
  kind : ImportKind
  stem : Option Name
  /-- The text of the items. -/
  itemsRegion : Span
  items : List ImportItem
deriving DecidableEq

namespace Import

/-- The import of one name, not read from text. -/
def fresh (name : Text) : Import :=
  ⟨none, .dummy, .normal, none, .dummy, [⟨none, .dummy, none, .fresh name, none⟩]⟩

/-- The full name of an item: behind the stem of its group, without leading separators. -/
def qualified (d : Import) (item : ImportItem) : Text :=
  match d.stem with
  | some stem => stem.normalized ++ '\\' :: item.name.normalized
  | none => item.name.normalized

/-- The statement imports classes, as far as its own kind tells. -/
def importsClasses (d : Import) : Bool := d.kind == .normal

end Import

/-! ### Statements -/

/-- A statement outside of any class. -/
inductive Stmt where
  | imports (decl : Import)
  | classLike (decl : ClassLike)
  | ret (stmt : ReturnStmt)
  | declare (text : Verbatim)
  | other (text : Verbatim)
deriving BEq

namespace Stmt

def origin : Stmt → Option NodeId
  | .imports s => s.origin
  | .classLike s => s.origin
  | .ret s => s.origin
  | .declare s => s.origin
  | .other s => s.origin

def span : Stmt → Span
  | .imports s => s.span
  | .classLike s => s.span
  | .ret s => s.span
  | .declare s => s.span
  | .other s => s.span

instance : Placed Stmt := ⟨origin, span⟩

def classLike? : Stmt → Option ClassLike
  | .classLike c => some c
  | _ => none

def return? : Stmt → Option ReturnStmt
  | .ret r => some r
  | _ => none

end Stmt

/-- A namespace: a declaration followed by its statements, or a name with statements in braces. -/
structure Namespace where
  origin : Option NodeId
  span : Span
  name : Option Name
  braced : Bool
  /-- The text of the statements. -/
  body : Span
  stmts : List Stmt
deriving BEq

/-- A statement of a file. -/
inductive TopStmt where
  | inside (ns : Namespace)
  | plain (stmt : Stmt)
deriving BEq

namespace TopStmt

def origin : TopStmt → Option NodeId
  | .inside n => n.origin
  | .plain s => s.origin

def span : TopStmt → Span
  | .inside n => n.span
  | .plain s => s.span

instance : Placed TopStmt := ⟨origin, span⟩

def namespace? : TopStmt → Option Namespace
  | .inside n => some n
  | .plain _ => none

def plain? : TopStmt → Option Stmt
  | .inside _ => none
  | .plain s => some s

/-- The namespace with its statements changed. -/
def updateInside? (g : List Stmt → List Stmt) : TopStmt → Option TopStmt
  | .inside n => some (.inside { n with stmts := g n.stmts })
  | .plain _ => none

/-- The statements, one level down in a namespace. -/
def flat : TopStmt → List Stmt
  | .inside n => n.stmts
  | .plain s => [s]

end TopStmt

/-! ### Files -/

structure File where
  origin : Option NodeId
  span : Span
  /-- The text of the statements: from the opening tag to the end. -/
  body : Span
  stmts : List TopStmt
deriving BEq

namespace File

/-- The statements of the declaration unit. -/
def unit (f : File) : List Stmt :=
  match f.stmts.findSome? TopStmt.namespace? with
  | some ns => ns.stmts
  | none => f.stmts.filterMap TopStmt.plain?

/-- The file with the statements of its declaration unit changed. -/
def updateUnit (g : List Stmt → List Stmt) (f : File) : File :=
  { f with
    stmts := (updateFirst? (TopStmt.updateInside? g) f.stmts).getD ((g (f.stmts.filterMap TopStmt.plain?)).map .plain) }

/-- The classes that the unit declares. -/
def declarations (f : File) : List ClassLike := f.unit.filterMap Stmt.classLike?

/-- The unit declares a class of one of the kinds. -/
def declaresAny (f : File) (kinds : List ClassKind) : Bool := f.declarations.any (kinds.contains ·.kind)

/-- The array literal that the first return of the unit which returns one returns. -/
def returnedArray? (f : File) : Option (ArrayLit Expr) :=
  f.unit.findSome? fun s => s.return?.bind ReturnStmt.array?

theorem findSome?_namespace?_cons_plain (s : Stmt) (l : List TopStmt) :
    (TopStmt.plain s :: l).findSome? TopStmt.namespace? = l.findSome? TopStmt.namespace? := rfl

theorem updateFirst?_updateInside?_cons_plain (g : List Stmt → List Stmt) (s : Stmt) (l : List TopStmt) :
    updateFirst? (TopStmt.updateInside? g) (.plain s :: l) =
      (updateFirst? (TopStmt.updateInside? g) l).map (.plain s :: ·) := rfl

/-- The first namespace is the one that is updated. -/
theorem namespace?_updateFirst {g : List Stmt → List Stmt} {stmts : List TopStmt} {ns : Namespace}
    (h : stmts.findSome? TopStmt.namespace? = some ns) :
    ∃ l, updateFirst? (TopStmt.updateInside? g) stmts = some l ∧
      l.findSome? TopStmt.namespace? = some { ns with stmts := g ns.stmts } := by
  induction stmts with
  | nil => simp at h
  | cons s stmts ih =>
    cases s with
    | inside n =>
      have hn : some n = some ns := h
      cases hn
      exact ⟨_, rfl, rfl⟩
    | plain s =>
      obtain ⟨l, hl, hl'⟩ := ih h
      exact ⟨.plain s :: l, by rw [updateFirst?_updateInside?_cons_plain, hl]; rfl, hl'⟩

theorem updateFirst?_updateInside?_eq_none {g : List Stmt → List Stmt} {stmts : List TopStmt}
    (h : stmts.findSome? TopStmt.namespace? = none) : updateFirst? (TopStmt.updateInside? g) stmts = none := by
  induction stmts with
  | nil => rfl
  | cons s stmts ih =>
    cases s with
    | inside n => cases (show some n = none from h)
    | plain s => rw [updateFirst?_updateInside?_cons_plain, ih h]; rfl

/-- An update of the unit is what the unit then is. -/
theorem unit_updateUnit (g : List Stmt → List Stmt) (f : File) : (f.updateUnit g).unit = g f.unit := by
  unfold unit updateUnit
  cases h : f.stmts.findSome? TopStmt.namespace? with
  | some ns =>
    obtain ⟨l, hl, hl'⟩ := namespace?_updateFirst (g := g) h
    simp only [hl, Option.getD_some, hl']
  | none =>
    simp only [updateFirst?_updateInside?_eq_none h, Option.getD_none]
    generalize g (f.stmts.filterMap TopStmt.plain?) = l
    have h₁ : (l.map TopStmt.plain).findSome? TopStmt.namespace? = none := by
      induction l with
      | nil => rfl
      | cons s l ih => exact ih
    have h₂ : (l.map TopStmt.plain).filterMap TopStmt.plain? = l := by
      simp [List.filterMap_map, Function.comp_def, TopStmt.plain?]
    simp only [h₁, h₂]

end File

end Graft

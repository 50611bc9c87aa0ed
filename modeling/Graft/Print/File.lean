/-
Printing a changed tree over the text that it was read from.

What equals its reference is copied, so that text outside of the changed parts comes out byte for byte as it went in.

Main statements: `File.print`, `print_self` (an unchanged file prints as its text).
-/
import Graft.Print.Fresh

namespace Graft

namespace Page

/-! ### Expressions -/

mutual

/-- An expression printed against its reference. -/
def expr (p : Page) : Expr → Expr → Text
  | .array a, r =>
    if Expr.array a == r then p.copy r
    else if a.origin.isNone || a.origin != r.origin then p.freshExpr (.array a)
    else match r with
      | .array b => array p a b
      | _ => p.literal (.array a)
  | w, r =>
    if w == r then p.copy r
    else if w.origin.isNone || w.origin != r.origin then p.freshExpr w
    else p.literal w
termination_by structural w => w

/-- An array printed against its reference. -/
def array (p : Page) : ArrayLit Expr → ArrayLit Expr → Text
  | ⟨_, _, _, _, items⟩, r =>
    p.patch r [⟨r.itemsRegion, p.commaRegion r.itemsRegion r.items (arrayItems p items r.items)⟩]
termination_by structural w => w

/-- The entries of an array printed against those of its reference. -/
def arrayItems (p : Page) : List (ArrayItem Expr) → List (ArrayItem Expr) → List CommaEntry
  | [], _ => []
  | i :: is, reference => p.commaEntry (arrayItem p i) (p.freshItem i) reference i :: arrayItems p is reference
termination_by structural w => w

/-- An entry printed against its reference: only a changed value is written over it. -/
def arrayItem (p : Page) : ArrayItem Expr → ArrayItem Expr → Text
  | ⟨origin, span, key, value, byRef, unpack⟩, r =>
    if key == r.key && byRef == r.byRef && unpack == r.unpack then
      p.patch r [⟨r.value.span, expr p value r.value⟩]
    else p.freshItem ⟨origin, span, key, value, byRef, unpack⟩
termination_by structural w => w

end

/-! ### Statements of bodies -/

/-- A return statement printed against its reference. -/
def returnStmt (p : Page) (w r : ReturnStmt) : Text :=
  match w.expr, r.expr with
  | some value, some before => p.patch r [⟨before.span, p.expr value before⟩]
  | _, _ => p.freshReturn w

def bodyStyle (p : Page) : LineStyle BodyStmt where
  slot _ := .group 0
  changed
    | .ret w, .ret r => p.returnStmt w r
    | w, _ => p.copy w
  inserted _
    | .ret w => if w.origin.isNone then p.freshReturn w else p.copy w
    | w => p.copy w

/-! ### Members -/

/-- A property printed against its reference: a default that was added, changed or removed. -/
def propertyItem (p : Page) (w r : PropertyItem) : Text :=
  splice p.arena.text r.span <|
    match w.default, r.default with
    | some value, some before => [⟨before.span, p.expr value before⟩]
    | some value, none => [⟨.point r.span.stop, " = ".toList ++ p.freshExpr value⟩]
    | none, some before => [⟨⟨r.name.span.stop, before.span.stop⟩, []⟩]
    | none, none => []

/-- A declaration printed against its reference: only items with a counterpart are written. -/
def property (p : Page) (w r : Property) : Text :=
  splice p.arena.text r.span <| w.items.filterMap fun item =>
    (r.items.find? (·.origin == item.origin)).bind fun before =>
      if item == before then none else some ⟨before.span, p.propertyItem item before⟩

def method (p : Page) (w r : Method) : Text :=
  splice p.arena.text r.span <|
    match w.body, r.body with
    | some body, some before =>
      if body == before then []
      else
        let outer := lineIndent p.arena.text r.span.start
        [⟨before.body, p.lineList p.bodyStyle before.body outer (deeper outer) body.stmts before.stmts⟩]
    | _, _ => []

def traitUse (p : Page) (w r : TraitUse) : Text :=
  splice p.arena.text r.span [⟨r.namesRegion, p.commaList Name.text r.namesRegion w.names r.names⟩]

/-- A member printed against another one of its kind. -/
def member (p : Page) (w r : Member) : Text :=
  match w, r with
  | .traitUse w, .traitUse r => p.traitUse w r
  | .property w, .property r => p.property w r
  | .method w, .method r => p.method w r
  | w, _ => p.freshMember w

/-- A member without a counterpart.  One from a snippet is copied from there, with its changes, and moved to the
indentation of the class. -/
def insertedMember (p : Page) (indent : Text) (m : Member) : Text :=
  match m.origin with
  | none => p.freshMember m
  | some id =>
    let text := match p.arena.fragment? id with
      | some fragment => if fragment == m then p.copy m else p.member m fragment
      | none => p.copy m
    reindent (p.indentOf m) indent p.newline text

def memberStyle (p : Page) : LineStyle Member where
  slot
    | .traitUse _ => .group 0
    | .property _ => .group 1
    | .method _ => .block
    | .other _ => .group 2
  changed := p.member
  inserted := p.insertedMember

/-! ### Classes -/

/-- The patch of the clause of implemented interfaces. -/
def interfacesPatch (p : Page) (w r : ClassLike) : List Patch :=
  match r.interfacesClause with
  | some clause =>
    if w.interfaces.isEmpty then [⟨clause, []⟩]
    else if w.interfaces = r.interfaces then []
    else [⟨r.interfacesRegion, p.commaList Name.text r.interfacesRegion w.interfaces r.interfaces⟩]
  | none =>
    if w.interfaces.isEmpty then []
    else [⟨.point r.interfacesAnchor,
      " implements ".toList ++ Text.join [',', ' '] (w.interfaces.map Name.text)⟩]

/-- The patch of the members. -/
def membersPatch (p : Page) (w r : ClassLike) : List Patch :=
  if w.members == r.members then []
  else
    let outer := lineIndent p.arena.text r.span.start
    [⟨r.body, p.lineList p.memberStyle r.body outer (deeper outer) w.members r.members⟩]

def classLike (p : Page) (w r : ClassLike) : Text :=
  splice p.arena.text r.span (p.interfacesPatch w r ++ p.membersPatch w r)

/-! ### Statements -/

/-- An import printed against its reference: in its place if only items changed. -/
def importDecl (p : Page) (w r : Import) : Text :=
  if w.kind = r.kind ∧ w.stem = r.stem then
    splice p.arena.text r.span [⟨r.itemsRegion, p.commaList ImportItem.toText r.itemsRegion w.items r.items⟩]
  else w.toText

/-- A statement printed against another one of its kind. -/
def stmt (p : Page) (w r : Stmt) : Text :=
  match w, r with
  | .imports w, .imports r => p.importDecl w r
  | .classLike w, .classLike r => p.classLike w r
  | .ret w, .ret r => p.returnStmt w r
  | w, _ => p.freshStmt w

def stmtSlot : Stmt → Slot
  | .classLike _ => .block
  | .imports _ => .group 0
  | .declare _ => .group 1
  | .ret _ => .group 2
  | .other _ => .group 3

def stmtStyle (p : Page) : LineStyle Stmt where
  slot := stmtSlot
  changed := p.stmt
  inserted _ := p.freshStmt

/-! ### Files -/

def namespaceDecl (p : Page) (w r : Namespace) : Text :=
  let outer := if r.braced then lineIndent p.arena.text r.span.start else []
  let inner := if r.braced then deeper outer else []
  splice p.arena.text r.span [⟨r.body, p.lineList p.stmtStyle r.body outer inner w.stmts r.stmts⟩]

/-- A statement of a file without a counterpart. -/
def freshTopStmt (p : Page) : TopStmt → Text
  | .inside n => if n.origin.isSome then p.arena.slice n.span else []
  | .plain s => p.freshStmt s

def topStyle (p : Page) : LineStyle TopStmt where
  slot
    | .inside _ => .block
    | .plain s => stmtSlot s
  changed
    | .inside w, .inside r => p.namespaceDecl w r
    | .plain w, .plain r => p.stmt w r
    | w, _ => p.freshTopStmt w
  inserted _ := p.freshTopStmt

end Page

/-- The changed tree `w` printed over the text of the tree `r` that it was copied from. -/
def File.print (w r : File) (a : Arena) : Text :=
  let p : Page := ⟨a, .ofText (a.slice r.span)⟩
  if w == r then a.slice r.span
  else splice a.text r.span [⟨r.body, p.lineList p.topStyle r.body [] [] w.stmts r.stmts⟩]

/-- An unchanged file prints as its text. -/
theorem print_self (w r : File) (a : Arena) (h : (w == r) = true) : w.print r a = a.slice r.span := by
  simp [File.print, h]

end Graft

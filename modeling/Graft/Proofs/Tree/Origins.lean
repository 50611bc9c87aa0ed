/-
The origins and the sites of a tree.

`origins` lists the origins of a node and of all nodes below it.  The site of a node is what a reader sees of it from
outside: its span, its lists with the regions where their elements stand, and the spans of its other parts.  `sites`
lists the site of a node and those of all nodes below it; a node without parts has none.

* `ArrayItem.originsAll_eq` — the origins of entries are those of each of them;
* `Site` — a span, lists in regions, and further parts;
* `File.sites` — the sites of all nodes of a file.
-/
import Graft.Tree.File

namespace Graft

/-! ### Expressions -/

mutual

/-- The origins of an expression. -/
def Expr.origins : Expr → List (Option NodeId)
  | .array a => ArrayLit.origins a
  | .string e => [e.origin]
  | .int e => [e.origin]
  | .float e => [e.origin]
  | .const e => [e.origin]
  | .other e => [e.origin]
termination_by structural e => e

/-- The origins of an array. -/
def ArrayLit.origins : ArrayLit Expr → List (Option NodeId)
  | ⟨origin, _, _, _, items⟩ => ArrayItem.originsAll items ++ [origin]
termination_by structural e => e

/-- The origins of entries. -/
def ArrayItem.originsAll : List (ArrayItem Expr) → List (Option NodeId)
  | [] => []
  | i :: is => ArrayItem.origins i ++ ArrayItem.originsAll is
termination_by structural e => e

/-- The origins of an entry. -/
def ArrayItem.origins : ArrayItem Expr → List (Option NodeId)
  | ⟨origin, _, key, value, _, _⟩ => [origin] ++ Expr.originsOption key ++ Expr.origins value
termination_by structural e => e

/-- The origins of an expression that may be absent. -/
def Expr.originsOption : Option Expr → List (Option NodeId)
  | none => []
  | some e => Expr.origins e
termination_by structural e => e

end

theorem ArrayItem.originsAll_eq (is : List (ArrayItem Expr)) : ArrayItem.originsAll is = is.flatMap ArrayItem.origins := by
  induction is with
  | nil => rfl
  | cons i is ih => rw [List.flatMap_cons, ← ih]; rfl

/-! ### Members -/

def Name.origins (n : Name) : List (Option NodeId) := [n.origin]

def Verbatim.origins (v : Verbatim) : List (Option NodeId) := [v.origin]

def ReturnStmt.origins (r : ReturnStmt) : List (Option NodeId) := [r.origin] ++ Expr.originsOption r.expr

def BodyStmt.origins : BodyStmt → List (Option NodeId)
  | .ret r => r.origins
  | .other v => v.origins

def Block.origins (b : Block) : List (Option NodeId) := [b.origin] ++ b.stmts.flatMap BodyStmt.origins

def TraitUse.origins (c : TraitUse) : List (Option NodeId) := [c.origin] ++ c.names.flatMap Name.origins

def PropertyItem.origins (i : PropertyItem) : List (Option NodeId) := [i.origin] ++ Expr.originsOption i.default

def Property.origins (p : Property) : List (Option NodeId) := [p.origin] ++ p.items.flatMap PropertyItem.origins

def Method.origins (m : Method) : List (Option NodeId) := [m.origin] ++ (m.body.map Block.origins).getD []

def Member.origins : Member → List (Option NodeId)
  | .traitUse c => c.origins
  | .property p => p.origins
  | .method m => m.origins
  | .other v => v.origins

/-! ### Statements and files -/

def ClassLike.origins (c : ClassLike) : List (Option NodeId) :=
  [c.origin] ++ c.parents.flatMap Name.origins ++ c.interfaces.flatMap Name.origins ++ c.members.flatMap Member.origins

def ImportItem.origins (i : ImportItem) : List (Option NodeId) := i.name.origins ++ [i.origin]

def Import.origins (d : Import) : List (Option NodeId) :=
  [d.origin] ++ (d.stem.map Name.origins).getD [] ++ d.items.flatMap ImportItem.origins

def Stmt.origins : Stmt → List (Option NodeId)
  | .imports d => d.origins
  | .classLike c => c.origins
  | .ret r => r.origins
  | .declare v => v.origins
  | .other v => v.origins

def Namespace.origins (n : Namespace) : List (Option NodeId) :=
  [n.origin] ++ (n.name.map Name.origins).getD [] ++ n.stmts.flatMap Stmt.origins

def TopStmt.origins : TopStmt → List (Option NodeId)
  | .inside n => n.origins
  | .plain s => s.origins

def File.origins (f : File) : List (Option NodeId) := [f.origin] ++ f.stmts.flatMap TopStmt.origins

/-! ### Sites -/

/-- A list in the text: its region and the spans of its elements. -/
structure Listing where
  region : Span
  elements : List Span

/-- The list of nodes in a region. -/
def Listing.of {α : Type} [Placed α] (region : Span) (as : List α) : Listing := ⟨region, as.map span⟩

structure Site where
  span : Span
  /-- Lists whose elements follow each other directly. -/
  lines : List Listing := []
  /-- Lists whose elements are separated by commas. -/
  commas : List Listing := []
  /-- Parts that stand in none of the lists. -/
  parts : List Span := []

/-- The spans of all parts. -/
def Site.children (s : Site) : List Span := s.parts ++ (s.lines ++ s.commas).flatMap Listing.elements

/-! ### Expressions -/

mutual

/-- The sites of an expression. -/
def Expr.sites : Expr → List Site
  | .array a => ArrayLit.sites a
  | .string _ | .int _ | .float _ | .const _ | .other _ => []
termination_by structural e => e

/-- The sites of an array. -/
def ArrayLit.sites : ArrayLit Expr → List Site
  | ⟨_, span, _, region, items⟩ => { span, commas := [.of region items] } :: ArrayItem.sitesAll items
termination_by structural e => e

/-- The sites of entries. -/
def ArrayItem.sitesAll : List (ArrayItem Expr) → List Site
  | [] => []
  | i :: is => ArrayItem.sites i ++ ArrayItem.sitesAll is
termination_by structural e => e

/-- The sites of an entry. -/
def ArrayItem.sites : ArrayItem Expr → List Site
  | ⟨_, span, key, value, _, _⟩ =>
    { span, parts := key.toList.map Expr.span ++ [value.span] } :: Expr.sitesOption key ++ Expr.sites value
termination_by structural e => e

/-- The sites of an expression that may be absent. -/
def Expr.sitesOption : Option Expr → List Site
  | none => []
  | some e => Expr.sites e
termination_by structural e => e

end

theorem Expr.mem_sitesOption {s : Site} {o : Option Expr} :
    s ∈ Expr.sitesOption o ↔ ∃ e, o = some e ∧ s ∈ e.sites := by
  cases o <;> simp [Expr.sitesOption]

/-! ### Members -/

def ReturnStmt.sites (r : ReturnStmt) : List Site :=
  { span := r.span, parts := r.expr.toList.map Expr.span } :: Expr.sitesOption r.expr

def BodyStmt.sites : BodyStmt → List Site
  | .ret r => r.sites
  | .other _ => []

def Block.sites (b : Block) : List Site :=
  { span := b.span, lines := [.of b.body b.stmts] } :: b.stmts.flatMap BodyStmt.sites

def TraitUse.site (c : TraitUse) : Site :=
  { span := c.span, commas := [.of c.namesRegion c.names], parts := c.adaptations.toList }

def PropertyItem.sites (i : PropertyItem) : List Site :=
  { span := i.span, parts := i.name.span :: i.default.toList.map Expr.span } :: Expr.sitesOption i.default

def Property.sites (p : Property) : List Site :=
  { span := p.span, parts := p.items.map PropertyItem.span } :: p.items.flatMap PropertyItem.sites

def Method.sites (m : Method) : List Site :=
  { span := m.span, parts := m.name.span :: m.body.toList.map Block.span } ::
    m.body.toList.flatMap Block.sites

def Member.sites : Member → List Site
  | .traitUse c => [c.site]
  | .property p => p.sites
  | .method m => m.sites
  | .other _ => []

/-! ### Statements and files -/

/-- The list of the implemented interfaces, where the class has a clause of them. -/
def ClassLike.implemented (c : ClassLike) : List Listing :=
  c.interfacesClause.toList.map fun _ => .of c.interfacesRegion c.interfaces

def ClassLike.sites (c : ClassLike) : List Site :=
  { span := c.span, lines := [.of c.body c.members], commas := c.implemented,
    parts := c.name.span :: c.body :: c.interfacesClause.toList ++
      (c.parents.map Name.span ++ c.interfaces.map Name.span) } ::
    c.members.flatMap Member.sites

def ImportItem.site (i : ImportItem) : Site :=
  { span := i.span, parts := i.name.span :: i.localName.toList.map Ident.span }

def Import.sites (d : Import) : List Site :=
  { span := d.span, commas := [.of d.itemsRegion d.items], parts := d.stem.toList.map Name.span } ::
    d.items.map ImportItem.site

def Stmt.sites : Stmt → List Site
  | .imports d => d.sites
  | .classLike c => c.sites
  | .ret r => r.sites
  | .declare _ | .other _ => []

def Namespace.sites (n : Namespace) : List Site :=
  { span := n.span, lines := [.of n.body n.stmts], parts := n.name.toList.map Name.span } :: n.stmts.flatMap Stmt.sites

def TopStmt.sites : TopStmt → List Site
  | .inside n => n.sites
  | .plain s => s.sites

/-- The sites of all nodes of a file. -/
def File.sites (f : File) : List Site :=
  { span := f.span, lines := [.of f.body f.stmts] } :: f.stmts.flatMap TopStmt.sites

end Graft

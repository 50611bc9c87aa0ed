/-
Walking a tree.

A walk enters the nodes of a file in source order, each parent before its children, and makes one event of each node
that it enters: the hook of the node's kind with its span.  A walk may stop at chosen hooks, whose nodes are entered
but whose children are not.

Main statements: `File.events`, `events_eq_cons` (a walk starts at the file itself).
-/
import Graft.Tree.File

/-! ### Hooks -/

namespace Graft

/-- The kinds of nodes that a walk enters. -/
inductive Hook where
  | file
  | stmt
  | ns
  | imports
  | classLike
  | member
  | property
  | method
  | ret
  | expr
  | array
  | item
deriving DecidableEq, Repr

namespace Hook

def all : List Hook :=
  [.file, .stmt, .ns, .imports, .classLike, .member, .property, .method, .ret, .expr, .array, .item]

def name : Hook → String
  | file => "file"
  | stmt => "stmt"
  | ns => "namespace"
  | imports => "use"
  | classLike => "class_like"
  | member => "member"
  | property => "property"
  | method => "method"
  | ret => "return"
  | expr => "expr"
  | array => "array"
  | item => "array_item"

/-- The hook that a listing calls `s`. -/
def ofName? (s : String) : Option Hook := all.find? (·.name == s)

end Hook

/-- A node that a walk has entered. -/
abbrev Event := Hook × Span

/-- The event of a node, followed by those of its children unless the walk stops at it. -/
def enter (stop : Hook → Bool) (hook : Hook) (span : Span) (inner : List Event) : List Event :=
  (hook, span) :: if stop hook then [] else inner

/-! ### Expressions -/

mutual

/-- The events of an expression. -/
def Expr.events (stop : Hook → Bool) : Expr → List Event
  | .array a => enter stop .expr a.span (ArrayLit.events stop a)
  | .string e => enter stop .expr e.span []
  | .int e => enter stop .expr e.span []
  | .float e => enter stop .expr e.span []
  | .const e => enter stop .expr e.span []
  | .other e => enter stop .expr e.span []
termination_by structural e => e

/-- The events of an array. -/
def ArrayLit.events (stop : Hook → Bool) : ArrayLit Expr → List Event
  | ⟨_, span, _, _, items⟩ => enter stop .array span (ArrayItem.eventsAll stop items)
termination_by structural e => e

/-- The events of a list of entries. -/
def ArrayItem.eventsAll (stop : Hook → Bool) : List (ArrayItem Expr) → List Event
  | [] => []
  | i :: is => ArrayItem.events stop i ++ ArrayItem.eventsAll stop is
termination_by structural e => e

/-- The events of an entry: its key comes before its value. -/
def ArrayItem.events (stop : Hook → Bool) : ArrayItem Expr → List Event
  | ⟨_, span, key, value, _, _⟩ =>
    enter stop .item span (Expr.eventsOption stop key ++ Expr.events stop value)
termination_by structural e => e

/-- The events of an optional expression. -/
def Expr.eventsOption (stop : Hook → Bool) : Option Expr → List Event
  | none => []
  | some e => Expr.events stop e
termination_by structural e => e

end

/-! ### Classes -/

def ReturnStmt.events (stop : Hook → Bool) (r : ReturnStmt) : List Event :=
  enter stop .ret r.span (Expr.eventsOption stop r.expr)

def BodyStmt.events (stop : Hook → Bool) : BodyStmt → List Event
  | .ret r => r.events stop
  | .other _ => []

def Method.events (stop : Hook → Bool) (m : Method) : List Event :=
  enter stop .method m.span ((m.body.map (·.stmts)).getD [] |>.flatMap (BodyStmt.events stop))

def Property.events (stop : Hook → Bool) (p : Property) : List Event :=
  enter stop .property p.span (p.items.flatMap fun i => Expr.eventsOption stop i.default)

def Member.events (stop : Hook → Bool) (m : Member) : List Event :=
  enter stop .member m.span <| match m with
    | .property p => p.events stop
    | .method f => f.events stop
    | .traitUse _ | .other _ => []

def ClassLike.events (stop : Hook → Bool) (c : ClassLike) : List Event :=
  enter stop .classLike c.span (c.members.flatMap (Member.events stop))

/-! ### Files -/

def Stmt.events (stop : Hook → Bool) (s : Stmt) : List Event :=
  enter stop .stmt s.span <| match s with
    | .imports d => enter stop .imports d.span []
    | .classLike c => c.events stop
    | .ret r => r.events stop
    | .declare _ | .other _ => []

def Namespace.events (stop : Hook → Bool) (n : Namespace) : List Event :=
  enter stop .ns n.span (n.stmts.flatMap (Stmt.events stop))

def TopStmt.events (stop : Hook → Bool) : TopStmt → List Event
  | .inside n => enter stop .stmt n.span (n.events stop)
  | .plain s => s.events stop

/-- The events of a walk through a file. -/
def File.events (stop : Hook → Bool) (f : File) : List Event :=
  enter stop .file f.span (f.stmts.flatMap (TopStmt.events stop))

theorem File.events_eq_cons (stop : Hook → Bool) (f : File) :
    ∃ es, f.events stop = (.file, f.span) :: es := ⟨_, rfl⟩

end Graft

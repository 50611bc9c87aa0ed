/-
Nodes written from their values: one statement to a line, strings in single quotes, arrays in brackets.

Inside of such a node, parts that were read from text are copied.

Main statements: `Page.freshExpr`, `Page.freshItem`, `Import.toText`.
-/
import Graft.Literal.Quoted
import Graft.Literal.Number
import Graft.Tree.File
import Graft.Print.Page

namespace Graft

/-! ### Imports and traits -/

namespace ImportKind

/-- The word before the name. -/
def keyword : ImportKind → Text
  | normal => []
  | function => "function ".toList
  | const => "const ".toList

end ImportKind

def ImportItem.toText (i : ImportItem) : Text :=
  ((i.kind.map ImportKind.keyword).getD []) ++ i.name.text ++
    ((i.localName.map fun n => " as ".toList ++ n.text).getD [])

def Import.toText (d : Import) : Text :=
  let items := Text.join [',', ' '] (d.items.map ImportItem.toText)
  "use ".toList ++ d.kind.keyword ++
    (match d.stem with
      | some stem => stem.text ++ "\\\x7b".toList ++ items ++ "\x7d".toList
      | none => items) ++ [';']

def TraitUse.toText (c : TraitUse) : Text :=
  "use ".toList ++ Text.join [',', ' '] (c.names.map Name.text) ++ [';']

namespace Page

/-! ### Expressions -/

mutual

/-- An expression written from its value. -/
def literal (p : Page) : Expr → Text
  | .array a => freshArray p a
  | .string e => Literal.quote e.value
  | .int e => Text.ofInt e.value
  | .float e => Literal.sourceFloats.write e.value
  | .const e => e.text
  | .other e => p.arena.slice e.span
termination_by structural e => e

/-- An array written from its entries. -/
def freshArray (p : Page) : ArrayLit Expr → Text
  | ⟨_, _, short, _, items⟩ =>
    let inner := Text.join [',', ' '] (freshItems p items)
    if short then ['['] ++ inner ++ [']'] else "array(".toList ++ inner ++ [')']
termination_by structural e => e

/-- The texts of entries. -/
def freshItems (p : Page) : List (ArrayItem Expr) → List Text
  | [] => []
  | i :: is => freshItem p i :: freshItems p is
termination_by structural e => e

/-- An entry written from its parts. -/
def freshItem (p : Page) : ArrayItem Expr → Text
  | ⟨_, _, key, value, byRef, unpack⟩ =>
    freshKey p key ++ (if unpack then "...".toList else []) ++ (if byRef then ['&'] else []) ++
      (if value.origin.isSome then p.copy value else literal p value)
termination_by structural e => e

/-- The key of an entry with its arrow. -/
def freshKey (p : Page) : Option Expr → Text
  | none => []
  | some e => (if e.origin.isSome then p.copy e else literal p e) ++ " => ".toList
termination_by structural e => e

end

/-- An expression without a counterpart: copied when it was read from text. -/
def freshExpr (p : Page) (e : Expr) : Text := if e.origin.isSome then p.copy e else p.literal e

/-! ### Statements and members -/

def freshReturn (p : Page) (r : ReturnStmt) : Text :=
  match r.expr with
  | some e => "return ".toList ++ p.freshExpr e ++ [';']
  | none => "return;".toList

/-- A statement without a counterpart: copied when it was read from text.  Only imports and returns are ever
built. -/
def freshStmt (p : Page) (s : Stmt) : Text :=
  if s.origin.isSome then p.copy s
  else match s with
    | .imports d => d.toText
    | .ret r => p.freshReturn r
    | .classLike _ | .declare _ | .other _ => []

/-- A member without a counterpart: copied when it was read from text.  Only trait clauses are ever built. -/
def freshMember (p : Page) (m : Member) : Text :=
  if m.origin.isSome then p.copy m
  else match m with
    | .traitUse c => c.toText
    | .property _ | .method _ | .other _ => []

end Page

end Graft

/-
The outline of a file: one indented line for each structured node.

Main statements: `File.outlineLines`, `File.outline`.
-/
import Graft.Print.Output
import Graft.Text.Visible
import Graft.Tree.File
import Graft.Number.Decimal

namespace Graft

/-! ### Descriptions -/

/-- Floats in outlines: always positional, whole numbers without a point. -/
def outlineFloats : FloatStyle :=
  { positional := fun _ => true
    keepsPoint := false
    plus := false
    tie := .up
    nan := "NaN".toList
    infinity := "inf".toList }

/-- An expression in a few words. -/
def Expr.describe : Expr → Text
  | .array a => "array of ".toList ++ Text.ofNat a.items.length
  | .string e => Text.quoteVisible e.value
  | .int e => Text.ofInt e.value
  | .float e => outlineFloats.write e.value
  | .const e => e.text
  | .other _ => "expression".toList

def PropertyItem.describe (i : PropertyItem) : Text :=
  '$' :: i.name.text ++ ((i.default.map fun e => " = ".toList ++ e.describe).getD [])

/-- Names with commas between them. -/
def listNames (names : List Text) : Text := Text.join [',', ' '] names

/-! ### Lines -/

/-- A line with its depth. -/
abbrev OutlineLine := Nat × Text

def Member.outlineLine (depth : Nat) : Member → OutlineLine
  | .traitUse c => (depth, "use ".toList ++ listNames (c.names.map Name.text))
  | .property p => (depth, "property ".toList ++ listNames (p.items.map PropertyItem.describe))
  | .method m => (depth, "method ".toList ++ m.name.text)
  | .other _ => (depth, "member".toList)

def ClassLike.outlineLines (depth : Nat) (c : ClassLike) : List OutlineLine :=
  let clause := if c.interfaces.isEmpty then [] else " implements ".toList ++ listNames (c.interfaces.map Name.text)
  (depth, c.kind.keyword.toList ++ ' ' :: c.name.text ++ clause) :: c.members.map (Member.outlineLine (depth + 1))

def Stmt.outlineLines (depth : Nat) : Stmt → List OutlineLine
  | .imports d => [(depth, "use ".toList ++ listNames (d.items.map d.qualified))]
  | .classLike c => c.outlineLines depth
  | .ret r => [(depth, "return ".toList ++ (r.expr.map Expr.describe).getD "(nothing)".toList)]
  | .declare _ => [(depth, "declare".toList)]
  | .other _ => [(depth, "statement".toList)]

def TopStmt.outlineLines (depth : Nat) : TopStmt → List OutlineLine
  | .inside n =>
    (depth, "namespace ".toList ++ (n.name.map Name.text).getD "(global)".toList) ::
      n.stmts.flatMap (Stmt.outlineLines (depth + 1))
  | .plain s => s.outlineLines depth

/-! ### Outlines -/

namespace File

def outlineLines (f : File) : List OutlineLine := f.stmts.flatMap (TopStmt.outlineLines 1)

/-- The outline, each line behind two blanks for each step of its depth. -/
def outline (f : File) : Text :=
  (f.outlineLines.foldl (fun out (depth, line) => ((out.emit (List.replicate (2 * depth) ' ')).emit line).breakLine)
    (Output.empty .lf)).text

end File

end Graft

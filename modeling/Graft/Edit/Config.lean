/-
Setting values in the array that a configuration file returns.

A path is a list of keys.  Arrays that are missing on the way are created, and values in the way that are no arrays
are replaced by new ones.

Main statements: `ArrayLit.setEntry`, `ArrayLit.setPath`, `pathOf`.
-/
import Graft.Edit.Scalar
import Graft.Tree.Change

namespace Graft

/-! ### Paths -/

/-- The keys of a dotted path; the empty path has none. -/
def pathOf (dotted : Text) : List Text := if dotted.isEmpty then [] else Text.splitOn '.' dotted

namespace ArrayLit

/-- The array with the value of the first entry of a key changed, or with a new entry behind the others. -/
def setEntry (key : Text) (f : Option Expr → Expr) (a : ArrayLit Expr) : ArrayLit Expr :=
  let change (i : ArrayItem Expr) : Option (ArrayItem Expr) :=
    if i.hasKey key then some { i with value := f (some i.value) } else none
  { a with
    items := (updateFirst? change a.items).getD (a.items ++ [.fresh (some (.freshString key)) (f none)]) }

/-- The value to write over another: one that is already held stays as it is. -/
def overwrite (value : Scalar) : Option Expr → Expr
  | some e => if value.isHeldBy e then e else value.toExpr
  | none => value.toExpr

/-- The array with a value set at a path. -/
def setPath : List Text → Scalar → ArrayLit Expr → ArrayLit Expr
  | [], _, a => a
  | [key], value, a => a.setEntry key (overwrite value)
  | key :: rest, value, a => a.setEntry key fun e => .array (setPath rest value ((e.bind Expr.array?).getD (fresh [])))

end ArrayLit

/-- A file with a value set in the array that its unit returns. -/
def setConfig (dotted : Text) (value : Scalar) (f : File) : File :=
  f.onReturnedArray (ArrayLit.setPath (pathOf dotted) value)

end Graft
